import IslandScript.Syntax.Tree

/-!
# Matching arguments to parameters

A call gives each parameter one entry, in this order:

1. More arguments than parameters need a variadic parameter at the end.
2. An argument with a name goes to the first parameter of that name; a later one replaces it.
3. The other parameters, variadic ones apart, take the arguments without a name in order, and
   their defaults when those run out.
4. The arguments that are left are collected for the variadic parameter at the end.
5. What is still empty takes its default, and without one the call does not match.
-/

namespace IslandScript

/-- What a parameter receives: one expression, or the collected rest of the arguments, each
marked to be spread or not. -/
inductive Resolved (ε : Type) where
  | single (expr : ε)
  | rest (items : List (Bool × ε))
  deriving DecidableEq, Repr

namespace Arguments

variable {ν ε : Type} [DecidableEq ν]

/-- Whether the last parameter takes the rest of the arguments. -/
def takesRest (params : List (Param ν ε)) : Bool :=
  params.getLast?.any (·.variadic)

/-- Puts the arguments with names into their slots. -/
def placeNamed (params : List (Param ν ε)) :
    List (Option (Resolved ε)) → List (Arg ν ε) → Option (List (Option (Resolved ε)))
  | slots, [] => some slots
  | slots, arg :: args =>
    match arg.name with
    | none => placeNamed params slots args
    | some n =>
      match params.findIdx? (·.name == n) with
      | none => none
      | some i => placeNamed params (slots.set i (some (.single arg.expr))) args

/-- Fills the empty slots of parameters that are not variadic from the arguments without names,
then from the defaults. The second part of the answer is what is left of the arguments. -/
def placePositional :
    List (Param ν ε × Option (Resolved ε)) → List (Arg ν ε) →
      List (Option (Resolved ε)) × List (Arg ν ε)
  | [], args => ([], args)
  | (param, slot) :: rest, args =>
    if slot.isSome || param.variadic then
      let (slots, args) := placePositional rest args
      (slot :: slots, args)
    else
      match args with
      | arg :: args =>
        let (slots, args) := placePositional rest args
        (some (.single arg.expr) :: slots, args)
      | [] =>
        let (slots, args) := placePositional rest []
        (param.default.map .single :: slots, args)

/-- Gives the arguments that are left to the variadic parameter at the end. -/
def placeRest (params : List (Param ν ε)) (slots : List (Option (Resolved ε)))
    (left : List (Arg ν ε)) : Option (List (Option (Resolved ε))) :=
  let items := left.map fun arg => (arg.spread, arg.expr)
  if takesRest params then
    match slots.getLast? with
    | some none => some (slots.dropLast ++ [some (.rest items)])
    | _ => if items.isEmpty then some slots else none
  else if items.isEmpty then some slots
  else none

/-- The entry of a slot: its own, or the default of its parameter. -/
def orDefault (param : Param ν ε) (slot : Option (Resolved ε)) : Option (Resolved ε) :=
  match slot with
  | some entry => some entry
  | none => param.default.map .single

/-- The entries of all parameters, if the arguments match them. -/
def resolve (params : List (Param ν ε)) (args : List (Arg ν ε)) : Option (List (Resolved ε)) := do
  if args.length > params.length && !takesRest params then none
  else
    let named ← placeNamed params (params.map fun _ => none) args
    let positional := args.filter (·.name.isNone)
    let (filled, left) := placePositional (params.zip named) positional
    let slots ← placeRest params filled left
    (params.zip slots).mapM fun (param, slot) => orDefault param slot

end Arguments
end IslandScript
