import Mathlib.Data.List.Forall2
import IslandScript.Eval.Binding
import IslandScript.Link.Core
import IslandScript.Parser.Program
import IslandScript.Proofs.Lexer.Plain
import IslandScript.Proofs.Syntax.Names

/-!
# What the prelude of the core link declares

The prelude is a program of declarations, among them a class for each kind of primitive. Such a class
has no parameters, is based on `Any()`, and declares only members that are linked (`prelude_wrappers`).
What is said of its trees over texts holds of them over names as well, once the names are read.
-/

namespace IslandScript

variable {ν μ : Type}

/-! ## Classes of linked members -/

section Shape

variable (f : ν → String) (cls : String)

/-- A statement declares a linked member of a class, with as many parameters as the native of the
core link takes. -/
def Stmt.LinksMember (member : String) (s : Stmt ν) : Prop :=
  ∃ span decl n, s = .function span decl ∧ decl.linked = true ∧ decl.name = some n ∧ f n = member ∧
    decl.path = cls ++ "." ++ member ∧
      (Core.link.functions.lookup decl.path).map (·.arity) = some decl.params.length

/-- What the instances of a class are based on: nothing if the class is `Any`, else an instance of
that. -/
def BasedOnAny (base : Option (Expr ν)) : Prop :=
  if cls = "Any" then base = none
  else ∃ span span' n, base = some (.invoke span (.name span' n) []) ∧ f n = "Any"

/-- A class without parameters that declares only linked members. -/
structure Class.IsWrapper (members : List String) (decl : Class ν) : Prop where
  name : f decl.name = cls
  unlinked : decl.linked = false
  params : decl.params = []
  base : BasedOnAny f cls decl.base
  init : List.Forall₂ (Stmt.LinksMember f cls) members decl.init

end Shape

/-! ## Other names -/

section MapNames

variable {f : ν → μ} {g : μ → String} {cls : String}

theorem Stmt.LinksMember.of_mapNames {member : String} {s : Stmt ν}
    (h : (s.mapNames f).LinksMember g cls member) : s.LinksMember (g ∘ f) cls member := by
  obtain ⟨span, decl, n, hs, hlinked, hname, hn, hpath, harity⟩ := h
  cases s with
  | function span' decl' =>
      obtain ⟨declSpan, path, linked, name, params, body⟩ := decl'
      simp only [Stmt.mapNames, Function.mapNames, Stmt.function.injEq] at hs
      obtain ⟨-, rfl⟩ := hs
      obtain ⟨k, rfl, rfl⟩ := Option.map_eq_some_iff.mp hname
      refine ⟨span', _, k, rfl, hlinked, rfl, hn, hpath, harity.trans ?_⟩
      rw [Params.mapNames_eq_map, List.length_map]
  | _ => simp [Stmt.mapNames] at hs

theorem BasedOnAny.of_mapNames {base : Option (Expr ν)}
    (h : BasedOnAny g cls (Expr?.mapNames f base)) : BasedOnAny (g ∘ f) cls base := by
  unfold BasedOnAny at h ⊢
  split at h
  next hany =>
    rw [if_pos hany]
    cases base with
    | none => rfl
    | some e => cases h
  next hany =>
    rw [if_neg hany]
    obtain ⟨span, span', n, hbase, hn⟩ := h
    cases base with
    | none => cases hbase
    | some e =>
        have he := Option.some.inj hbase
        cases e with
        | invoke s target args =>
            simp only [Expr.mapNames, Expr.invoke.injEq] at he
            obtain ⟨rfl, htarget, hargs⟩ := he
            cases target with
            | name s' k =>
                simp only [Expr.mapNames, Expr.name.injEq] at htarget
                obtain ⟨rfl, rfl⟩ := htarget
                cases args with
                | nil => exact ⟨s, s', k, rfl, hn⟩
                | cons => simp [Args.mapNames] at hargs
            | _ => simp [Expr.mapNames] at htarget
        | _ => simp [Expr.mapNames] at he

theorem Class.IsWrapper.of_mapNames {members : List String} {decl : Class ν}
    (h : Class.IsWrapper g cls members (Class.mapNames f decl)) :
    Class.IsWrapper (g ∘ f) cls members decl := by
  obtain ⟨span, path, linked, n, params, base, init⟩ := decl
  refine ⟨h.name, h.unlinked, ?_, h.base.of_mapNames, ?_⟩
  · have hparams := h.params
    cases params with
    | nil => rfl
    | cons => simp [Class.mapNames, Params.mapNames] at hparams
  · have hinit : List.Forall₂ (Stmt.LinksMember g cls) members (Stmts.mapNames f init) := h.init
    rw [Stmts.mapNames_eq_map, List.forall₂_map_right_iff] at hinit
    exact hinit.imp fun _ _ => Stmt.LinksMember.of_mapNames

end MapNames

/-! ## The prelude -/

namespace Core

/-- A function or a class is declared. -/
def isDeclaration : Stmt ν → Bool
  | .function .. | .cls .. => true
  | _ => false

/-- The member that a statement links, if it is one of a class. -/
def linkedMember? (cls : String) : Stmt String → Option String
  | .function _ decl =>
    if decl.linked && decl.name.map (cls ++ "." ++ ·) == some decl.path &&
        (link.functions.lookup decl.path).map (·.arity) == some decl.params.length
    then decl.name
    else none
  | _ => none

/-- Whether a base is none if the class is `Any`, and an instance of that if it is another. -/
def isBasedOnAny (cls : String) : Option (Expr String) → Bool
  | none => cls == "Any"
  | some (.invoke _ (.name _ n) []) => cls != "Any" && n == "Any"
  | _ => false

/-- Whether a class of linked members is declared. -/
def isWrapper (cls : String) (members : List String) : Stmt String → Bool
  | .cls _ ⟨_, _, false, n, [], base, init⟩ =>
    n == cls && isBasedOnAny cls base && init.map (linkedMember? cls) == members.map some
  | _ => false

/-- The classes of primitives, and the class they are based on, with their members. -/
def wrapperClasses : List (String × List String) :=
  [("Any", ["className"]),
   ("Boolean", ["not", "both", "either", "xor", "toNumber", "toString"]),
   ("Number", ["add", "sub", "mul", "div", "floor", "toString"]),
   ("String", ["size", "get", "upper", "lower", "contains", "split", "format"]),
   ("List", ["size", "push", "pop", "get", "set", "contains", "join"])]

theorem linksMember_of_eq {cls member : String} {s : Stmt String}
    (h : linkedMember? cls s = some member) : s.LinksMember id cls member := by
  cases s with
  | function span decl =>
      simp only [linkedMember?] at h
      split at h
      next hlinked =>
        simp only [Bool.and_eq_true, beq_iff_eq, h, Option.map_some, Option.some.injEq] at hlinked
        obtain ⟨⟨hlinked, hpath⟩, harity⟩ := hlinked
        exact ⟨span, decl, member, rfl, hlinked, h, rfl, hpath.symm, harity⟩
      next => cases h
  | _ => cases h

theorem basedOnAny_of_isBasedOnAny {cls : String} {base : Option (Expr String)}
    (h : isBasedOnAny cls base = true) : BasedOnAny id cls base := by
  unfold BasedOnAny
  unfold isBasedOnAny at h
  split at h
  · rw [if_pos (eq_of_beq h)]
  · rw [Bool.and_eq_true, bne_iff_ne, beq_iff_eq] at h
    rw [if_neg h.1]
    exact ⟨_, _, _, rfl, h.2⟩
  · cases h

theorem isWrapper_of_isWrapper {cls : String} {members : List String} {s : Stmt String}
    (h : isWrapper cls members s = true) :
    ∃ span decl, s = .cls span decl ∧ Class.IsWrapper id cls members decl := by
  unfold isWrapper at h
  split at h
  next span declSpan path n base init =>
    simp only [Bool.and_eq_true, beq_iff_eq] at h
    obtain ⟨⟨hname, hbase⟩, hinit⟩ := h
    refine ⟨span, _, rfl, hname, rfl, rfl, basedOnAny_of_isBasedOnAny hbase, ?_⟩
    rw [← List.forall₂_eq_eq_eq, List.forall₂_map_left_iff, List.forall₂_map_right_iff] at hinit
    exact hinit.flip.imp fun _ _ => linksMember_of_eq
  next => cases h

/-- The characters of the prelude. -/
def preludeChars : List Char := preludeLines.flatMap (·.toList ++ ['\n'])

theorem toList_foldl_append (ss : List String) (s : String) :
    (ss.foldl (· ++ ·) s).toList = s.toList ++ ss.flatMap (·.toList) := by
  induction ss generalizing s with
  | nil => simp
  | cons t ss ih => simp [ih]

theorem toList_prelude : prelude.text.toList = preludeChars := by
  show (String.join _).toList = _
  unfold String.join
  rw [toList_foldl_append]
  simp [preludeChars, List.flatMap_map]

/-- No escape is in the prelude. -/
theorem plain_preludeChars : Lexer.Plain preludeChars := by
  unfold Lexer.Plain
  decide +kernel

/-- What the prelude is parsed to. Nothing in it asks for a character by its name. -/
def parsedPrelude : Except Parser.Failure (Parsed String) :=
  (@Lexer.scanAll (.ofTable []) preludeChars ⟨1, 1, preludeChars⟩).parse

theorem parse_prelude [Text.CharNames] : parse prelude.text = parsedPrelude := by
  unfold parse Lexer.scan Cursor.start parsedPrelude
  rw [toList_prelude]
  exact congrArg TokenStream.parse (Lexer.scanAll_of_plain _ _ plain_preludeChars)

/-- Whether the program of the prelude is one of declarations, with those of the wrapper classes. -/
def declaresWrappers (p : Program String) : Bool :=
  p.all isDeclaration && wrapperClasses.all fun (cls, members) => p.any (isWrapper cls members)

set_option maxRecDepth 100000 in
theorem declaresWrappers_prelude :
    (parsedPrelude.toOption.any fun parsed => declaresWrappers parsed.program) = true := by
  decide +kernel

/-- The prelude is a program of declarations, with a class of linked members for each kind of
primitive. -/
theorem prelude_wrappers [Text.CharNames] : ∃ parsed, parse prelude.text = .ok parsed ∧
    (∀ s ∈ parsed.program, isDeclaration s = true) ∧
      ∀ cls members, (cls, members) ∈ wrapperClasses → ∃ span decl,
        .cls span decl ∈ parsed.program ∧ Class.IsWrapper id cls members decl := by
  have h := declaresWrappers_prelude
  rw [← parse_prelude] at h
  cases hparse : parse prelude.text with
  | error e =>
      rw [hparse] at h
      cases h
  | ok parsed =>
      rw [hparse] at h
      obtain ⟨hdeclarations, hclasses⟩ := Bool.and_eq_true_iff.mp h
      refine ⟨parsed, rfl, List.all_eq_true.mp hdeclarations, fun cls members hmem => ?_⟩
      obtain ⟨s, hs, hwrapper⟩ := List.any_eq_true.mp (List.all_eq_true.mp hclasses _ hmem)
      obtain ⟨span, decl, rfl, hdecl⟩ := isWrapper_of_isWrapper hwrapper
      exact ⟨span, decl, hs, hdecl⟩

/-- Neither is a class discarded nor a member, and all members are linked, under different names. -/
theorem wrapperClasses_linked : ∀ p ∈ wrapperClasses, p.1 ≠ Eval.discarded ∧ p.2.Nodup ∧
    ∀ member ∈ p.2, member ≠ "" ∧ member ≠ Eval.discarded ∧
      (link.functions.lookup (p.1 ++ "." ++ member)).isSome := by
  decide +kernel

end Core
end IslandScript
