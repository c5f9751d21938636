import IslandScript.Eval.Basic

/-!
# Binding names

A name can be bound once in a scope. The name `_` is bound nowhere, so it may be repeated and
cannot be read. Several names at once take the items of a value in order; items without a name
are dropped.
-/

namespace IslandScript.Eval

/-- The name that discards what it is bound to. -/
def discarded : String := "_"

/-- Binds a name in the current scope. -/
def bind (n : Name) (r : Reference) (span : Span) : Eval Unit := fun m =>
  let text := m.text n
  if text == discarded then .done () m
  else if (m.env.own? n).isSome then .raised (.failed ⟨.redefinedName text, span⟩) m
  else .done () (m.onEnv fun env => env.bindIn env.current n r)

/-- The items of a value that has to be spread. -/
def spread (v : Value) (span : Span) : Eval (List Value) := fun m =>
  match v.spread? m.store.tables with
  | some items => .done items m
  | none => failShowing v .notSpreadable span m

/-- Binds names to items, one by one. -/
def bindEach (kind : BindingKind) (mutable : Bool) (span : Span) :
    List Name → List Value → Eval Unit
  | n :: ns, v :: vs => do
    bind n ⟨kind, mutable, v⟩ span
    bindEach kind mutable span ns vs
  | _, _ => return ()

/-- Binds the names of a pattern to a value. -/
def bindPattern (p : Pattern Name) (v : Value) (kind : BindingKind) (mutable : Bool)
    (span : Span) : Eval Unit :=
  match p with
  | .name n => bind n ⟨kind, mutable, v⟩ span
  | .items ns => do
    let items ← spread v span
    if items.length < ns.length then fail (.destructureCount ns.length items.length) span
    else bindEach kind mutable span ns items

/-- Binds parameters to what they receive. Parameters are constants; one that receives nothing
stays unbound. -/
def bindParams (span : Span) : List (Param Name (Expr Name)) → List Value → Eval Unit
  | p :: ps, v :: vs => do
    bind p.name ⟨.constant, p.mutable, v⟩ span
    bindParams span ps vs
  | _, _ => return ()

end IslandScript.Eval
