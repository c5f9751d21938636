import IslandScript.Eval.Evaluator
import IslandScript.Proofs.Link.Split
import IslandScript.Proofs.Logic.Elementary
import IslandScript.Proofs.Value.Index

/-!
# Natives that index

A list has two ways to an element and a string two ways to a character: the index expression, and the native
`get`. They select the same and refuse the same. The native that puts a value into a list replaces what the
index expression gives.
-/

namespace IslandScript

variable {o : Objects} {st : Store} {s : ScopeId} {t : TableId} {i u : Value} {n : Float} {p : Nat}

/-! ## Replacing an element -/

/-- The element at a position of one list was replaced; the list has its size and its keys, and every other
list is as it was. -/
structure Tables.Replaced (before after : Tables) (t : TableId) (p : Nat) (u : Value) : Prop where
  inside : p < before.length t
  items : after.items t = (before.items t).set p u
  entries : (after.get t).entries = (before.get t).entries
  others : ∀ t' ≠ t, after.get t' = before.get t'

/-- A list that has elements is there to be changed. -/
theorem Tables.get_update_self {ts : Tables} (h : p < ts.length t) (f : Table → Table) :
    (ts.update t f).get t = f (ts.get t) := by
  unfold Tables.length Tables.get at h
  unfold Tables.get Tables.update
  rw [Array.getElem?_modify, if_pos rfl]
  cases htable : ts[t.index]? with
  | none =>
      rw [htable] at h
      exact absurd h (Nat.not_lt_zero p)
  | some table => rfl

theorem Tables.replaced_update {ts : Tables} (h : p < ts.length t) (u : Value) :
    ts.Replaced (ts.update t (·.set p u)) t p u where
  inside := h
  items := by
    rw [Tables.items, Tables.get_update_self h]
    exact Array.toList_setIfInBounds
  entries := by
    rw [Tables.get_update_self h]
    rfl
  others _ ht := Tables.get_update_of_ne ht _

/-! ## The natives -/

theorem Native.run_ofIndex {α : Type} (target i : Value) (r : Except IndexError α) (o : Objects) (st : Store) :
    (Native.ofIndex target i r).run o st =
      (r.mapError (.ofIndex (o.display st.tables) target i), st) := by
  cases r <;> rfl

namespace Core

theorem run_listGet (hs : o.payload? s = some (.primitive (.list t))) :
    (listGet ⟨some s, [i]⟩).run o st =
      ((Value.index st.tables (.list t) i).mapError (.ofIndex (o.display st.tables) (.list t) i), st) := by
  unfold listGet
  rw [Native.run_bind, run_thisList hs]
  exact Native.run_ofIndex _ _ _ _ _

/-- The native gives the characters that indexing gives, and changes nothing. -/
theorem run_stringGet {text : String} (hs : o.payload? s = some (.primitive (.string text))) :
    ∃ r, (stringGet ⟨some s, [i]⟩).run o st = (r, st) ∧
      ∀ w, r = .ok w ↔ Value.index st.tables (.string text) i = .ok w := by
  unfold stringGet
  rw [Native.run_bind, run_thisString hs]
  dsimp only
  cases i with
  | number n =>
      have hnumber : (Call.number ⟨some s, [.number n]⟩ 0 "String.get@index").run o st = (.ok n, st) := rfl
      rw [Native.run_bind, hnumber]
      dsimp only
      simp only [Value.index_string_eq_ok_iff]
      cases hfound : (Value.wholeIndex? n).bind (text.toList[·]?) with
      | none =>
          refine ⟨.error _, rfl, fun w => ⟨?_, ?_⟩⟩
          · intro h
            cases h
          · rintro ⟨p, c, hp, hc, -⟩
            have hsome := Value.whole_bind_eq_some_iff.mpr ⟨p, hp, hc⟩
            rw [hfound] at hsome
            cases hsome
      | some c =>
          obtain ⟨p, hp, hc⟩ := Value.whole_bind_eq_some_iff.mp hfound
          refine ⟨.ok (.ofChar c), rfl, fun w => ⟨?_, ?_⟩⟩
          · rintro ⟨⟩
            exact ⟨p, c, hp, hc, rfl⟩
          · rintro ⟨q, c', hq, hc', rfl⟩
            have hsame := Value.whole_bind_eq_some_iff.mpr ⟨q, hq, hc'⟩
            rw [hfound] at hsame
            cases hsame
            rfl
  | _ =>
      refine ⟨.error _, rfl, fun w => ?_⟩
      constructor <;> intro h <;> cases h

theorem run_listSet (hs : o.payload? s = some (.primitive (.list t))) :
    (listSet ⟨some s, [.number n, u]⟩).run o st =
      match (Value.number n).position (st.tables.length t) with
      | .ok p => (.ok .unit, st.update t (·.set p u))
      | .error e => (.error (.ofIndex (o.display st.tables) (.list t) (.number n) e), st) := by
  have hrun : (listSet ⟨some s, [.number n, u]⟩).run o st =
      (do let p ← Native.ofIndex (.list t) (.number n) ((Value.number n).position (st.tables.length t))
          Native.change (·.update t (·.set p u))
          return .unit : Native Value).run o st := by
    unfold listSet
    rw [Native.run_bind, run_thisList hs]
    rfl
  rw [hrun, Native.run_bind, Native.run_ofIndex]
  cases (Value.number n).position (st.tables.length t) <;> rfl

end Core

/-! ## The index expression -/

namespace Eval

variable {ev : Evaluator} {target : Expr Name} {args : List (Arg Name (Expr Name))} {span : Span}
variable {m m₁ m₂ : Interpreter} {v : Value}

theorem index_apply (htarget : ev.expr target m = .done v m₁) (hargs : spreadArgs ev args m₁ = .done [i] m₂) :
    exprStep ev (.index span target args) m =
      match v.index m₂.store.tables i with
      | .ok w => .done w m₂
      | .error e => .raised (.failed ⟨.ofIndex m₂.display v i e, span⟩) m₂ := by
  have hread : read (fun m => v.index m.store.tables i) m₂ = .done (v.index m₂.store.tables i) m₂ := rfl
  rw [exprStep, bind_done htarget, bind_done hargs, indexBy, bind_done hread]
  cases v.index m₂.store.tables i <;> rfl

theorem index_eq_done_iff {w : Value} {m' : Interpreter} (htarget : ev.expr target m = .done v m₁)
    (hargs : spreadArgs ev args m₁ = .done [i] m₂) :
    exprStep ev (.index span target args) m = .done w m' ↔ v.index m₂.store.tables i = .ok w ∧ m' = m₂ := by
  rw [index_apply htarget hargs]
  cases v.index m₂.store.tables i <;> simp [eq_comm]

theorem native_done {α : Type} {x : Native α} {a : α} (h : x.run m.objects m.store = (.ok a, st)) :
    native x span m = .done a { m with store := st } := by
  rw [native_apply, h]

theorem native_failed {α : Type} {x : Native α} {kind : EvalErrorKind}
    (h : x.run m.objects m.store = (.error kind, st)) :
    native x span m = .raised (.failed ⟨kind, span⟩) { m with store := st } := by
  rw [native_apply, h]

end Eval

namespace Core

variable {ev : Evaluator} {target : Expr Name} {args : List (Arg Name (Expr Name))} {span : Span}
variable {m m₁ m₂ : Interpreter} {sequence : Primitive}

theorem native_listGet (htarget : ev.expr target m = .done (.list t) m₁)
    (hargs : Eval.spreadArgs ev args m₁ = .done [i] m₂)
    (hs : m₂.objects.payload? s = some (.primitive (.list t))) :
    Eval.exprStep ev (.index span target args) m = Eval.native (listGet ⟨some s, [i]⟩) span m₂ := by
  have hrun := @run_listGet m₂.objects m₂.store s t i hs
  rw [Eval.index_apply htarget hargs]
  cases hindex : (Value.list t).index m₂.store.tables i with
  | ok w =>
      rw [hindex] at hrun
      exact (Eval.native_done hrun).symm
  | error e =>
      rw [hindex] at hrun
      exact (Eval.native_failed hrun).symm

theorem native_stringGet {text : String} (htarget : ev.expr target m = .done (.string text) m₁)
    (hargs : Eval.spreadArgs ev args m₁ = .done [i] m₂)
    (hs : m₂.objects.payload? s = some (.primitive (.string text))) (w : Value) (m' : Interpreter) :
    Eval.native (stringGet ⟨some s, [i]⟩) span m₂ = .done w m' ↔
      Eval.exprStep ev (.index span target args) m = .done w m' := by
  obtain ⟨r, hrun, hr⟩ := @run_stringGet m₂.objects m₂.store s i text hs
  rw [Eval.index_eq_done_iff htarget hargs, ← hr]
  cases r with
  | ok w₀ =>
      rw [Eval.native_done hrun]
      constructor
      · rintro ⟨⟩
        exact ⟨rfl, rfl⟩
      · rintro ⟨⟨⟩, rfl⟩
        rfl
  | error kind =>
      rw [Eval.native_failed hrun]
      constructor
      · intro h
        cases h
      · rintro ⟨⟨⟩, -⟩

/-- Where the index expression gives an element, the native replaces it. -/
theorem native_listSet_done {w : Value} {m' : Interpreter} (htarget : ev.expr target m = .done (.list t) m₁)
    (hargs : Eval.spreadArgs ev args m₁ = .done [.number n] m₂)
    (hs : m₂.objects.payload? s = some (.primitive (.list t)))
    (h : Eval.exprStep ev (.index span target args) m = .done w m') (u : Value) :
    ∃ p tables, (Value.number n).position (m₂.store.tables.length t) = .ok p ∧
      (m₂.store.tables.items t)[p]? = some w ∧ m₂.store.tables.Replaced tables t p u ∧
      Eval.native (listSet ⟨some s, [.number n, u]⟩) span m₂ =
        .done .unit { m₂ with store := { m₂.store with tables := tables } } := by
  have hkey (k : String) : Value.number n ≠ .string k := fun hk => by cases hk
  obtain ⟨hindex, -⟩ := (Eval.index_eq_done_iff htarget hargs).mp h
  obtain ⟨p, hp, hw⟩ := (Value.index_list_eq_ok_iff hkey).mp hindex
  have hrun := @run_listSet m₂.objects m₂.store s t u n hs
  rw [hp] at hrun
  exact ⟨p, _, hp, hw, Tables.replaced_update (Value.position_lt hp) u, Eval.native_done hrun⟩

/-- Where the index expression fails, the native fails too, and changes nothing. -/
theorem native_listSet_raised {signal : Signal} {m' : Interpreter}
    (htarget : ev.expr target m = .done (.list t) m₁)
    (hargs : Eval.spreadArgs ev args m₁ = .done [.number n] m₂)
    (hs : m₂.objects.payload? s = some (.primitive (.list t)))
    (h : Eval.exprStep ev (.index span target args) m = .raised signal m') (u : Value) :
    Eval.native (listSet ⟨some s, [.number n, u]⟩) span m₂ = .raised signal m' := by
  have hrun := @run_listSet m₂.objects m₂.store s t u n hs
  rw [Eval.index_apply htarget hargs, Value.index_list_number] at h
  cases hposition : (Value.number n).position (m₂.store.tables.length t) with
  | ok p =>
      rw [hposition] at h
      cases h
  | error e =>
      rw [hposition] at h hrun
      rw [Eval.native_failed hrun]
      exact h

/-- **Indexing and getting agree.** Let an index expression evaluate to a list or a string and to one index,
and let an instance wrap that list or string. Then the index expression on a list does what the native
`List.get` does on the instance: it gives the same value or fails with the same error. On a string, the native
`String.get` gives a character exactly where the index expression gives it. What is given is the value under a
key, or the element or character that is at a position, which is inside the sequence; for a position it is
never null instead. And the native `List.set` with a number replaces the element that the index expression
gives, or fails with its error. -/
theorem get_agrees_with_index {listGet listSet stringGet : NativeFunction}
    (hlistGet : link.functions.lookup "List.get" = some listGet)
    (hlistSet : link.functions.lookup "List.set" = some listSet)
    (hstringGet : link.functions.lookup "String.get" = some stringGet)
    (htarget : ev.expr target m = .done sequence.toValue m₁)
    (hargs : Eval.spreadArgs ev args m₁ = .done [i] m₂)
    (hs : m₂.objects.payload? s = some (.primitive sequence)) :
    (∀ t, sequence = .list t →
      Eval.exprStep ev (.index span target args) m = Eval.native (listGet.call ⟨some s, [i]⟩) span m₂) ∧
    (∀ text, sequence = .string text → ∀ w m',
      Eval.native (stringGet.call ⟨some s, [i]⟩) span m₂ = .done w m' ↔
        Eval.exprStep ev (.index span target args) m = .done w m') ∧
    (∀ w m', Eval.exprStep ev (.index span target args) m = .done w m' →
      Value.Selects m₂.store.tables sequence.toValue i w) ∧
    (∀ size p, i.position size = .ok p → p < size) ∧
    ∀ t n u, sequence = .list t → i = .number n →
      (∀ w m', Eval.exprStep ev (.index span target args) m = .done w m' →
        ∃ p tables, i.position (m₂.store.tables.length t) = .ok p ∧
          (m₂.store.tables.items t)[p]? = some w ∧ m₂.store.tables.Replaced tables t p u ∧
          Eval.native (listSet.call ⟨some s, [i, u]⟩) span m₂ =
            .done .unit { m₂ with store := { m₂.store with tables := tables } }) ∧
      ∀ signal m', Eval.exprStep ev (.index span target args) m = .raised signal m' →
        Eval.native (listSet.call ⟨some s, [i, u]⟩) span m₂ = .raised signal m' := by
  obtain rfl : ⟨1, Core.listGet⟩ = listGet := Option.some_inj.mp hlistGet
  obtain rfl : ⟨2, Core.listSet⟩ = listSet := Option.some_inj.mp hlistSet
  obtain rfl : ⟨1, Core.stringGet⟩ = stringGet := Option.some_inj.mp hstringGet
  refine ⟨?_, ?_, ?_, fun _ _ => Value.position_lt, ?_⟩
  · rintro t rfl
    exact native_listGet htarget hargs hs
  · rintro text rfl
    exact native_stringGet htarget hargs hs
  · intro w m' h
    exact Value.index_eq_ok_iff.mp ((Eval.index_eq_done_iff htarget hargs).mp h).1
  · rintro t n u rfl rfl
    exact ⟨fun w m' h => native_listSet_done htarget hargs hs h u,
      fun signal m' h => native_listSet_raised htarget hargs hs h u⟩

/-- An interpreter with one instance, which wraps a primitive. -/
def interpreterWrapping (p : Primitive) : Interpreter :=
  { Interpreter.new default default with env := { Environment.new with scopes := (wrapping p).scopes } }

/-- An interpreter with one instance, which wraps a list of `a` and `b`. -/
def interpreterWithList : Interpreter :=
  ((interpreterWrapping (.list ⟨0⟩)).newList [.string "a", .string "b"]).2

/-- The index `1` is the second element of a list, and the second character of a string, also behind one that
takes two bytes. -/
theorem get_agrees_with_index_second :
    Eval.native (listGet ⟨some ⟨0⟩, [.number 1]⟩) .none interpreterWithList =
        .done (.string "b") interpreterWithList ∧
      (∃ tables, interpreterWithList.store.tables.Replaced tables ⟨0⟩ 1 .null ∧
        Eval.native (listSet ⟨some ⟨0⟩, [.number 1, .null]⟩) .none interpreterWithList =
          .done .unit { interpreterWithList with store := { interpreterWithList.store with tables := tables } }) ∧
      Eval.native (stringGet ⟨some ⟨0⟩, [.number 1]⟩) .none (interpreterWrapping (.string "éa")) =
        .done (.string "a") (interpreterWrapping (.string "éa")) := by
  have one (m : Interpreter) :
      Eval.spreadArgs (Eval.evaluator 2) [⟨.none, false, none, .value .none (.number 1)⟩] m =
        .done [.number 1] m := rfl
  have hlist : (Eval.evaluator 2).expr (.list .none [.value .none (.string "a"), .value .none (.string "b")])
      (interpreterWrapping (.list ⟨0⟩)) = .done (Primitive.list ⟨0⟩).toValue interpreterWithList := rfl
  have hstring : (Eval.evaluator 2).expr (.value .none (.string "éa")) (interpreterWrapping (.string "éa")) =
      .done (Primitive.string "éa").toValue (interpreterWrapping (.string "éa")) := rfl
  obtain ⟨hget, -, -, -, hset⟩ := @get_agrees_with_index ⟨0⟩ (.number 1) _ _ _ .none _ _ _ _ _ _ _ rfl rfl rfl
    hlist (one _) rfl
  obtain ⟨-, hcharacter, -⟩ := @get_agrees_with_index ⟨0⟩ (.number 1) _ _ _ .none _ _ _ _ _ _ _ rfl rfl rfl
    hstring (one _) rfl
  refine ⟨(hget _ rfl).symm, ?_, (hcharacter _ rfl _ _).mpr rfl⟩
  obtain ⟨p, tables, hp, -, hreplaced, hdone⟩ := (hset _ _ .null rfl rfl).1 (.string "b") _ rfl
  obtain rfl : 1 = p := Except.ok.inj hp
  exact ⟨tables, hreplaced, hdone⟩

end Core
end IslandScript
