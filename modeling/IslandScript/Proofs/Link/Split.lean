import IslandScript.Proofs.Argument.Variadic
import IslandScript.Proofs.Link.Lists
import IslandScript.Proofs.Text.Split

/-!
# Strings split into lists

The native that splits a string makes a list of the parts, and the native that joins a list shows its
elements with a separator between them. A string is shown as it is, so a list of parts is joined to the
string they were split from.
-/

namespace IslandScript

variable {o : Objects} {st : Store} {s : ScopeId} {t : TableId}

/-- Strings are shown as they are. -/
theorem Native.run_displayAll_strings (parts : List String) :
    (Native.displayAll (parts.map .string)).run o st = (.ok parts, st) := by
  have hshown : o.display st.tables ∘ Value.string = id := funext fun _ => rfl
  rw [Native.run_displayAll, List.map_map, hshown, List.map_id]

namespace Core

/-- A string is split into a list of its own. -/
theorem run_stringSplit {text separator : String} (hs : o.payload? s = some (.primitive (.string text))) :
    ∃ t st', (stringSplit ⟨some s, [.string separator]⟩).run o st = (.ok (.list t), st') ∧
      st'.tables.items t = (Text.split text separator).map .string := by
  unfold stringSplit
  rw [Native.run_bind, run_thisString hs]
  dsimp only
  refine ⟨_, _, rfl, ?_⟩
  exact congrArg (·.items.toList) Tables.get_alloc_self

/-- A list of strings is joined to one string. -/
theorem run_listJoin {parts : List String} {separator : String}
    (hs : o.payload? s = some (.primitive (.list t))) (hitems : st.tables.items t = parts.map .string) :
    (listJoin ⟨some s, [.string separator]⟩).run o st =
      (.ok (.string (Text.join separator parts)), st) := by
  have hseparator : (Call.string ⟨some s, [.string separator]⟩ 0 "List.join@separator").run o st =
      (.ok separator, st) := rfl
  have hread : (Native.items t).run o st = (.ok (parts.map .string), st) := by
    rw [← hitems]
    rfl
  unfold listJoin
  rw [Native.run_bind, run_thisList hs]
  dsimp only
  rw [Native.run_bind, hseparator]
  dsimp only
  rw [Native.run_bind, hread]
  dsimp only
  rw [Native.run_bind, Native.run_displayAll_strings]
  rfl

/-- **Joining undoes splitting.** The native `String.split`, called on an instance that wraps a string,
makes a list; and wherever the list still has the elements it was made with, the native `List.join`, called
with the same separator on an instance that wraps the list, gives the string. An empty separator splits a
string into its characters. Any other is in none of the parts, and there is one part more than the
separator has leftmost occurrences in the string that do not overlap; these are determined. -/
theorem join_undoes_split {split join : NativeFunction}
    (hsplit : link.functions.lookup "String.split" = some split)
    (hjoin : link.functions.lookup "List.join" = some join) (text separator : String)
    (hs : o.payload? s = some (.primitive (.string text))) :
    ∃ t st' parts, (split.call ⟨some s, [.string separator]⟩).run o st = (.ok (.list t), st') ∧
      st'.tables.items t = parts.map .string ∧
      (∀ o' s' st'', o'.payload? s' = some (.primitive (.list t)) →
        st''.tables.items t = parts.map .string →
        (join.call ⟨some s', [.string separator]⟩).run o' st'' = (.ok (.string text), st'')) ∧
      (separator = "" → parts = text.toList.map String.singleton) ∧
      (separator ≠ "" → (∀ part ∈ parts, ¬separator.toList <:+: part.toList) ∧
        ∃ places, Text.Leftmost separator.toList text.toList places ∧
          (∀ others, Text.Leftmost separator.toList text.toList others → others = places) ∧
          parts.length = places.length + 1) := by
  obtain rfl : ⟨1, stringSplit⟩ = split := Option.some_inj.mp hsplit
  obtain rfl : ⟨1, listJoin⟩ = join := Option.some_inj.mp hjoin
  obtain ⟨t, st', hrun, hitems⟩ := @run_stringSplit o st s text separator hs
  refine ⟨t, st', Text.split text separator, hrun, hitems, ?_, ?_, Text.split_parts⟩
  · intro o' s' st'' hs' hitems'
    have hjoined := @run_listJoin o' st'' s' t _ separator hs' hitems'
    rwa [Text.join_split] at hjoined
  · rintro rfl
    rfl

/-- Objects with one instance, which wraps a primitive. -/
def wrapping (p : Primitive) : Objects :=
  { Objects.empty with scopes := #[⟨[], none, some ⟨⟨0⟩, none, some (.primitive p)⟩⟩] }

/-- Two occurrences that overlap are one separator: `aaa` is split at `aa` into an empty string and `a`. -/
theorem join_undoes_split_overlapping :
    ∃ t st', (stringSplit ⟨some ⟨0⟩, [.string "aa"]⟩).run (wrapping (.string "aaa")) (.new default) =
        (.ok (.list t), st') ∧
      st'.tables.items t = [.string "", .string "a"] ∧
      (listJoin ⟨some ⟨0⟩, [.string "aa"]⟩).run (wrapping (.list t)) st' =
        (.ok (.string "aaa"), st') ∧
      ∃ place, Text.Leftmost "aa".toList "aaa".toList [place] := by
  obtain ⟨t, st', parts, hrun, hitems, hjoin, -, hparts⟩ :=
    @join_undoes_split (wrapping (.string "aaa")) (.new default) ⟨0⟩ _ _ rfl rfl "aaa" "aa" rfl
  have hmade : (stringSplit ⟨some ⟨0⟩, [.string "aa"]⟩).run (wrapping (.string "aaa")) (.new default) =
      (.ok (.list ⟨0⟩), (Store.newList (.new default) [.string "", .string "a"]).2) := rfl
  obtain ⟨ht, hst⟩ := Prod.mk.inj (hmade.symm.trans hrun)
  cases ht
  subst hst
  have hlist : parts.map Value.string = [.string "", .string "a"] := hitems.symm
  obtain ⟨-, places, hplaces, -, hlength⟩ := hparts (by decide)
  have hone : places.length = 1 := by
    have htwo := congrArg List.length hlist
    rw [List.length_map, hlength] at htwo
    exact Nat.succ.inj htwo
  obtain ⟨place, rfl⟩ := List.length_eq_one_iff.mp hone
  exact ⟨_, _, hrun, hlist ▸ hitems, hjoin _ _ _ rfl hitems, place, hplaces⟩

end Core
end IslandScript
