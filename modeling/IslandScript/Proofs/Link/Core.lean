import IslandScript.Link.Core
import IslandScript.Proofs.Link.Faithful

/-!
# The core link is faithful

Most natives of the core link give plain data. Those of lists hand values from one place of the
tables to another, and a builder gives itself.
-/

namespace IslandScript.Core

open Native

variable {has : ScopeId → Prop} {c : Call}

/-! ## Global natives -/

theorem print_ensures : (print c).Ensures has (·.Within has) :=
  .bind .display fun _ _ => .bind (.change fun _ hs => hs) fun _ _ => .pure trivial

theorem printLine_ensures : (printLine c).Ensures has (·.Within has) :=
  .bind .display fun _ _ => .bind (.change fun _ hs => hs) fun _ _ => .pure trivial

theorem inputLine_ensures : Ensures has inputLine fun _ => True :=
  .take fun _ hs => ⟨hs, trivial⟩

theorem readWord_ensures (c : Call) : (readWord c).Ensures has (·.Within has) :=
  .bind inputLine_ensures fun _ _ => .pure trivial

theorem readLine_ensures (c : Call) : (readLine c).Ensures has (·.Within has) :=
  .bind inputLine_ensures fun _ _ => .pure trivial

theorem time_ensures (c : Call) : (time c).Ensures has (·.Within has) :=
  .bind (P := fun _ => True) (.read fun _ _ => trivial) fun _ _ => .pure trivial

theorem wait_ensures : (wait c).Ensures has (·.Within has) := by
  refine .bind .number ?_
  intro seconds _
  dsimp only
  generalize (if seconds > 0 then seconds else 0) = wanted
  split
  · exact .bind (.change fun _ hs => hs) fun _ _ => .pure trivial
  · exact .invalidArgument

/-- A range holds numbers. -/
theorem numbersFrom_within (stop step : Float) (bound : Nat) (start : Float) (found : Array Value)
    (hfound : ∀ v ∈ found, v.Within has) : ∀ v ∈ numbersFrom stop step bound start found,
      v.Within has := by
  induction bound generalizing start found with
  | zero => exact hfound
  | succ bound ih =>
      unfold numbersFrom
      split
      · refine ih _ _ ?_
        intro v hv
        rcases Array.mem_push.mp hv with hv | rfl
        · exact hfound v hv
        · trivial
      · exact hfound

theorem range_ensures : (range c).Ensures has (·.Within has) := by
  refine .bind .number fun start _ => .bind .number fun stop _ => .bind .number fun step _ => ?_
  split
  · refine .newList ?_
    intro v hv
    exact numbersFrom_within _ _ _ _ #[] (fun _ h => nomatch h) v (Array.mem_toList_iff.mp hv)
  · exact .invalidArgument

theorem text_ensures : (text c).Ensures has (·.Within has) :=
  .bind .display fun _ _ => .pure trivial

theorem globals_faithful : ∀ f ∈ globals, f.2.Faithful := by
  unfold globals
  simp only [List.forall_mem_cons]
  exact ⟨fun _ _ _ => print_ensures, fun _ _ _ => printLine_ensures,
    fun _ c _ => readWord_ensures c, fun _ c _ => readLine_ensures c,
    fun _ c _ => time_ensures c, fun _ _ _ => wait_ensures,
    fun _ _ _ => range_ensures, fun _ _ _ => text_ensures, fun _ h => nomatch h⟩

/-! ## Natives of primitives -/

theorem className_ensures (hc : c.Within has) : (className c).Ensures has (·.Within has) :=
  .bind (.instanceAt hc) fun _ _ =>
    .bind (P := fun _ => True) (fun _ _ _ hs => ⟨hs, fun _ _ => trivial⟩) fun _ _ => .pure trivial

theorem thisBool_ensures (hc : c.Within has) (path : String) :
    (thisBool c path).Ensures has fun _ => True := by
  refine .bind (.primitive hc) ?_
  intro p _
  split
  · exact .pure trivial
  · exact .failLink

theorem thisNumber_ensures (hc : c.Within has) (path : String) :
    (thisNumber c path).Ensures has fun _ => True := by
  refine .bind (.primitive hc) ?_
  intro p _
  split
  · exact .pure trivial
  · exact .failLink

theorem thisString_ensures (hc : c.Within has) (path : String) :
    (thisString c path).Ensures has fun _ => True := by
  refine .bind (.primitive hc) ?_
  intro p _
  split
  · exact .pure trivial
  · exact .failLink

theorem thisList_ensures (hc : c.Within has) (path : String) :
    (thisList c path).Ensures has fun _ => True := by
  refine .bind (.primitive hc) ?_
  intro p _
  split
  · exact .pure trivial
  · exact .failLink

theorem boolNot_ensures (hc : c.Within has) : (boolNot c).Ensures has (·.Within has) :=
  .bind (thisBool_ensures hc _) fun _ _ => .pure trivial

theorem boolBoth_ensures (hc : c.Within has) : (boolBoth c).Ensures has (·.Within has) := by
  refine .bind (thisBool_ensures hc _) ?_
  intro this _
  split
  · exact .bind .boolean fun _ _ => .pure trivial
  · exact .pure trivial

theorem boolEither_ensures (hc : c.Within has) : (boolEither c).Ensures has (·.Within has) := by
  refine .bind (thisBool_ensures hc _) ?_
  intro this _
  split
  · exact .pure trivial
  · exact .bind .boolean fun _ _ => .pure trivial

theorem boolXor_ensures (hc : c.Within has) : (boolXor c).Ensures has (·.Within has) :=
  .bind (thisBool_ensures hc _) fun _ _ => .bind .boolean fun _ _ => .pure trivial

theorem boolToNumber_ensures (hc : c.Within has) : (boolToNumber c).Ensures has (·.Within has) :=
  .bind (thisBool_ensures hc _) fun _ _ => .pure trivial

theorem boolToString_ensures (hc : c.Within has) : (boolToString c).Ensures has (·.Within has) :=
  .bind (thisBool_ensures hc _) fun _ _ => .pure trivial

theorem numberAdd_ensures (hc : c.Within has) : (numberAdd c).Ensures has (·.Within has) :=
  .bind (thisNumber_ensures hc _) fun _ _ => .bind .number fun _ _ => .pure trivial

theorem numberSub_ensures (hc : c.Within has) : (numberSub c).Ensures has (·.Within has) :=
  .bind (thisNumber_ensures hc _) fun _ _ => .bind .number fun _ _ => .pure trivial

theorem numberMul_ensures (hc : c.Within has) : (numberMul c).Ensures has (·.Within has) :=
  .bind (thisNumber_ensures hc _) fun _ _ => .bind .number fun _ _ => .pure trivial

theorem numberDiv_ensures (hc : c.Within has) : (numberDiv c).Ensures has (·.Within has) :=
  .bind (thisNumber_ensures hc _) fun _ _ => .bind .number fun _ _ => .pure trivial

theorem numberFloor_ensures (hc : c.Within has) : (numberFloor c).Ensures has (·.Within has) :=
  .bind (thisNumber_ensures hc _) fun _ _ => .pure trivial

theorem numberToString_ensures (hc : c.Within has) :
    (numberToString c).Ensures has (·.Within has) :=
  .bind (thisNumber_ensures hc _) fun _ _ => .pure trivial

theorem stringSize_ensures (hc : c.Within has) : (stringSize c).Ensures has (·.Within has) :=
  .bind (thisString_ensures hc _) fun _ _ => .pure trivial

theorem stringGet_ensures (hc : c.Within has) : (stringGet c).Ensures has (·.Within has) := by
  refine .bind (thisString_ensures hc _) fun this _ => .bind .number fun n _ => ?_
  split
  · exact .pure trivial
  · exact .bind .display fun _ _ => .failLink

theorem stringUpper_ensures (hc : c.Within has) : (stringUpper c).Ensures has (·.Within has) :=
  .bind (thisString_ensures hc _) fun _ _ => .pure trivial

theorem stringLower_ensures (hc : c.Within has) : (stringLower c).Ensures has (·.Within has) :=
  .bind (thisString_ensures hc _) fun _ _ => .pure trivial

theorem stringContains_ensures (hc : c.Within has) :
    (stringContains c).Ensures has (·.Within has) :=
  .bind (thisString_ensures hc _) fun _ _ => .bind .string fun _ _ => .pure trivial

/-- The parts of a string are strings. -/
theorem stringSplit_ensures (hc : c.Within has) : (stringSplit c).Ensures has (·.Within has) := by
  refine .bind (thisString_ensures hc _) fun this _ => .bind .string fun separator _ => ?_
  refine .newList ?_
  intro v hv
  obtain ⟨part, -, rfl⟩ := List.mem_map.mp hv
  trivial

theorem stringFormat_ensures (hc : c.Within has) : (stringFormat c).Ensures has (·.Within has) := by
  refine .bind (thisString_ensures hc _) fun this _ => .bind .list fun t _ => ?_
  refine .bind .items fun vs _ => .bind (.displayAll vs) fun args _ => ?_
  split
  · exact .pure trivial
  · exact .failLink

/-! ## Natives of lists -/

theorem listSize_ensures (hc : c.Within has) : (listSize c).Ensures has (·.Within has) :=
  .bind (thisList_ensures hc _) fun _ _ =>
    .bind (P := fun _ => True) (.read fun _ _ => trivial) fun _ _ => .pure trivial

theorem listPush_ensures (hc : c.Within has) : (listPush c).Ensures has (·.Within has) := by
  refine .bind (thisList_ensures hc _) ?_
  intro this _
  refine .bind (.update (fun table v hv => ?_) fun _ _ _ h => .inl h) fun _ _ => .pure trivial
  rcases Array.mem_push.mp hv with hv | rfl
  · exact .inl hv
  · exact .inr (hc.arg 0)

/-- What is left after the last element was taken away was there before. -/
theorem mem_of_mem_pop {vs : Array Value} {v : Value} (h : v ∈ vs.pop) : v ∈ vs := by
  rw [← Array.mem_toList_iff, Array.toList_pop] at h
  exact Array.mem_toList_iff.mp ((List.dropLast_sublist _).subset h)

theorem listPop_ensures (hc : c.Within has) : (listPop c).Ensures has (·.Within has) := by
  refine .bind (thisList_ensures hc _) ?_
  intro this _
  refine .bind (P := fun last => ∀ v, last = some v → v.Within has) ?_ fun last hlast => ?_
  · refine .read fun s hs v hv => hs.item (t := this) (Array.mem_toList_iff.mpr ?_)
    exact Array.mem_of_back? hv
  · refine .bind (.update (fun table v hv => .inl ?_) fun _ _ _ h => .inl h) fun _ _ => ?_
    · exact mem_of_mem_pop hv
    · cases last with
      | none => exact .pure trivial
      | some v => exact .pure (hlast v rfl)

theorem listGet_ensures (hc : c.Within has) : (listGet c).Ensures has (·.Within has) := by
  refine .bind (thisList_ensures hc _) ?_
  intro this _
  refine .bind (P := fun r => ∀ v, r = .ok v → v.Within has) ?_ fun r hr => .ofIndex hr
  exact .read fun s hs v hv => hs.index hv

theorem listSet_ensures (hc : c.Within has) : (listSet c).Ensures has (·.Within has) := by
  have hv : (c.arg 1).Within has := hc.arg 1
  refine .bind (thisList_ensures hc _) ?_
  intro this _
  dsimp only
  split
  next k _ =>
    refine .bind (.update (fun _ _ h => .inl h) fun table k' w hw => ?_) fun _ _ => .pure trivial
    rcases Tables.Within.lookup_setEntry hw with hw | rfl
    · exact .inl hw
    · exact .inr hv
  next n _ =>
    refine .bind (P := fun _ => True) (.read fun _ _ => trivial) fun r _ => ?_
    refine .bind (P := fun _ => True) (.ofIndex fun _ _ => trivial) fun p _ => ?_
    refine .bind (.update (fun table w hw => ?_) fun _ _ _ h => .inl h) fun _ _ => .pure trivial
    rcases Array.mem_or_eq_of_mem_setIfInBounds hw with hw | rfl
    · exact .inl hw
    · exact .inr hv
  · exact .bind (P := fun _ => True) .invalidArgument fun _ _ => .pure trivial

theorem listContains_ensures (hc : c.Within has) : (listContains c).Ensures has (·.Within has) :=
  .bind (thisList_ensures hc _) fun _ _ =>
    .bind (P := fun _ => True) (.read fun _ _ => trivial) fun _ _ => .pure trivial

theorem listJoin_ensures (hc : c.Within has) : (listJoin c).Ensures has (·.Within has) :=
  .bind (thisList_ensures hc _) fun _ _ => .bind .string fun _ _ =>
    .bind .items fun vs _ => .bind (.displayAll vs) fun _ _ => .pure trivial

theorem primitives_faithful : ∀ f ∈ primitives, f.2.Faithful := by
  unfold primitives
  simp only [List.forall_mem_cons]
  exact ⟨fun _ _ hc => className_ensures hc,
    fun _ _ hc => boolNot_ensures hc, fun _ _ hc => boolBoth_ensures hc,
    fun _ _ hc => boolEither_ensures hc, fun _ _ hc => boolXor_ensures hc,
    fun _ _ hc => boolToNumber_ensures hc, fun _ _ hc => boolToString_ensures hc,
    fun _ _ hc => numberAdd_ensures hc, fun _ _ hc => numberSub_ensures hc,
    fun _ _ hc => numberMul_ensures hc, fun _ _ hc => numberDiv_ensures hc,
    fun _ _ hc => numberFloor_ensures hc, fun _ _ hc => numberToString_ensures hc,
    fun _ _ hc => stringSize_ensures hc, fun _ _ hc => stringGet_ensures hc,
    fun _ _ hc => stringUpper_ensures hc, fun _ _ hc => stringLower_ensures hc,
    fun _ _ hc => stringContains_ensures hc, fun _ _ hc => stringSplit_ensures hc,
    fun _ _ hc => stringFormat_ensures hc,
    fun _ _ hc => listSize_ensures hc, fun _ _ hc => listPush_ensures hc,
    fun _ _ hc => listPop_ensures hc, fun _ _ hc => listGet_ensures hc,
    fun _ _ hc => listSet_ensures hc, fun _ _ hc => listContains_ensures hc,
    fun _ _ hc => listJoin_ensures hc, fun _ h => nomatch h⟩

/-! ## Builders -/

theorem builderText_ensures (hc : c.Within has) (path : String) :
    (builderText c path).Ensures has fun _ => True := by
  refine .bind (.state hc) ?_
  intro state _
  split
  · exact .pure trivial
  · exact .failLink

/-- The builder that the call is on is the result. -/
theorem builderAppend_ensures (hc : c.Within has) : (builderAppend c).Ensures has (·.Within has) :=
  .bind (builderText_ensures hc _) fun _ _ => .bind .display fun _ _ =>
    .bind (.change fun _ hs => hs) fun _ _ => .bind (.instanceAt hc) fun _ hs => .pure hs

theorem builderBuild_ensures (hc : c.Within has) : (builderBuild c).Ensures has (·.Within has) :=
  .bind (builderText_ensures hc _) fun _ _ =>
    .bind (P := fun _ => True) (.read fun _ _ => trivial) fun _ _ => .pure trivial

theorem builderFunctions_faithful : ∀ f ∈ builderFunctions, f.2.Faithful := by
  unfold builderFunctions
  simp only [List.forall_mem_cons]
  exact ⟨fun _ _ hc => builderAppend_ensures hc, fun _ _ hc => builderBuild_ensures hc,
    fun _ h => nomatch h⟩

theorem builderClasses_faithful : ∀ c ∈ builderClasses, c.2.Faithful := by
  unfold builderClasses
  simp only [List.forall_mem_cons]
  refine ⟨fun _ _ _ => ?_, fun _ h => nomatch h⟩
  exact .bind (P := fun _ => True) (.take fun _ hs => ⟨hs, trivial⟩) fun _ _ => .pure trivial

theorem link_faithful : link.Faithful where
  functions f hf := by
    rcases List.mem_append.mp hf with hf | hf
    · rcases List.mem_append.mp hf with hf | hf
      · exact globals_faithful f hf
      · exact primitives_faithful f hf
    · exact builderFunctions_faithful f hf
  classes := builderClasses_faithful

end IslandScript.Core

namespace IslandScript

theorem Linker.Faithful.new : Linker.new.Faithful where
  function h := nomatch h
  cls h := nomatch h
  available link hlink := by
    rw [List.mem_singleton.mp hlink]
    exact Core.link_faithful

end IslandScript
