import IslandScript.Proofs.Text.Split

/-!
# Texts as bytes

A text is kept as the bytes of its characters, and a search among bytes knows nothing of characters. But a
text that is not empty stands among the bytes of another only where it occurs in it as a text
(`exists_append_of_bytesOccurAt`). So what is first found among the bytes is its first occurrence, and none
is found if it does not occur.
-/

namespace IslandScript.Text

variable {part s u v : List Char} {place : Nat}

/-- How many bytes a text takes. -/
def byteSize (s : List Char) : Nat := (String.ofList s).utf8ByteSize

/-- The bytes of a text stand at a place among the bytes of another. -/
def BytesOccurAt (part s : List Char) (place : Nat) : Prop :=
  (String.ofList s).toByteArray.extract place (place + byteSize part) = (String.ofList part).toByteArray

@[simp] theorem byteSize_append (u v : List Char) : byteSize (u ++ v) = byteSize u + byteSize v := by
  rw [byteSize, String.ofList_append, String.utf8ByteSize_append]
  rfl

theorem byteSize_toList (s : String) : byteSize s.toList = s.utf8ByteSize := by
  rw [byteSize, String.ofList_toList]

theorem byteSize_pos (h : s ≠ []) : 0 < byteSize s := by
  rw [byteSize, Nat.pos_iff_ne_zero]
  simpa using h

theorem extract_between (before mid behind : String) :
    (before ++ (mid ++ behind)).toByteArray.extract before.utf8ByteSize
      (before.utf8ByteSize + mid.utf8ByteSize) = mid.toByteArray := by
  rw [String.toByteArray_append, String.toByteArray_append, ← String.size_toByteArray,
    ← String.size_toByteArray]
  exact (ByteArray.extract_append_size_add (i := 0)).trans (ByteArray.extract_append_eq_left rfl)

/-- Where a text occurs, its bytes stand. -/
theorem bytesOccurAt_append (part u v : List Char) : BytesOccurAt part (u ++ part ++ v) (byteSize u) := by
  rw [BytesOccurAt, List.append_assoc, String.ofList_append, String.ofList_append]
  exact extract_between _ _ _

/-- The bytes of a text that is not empty stand only where it occurs, between two characters. -/
theorem exists_append_of_bytesOccurAt (hne : part ≠ []) (h : BytesOccurAt part s place) :
    ∃ u v, s = u ++ part ++ v ∧ place = byteSize u := by
  have hpos := byteSize_pos hne
  have hend : place + byteSize part ≤ byteSize s := by
    have hsize := congrArg ByteArray.size h
    rw [ByteArray.size_extract, String.size_toByteArray, String.size_toByteArray] at hsize
    simp only [byteSize] at hpos hsize ⊢
    omega
  -- cut out of a valid encoding, a valid one starts and ends at the boundaries of characters
  obtain ⟨hstart, hstop⟩ :
      String.Pos.Raw.IsValid (String.ofList s) ⟨place⟩ ∧
        String.Pos.Raw.IsValid (String.ofList s) ⟨place + byteSize part⟩ := by
    have hvalid : ((String.ofList s).toByteArray.extract place (place + byteSize part)).IsValidUTF8 := by
      rw [h]
      exact (String.ofList part).isValidUTF8
    refine ((String.Pos.Raw.isValidUTF8_extract_iff ⟨place⟩ ⟨place + byteSize part⟩ ?_ ?_).mp
      hvalid).resolve_left ?_
    · simp [String.Pos.Raw.le_iff]
    · rw [String.Pos.Raw.le_iff, String.byteIdx_rawEndPos]
      exact hend
    · intro heq
      have hidx := congrArg String.Pos.Raw.byteIdx heq
      dsimp only at hidx
      omega
  obtain ⟨before, behind, hs, hbefore⟩ := String.Pos.Raw.isValid_iff_exists_append.mp hstart
  obtain rfl : place = before.utf8ByteSize := congrArg String.Pos.Raw.byteIdx hbefore
  rw [hs, String.Pos.Raw.isValid_append] at hstop
  rcases hstop with hstop | ⟨-, hstop⟩
  · have hle := hstop.le_rawEndPos
    rw [String.Pos.Raw.le_iff, String.byteIdx_rawEndPos] at hle
    dsimp only at hle
    omega
  · obtain ⟨mid, rest, rfl, hmid⟩ := String.Pos.Raw.isValid_iff_exists_append.mp hstop
    have hsize : byteSize part = mid.utf8ByteSize := by
      have hidx := congrArg String.Pos.Raw.byteIdx hmid
      simpa using hidx
    rw [BytesOccurAt, hs, hsize, extract_between, String.toByteArray_inj] at h
    refine ⟨before.toList, rest.toList, ?_, (byteSize_toList before).symm⟩
    have hlist := congrArg String.toList hs
    rw [String.toList_ofList, String.toList_append, String.toList_append, h, String.toList_ofList,
      ← List.append_assoc] at hlist
    exact hlist

/-- The first occurrence of a text is the first place at which its bytes stand. -/
theorem bytesOccurAt_first (hne : part ≠ [])
    (hfirst : ∀ place < u.length, ¬OccursAt part (u ++ part ++ v) place) :
    BytesOccurAt part (u ++ part ++ v) (byteSize u) ∧
      ∀ k < byteSize u, ¬BytesOccurAt part (u ++ part ++ v) k := by
  refine ⟨bytesOccurAt_append part u v, fun k hk h => ?_⟩
  obtain ⟨u', v', hs, rfl⟩ := exists_append_of_bytesOccurAt hne h
  refine hfirst u'.length (Nat.lt_of_not_le fun hle => ?_) (hs ▸ occursAt_length part u' v')
  -- a text that ends no earlier than another takes no fewer bytes
  have hu : u <+: u ++ part ++ v := ⟨part ++ v, (List.append_assoc _ _ _).symm⟩
  have hu' : u' <+: u ++ part ++ v := ⟨part ++ v', by rw [hs, List.append_assoc]⟩
  obtain ⟨more, rfl⟩ := List.prefix_of_prefix_length_le hu hu' hle
  rw [byteSize_append] at hk
  omega

/-- What does not occur is not found among the bytes. -/
theorem not_bytesOccurAt (hne : part ≠ []) (h : ∀ place, ¬OccursAt part s place) (k : Nat) :
    ¬BytesOccurAt part s k := by
  intro hbytes
  obtain ⟨u, v, rfl, -⟩ := exists_append_of_bytesOccurAt hne hbytes
  exact h u.length (occursAt_length part u v)

end IslandScript.Text
