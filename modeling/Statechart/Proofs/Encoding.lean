import Statechart.Text.Lines

/-!
# Encoded texts

The encoding of a text is that of its parts, one after the other. A position between two parts
falls between two characters, and the text between two positions is the part that stands there.

* `decode_utf8`, `utf8_append`: decoding undoes encoding, part by part;
* `isBoundary_utf8`, `exists_eq_append_of_isBoundary`: where a part ends, a character does, and the
  other way round;
* `slice_utf8`, `utf8_slice`: the text at the place of a part, and between two characters;
* `eq_of_mem_utf8EncodeChar`: a byte of seven bits is a character by itself.
-/

namespace Statechart

theorem decode_utf8 (text : String) : (utf8 text).decode = text := by
  have hbytes : (⟨(utf8 text).toArray⟩ : ByteArray) = text.toByteArray := by
    rw [utf8, Array.toArray_toList]
  rw [Bytes.decode, Bytes.decode?, hbytes, String.fromUTF8?, dif_pos text.isValidUTF8]
  rfl

@[simp]
theorem utf8_empty : utf8 "" = [] :=
  rfl

@[simp]
theorem utf8_append (a b : String) : utf8 (a ++ b) = utf8 a ++ utf8 b := by
  rw [utf8, String.toByteArray_append, ByteArray.toList_data_append, utf8, utf8]

theorem utf8_eq_flatMap (text : String) :
    utf8 text = text.toList.flatMap String.utf8EncodeChar := by
  rw [utf8, ← String.ofList_toList (s := text), String.toByteArray_ofList, List.utf8Encode,
    List.data_toByteArray, List.toList_toArray, String.toList_ofList]

theorem length_utf8_pos {text : String} (h : text ≠ "") : 0 < (utf8 text).length := by
  refine Nat.pos_of_ne_zero fun hzero => h ?_
  rw [← decode_utf8 text, List.eq_nil_of_length_eq_zero hzero, ← utf8_empty, decode_utf8]

/-! ## Bytes of characters -/

/-- A byte of seven bits is a character by itself. -/
theorem eq_of_mem_utf8EncodeChar {c : Char} {byte : UInt8} (h : byte ∈ String.utf8EncodeChar c)
    (hbyte : byte.toNat < 128) : c.toNat = byte.toNat := by
  have hlt : ∀ n : Nat, (UInt8.ofNat n).toNat = n % 256 := fun n => by simp
  simp only [String.utf8EncodeChar] at h
  split at h
  · next hval =>
    rw [List.mem_singleton.1 h, hlt, Nat.mod_eq_of_lt (by omega)]
    rfl
  · -- All bytes of a longer encoding are greater.
    split at h
    · simp only [List.mem_cons, List.not_mem_nil, or_false] at h
      rcases h with rfl | rfl <;> · rw [hlt] at hbyte; omega
    · split at h
      · simp only [List.mem_cons, List.not_mem_nil, or_false] at h
        rcases h with rfl | rfl | rfl <;> · rw [hlt] at hbyte; omega
      · simp only [List.mem_cons, List.not_mem_nil, or_false] at h
        rcases h with rfl | rfl | rfl | rfl <;> · rw [hlt] at hbyte; omega

theorem length_utf8EncodeChar {c : Char} {byte : UInt8} (h : byte ∈ String.utf8EncodeChar c)
    (hbyte : byte.toNat < 128) : (String.utf8EncodeChar c).length = 1 := by
  have hval : c.val.toNat ≤ 0x7f := by
    have hchar : c.val.toNat = byte.toNat := eq_of_mem_utf8EncodeChar h hbyte
    omega
  simp only [String.utf8EncodeChar, hval, if_true, List.length_singleton]

/-- The first byte of a character continues none, and the others continue it. -/
theorem exists_utf8EncodeChar_eq (c : Char) :
    ∃ byte rest, String.utf8EncodeChar c = byte :: rest ∧ Bytes.isContinuation byte = false ∧
      ∀ b ∈ rest, Bytes.isContinuation b = true := by
  have hcontinues : ∀ n : Nat, n < 256 →
      (Bytes.isContinuation (UInt8.ofNat n) = true ↔ 128 ≤ n ∧ n < 192) := by
    intro n hn
    have hval : (UInt8.ofNat n).toNat = n := by simpa using hn
    simp only [Bytes.isContinuation, Bool.and_eq_true, decide_eq_true_eq,
      UInt8.le_iff_toNat_le, UInt8.lt_iff_toNat_lt, hval]
    rfl
  have hstart : ∀ n : Nat, n < 256 → n < 128 ∨ 192 ≤ n →
      Bytes.isContinuation (UInt8.ofNat n) = false := by
    intro n hn hor
    rw [← Bool.not_eq_true, hcontinues n hn]
    omega
  have hnext : ∀ n : Nat, Bytes.isContinuation (UInt8.ofNat (n % 64 + 128)) = true := fun n =>
    (hcontinues _ (by omega)).2 (by omega)
  simp only [String.utf8EncodeChar]
  split
  · exact ⟨_, _, rfl, hstart _ (by omega) (by omega), fun _ h => absurd h List.not_mem_nil⟩
  · split
    · refine ⟨_, _, rfl, hstart _ (by omega) (by omega), ?_⟩
      simp only [List.mem_cons, List.not_mem_nil, or_false, forall_eq, hnext]
    · split
      all_goals
        refine ⟨_, _, rfl, hstart _ (by omega) (by omega), ?_⟩
        simp only [List.mem_cons, List.not_mem_nil, or_false, forall_eq_or_imp, forall_eq, hnext,
          and_self]

/-- A line feed in the encoding is one in the text. -/
theorem lineFeed_not_mem_utf8 {text : String} (h : '\n' ∉ text.toList) :
    Text.lineFeed ∉ utf8 text := by
  rw [utf8_eq_flatMap]
  intro hmem
  obtain ⟨c, hc, hbyte⟩ := List.mem_flatMap.1 hmem
  have hval : c.toNat = '\n'.toNat := eq_of_mem_utf8EncodeChar hbyte (by decide)
  exact h (Char.toNat_inj.1 hval ▸ hc)

/-! ## Parts of a text -/

theorem isBoundary_zero (bytes : Bytes) : bytes.isBoundary 0 = true := by
  cases bytes <;> rfl

theorem isBoundary_length (bytes : Bytes) : bytes.isBoundary bytes.length = true := by
  rw [Bytes.isBoundary, List.getElem?_eq_none (Nat.le_refl _)]
  exact beq_self_eq_true _

theorem le_of_isBoundary {bytes : Bytes} {pos : Nat} (h : bytes.isBoundary pos = true) :
    pos ≤ bytes.length := by
  refine Nat.le_of_not_lt fun hlt => ?_
  rw [Bytes.isBoundary, List.getElem?_eq_none (Nat.le_of_lt hlt), beq_iff_eq] at h
  omega

/-- Where a part of a text ends, a character does. -/
theorem isBoundary_utf8 (a b : String) : (utf8 (a ++ b)).isBoundary (utf8 a).length = true := by
  rw [utf8_append, Bytes.isBoundary, List.getElem?_append_right (Nat.le_refl _), Nat.sub_self]
  rcases hb : b.toList with - | ⟨c, cs⟩
  · rw [utf8_eq_flatMap b, hb]
    simp
  · obtain ⟨byte, rest, hbyte, hstart, -⟩ := exists_utf8EncodeChar_eq c
    rw [utf8_eq_flatMap b, hb, List.flatMap_cons, hbyte]
    simp [hstart]

/-- Where a character ends behind some bytes, one ends in what follows them. -/
theorem isBoundary_of_append {a b : Bytes} {pos : Nat} (hle : a.length ≤ pos)
    (h : (a ++ b).isBoundary pos = true) : b.isBoundary (pos - a.length) = true := by
  rw [Bytes.isBoundary, List.getElem?_append_right hle] at h
  rw [Bytes.isBoundary]
  cases hfound : b[pos - a.length]? with
  | some byte =>
    rw [hfound] at h
    simp only [Bool.or_eq_true, beq_iff_eq] at h ⊢
    exact h.imp_left fun hzero => by omega
  | none =>
    rw [hfound] at h
    simp only [beq_iff_eq, List.length_append] at h ⊢
    omega

/-- Where a character ends, characters can be divided. -/
theorem exists_append_of_isBoundary {cs : List Char} {pos : Nat}
    (h : Bytes.isBoundary (cs.flatMap String.utf8EncodeChar) pos = true) :
    ∃ a b, cs = a ++ b ∧ (a.flatMap String.utf8EncodeChar).length = pos := by
  induction cs generalizing pos with
  | nil => exact ⟨[], [], rfl, (beq_iff_eq.1 h).symm⟩
  | cons c cs ih =>
    by_cases hzero : pos = 0
    · exact ⟨[], c :: cs, rfl, hzero.symm⟩
    obtain ⟨byte, rest, hbyte, -, hrest⟩ := exists_utf8EncodeChar_eq c
    rw [List.flatMap_cons] at h
    by_cases hin : pos < (String.utf8EncodeChar c).length
    · -- Inside of a character all bytes continue it.
      have hlength : pos - 1 < rest.length := by
        rw [hbyte, List.length_cons] at hin
        omega
      rw [Bytes.isBoundary, List.getElem?_append_left hin, hbyte, List.getElem?_cons,
        if_neg hzero, List.getElem?_eq_getElem hlength] at h
      dsimp only at h
      rw [hrest _ (List.getElem_mem _), beq_eq_false_iff_ne.2 hzero] at h
      cases h
    · have hle := Nat.le_of_not_lt hin
      obtain ⟨a, b, rfl, ha⟩ := ih (isBoundary_of_append hle h)
      refine ⟨c :: a, b, rfl, ?_⟩
      rw [List.flatMap_cons, List.length_append, ha, Nat.add_sub_cancel' hle]

/-- A position that falls between two characters divides a text. -/
theorem exists_eq_append_of_isBoundary {text : String} {pos : Nat}
    (h : (utf8 text).isBoundary pos = true) :
    ∃ a b, text = a ++ b ∧ (utf8 a).length = pos := by
  rw [utf8_eq_flatMap] at h
  obtain ⟨a, b, hsplit, hlength⟩ := exists_append_of_isBoundary h
  refine ⟨String.ofList a, String.ofList b, ?_, ?_⟩
  · rw [← String.ofList_append, ← hsplit, String.ofList_toList]
  · rw [utf8_eq_flatMap, String.toList_ofList, hlength]

/-- A byte of seven bits stands at the start of a character, and a character ends behind it. -/
theorem isBoundary_of_getElem? {text : String} {pos : Nat} {byte : UInt8}
    (h : (utf8 text)[pos]? = some byte) (hbyte : byte.toNat < 128) :
    (utf8 text).isBoundary pos = true ∧ (utf8 text).isBoundary (pos + 1) = true := by
  have hstart : (utf8 text).isBoundary pos = true := by
    have hcontinues : Bytes.isContinuation byte = false := by
      rw [Bytes.isContinuation, Bool.and_eq_false_iff, decide_eq_false_iff_not,
        UInt8.le_iff_toNat_le]
      exact .inl (Nat.not_le_of_lt hbyte)
    simp [Bytes.isBoundary, h, hcontinues]
  refine ⟨hstart, ?_⟩
  obtain ⟨a, b, rfl, rfl⟩ := exists_eq_append_of_isBoundary hstart
  rw [utf8_append, List.getElem?_append_right (Nat.le_refl _), Nat.sub_self,
    utf8_eq_flatMap b] at h
  rcases hb : b.toList with - | ⟨c, cs⟩
  · rw [hb] at h
    cases h
  · have hmem : byte ∈ String.utf8EncodeChar c := by
      obtain ⟨first, rest, hfirst, -⟩ := exists_utf8EncodeChar_eq c
      rw [hb, List.flatMap_cons, hfirst] at h
      rw [hfirst, ← Option.some.inj h]
      exact List.mem_cons_self
    have hsplit : a ++ b = (a ++ String.ofList [c]) ++ String.ofList cs := by
      rw [String.append_assoc, ← String.ofList_append, List.singleton_append, ← hb,
        String.ofList_toList]
    have hlength : (utf8 (a ++ String.ofList [c])).length = (utf8 a).length + 1 := by
      rw [utf8_append, List.length_append, utf8_eq_flatMap (String.ofList [c]),
        String.toList_ofList, List.flatMap_singleton, length_utf8EncodeChar hmem hbyte]
    rw [hsplit, ← hlength]
    exact isBoundary_utf8 _ _

theorem range_self (text : Bytes) (pos : Nat) : text.range pos pos = [] := by
  rw [Bytes.range, Nat.sub_self, List.take_zero]

theorem range_of_le {text : Bytes} {pos stop : Nat} (h : stop ≤ pos) :
    text.range pos stop = [] := by
  rw [Bytes.range, Nat.sub_eq_zero_of_le h, List.take_zero]

theorem range_append (a b c : Bytes) :
    (a ++ b ++ c).range a.length (a.length + b.length) = b := by
  rw [Bytes.range, List.append_assoc, List.drop_left, Nat.add_sub_cancel_left, List.take_left]

/-- The text at the place of a part. -/
theorem slice_utf8 (a b c : String) :
    (utf8 (a ++ b ++ c)).slice (utf8 a).length ((utf8 a).length + (utf8 b).length) = b := by
  have hle : (utf8 a).length + (utf8 b).length ≤ (utf8 (a ++ b ++ c)).length := by
    rw [utf8_append, utf8_append, List.length_append, List.length_append]
    exact Nat.le_add_right _ _
  rw [Bytes.slice, if_pos ⟨Nat.le_add_right _ _, hle⟩, utf8_append, utf8_append, range_append,
    decode_utf8]

/-- The text between two positions that fall between characters is encoded by the bytes there. -/
theorem utf8_slice {text : String} {start stop : Nat} (hle : start ≤ stop)
    (hstop : stop ≤ (utf8 text).length) (hstart : (utf8 text).isBoundary start = true)
    (hend : (utf8 text).isBoundary stop = true) :
    utf8 ((utf8 text).slice start stop) = (utf8 text).range start stop := by
  obtain ⟨a, rest, rfl, rfl⟩ := exists_eq_append_of_isBoundary hstart
  rw [utf8_append] at hend
  obtain ⟨b, c, rfl, hlength⟩ := exists_eq_append_of_isBoundary (isBoundary_of_append hle hend)
  obtain rfl : stop = (utf8 a).length + (utf8 b).length := by omega
  rw [← String.append_assoc, slice_utf8, utf8_append, utf8_append, range_append]

end Statechart
