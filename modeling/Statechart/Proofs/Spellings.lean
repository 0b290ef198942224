import Mathlib.Algebra.BigOperators.Group.List.Basic
import Mathlib.Data.Nat.Digits.Defs
import Statechart.Proofs.StringLiterals

/-!
# Spellings

A character can be written in a string literal in several ways: as it is, by its code point, or by
its code units. All of them are read, in any mixture, but for the surrogate pairs of characters
beyond the first 65536: the two escapes of a pair are read one by one, and neither stands for a
character.

* `IsHex`: hexadecimal numerals and their values;
* `Spelling`, `Spelling.Spells`: the ways to write a character;
* `cookBody_text`, `cookBody_pair`: how each of them is read;
* `cook_spelled_iff`: a literal has the value that it spells just if it has no surrogate pairs.
-/

namespace Statechart.Text

variable {mark : Char}

/-! ## Hexadecimal numerals -/

/-- The hexadecimal digits of either case, in the order of their values. -/
def hexDigits : List (List Char) :=
  ["0123456789abcdef".toList, "0123456789ABCDEF".toList]

/-- A hexadecimal digit, with its value. -/
def IsHexDigit (digit : Char) (value : Nat) : Prop :=
  ∃ digits ∈ hexDigits, digits[value]? = some digit

/-- A hexadecimal numeral, with its value. -/
def IsHex (digits : List Char) (n : Nat) : Prop :=
  digits ≠ [] ∧
    ∃ values, List.Forall₂ IsHexDigit digits values ∧ Nat.ofDigits 16 values.reverse = n

theorem hexDigit?_of_isHexDigit {digit : Char} {value : Nat} (h : IsHexDigit digit value) :
    hexDigit? digit = some value := by
  have hread : ∀ digits ∈ hexDigits, ∀ v < digits.length,
      digits[v]?.bind hexDigit? = some v := by decide +kernel
  obtain ⟨digits, hdigits, hvalue⟩ := h
  have hlt := (List.getElem?_eq_some_iff.1 hvalue).1
  rw [← hread digits hdigits value hlt, hvalue, Option.bind_some]

/-- Signs and braces are no digits. -/
theorem IsHexDigit.ne {digit other : Char} {value : Nat} (h : IsHexDigit digit value)
    (hother : hexDigit? other = none) : digit ≠ other := by
  rintro rfl
  rw [hexDigit?_of_isHexDigit h] at hother
  cases hother

/-- The digits of a numeral are added to the value of those before it. -/
theorem hexFrom?_of_digits {digits : List Char} {values : List Nat}
    (h : List.Forall₂ IsHexDigit digits values) (n : Nat) :
    hexFrom? n digits = some (n * 16 ^ values.length + Nat.ofDigits 16 values.reverse) := by
  induction h generalizing n with
  | nil => simp [hexFrom?]
  | cons hdigit _ ih =>
    rw [hexFrom?, hexDigit?_of_isHexDigit hdigit, Option.bind_some, ih, List.reverse_cons,
      Nat.ofDigits_append, Nat.ofDigits_singleton, List.length_reverse, List.length_cons, pow_succ]
    congr 1
    ring

theorem IsHex.exists_cons {digits : List Char} {n : Nat} (h : IsHex digits n) :
    ∃ digit rest value, digits = digit :: rest ∧ IsHexDigit digit value := by
  obtain ⟨hne, values, hvalues, -⟩ := h
  cases hvalues with
  | nil => exact absurd rfl hne
  | cons hdigit _ => exact ⟨_, _, _, rfl, hdigit⟩

theorem hex?_of_isHex {digits : List Char} {n : Nat} (h : IsHex digits n) :
    hex? digits = some n := by
  obtain ⟨digit, rest, value, rfl, hdigit⟩ := h.exists_cons
  have hplus : digit ≠ '+' := hdigit.ne (by decide)
  obtain ⟨-, values, hvalues, rfl⟩ := h
  rw [hex?, hexFrom?_of_digits hvalues, Nat.zero_mul, Nat.zero_add]
  · simp
  · exact fun heq => hplus (List.cons.inj heq).1
  · exact fun _ heq => hplus (List.cons.inj heq).1

theorem IsHex.ne_brace {digits : List Char} {n : Nat} (h : IsHex digits n) :
    ∀ c ∈ digits, c ≠ '\x7d' := by
  obtain ⟨-, values, hvalues, -⟩ := h
  clear * - hvalues
  induction hvalues with
  | nil => exact fun c hc => absurd hc List.not_mem_nil
  | cons hdigit _ ih => exact List.forall_mem_cons.2 ⟨hdigit.ne (by decide), ih⟩

/-! ## Spellings -/

/-- A way to write a character in a literal. -/
inductive Spelling where
  /-- The character itself. -/
  | raw
  /-- `\xHH`. -/
  | byte (digits : List Char)
  /-- `\u` and any number of digits in braces. -/
  | braced (digits : List Char)
  /-- `\uHHHH`. -/
  | unit (digits : List Char)
  /-- Two such escapes, for a surrogate pair. -/
  | pair (high low : List Char)

namespace Spelling

/-- What is written for a character. -/
def text (c : Char) : Spelling → List Char
  | raw => [c]
  | byte digits => '\\' :: 'x' :: digits
  | braced digits => '\\' :: 'u' :: '\x7b' :: digits ++ ['\x7d']
  | unit digits => '\\' :: 'u' :: digits
  | pair high low => ('\\' :: 'u' :: high) ++ ('\\' :: 'u' :: low)

/-- Whether a character can be written so between two marks. The escapes of a pair hold the two
    units that UTF-16 has for a character beyond the first 65536. -/
def Spells (mark c : Char) : Spelling → Prop
  | raw => c ≠ mark ∧ c ≠ '\\' ∧ c ≠ '\n' ∧ c ≠ '\r'
  | byte digits => digits.length = 2 ∧ IsHex digits c.toNat
  | braced digits => IsHex digits c.toNat
  | unit digits => digits.length = 4 ∧ IsHex digits c.toNat
  | pair high low => 0xFFFF < c.toNat ∧
    (high.length = 4 ∧ IsHex high (0xD800 + (c.toNat - 0x10000) / 0x400)) ∧
    low.length = 4 ∧ IsHex low (0xDC00 + (c.toNat - 0x10000) % 0x400)

/-- Whether a character is written as a surrogate pair. -/
def isPair : Spelling → Bool
  | pair _ _ => true
  | _ => false

/-- What is read where a character is written so: the character, but for a surrogate pair two
    replacement characters. -/
def reading (c : Char) (spelling : Spelling) : List Char :=
  if spelling.isPair then ['\uFFFD', '\uFFFD'] else [c]

end Spelling

theorem charOfCode?_toNat (c : Char) : charOfCode? c.toNat = some c := by
  have hvalid : c.toNat.isValidChar := c.valid
  rw [charOfCode?, dif_pos hvalid]
  rfl

theorem codePoint_of_isHex {digits : List Char} {c : Char} (h : IsHex digits c.toNat) :
    codePoint digits = c := by
  rw [codePoint, hex?_of_isHex h, Option.bind_some, charOfCode?_toNat, Option.getD_some]

/-- A surrogate stands for no character. -/
theorem codePoint_of_surrogate {digits : List Char} {n : Nat} (h : IsHex digits n)
    (hlow : 0xD800 ≤ n) (hhigh : n ≤ 0xDFFF) : codePoint digits = '\uFFFD' := by
  have hvalid : ¬n.isValidChar := by
    rw [Nat.isValidChar]
    omega
  rw [codePoint, hex?_of_isHex h, Option.bind_some, charOfCode?, dif_neg hvalid, Option.getD_none]

/-! ### Reading spellings -/

theorem escape_byte (cs : List Char) : escape ('x' :: cs) = ([codePoint (cs.take 2)], cs.drop 2) :=
  rfl

theorem escape_braced (cs : List Char) :
    escape ('u' :: '\x7b' :: cs) =
      ([codePoint (cs.takeWhile (· != '\x7d'))], afterBrace cs) :=
  rfl

theorem escape_unit {c : Char} (h : c ≠ '\x7b') (cs : List Char) :
    escape ('u' :: c :: cs) = ([codePoint ((c :: cs).take 4)], (c :: cs).drop 4) := by
  have hcontrol : controlEscape? 'u' = none := by decide
  have hbyte : ('u' == 'x') = false := by decide
  simp only [escape, hcontrol, hbyte, Bool.false_eq_true, if_false, beq_self_eq_true, if_true]
  split
  · next heq => exact absurd (List.cons.inj heq).1 h
  · rfl

/-- An escape of a code unit is read, and what follows it is left. -/
theorem cookBody_unit {digits : List Char} {n : Nat} (hlength : digits.length = 4)
    (h : IsHex digits n) (rest : List Char) :
    cookBody ('\\' :: 'u' :: (digits ++ rest)) = codePoint digits :: cookBody rest := by
  obtain ⟨digit, more, value, rfl, hdigit⟩ := h.exists_cons
  rw [cookBody_backslash, List.cons_append, escape_unit (hdigit.ne (by decide)),
    ← List.cons_append, List.take_left' hlength, List.drop_left' hlength, List.singleton_append]

/-- A character that is not written as a pair is read back. -/
theorem cookBody_text {c : Char} {spelling : Spelling} (h : spelling.Spells mark c)
    (hpair : spelling.isPair = false) (rest : List Char) :
    cookBody (spelling.text c ++ rest) = c :: cookBody rest := by
  cases spelling with
  | raw => exact cookBody_cons h.2.1 rest
  | byte digits =>
    obtain ⟨hlength, h⟩ := h
    change cookBody ('\\' :: 'x' :: (digits ++ rest)) = _
    rw [cookBody_backslash, escape_byte, List.take_left' hlength, List.drop_left' hlength,
      codePoint_of_isHex h, List.singleton_append]
  | braced digits =>
    have hdigits : ∀ d ∈ digits, (d != '\x7d') = true := fun d hd => by
      simpa using h.ne_brace d hd
    have htake : (digits ++ '\x7d' :: rest).takeWhile (· != '\x7d') = digits := by
      rw [List.takeWhile_append_of_pos hdigits]
      exact List.append_nil _
    have hdrop : afterBrace (digits ++ '\x7d' :: rest) = rest := by
      rw [afterBrace, List.dropWhile_append_of_pos hdigits]
      rfl
    change cookBody ('\\' :: 'u' :: '\x7b' :: (digits ++ ['\x7d'] ++ rest)) = _
    rw [List.append_assoc, List.singleton_append, cookBody_backslash, escape_braced, htake, hdrop,
      codePoint_of_isHex h, List.singleton_append]
  | unit digits =>
    obtain ⟨hlength, h⟩ := h
    change cookBody ('\\' :: 'u' :: (digits ++ rest)) = _
    rw [cookBody_unit hlength h, codePoint_of_isHex h]
  | pair => cases hpair

/-- The two escapes of a pair are read one by one, and stand for no character. -/
theorem cookBody_pair {c : Char} {high low : List Char}
    (h : (Spelling.pair high low).Spells mark c) (rest : List Char) :
    cookBody ((Spelling.pair high low).text c ++ rest) =
      '\uFFFD' :: '\uFFFD' :: cookBody rest := by
  obtain ⟨-, ⟨hhigh, hhighHex⟩, hlow, hlowHex⟩ := h
  have hvalid : c.toNat.isValidChar := c.valid
  rw [Nat.isValidChar] at hvalid
  change cookBody ('\\' :: 'u' :: (high ++ ('\\' :: 'u' :: low) ++ rest)) = _
  rw [List.append_assoc, cookBody_unit hhigh hhighHex,
    codePoint_of_surrogate hhighHex (by omega) (by omega)]
  change _ :: cookBody ('\\' :: 'u' :: (low ++ rest)) = _
  rw [cookBody_unit hlow hlowHex, codePoint_of_surrogate hlowHex (by omega) (by omega)]

/-! ### Literals that spell a value -/

/-- A value with a spelling of each of its characters. -/
abbrev Spelled := List (Char × Spelling)

namespace Spelled

/-- The value that is spelled. -/
def value (spelled : Spelled) : String :=
  String.ofList (spelled.map (·.1))

/-- The literal between two marks. -/
def literal (mark : Char) (spelled : Spelled) : String :=
  String.ofList (mark :: (spelled.flatMap fun s => s.2.text s.1) ++ [mark])

end Spelled

/-- What is written for each character is read one after the other. -/
theorem cookBody_spelled {spelled : Spelled} (h : ∀ s ∈ spelled, s.2.Spells mark s.1) :
    cookBody (spelled.flatMap fun s => s.2.text s.1) =
      spelled.flatMap fun s => s.2.reading s.1 := by
  induction spelled with
  | nil => exact cookBody_nil
  | cons s spelled ih =>
    obtain ⟨hs, hspelled⟩ := List.forall_mem_cons.1 h
    obtain ⟨c, spelling⟩ := s
    rw [List.flatMap_cons, List.flatMap_cons, ← ih hspelled]
    cases spelling with
    | pair high low => exact cookBody_pair hs _
    | _ => exact cookBody_text hs rfl _

/-- No character is passed over. -/
theorem length_le_reading (spelled : Spelled) :
    spelled.length ≤ (spelled.flatMap fun s => s.2.reading s.1).length := by
  rw [List.length_flatMap, ← List.length_map (fun s : Char × Spelling => (s.2.reading s.1).length)]
  refine List.length_le_sum_of_one_le _ fun n hn => ?_
  obtain ⟨s, -, rfl⟩ := List.mem_map.1 hn
  rw [Spelling.reading]
  split <;> simp

theorem reading_eq_iff {spelled : Spelled} :
    (spelled.flatMap fun s => s.2.reading s.1) = spelled.map (·.1) ↔
      ∀ s ∈ spelled, s.2.isPair = false := by
  induction spelled with
  | nil => simp
  | cons s spelled ih =>
    rw [List.flatMap_cons, List.map_cons, List.forall_mem_cons, ← ih, Spelling.reading]
    cases s.2.isPair with
    | false => simp
    | true =>
      -- What is read is longer than what is spelled.
      refine iff_of_false (fun heq => ?_) fun hnot => Bool.noConfusion hnot.1
      have hread := congrArg List.length heq
      have hle := length_le_reading spelled
      simp only [if_true, List.length_append, List.length_cons, List.length_map,
        List.length_nil] at hread
      omega

/-- A literal is read as the value that it spells just if none of its characters is written as a
    surrogate pair. -/
theorem cook_spelled_iff {spelled : Spelled} (h : ∀ s ∈ spelled, s.2.Spells mark s.1) :
    cook (spelled.literal mark) = spelled.value ↔ ∀ s ∈ spelled, s.2.isPair = false := by
  rw [Spelled.literal, cook_enclosed, cookBody_spelled h, Spelled.value, String.ofList_inj,
    reading_eq_iff]

/-- Characters in each spelling but that of surrogate pairs. -/
theorem cook_spelled_iff_mixed :
    Spelled.literal '\x27' [('a', .raw), ('"', .byte ['2', '2']), ('é', .unit ['0', '0', 'e', '9']),
      ('😀', .braced ['0', '1', 'F', '6', '0', '0'])] = "'a\\x22\\u00e9\\u\x7b01F600\x7d'" ∧
    cook "'a\\x22\\u00e9\\u\x7b01F600\x7d'" = "a\"é😀" := by
  have hspells : ∀ s ∈ ([('a', .raw), ('"', .byte ['2', '2']), ('é', .unit ['0', '0', 'e', '9']),
      ('😀', .braced ['0', '1', 'F', '6', '0', '0'])] : Spelled), s.2.Spells '\x27' s.1 := by
    simp only [List.forall_mem_cons, Spelling.Spells, IsHex]
    refine ⟨by decide, ⟨rfl, by decide, [2, 2], ?_, rfl⟩,
      ⟨rfl, by decide, [0, 0, 14, 9], ?_, rfl⟩, ⟨by decide, [0, 1, 15, 6, 0, 0], ?_, rfl⟩, by simp⟩
    all_goals simp [IsHexDigit, hexDigits]
  exact ⟨by decide +kernel, (cook_spelled_iff hspells).2 (by decide)⟩

/-- A smiley that is written as a surrogate pair is read as two replacement characters. -/
theorem cook_surrogates :
    Spelling.Spells '\x27' '😀' (.pair ['D', '8', '3', 'D'] ['D', 'E', '0', '0']) ∧
      Spelled.literal '\x27' [('😀', .pair ['D', '8', '3', 'D'] ['D', 'E', '0', '0'])] =
        "'\\uD83D\\uDE00'" ∧
      cook "'\\uD83D\\uDE00'" = "\uFFFD\uFFFD" ∧ "\uFFFD\uFFFD" ≠ "😀" := by
  refine ⟨⟨by decide, ⟨rfl, by decide, [13, 8, 3, 13], ?_, rfl⟩,
    rfl, by decide, [13, 14, 0, 0], ?_, rfl⟩, by decide +kernel, by decide +kernel, by decide⟩
  all_goals simp [IsHexDigit, hexDigits]

end Statechart.Text
