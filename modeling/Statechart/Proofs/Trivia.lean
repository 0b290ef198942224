import Mathlib.Data.List.DropRight
import Mathlib.Data.List.TakeWhile
import Mathlib.Order.Lattice
import Statechart.Splice.Matching

/-!
# Scanning trivia

Scanning from a position goes on from what is left of the text there. Blanks and a comment that
are skipped first make no difference to where white space and comments end, and so the tail of
an entry ends before they do.

* `skipTrivia_skipInlineBlanks`, `skipTrivia_skipLineComment`: what may be skipped first;
* `itemTailEnd_mem`: the tail of an entry ends before the trivia behind it or its comma do.
-/

namespace Statechart.Text

variable {text : Bytes} {pos : Nat}

/-! ## What is left of a text -/

theorem drop_length_takeWhile (p : UInt8 → Bool) (bytes : Bytes) :
    bytes.drop (bytes.takeWhile p).length = bytes.dropWhile p := by
  calc bytes.drop (bytes.takeWhile p).length
      = (bytes.takeWhile p ++ bytes.dropWhile p).drop (bytes.takeWhile p).length := by
        rw [List.takeWhile_append_dropWhile]
    _ = bytes.dropWhile p := List.drop_left

theorem drop_eq_cons_of_getElem? {byte : UInt8} (h : text[pos]? = some byte) :
    text.drop pos = byte :: text.drop (pos + 1) := by
  obtain ⟨hpos, rfl⟩ := List.getElem?_eq_some_iff.1 h
  exact List.drop_eq_getElem_cons hpos

/-- A text ends with its suffixes. -/
theorem drop_length_sub {bytes rest : Bytes} (h : rest <:+ bytes) :
    bytes.drop (bytes.length - rest.length) = rest := by
  obtain ⟨before, rfl⟩ := h
  rw [List.length_append, Nat.add_sub_cancel, List.drop_left]

theorem drop_add_length {part rest : Bytes} (h : text.drop pos = part ++ rest) :
    text.drop (pos + part.length) = rest := by
  rw [← List.drop_drop, h, List.drop_left]

theorem add_length_le {part rest : Bytes} (hpos : pos ≤ text.length)
    (h : text.drop pos = part ++ rest) : pos + part.length ≤ text.length := by
  have hlength := congrArg List.length h
  rw [List.length_drop, List.length_append] at hlength
  omega

theorem drop_skipInlineBlanks (text : Bytes) (pos : Nat) :
    text.drop (skipInlineBlanks text pos) = (text.drop pos).dropWhile isInlineBlank := by
  rw [skipInlineBlanks, ← List.drop_drop, drop_length_takeWhile]

theorem le_skipInlineBlanks (text : Bytes) (pos : Nat) : pos ≤ skipInlineBlanks text pos :=
  Nat.le_add_right _ _

theorem skipInlineBlanks_le (hpos : pos ≤ text.length) :
    skipInlineBlanks text pos ≤ text.length := by
  have htake := (List.takeWhile_prefix isInlineBlank (l := text.drop pos)).length_le
  rw [List.length_drop] at htake
  rw [skipInlineBlanks]
  omega

theorem drop_lineEnd (hpos : pos ≤ text.length) :
    text.drop (lineEnd text pos) = (text.drop pos).dropWhile (· != lineFeed) := by
  rw [lineEnd, Nat.min_eq_left hpos, ← List.drop_drop, drop_length_takeWhile]

theorem le_lineEnd (hpos : pos ≤ text.length) : pos ≤ lineEnd text pos := by
  rw [lineEnd, Nat.min_eq_left hpos]
  exact Nat.le_add_right _ _

theorem lt_lineEnd {rest : Bytes} {byte : UInt8} (h : text.drop pos = byte :: rest)
    (hbyte : byte ≠ lineFeed) : pos < lineEnd text pos := by
  have hpos : pos ≤ text.length := by
    by_contra hlt
    rw [List.drop_of_length_le (by omega)] at h
    cases h
  rw [lineEnd, Nat.min_eq_left hpos, h, List.takeWhile_cons, if_pos (bne_iff_ne.2 hbyte),
    List.length_cons]
  omega

theorem lineEnd_le (text : Bytes) (pos : Nat) : lineEnd text pos ≤ text.length := by
  have htake := (List.takeWhile_prefix (· != lineFeed) (l := text.drop pos)).length_le
  rw [List.length_drop] at htake
  rw [lineEnd]
  omega

theorem suffix_of_afterClose? : ∀ {bytes rest : Bytes}, afterClose? bytes = some rest →
    rest <:+ bytes
  | a :: b :: l, rest, h => by
    rw [afterClose?] at h
    split at h
    · cases h
      exact ⟨[a, b], rfl⟩
    · exact (suffix_of_afterClose? h).trans (List.suffix_cons a _)

/-! ## Where trivia end -/

theorem dropWhile_isSpace_of_isInlineBlank (bytes : Bytes) :
    (bytes.dropWhile isInlineBlank).dropWhile isSpace = bytes.dropWhile isSpace := by
  induction bytes with
  | nil => rfl
  | cons byte bytes ih =>
    rw [List.dropWhile_cons]
    split
    · next hblank =>
      have hspace : isSpace byte = true := by
        simp only [isInlineBlank] at hblank
        simp only [isSpace, hblank, Bool.true_or]
      rw [ih, List.dropWhile_cons, if_pos hspace]
    · rfl

theorem afterTrivia_congr {bytes bytes' : Bytes}
    (h : bytes.dropWhile isSpace = bytes'.dropWhile isSpace) :
    afterTrivia bytes = afterTrivia bytes' := by
  rw [afterTrivia, afterTrivia, h]

theorem afterTrivia_dropWhile (bytes : Bytes) :
    afterTrivia (bytes.dropWhile isInlineBlank) = afterTrivia bytes :=
  afterTrivia_congr (dropWhile_isSpace_of_isInlineBlank bytes)

theorem length_afterTrivia_le (bytes : Bytes) :
    (afterTrivia bytes).length ≤ (bytes.dropWhile isSpace).length := by
  fun_induction afterTrivia bytes with
  | case1 bytes rest hopen ih =>
    have hmark := length_of_opening_line hopen
    have hline := List.length_dropWhile_le (· != lineFeed) rest
    have hspace := List.length_dropWhile_le isSpace (rest.dropWhile (· != lineFeed))
    omega
  | case2 bytes rest hopen rest' hclose ih =>
    have hmark := length_of_opening_block hopen
    have hrest := length_of_afterClose? hclose
    have hspace := List.length_dropWhile_le isSpace rest'
    omega
  | case3 => exact Nat.zero_le _
  | case4 => exact le_rfl

theorem le_skipTrivia (hpos : pos ≤ text.length) : pos ≤ skipTrivia text pos := by
  have hafter := length_afterTrivia_le (text.drop pos)
  have hspace := List.length_dropWhile_le isSpace (text.drop pos)
  rw [List.length_drop] at hspace
  rw [skipTrivia]
  omega

/-- A line feed is white space. -/
theorem lt_skipTrivia_of_lineFeed (h : text[pos]? = some lineFeed) :
    pos < skipTrivia text pos := by
  obtain ⟨hpos, hbyte⟩ := List.getElem?_eq_some_iff.1 h
  have hafter := length_afterTrivia_le (text.drop pos)
  rw [List.drop_eq_getElem_cons hpos, hbyte, List.dropWhile_cons,
    if_pos (show isSpace lineFeed = true from rfl), ← hbyte,
    ← List.drop_eq_getElem_cons hpos] at hafter
  have hspace := List.length_dropWhile_le isSpace (text.drop (pos + 1))
  rw [List.length_drop] at hspace
  rw [skipTrivia]
  omega

theorem skipTrivia_skipInlineBlanks (text : Bytes) (pos : Nat) :
    skipTrivia text (skipInlineBlanks text pos) = skipTrivia text pos := by
  rw [skipTrivia, drop_skipInlineBlanks, afterTrivia_dropWhile, skipTrivia]

theorem drop_skipSpaces (text : Bytes) (pos : Nat) :
    text.drop (skipSpaces text pos) = (text.drop pos).dropWhile isSpace := by
  rw [skipSpaces, ← List.drop_drop, drop_length_takeWhile]

theorem skipTrivia_skipSpaces (text : Bytes) (pos : Nat) :
    skipTrivia text (skipSpaces text pos) = skipTrivia text pos := by
  rw [skipTrivia, drop_skipSpaces, afterTrivia_congr (List.dropWhile_idempotent _ _), skipTrivia]

theorem opening_eq_line {bytes rest : Bytes} (h : opening bytes = .line rest) :
    bytes = 0x2F :: 0x2F :: rest := by
  unfold opening at h
  split at h
  · split at h
    · next hmark =>
      cases h
      rw [Bool.and_eq_true, beq_iff_eq, beq_iff_eq] at hmark
      rw [hmark.1, hmark.2]
    · split at h <;> cases h
  · cases h

theorem opening_eq_block {bytes rest : Bytes} (h : opening bytes = .block rest) :
    bytes = 0x2F :: 0x2A :: rest := by
  unfold opening at h
  split at h
  · split at h
    · cases h
    · split at h
      · next hmark =>
        cases h
        rw [Bool.and_eq_true, beq_iff_eq, beq_iff_eq] at hmark
        rw [hmark.1, hmark.2]
      · cases h
  · cases h

theorem afterTrivia_line (rest : Bytes) :
    afterTrivia (0x2F :: 0x2F :: rest) = afterTrivia (rest.dropWhile (· != lineFeed)) := by
  rw [afterTrivia]
  rfl

/-- A block comment that is not closed takes the rest. -/
theorem afterTrivia_block (rest : Bytes) :
    afterTrivia (0x2F :: 0x2A :: rest) = (afterClose? rest).elim [] afterTrivia := by
  rw [afterTrivia]
  split
  · next hopen => cases hopen
  · next hopen =>
    cases hopen
    split
    · next hclose => rw [hclose, Option.elim_some]
    · next hclose => rw [hclose, Option.elim_none]
  · next hopen => cases hopen

theorem afterTrivia_other {bytes : Bytes} (h : opening (bytes.dropWhile isSpace) = .other) :
    afterTrivia bytes = bytes.dropWhile isSpace := by
  rw [afterTrivia]
  split
  · next hopen => cases h.symm.trans hopen
  · next hopen => cases h.symm.trans hopen
  · rfl

theorem skipTrivia_lineEnd {rest : Bytes} (hpos : pos ≤ text.length)
    (h : text.drop pos = 0x2F :: 0x2F :: rest) :
    skipTrivia text (lineEnd text pos) = skipTrivia text pos := by
  rw [skipTrivia, skipTrivia, drop_lineEnd hpos, h, afterTrivia_line]
  rfl

/-- Where a block comment ends. -/
theorem drop_close {rest rest' : Bytes} (h : text.drop pos = 0x2F :: 0x2A :: rest)
    (hclose : afterClose? rest = some rest') :
    text.drop (text.length - rest'.length) = rest' := by
  have hrest : rest <:+ text.drop pos := h ▸ ⟨[0x2F, 0x2A], rfl⟩
  exact drop_length_sub
    (((suffix_of_afterClose? hclose).trans hrest).trans (List.drop_suffix pos text))

theorem skipTrivia_close {rest rest' : Bytes} (h : text.drop pos = 0x2F :: 0x2A :: rest)
    (hclose : afterClose? rest = some rest') :
    skipTrivia text (text.length - rest'.length) = skipTrivia text pos := by
  rw [skipTrivia, skipTrivia, drop_close h hclose, h, afterTrivia_block, hclose, Option.elim_some]

/-- A comment that is skipped first makes no difference. -/
theorem skipTrivia_skipLineComment (hpos : pos ≤ text.length) :
    skipTrivia text (skipLineComment text pos) = skipTrivia text pos := by
  rw [skipLineComment]
  split
  · next rest hopen => exact skipTrivia_lineEnd hpos (opening_eq_line hopen)
  · next rest hopen =>
    split
    · next rest' hclose =>
      dsimp only
      split
      · rfl
      · rw [skipTrivia_skipInlineBlanks, skipTrivia_close (opening_eq_block hopen) hclose]
    · rfl
  · rfl

theorem skipLineComment_mem (hpos : pos ≤ text.length) :
    pos ≤ skipLineComment text pos ∧ skipLineComment text pos ≤ text.length := by
  rw [skipLineComment]
  split
  · exact ⟨le_lineEnd hpos, lineEnd_le text pos⟩
  · next rest hopen =>
    split
    · next rest' hclose =>
      have hmark := length_of_opening_block hopen
      have hrest := length_of_afterClose? hclose
      rw [List.length_drop] at hmark
      dsimp only
      split
      · exact ⟨le_rfl, hpos⟩
      · have hblanks := le_skipInlineBlanks text (text.length - rest'.length)
        exact ⟨by omega, skipInlineBlanks_le (Nat.sub_le _ _)⟩
    · exact ⟨le_rfl, hpos⟩
  · exact ⟨le_rfl, hpos⟩

/-! ## Commas and tails -/

theorem commaAfter_eq_some {comma : Nat} (h : commaAfter text pos = some comma) :
    comma = skipTrivia text pos + 1 ∧ comma ≤ text.length := by
  rw [commaAfter] at h
  split at h
  · next hbyte =>
    cases h
    rw [beq_iff_eq] at hbyte
    exact ⟨rfl, (List.getElem?_eq_some_iff.1 hbyte).1⟩
  · cases h

theorem afterTrivia_comma (rest : Bytes) : afterTrivia (0x2C :: rest) = 0x2C :: rest := by
  rw [afterTrivia]
  split
  · next hopen => cases opening_eq_line hopen
  · next hopen => cases opening_eq_block hopen
  · rfl

theorem skipTrivia_of_comma (h : text[pos]? = some 0x2C) : skipTrivia text pos = pos := by
  have hpos := (List.getElem?_eq_some_iff.1 h).1
  rw [skipTrivia, drop_eq_cons_of_getElem? h, afterTrivia_comma, ← drop_eq_cons_of_getElem? h,
    List.length_drop]
  omega

/-- A comment on the line, and the line feed behind it. -/
theorem lineTail_mem (hpos : pos ≤ text.length) :
    pos ≤ (if text[skipLineComment text pos]? == some lineFeed then skipLineComment text pos + 1
        else skipLineComment text pos) ∧
      (if text[skipLineComment text pos]? == some lineFeed then skipLineComment text pos + 1
        else skipLineComment text pos) ≤ skipTrivia text pos := by
  obtain ⟨hleft, hright⟩ := skipLineComment_mem hpos
  rw [← skipTrivia_skipLineComment hpos]
  split
  · next hfeed => exact ⟨by omega, lt_skipTrivia_of_lineFeed (beq_iff_eq.1 hfeed)⟩
  · exact ⟨hleft, le_skipTrivia hright⟩

/-- The tail of an entry ends before the trivia behind it do, or before those behind its
    comma. -/
theorem itemTailEnd_mem (hpos : pos ≤ text.length) :
    pos ≤ itemTailEnd text pos ∧ (itemTailEnd text pos ≤ skipTrivia text pos ∨
      ∃ comma, commaAfter text pos = some comma ∧
        itemTailEnd text pos ≤ skipTrivia text comma) := by
  have hblanks := le_skipInlineBlanks text pos
  rw [itemTailEnd]
  split
  · next hcomma =>
    have hbyte := beq_iff_eq.1 hcomma
    have hlength : skipInlineBlanks text pos + 1 ≤ text.length :=
      (List.getElem?_eq_some_iff.1 hbyte).1
    have hfound : commaAfter text pos = some (skipInlineBlanks text pos + 1) := by
      rw [commaAfter, ← skipTrivia_skipInlineBlanks, skipTrivia_of_comma hbyte, if_pos hcomma]
    have hblanks' := le_skipInlineBlanks text (skipInlineBlanks text pos + 1)
    obtain ⟨hleft, hright⟩ := lineTail_mem (skipInlineBlanks_le hlength)
    rw [skipTrivia_skipInlineBlanks] at hright
    exact ⟨by omega, .inr ⟨_, hfound, hright⟩⟩
  · obtain ⟨hleft, hright⟩ := lineTail_mem (skipInlineBlanks_le hpos)
    rw [skipTrivia_skipInlineBlanks] at hright
    exact ⟨hblanks.trans hleft, .inl hright⟩

end Statechart.Text
