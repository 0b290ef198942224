import Statechart.Proofs.Layouts
import Statechart.Proofs.Trivia

/-!
# Scanning lines

What is found around an entry that stands on a line of its own, with a comma and the line feed
behind it: the start and the indentation of its line, its comma, the end of its tail, and the start
of the comment lines above it.

* `lineStart_append`, `lineStart_lineFeed`: where a line starts;
* `climbComments_eq`: nothing is climbed below a line that is no comment line;
* `OwnLine`: an entry on a line of its own, and what is found around it.
-/

namespace Statechart.Text

/-! ## Lines -/

variable {a b c text rest : Bytes} {pos start : Nat}

theorem takeWhile_ne_lineFeed (h : lineFeed ∉ b) (rest : Bytes) :
    (b ++ rest).takeWhile (· != lineFeed) = b ++ rest.takeWhile (· != lineFeed) :=
  List.takeWhile_append_of_pos fun _ hbyte => bne_iff_ne.2 fun heq => h (heq ▸ hbyte)

theorem dropWhile_ne_lineFeed (h : lineFeed ∉ b) (rest : Bytes) :
    (b ++ rest).dropWhile (· != lineFeed) = rest.dropWhile (· != lineFeed) :=
  List.dropWhile_append_of_pos fun _ hbyte => bne_iff_ne.2 fun heq => h (heq ▸ hbyte)

theorem eq_lineFeed_of_dropWhile {byte : UInt8}
    (h : b.dropWhile (· != lineFeed) = byte :: rest) : byte = lineFeed := by
  have hhead := List.head?_dropWhile_not (· != lineFeed) b
  rw [h] at hhead
  simpa using hhead

/-- Within a line, the line starts where it did. -/
theorem lineStart_append (h : lineFeed ∉ b) :
    lineStart (a ++ b ++ c) (a.length + b.length) = lineStart (a ++ b ++ c) a.length := by
  have htake : (a ++ b ++ c).take (a.length + b.length) = a ++ b := by
    rw [← List.length_append, List.take_left]
  have htake' : (a ++ b ++ c).take a.length = a := by
    rw [List.append_assoc, List.take_left]
  have hreverse : lineFeed ∉ b.reverse := fun hmem => h (List.mem_reverse.1 hmem)
  simp only [lineStart, htake, htake', List.reverse_append, takeWhile_ne_lineFeed hreverse,
    List.length_append, List.length_reverse]
  omega

/-- A line starts behind the line feed. -/
theorem lineStart_lineFeed : lineStart (a ++ [lineFeed] ++ c) (a.length + 1) = a.length + 1 := by
  have htake : (a ++ [lineFeed] ++ c).take (a.length + 1) = a ++ [lineFeed] := by
    rw [show a.length + 1 = (a ++ [lineFeed]).length by simp, List.take_left]
  rw [lineStart, htake, List.reverse_append, List.reverse_singleton, List.singleton_append,
    List.takeWhile_cons, if_neg (by simp), List.length_append]
  rfl

theorem skipInlineBlanks_eq {byte : UInt8} (h : text.drop pos = byte :: rest)
    (hbyte : isInlineBlank byte = false) : skipInlineBlanks text pos = pos := by
  rw [skipInlineBlanks, h, List.takeWhile_cons, if_neg (by simp [hbyte]), List.length_nil,
    Nat.add_zero]

theorem getElem?_of_drop {byte : UInt8} (h : text.drop pos = byte :: rest) :
    text[pos]? = some byte := by
  rw [← Nat.add_zero pos, ← List.getElem?_drop, h, List.getElem?_cons_zero]

/-- The tail of an entry with a comma and the line feed behind it. -/
theorem itemTailEnd_eq (h : text.drop pos = 0x2C :: lineFeed :: rest) :
    itemTailEnd text pos = pos + 2 := by
  have hnext : text.drop (pos + 1) = lineFeed :: rest := by
    rw [← List.drop_drop, h]
    rfl
  have hcomment : skipLineComment text (pos + 1) = pos + 1 := by
    have hopening : opening (text.drop (pos + 1)) = .other := by
      rw [hnext]
      cases rest with
      | nil => rfl
      | cons byte rest => rfl
    rw [skipLineComment, hopening]
  simp only [itemTailEnd, skipInlineBlanks_eq h rfl, getElem?_of_drop h, beq_self_eq_true, if_true,
    skipInlineBlanks_eq hnext rfl, hcomment, getElem?_of_drop hnext]

theorem commaAfter_eq (h : text.drop pos = 0x2C :: rest) :
    commaAfter text pos = some (pos + 1) := by
  have hcomma := getElem?_of_drop h
  rw [commaAfter, skipTrivia_of_comma hcomma, hcomma]
  rfl

/-- Nothing is climbed below a line that is no comment line. -/
theorem climbComments_eq (h : endsCommentLine text (start - 1) = false) :
    climbComments text start = start := by
  rw [endsCommentLine, Bool.or_eq_false_iff, Bool.and_eq_false_iff] at h
  rw [climbComments]
  split
  · simp only [h.1, Bool.false_eq_true, if_false]
    split
    · next hclose =>
      split
      · next opened hopened => simp [hclose, hopened] at h
      · rfl
    · rfl
  · rfl

/-! ## Characters of a line -/

theorem trimChars_append_singleton {line : List Char} {last : Char} (h : isBlank last = false) :
    trimChars (line ++ [last]) = line.dropWhile isBlank ++ [last] := by
  have hdrop : (line ++ [last]).dropWhile isBlank = line.dropWhile isBlank ++ [last] := by
    rw [List.dropWhile_append]
    split
    · next hempty =>
      rw [List.isEmpty_iff.1 hempty, List.dropWhile_cons, if_neg (by simp [h]), List.nil_append]
    · rfl
  rw [trimChars, hdrop, List.reverse_append, List.reverse_singleton, List.singleton_append,
    List.dropWhile_cons, if_neg (by simp [h]), List.reverse_cons, List.reverse_reverse]

theorem closesComment_append_singleton {line : List Char} {last : Char} (h : last ≠ '/') :
    closesComment (line ++ [last]) = false := by
  rw [closesComment, List.reverse_append, List.reverse_singleton, List.singleton_append,
    afterStart?, if_neg (by simpa using Ne.symm h)]
  rfl

/-- A line that ends otherwise than a block comment, with a bracket say or a comma, counts as a
    comment only if it is a line comment. -/
theorem endsCommentLine_append_singleton {stop : Nat} {line : List Char} {last : Char}
    (hline : (text.slice (lineStart text stop) stop).toList = line ++ [last])
    (hblank : isBlank last = false) (hslash : last ≠ '/') :
    endsCommentLine text stop
      = (afterStart? ['/', '/'] (line.dropWhile isBlank ++ [last])).isSome := by
  simp only [endsCommentLine, hline, trimChars_append_singleton hblank, isCommentLine,
    closesComment_append_singleton hslash, Bool.and_false, Bool.false_and, Bool.or_false]

theorem afterStart?_append_comma {c : Char} {cs : List Char}
    (h : (afterStart? ['/', '/'] (c :: cs)).isNone = true) :
    afterStart? ['/', '/'] (c :: cs ++ [',']) = none := by
  rw [Option.isNone_iff_eq_none] at h
  rcases cs with - | ⟨c', cs⟩
  · simp [afterStart?]
  · simp only [afterStart?] at h
    simp only [List.cons_append, afterStart?]
    split at h <;> rename_i hc
    · split at h <;> rename_i hc'
      · cases h
      · simp [hc, hc']
    · simp [hc]

theorem isInlineBlank_of_mem_utf8 {indent : String} (h : ∀ c ∈ indent.toList, c = ' ' ∨ c = '\t') :
    ∀ byte ∈ utf8 indent, isInlineBlank byte = true := by
  intro byte hbyte
  rw [utf8_eq_flatMap] at hbyte
  obtain ⟨c, hc, hbyte⟩ := List.mem_flatMap.1 hbyte
  rcases h c hc with rfl | rfl
  · rw [show String.utf8EncodeChar ' ' = [0x20] from rfl, List.mem_singleton] at hbyte
    rw [hbyte]
    rfl
  · rw [show String.utf8EncodeChar '\t' = [0x09] from rfl, List.mem_singleton] at hbyte
    rw [hbyte]
    rfl

/-- A text that does not start with white space does not start with a blank byte. -/
theorem exists_utf8_eq {text : String} {c : Char} {cs : List Char} (htext : text.toList = c :: cs)
    (hc : isBlank c = false) :
    ∃ byte rest, utf8 text = byte :: rest ∧ isInlineBlank byte = false := by
  obtain ⟨byte, rest, hbyte, -⟩ := exists_utf8EncodeChar_eq c
  refine ⟨byte, rest ++ cs.flatMap String.utf8EncodeChar, ?_, ?_⟩
  · rw [utf8_eq_flatMap, htext, List.flatMap_cons, hbyte, List.cons_append]
  · have hmem : byte ∈ String.utf8EncodeChar c := hbyte ▸ List.mem_cons_self
    by_contra hblank
    rw [Bool.not_eq_false, isInlineBlank, Bool.or_eq_true, beq_iff_eq, beq_iff_eq] at hblank
    have hval : c.toNat = 0x20 ∨ c.toNat = 0x09 := by
      rcases hblank with rfl | rfl
      · exact .inl (eq_of_mem_utf8EncodeChar hmem (by decide))
      · exact .inr (eq_of_mem_utf8EncodeChar hmem (by decide))
    rcases hval with hval | hval <;> simp [isBlank, hval] at hc

/-! ## An entry on a line of its own -/

/-- A text stands on a line of its own behind `before`, which ends a line. -/
structure OwnLine (source : Bytes) (before indent text after : String) : Prop where
  source_eq : source = utf8 (before ++ "\n" ++ indent ++ text ++ ",\n" ++ after)
  indent_blank : ∀ c ∈ indent.toList, c = ' ' ∨ c = '\t'
  stands : standsOnLine text = true

namespace OwnLine

variable {source : Bytes} {before indent text after : String}

theorem exists_toList (h : OwnLine source before indent text after) : ∃ c cs,
    text.toList = c :: cs ∧ isBlank c = false ∧
      (afterStart? ['/', '/'] (c :: cs)).isNone = true ∧ '\n' ∉ text.toList := by
  have hstands := h.stands
  rw [standsOnLine] at hstands
  split at hstands
  · cases hstands
  · next c cs htext =>
    simp only [Bool.and_eq_true, Bool.not_eq_true', List.contains_eq_mem, decide_eq_false_iff_not]
      at hstands
    exact ⟨c, cs, htext, hstands.1.1, hstands.1.2, htext ▸ hstands.2⟩

/-- Up to the comma there is no line feed. -/
theorem lineFeed_not_mem (h : OwnLine source before indent text after) :
    lineFeed ∉ utf8 (indent ++ text ++ ",") := by
  obtain ⟨-, -, -, -, -, hfeed⟩ := h.exists_toList
  refine lineFeed_not_mem_utf8 fun hmem => ?_
  simp only [String.toList_append, List.mem_append] at hmem
  rcases hmem with (hmem | hmem) | hmem
  · rcases h.indent_blank _ hmem with heq | heq <;> cases heq
  · exact hfeed hmem
  · exact absurd hmem (by decide)

theorem bytes_eq (h : OwnLine source before indent text after) :
    source = utf8 before ++ [lineFeed] ++ utf8 (indent ++ text ++ ",")
      ++ lineFeed :: utf8 after := by
  rw [h.source_eq, show ",\n" = "," ++ "\n" from rfl]
  simp only [utf8_append, List.append_assoc]
  rfl

theorem drop_indent (h : OwnLine source before indent text after) :
    source.drop ((utf8 before).length + 1)
      = utf8 indent ++ utf8 (text ++ ",") ++ lineFeed :: utf8 after := by
  have hlength : (utf8 before).length + 1 = (utf8 before ++ [lineFeed]).length := by simp
  rw [h.bytes_eq, List.append_assoc, hlength, List.drop_left, String.append_assoc, utf8_append]

theorem drop_comma (h : OwnLine source before indent text after) :
    source.drop ((utf8 before).length + 1 + (utf8 indent).length + (utf8 text).length)
      = 0x2C :: lineFeed :: utf8 after := by
  rw [Nat.add_assoc, ← List.drop_drop, h.drop_indent, utf8_append, ← List.append_assoc,
    List.append_assoc (utf8 indent ++ utf8 text), ← List.length_append, List.drop_left]
  rfl

/-- All positions up to the comma are on the line, which starts behind the line feed. -/
theorem lineStart_eq (h : OwnLine source before indent text after) {x y : Bytes}
    (hxy : utf8 (indent ++ text ++ ",") = x ++ y) :
    lineStart source ((utf8 before).length + 1 + x.length) = (utf8 before).length + 1 := by
  have hfeed : lineFeed ∉ x := fun hmem =>
    h.lineFeed_not_mem (hxy ▸ List.mem_append_left _ hmem)
  have hlength : (utf8 before).length + 1 = (utf8 before ++ [lineFeed]).length := by simp
  rw [h.bytes_eq, hxy, ← List.append_assoc, List.append_assoc _ y, hlength,
    lineStart_append hfeed, List.append_assoc, ← hlength]
  exact lineStart_lineFeed

theorem lineStart_start (h : OwnLine source before indent text after) :
    lineStart source ((utf8 before).length + 1 + (utf8 indent).length)
      = (utf8 before).length + 1 :=
  h.lineStart_eq (by rw [String.append_assoc, utf8_append])

/-- The entry starts its line, behind the indentation. -/
theorem startsLine_eq (h : OwnLine source before indent text after) :
    startsLine source ((utf8 before).length + 1 + (utf8 indent).length) = true := by
  have hle : (utf8 before).length + 1 + (utf8 indent).length ≤ source.length := by
    rw [h.source_eq]
    simp only [utf8_append, List.length_append, show (utf8 "\n").length = 1 from rfl]
    omega
  rw [startsLine, h.lineStart_start, Nat.min_eq_left hle, Bytes.range, h.drop_indent,
    Nat.add_sub_cancel_left, List.append_assoc, List.take_left, List.all_eq_true]
  exact isInlineBlank_of_mem_utf8 h.indent_blank

theorem indentAt_eq (h : OwnLine source before indent text after) :
    indentAt source ((utf8 before).length + 1 + (utf8 indent).length) = indent := by
  obtain ⟨c, cs, htext, hc, -, -⟩ := h.exists_toList
  obtain ⟨byte, rest, hbyte, hblank⟩ := exists_utf8_eq htext hc
  rw [indentAt, h.lineStart_start, h.drop_indent, utf8_append, hbyte, List.append_assoc,
    List.takeWhile_append_of_pos (isInlineBlank_of_mem_utf8 h.indent_blank), List.cons_append,
    List.cons_append, List.takeWhile_cons, if_neg (by simp [hblank]), List.append_nil, decode_utf8]

/-- What stands on the line up to the comma. -/
theorem slice_line (h : OwnLine source before indent text after) :
    source.slice ((utf8 before).length + 1)
        ((utf8 before).length + 1 + (utf8 (indent ++ text ++ ",")).length)
      = indent ++ text ++ "," := by
  have hsource : source
      = utf8 (before ++ "\n" ++ (indent ++ text ++ ",") ++ ("\n" ++ after)) := by
    rw [h.bytes_eq]
    simp only [utf8_append, List.append_assoc]
    rfl
  have hlength : (utf8 before).length + 1 = (utf8 (before ++ "\n")).length := by
    rw [utf8_append, List.length_append]
    rfl
  rw [hsource, hlength, slice_utf8]

theorem slice_text (h : OwnLine source before indent text after) :
    source.slice ((utf8 before).length + 1 + (utf8 indent).length)
        ((utf8 before).length + 1 + (utf8 indent).length + (utf8 text).length) = text := by
  have hsource : source = utf8 (before ++ "\n" ++ indent ++ text ++ (",\n" ++ after)) := by
    rw [h.source_eq]
    simp only [String.append_assoc]
  have hlength : (utf8 before).length + 1 + (utf8 indent).length
      = (utf8 (before ++ "\n" ++ indent)).length := by
    simp only [utf8_append, List.length_append]
    rfl
  rw [hsource, hlength, slice_utf8]

/-- The line is no comment line. -/
theorem endsCommentLine_eq (h : OwnLine source before indent text after) :
    endsCommentLine source
      ((utf8 before).length + 1 + (utf8 (indent ++ text ++ ",")).length) = false := by
  obtain ⟨c, cs, htext, hc, hcomment, -⟩ := h.exists_toList
  have hline : (source.slice (lineStart source
        ((utf8 before).length + 1 + (utf8 (indent ++ text ++ ",")).length))
        ((utf8 before).length + 1 + (utf8 (indent ++ text ++ ",")).length)).toList
      = (indent.toList ++ c :: cs) ++ [','] := by
    rw [h.lineStart_eq (List.append_nil _).symm, h.slice_line, String.toList_append,
      String.toList_append, htext]
    rfl
  have hblank : ∀ c ∈ indent.toList, isBlank c = true := fun c hmem => by
    rcases h.indent_blank c hmem with rfl | rfl <;> rfl
  rw [endsCommentLine_append_singleton hline rfl (by decide),
    List.dropWhile_append_of_pos hblank, List.dropWhile_cons, if_neg (by simp [hc]),
    afterStart?_append_comma hcomment]
  rfl

theorem leadingCommentStart_eq (h : OwnLine source before indent text after)
    (habove : endsCommentLine source (utf8 before).length = false) :
    leadingCommentStart source ((utf8 before).length + 1 + (utf8 indent).length)
      = (utf8 before).length + 1 := by
  rw [leadingCommentStart, h.lineStart_start]
  exact climbComments_eq habove

end OwnLine

end Statechart.Text
