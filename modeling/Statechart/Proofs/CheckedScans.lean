import Statechart.Proofs.TriviaGrammar

/-!
# Scans with checked accesses

The scanners as loops over positions, in which each access is checked: a byte or a range that leaves
the text, and a slice that cuts a character, give no result, and neither does a loop that takes more
rounds than the text has positions. From a position between two characters, each scanner has a
result: it is the one of the scanner that takes the rest of the text, and a position between two
characters again.

* `Bytes.range?`, `Bytes.slice?`: accesses that are checked;
* `Checked`: the scanners with checked accesses;
* `Lands`: the scan ends between two characters of the text;
* `Advances`, `Lands.of_loop`: a round of a loop, and the loop;
* `lands_skipTrivia`, `lands_climbComments`: the forward loop and the backward loop;
* `scans_land`: all scanners land.
-/

namespace Statechart

namespace Bytes

/-- The bytes from `start` up to `stop`, if the range is not reversed and does not leave the
    text. -/
def range? (bytes : Bytes) (start stop : Nat) : Option Bytes :=
  if start ≤ stop ∧ stop ≤ bytes.length then some (bytes.range start stop) else none

/-- The text from `start` up to `stop`, if moreover neither end cuts a character. -/
def slice? (bytes : Bytes) (start stop : Nat) : Option String :=
  if bytes.isBoundary start ∧ bytes.isBoundary stop then
    (bytes.range? start stop).map fun part => part.decode
  else none

variable {bytes : Bytes} {pos start stop : Nat}

theorem range?_of_le (hle : start ≤ stop) (hstop : stop ≤ bytes.length) :
    bytes.range? start stop = some (bytes.range start stop) :=
  if_pos ⟨hle, hstop⟩

theorem range?_zero (hpos : pos ≤ bytes.length) : bytes.range? 0 pos = some (bytes.take pos) :=
  range?_of_le (Nat.zero_le pos) hpos

theorem range?_length (hpos : pos ≤ bytes.length) :
    bytes.range? pos bytes.length = some (bytes.drop pos) := by
  rw [range?_of_le hpos le_rfl, Bytes.range, List.take_of_length_le (by rw [List.length_drop])]

theorem slice?_of_isBoundary (hle : start ≤ stop) (hstart : bytes.isBoundary start = true)
    (hstop : bytes.isBoundary stop = true) :
    bytes.slice? start stop = some (bytes.slice start stop) := by
  have hlength := le_of_isBoundary hstop
  rw [slice?, if_pos ⟨hstart, hstop⟩, range?_of_le hle hlength, slice, if_pos ⟨hle, hlength⟩,
    Option.map_some]

end Bytes

namespace Text

variable {text : Bytes} {pos stop : Nat}

/-! ## The scanners -/

/-- The position of the first `*/`. -/
def closeIndex? : Bytes → Option Nat
  | a :: b :: rest =>
    if a == 0x2A && b == 0x2F then some 0 else (closeIndex? (b :: rest)).map (· + 1)
  | _ => none

namespace Checked

/-- A loop that takes at most so many rounds, each of which goes on at a position or is the last. -/
def rounds (round : Nat → Option (ForInStep Nat)) : Nat → Nat → Option Nat
  | 0, _ => none
  | n + 1, pos => do
    match ← round pos with
    | .yield next => rounds round n next
    | .done found => pure found

/-- A loop that takes at most one round for each position of the text. -/
def loop (text : Bytes) (round : Nat → Option (ForInStep Nat)) (pos : Nat) : Option Nat :=
  rounds round (text.length + 1) pos

/-- The start of the line: behind the last line feed before `pos`. -/
def lineStart (text : Bytes) (pos : Nat) : Option Nat := do
  let before ← text.range? 0 (min pos text.length)
  pure (before.length - (before.reverse.takeWhile (· != lineFeed)).length)

/-- The end of the line: the first line feed from `pos` on. -/
def lineEnd (text : Bytes) (pos : Nat) : Option Nat := do
  let rest ← text.range? (min pos text.length) text.length
  pure (min pos text.length + (rest.takeWhile (· != lineFeed)).length)

/-- Whether only blanks stand before `pos` on its line. -/
def startsLine (text : Bytes) (pos : Nat) : Option Bool := do
  let before ← text.range? (← lineStart text pos) (min pos text.length)
  pure (before.all isInlineBlank)

/-- Whether a line feed stands in the range. -/
def spansLines (text : Bytes) (start stop : Nat) : Option Bool := do
  let part ← text.range? (min start text.length) (min stop text.length)
  pure (part.any (· == lineFeed))

/-- One round of `skipWhile`. -/
def skipRound (p : UInt8 → Bool) (text : Bytes) (pos : Nat) : Option (ForInStep Nat) :=
  if pos < text.length then do
    let byte ← text[pos]?
    pure (if p byte then .yield (pos + 1) else .done pos)
  else pure (.done pos)

/-- Past the bytes of one kind. -/
def skipWhile (p : UInt8 → Bool) (text : Bytes) (pos : Nat) : Option Nat :=
  loop text (skipRound p text) pos

/-- One round of `skipTrivia`: past the white space and a comment. -/
def triviaRound (text : Bytes) (pos : Nat) : Option (ForInStep Nat) := do
  let next ← skipWhile isSpace text pos
  let rest ← text.range? next text.length
  match opening rest with
  | .line _ => pure (.yield (← lineEnd text next))
  | .block _ =>
    let body ← rest.range? 2 rest.length
    match closeIndex? body with
    | some i => pure (.yield (next + i + 4))
    | none => pure (.done text.length)
  | .other => pure (.done next)

/-- Past the white space and the comments. -/
def skipTrivia (text : Bytes) (pos : Nat) : Option Nat :=
  loop text (triviaRound text) pos

/-- Past the comma that comes next, if one does. -/
def commaAfter (text : Bytes) (pos : Nat) : Option (Option Nat) := do
  let next ← skipTrivia text pos
  pure (if text[next]? == some 0x2C then some (next + 1) else none)

/-- Past a comment that ends on its line, and the blanks after a block comment. -/
def skipLineComment (text : Bytes) (pos : Nat) : Option Nat := do
  let rest ← text.range? pos text.length
  match opening rest with
  | .line _ => lineEnd text pos
  | .block _ =>
    let body ← text.range? (pos + 2) text.length
    match closeIndex? body with
    | some i =>
      if ← spansLines text pos (pos + i + 4) then pure pos
      else skipWhile isInlineBlank text (pos + i + 4)
    | none => pure pos
  | .other => pure pos

/-- Past the blanks and the comma, if there is one, and the blanks behind it. -/
def commaEnd (text : Bytes) (pos : Nat) : Option Nat := do
  let next ← skipWhile isInlineBlank text pos
  if text[next]? == some 0x2C then skipWhile isInlineBlank text (next + 1) else pure next

/-- The end of the tail of an entry. -/
def itemTailEnd (text : Bytes) (pos : Nat) : Option Nat := do
  let next ← skipLineComment text (← commaEnd text pos)
  pure (if text[next]? == some lineFeed then next + 1 else next)

/-- The start of the line that opens the block comment closed before `close`. -/
def blockCommentLine (text : Bytes) (close : Nat) : Option (Option Nat) := do
  let before ← text.range? 0 close
  match lastOpen? before with
  | some opened =>
    let line ← lineStart text opened
    pure (if ← startsLine text opened then some line else none)
  | none => pure none

/-- One round of `climbComments`: over a comment on the line above, or one that ends there. -/
def climbRound (text : Bytes) (start : Nat) : Option (ForInStep Nat) :=
  if 0 < start then do
    let above ← lineStart text (start - 1)
    let line := trimChars (← text.slice? above (start - 1)).toList
    if isCommentLine line then pure (.yield above)
    else if closesComment line then
      match ← blockCommentLine text (start - 1) with
      | some opened => pure (.yield opened)
      | none => pure (.done start)
    else pure (.done start)
  else pure (.done start)

/-- Climbs over the comment lines directly above a line. -/
def climbComments (text : Bytes) (start : Nat) : Option Nat :=
  loop text (climbRound text) start

/-- The start of the comment lines directly above the line at `pos`. -/
def leadingCommentStart (text : Bytes) (pos : Nat) : Option Nat := do
  climbComments text (← lineStart text pos)

end Checked

/-! ## Lines -/

theorem checked_lineStart (text : Bytes) (pos : Nat) :
    Checked.lineStart text pos = some (lineStart text pos) := by
  have htake : text.take (min pos text.length) = text.take pos :=
    List.take_eq_take_iff.2 (by omega)
  rw [Checked.lineStart, Bytes.range?_zero (Nat.min_le_right _ _), htake]
  rfl

theorem checked_lineEnd (text : Bytes) (pos : Nat) :
    Checked.lineEnd text pos = some (lineEnd text pos) := by
  have hdrop : text.drop (min pos text.length) = text.drop pos := by
    rcases Nat.le_total pos text.length with hpos | hpos
    · rw [Nat.min_eq_left hpos]
    · rw [Nat.min_eq_right hpos, List.drop_length, List.drop_of_length_le hpos]
  rw [Checked.lineEnd, Bytes.range?_length (Nat.min_le_right _ _), hdrop]
  rfl

theorem checked_startsLine (hpos : pos ≤ text.length) :
    Checked.startsLine text pos = some (startsLine text pos) := by
  rw [Checked.startsLine, startsLine, Nat.min_eq_left hpos]
  simp only [checked_lineStart, Bytes.range?_of_le (lineStart_le text pos) hpos,
    Option.bind_eq_bind, Option.bind_some, Option.pure_def]

theorem checked_spansLines (hle : pos ≤ stop) (hstop : stop ≤ text.length) :
    Checked.spansLines text pos stop = some (spansLines text pos stop) := by
  rw [Checked.spansLines, Nat.min_eq_left hstop, Nat.min_eq_left (hle.trans hstop),
    Bytes.range?_of_le hle hstop]
  rfl

theorem checked_blockCommentLine {close : Nat} (hclose : close ≤ text.length) :
    Checked.blockCommentLine text close = some (blockCommentLine text close) := by
  rw [Checked.blockCommentLine, blockCommentLine, Bytes.range?_zero hclose]
  simp only [Option.bind_eq_bind, Option.bind_some]
  cases hopened : lastOpen? (text.take close) with
  | none => rfl
  | some opened =>
    have hlt := lastOpen?_lt hopened
    rw [List.length_take] at hlt
    simp only [checked_lineStart, checked_startsLine (show opened ≤ text.length by omega),
      Option.bind_some, Option.pure_def]

/-- A line starts where the text does, or behind a line feed. -/
inductive IsLineStart (text : Bytes) : Nat → Prop
  | text : IsLineStart text 0
  | line {feed : Nat} : text[feed]? = some lineFeed → IsLineStart text (feed + 1)

theorem isLineStart_lineStart (text : Bytes) (pos : Nat) :
    IsLineStart text (lineStart text pos) := by
  have hstart : lineStart text pos
      = ((text.take pos).reverse.dropWhile (· != lineFeed)).length := by
    have hlength := congrArg List.length (List.takeWhile_append_dropWhile
      (p := (· != lineFeed)) (l := (text.take pos).reverse))
    rw [List.length_append, List.length_reverse] at hlength
    rw [lineStart]
    omega
  rw [hstart]
  cases hrest : (text.take pos).reverse.dropWhile (· != lineFeed) with
  | nil => exact .text
  | cons byte before =>
    obtain rfl := eq_lineFeed_of_dropWhile hrest
    have hprefix : (lineFeed :: before).reverse <+: text.take pos := by
      rw [← hrest, ← List.reverse_suffix, List.reverse_reverse]
      exact List.dropWhile_suffix _
    obtain ⟨behind, hbehind⟩ := hprefix.trans (List.take_prefix pos text)
    refine .line ?_
    rw [← hbehind, List.reverse_cons, List.append_assoc, List.getElem?_append_right (by simp)]
    simp

theorem isLineStart_blockCommentLine {close start : Nat}
    (h : blockCommentLine text close = some start) : IsLineStart text start := by
  rw [blockCommentLine] at h
  split at h
  · next opened hopened =>
    split at h
    · obtain rfl := Option.some.inj h
      exact isLineStart_lineStart text opened
    · cases h
  · cases h

/-- A line ends with a line feed, or where the text does. -/
theorem lineEnd_cases (hpos : pos ≤ text.length) : lineEnd text pos = text.length ∨
    text[lineEnd text pos]? = some lineFeed := by
  have hdrop := drop_lineEnd hpos
  cases hrest : (text.drop pos).dropWhile (· != lineFeed) with
  | nil =>
    rw [hrest, List.drop_eq_nil_iff] at hdrop
    exact .inl (Nat.le_antisymm (lineEnd_le text pos) hdrop)
  | cons byte rest =>
    obtain rfl := eq_lineFeed_of_dropWhile hrest
    exact .inr (getElem?_of_drop (hdrop.trans hrest))

/-! ## Block comments -/

theorem afterClose?_eq_map : ∀ bytes : Bytes,
    afterClose? bytes = (closeIndex? bytes).map fun i => bytes.drop (i + 2)
  | [] => rfl
  | [_] => rfl
  | a :: b :: rest => by
    rw [afterClose?, closeIndex?]
    split
    · rfl
    · rw [afterClose?_eq_map (b :: rest), Option.map_map]
      rfl

theorem getElem?_of_closeIndex? : ∀ {bytes : Bytes} {i : Nat}, closeIndex? bytes = some i →
    bytes[i + 1]? = some 0x2F
  | a :: b :: rest, i, h => by
    rw [closeIndex?] at h
    split at h
    · next hmark =>
      obtain rfl := Option.some.inj h
      rw [Bool.and_eq_true, beq_iff_eq, beq_iff_eq] at hmark
      exact congrArg some hmark.2
    · obtain ⟨j, hj, rfl⟩ := Option.map_eq_some_iff.1 h
      rw [List.getElem?_cons_succ]
      exact getElem?_of_closeIndex? hj

/-- Where a block comment ends, counted from its start. -/
theorem close_of_closeIndex? {rest : Bytes} {i : Nat} (h : text.drop pos = 0x2F :: 0x2A :: rest)
    (hi : closeIndex? rest = some i) : text[pos + i + 3]? = some 0x2F ∧
      afterClose? rest = some (text.drop (pos + i + 4)) := by
  have hrest : text.drop (pos + 2) = rest :=
    drop_add_length (show text.drop pos = [0x2F, 0x2A] ++ rest from h)
  constructor
  · rw [← getElem?_of_closeIndex? hi, ← hrest, List.getElem?_drop]
    congr 1
    omega
  · rw [afterClose?_eq_map, hi, Option.map_some, ← hrest, List.drop_drop]
    congr 2
    omega

/-! ## Landing between characters -/

/-- The scan ends, and does so between two characters of the text. -/
structure Lands (text : Bytes) (checked : Option Nat) (found : Nat) : Prop where
  ends : checked = some found
  boundary : text.isBoundary found = true
  le : found ≤ text.length := le_of_isBoundary boundary

/-- A round of a loop that scans for `scan pos` from a position `pos` is the last, or goes on from a
    position with the same result, from which less is left to scan. -/
inductive Advances (text : Bytes) (inv : Nat → Prop) (left scan : Nat → Nat) (pos : Nat) :
    Option (ForInStep Nat) → Prop
  | done {found : Nat} : text.isBoundary found = true → scan pos = found →
      Advances text inv left scan pos (some (.done found))
  | yield {next : Nat} : inv next → left next < left pos → scan next = scan pos →
      Advances text inv left scan pos (some (.yield next))

theorem Lands.of_rounds {inv : Nat → Prop} {left scan : Nat → Nat}
    {round : Nat → Option (ForInStep Nat)} {n : Nat}
    (hround : ∀ pos, inv pos → Advances text inv left scan pos (round pos)) (hinv : inv pos)
    (hleft : left pos < n) : Lands text (Checked.rounds round n pos) (scan pos) := by
  induction n generalizing pos with
  | zero => omega
  | succ n ih =>
    have hadvances := hround pos hinv
    rw [Checked.rounds]
    cases hstep : round pos with
    | none =>
      rw [hstep] at hadvances
      cases hadvances
    | some step =>
      rw [hstep] at hadvances
      cases hadvances with
      | done hboundary hscan =>
        rw [hscan]
        exact { ends := rfl, boundary := hboundary }
      | yield hnext hless hscan =>
        rw [← hscan]
        exact ih hnext (by omega)

/-- A loop in which less is left after each round takes at most as many rounds as were left. -/
theorem Lands.of_loop {inv : Nat → Prop} {left scan : Nat → Nat}
    {round : Nat → Option (ForInStep Nat)}
    (hround : ∀ pos, inv pos → Advances text inv left scan pos (round pos)) (hinv : inv pos)
    (hleft : left pos ≤ text.length) : Lands text (Checked.loop text round pos) (scan pos) :=
  .of_rounds hround hinv (Nat.lt_succ_of_le hleft)

section Landing

variable {text : String} {pos : Nat}

theorem IsLineStart.isBoundary {start : Nat} (h : IsLineStart (utf8 text) start) :
    (utf8 text).isBoundary start = true := by
  cases h with
  | text => exact isBoundary_zero _
  | line hfeed => exact (isBoundary_of_getElem? hfeed (by decide)).2

theorem lands_lineStart (text : String) (pos : Nat) :
    Lands (utf8 text) (Checked.lineStart (utf8 text) pos) (lineStart (utf8 text) pos) :=
  { ends := checked_lineStart _ pos, boundary := (isLineStart_lineStart _ pos).isBoundary }

theorem lands_lineEnd (hpos : pos ≤ (utf8 text).length) :
    Lands (utf8 text) (Checked.lineEnd (utf8 text) pos) (lineEnd (utf8 text) pos) := by
  refine { ends := checked_lineEnd _ pos, boundary := ?_ }
  rcases lineEnd_cases hpos with hend | hfeed
  · rw [hend]
    exact isBoundary_length _
  · exact (isBoundary_of_getElem? hfeed (by decide)).1

/-- Each byte that is skipped is a character by itself. -/
theorem advances_skipRound {p : UInt8 → Bool} (hp : ∀ byte, p byte = true → byte.toNat < 128)
    (hpos : (utf8 text).isBoundary pos = true) :
    Advances (utf8 text) (fun pos => (utf8 text).isBoundary pos = true)
      (fun pos => (utf8 text).length - pos)
      (fun pos => pos + (((utf8 text).drop pos).takeWhile p).length) pos
      (Checked.skipRound p (utf8 text) pos) := by
  rw [Checked.skipRound]
  cases hrest : (utf8 text).drop pos with
  | nil =>
    rw [if_neg (Nat.not_lt_of_le (List.drop_eq_nil_iff.1 hrest))]
    refine .done hpos ?_
    rw [hrest]
    rfl
  | cons byte rest =>
    have hbyte := getElem?_of_drop hrest
    have hlt : pos < (utf8 text).length := (List.getElem?_eq_some_iff.1 hbyte).1
    have hdrop : (utf8 text).drop (pos + 1) = rest :=
      drop_add_length (show (utf8 text).drop pos = [byte] ++ rest from hrest)
    simp only [if_pos hlt, hbyte, Option.bind_eq_bind, Option.bind_some]
    split
    · next hskips =>
      refine .yield (isBoundary_of_getElem? hbyte (hp byte hskips)).2 (by omega) ?_
      rw [hrest, hdrop, List.takeWhile_cons, if_pos hskips, List.length_cons]
      omega
    · next hstops =>
      refine .done hpos ?_
      rw [hrest, List.takeWhile_cons, if_neg hstops]
      rfl

theorem lands_skipWhile {p : UInt8 → Bool} (hp : ∀ byte, p byte = true → byte.toNat < 128)
    (hpos : (utf8 text).isBoundary pos = true) :
    Lands (utf8 text) (Checked.skipWhile p (utf8 text) pos)
      (pos + (((utf8 text).drop pos).takeWhile p).length) :=
  .of_loop (fun _ => advances_skipRound hp) hpos (Nat.sub_le _ _)

theorem lands_skipInlineBlanks (hpos : (utf8 text).isBoundary pos = true) :
    Lands (utf8 text) (Checked.skipWhile isInlineBlank (utf8 text) pos)
      (skipInlineBlanks (utf8 text) pos) := by
  refine lands_skipWhile (fun byte hbyte => ?_) hpos
  simp only [isInlineBlank, Bool.or_eq_true, beq_iff_eq] at hbyte
  rcases hbyte with rfl | rfl <;> decide

theorem lands_skipSpaces (hpos : (utf8 text).isBoundary pos = true) :
    Lands (utf8 text) (Checked.skipWhile isSpace (utf8 text) pos)
      (skipSpaces (utf8 text) pos) := by
  refine lands_skipWhile (fun byte hbyte => ?_) hpos
  simp only [isSpace, Bool.or_eq_true, beq_iff_eq] at hbyte
  rcases hbyte with (((rfl | rfl) | rfl) | rfl) | rfl <;> decide

/-- The loop goes forward in each round: to the end of a line or of a block comment. -/
theorem advances_triviaRound (hpos : (utf8 text).isBoundary pos = true) :
    Advances (utf8 text) (fun pos => (utf8 text).isBoundary pos = true)
      (fun pos => (utf8 text).length - pos) (skipTrivia (utf8 text)) pos
      (Checked.triviaRound (utf8 text) pos) := by
  have hnext := lands_skipSpaces hpos
  have hle : pos ≤ skipSpaces (utf8 text) pos := Nat.le_add_right _ _
  have hspaces : ((utf8 text).drop (skipSpaces (utf8 text) pos)).dropWhile isSpace
      = (utf8 text).drop (skipSpaces (utf8 text) pos) := by
    rw [drop_skipSpaces, List.dropWhile_idempotent]
  have hscan := skipTrivia_skipSpaces (utf8 text) pos
  generalize skipSpaces (utf8 text) pos = next at hnext hle hspaces hscan
  simp only [Checked.triviaRound, hnext.ends, Bytes.range?_length hnext.le, Option.bind_eq_bind,
    Option.bind_some]
  -- A round takes spaces, and then one comment. It is the last one where none opens or closes.
  cases hopen : opening ((utf8 text).drop next) with
  | line rest =>
    have hmark := opening_eq_line hopen
    have hend := lands_lineEnd hnext.le
    have hlength := hend.le
    have hlt := lt_lineEnd hmark (by decide)
    simp only [hend.ends, Option.bind_some]
    exact .yield hend.boundary (by omega) ((skipTrivia_lineEnd hnext.le hmark).trans hscan)
  | block rest =>
    have hmark := opening_eq_block hopen
    have hbody : Bytes.range? ((utf8 text).drop next) 2 ((utf8 text).drop next).length
        = some rest := by
      rw [hmark, Bytes.range?_length (by simp)]
      rfl
    simp only [hbody, Option.bind_some]
    cases hclose : closeIndex? rest with
    | none =>
      refine .done (isBoundary_length _) ?_
      rw [← hscan, skipTrivia, hmark, afterTrivia_block, afterClose?_eq_map, hclose]
      rfl
    | some i =>
      obtain ⟨hslash, hafter⟩ := close_of_closeIndex? hmark hclose
      have hend := (isBoundary_of_getElem? hslash (by decide)).2
      have hlength := le_of_isBoundary hend
      have hskip := skipTrivia_close hmark hafter
      rw [List.length_drop, Nat.sub_sub_self hlength] at hskip
      exact .yield hend (by omega) (hskip.trans hscan)
  | other =>
    refine .done hnext.boundary ?_
    rw [← hscan, skipTrivia, afterTrivia_other (by rw [hspaces, hopen]), hspaces,
      List.length_drop, Nat.sub_sub_self hnext.le]

theorem lands_skipTrivia (hpos : (utf8 text).isBoundary pos = true) :
    Lands (utf8 text) (Checked.skipTrivia (utf8 text) pos) (skipTrivia (utf8 text) pos) :=
  .of_loop (fun _ => advances_triviaRound) hpos (Nat.sub_le _ _)

theorem checked_commaAfter (hpos : (utf8 text).isBoundary pos = true) :
    Checked.commaAfter (utf8 text) pos = some (commaAfter (utf8 text) pos) := by
  rw [Checked.commaAfter, (lands_skipTrivia hpos).ends]
  rfl

theorem isBoundary_commaAfter {stop : Nat} (h : commaAfter (utf8 text) pos = some stop) :
    (utf8 text).isBoundary stop = true := by
  rw [commaAfter] at h
  split at h
  · next hcomma =>
    obtain rfl := Option.some.inj h
    exact (isBoundary_of_getElem? (beq_iff_eq.1 hcomma) (by decide)).2
  · cases h

/-! ### Tails of entries -/

theorem lands_skipLineComment (hpos : (utf8 text).isBoundary pos = true) :
    Lands (utf8 text) (Checked.skipLineComment (utf8 text) pos)
      (skipLineComment (utf8 text) pos) := by
  have hle := le_of_isBoundary hpos
  have hstays : Lands (utf8 text) (some pos) pos := { ends := rfl, boundary := hpos }
  rw [Checked.skipLineComment, skipLineComment]
  simp only [Bytes.range?_length hle, Option.bind_eq_bind, Option.bind_some]
  cases hopen : opening ((utf8 text).drop pos) with
  | line rest => exact lands_lineEnd hle
  | block rest =>
    have hmark := opening_eq_block hopen
    have hbody : Bytes.range? (utf8 text) (pos + 2) (utf8 text).length = some rest := by
      have hlength := congrArg List.length hmark
      rw [List.length_drop, List.length_cons, List.length_cons] at hlength
      rw [Bytes.range?_length (by omega), ← List.drop_drop, hmark]
      rfl
    simp only [hbody, Option.bind_some]
    cases hclose : closeIndex? rest with
    | none =>
      rw [afterClose?_eq_map, hclose]
      exact hstays
    | some i =>
      obtain ⟨hslash, hafter⟩ := close_of_closeIndex? hmark hclose
      have hend := (isBoundary_of_getElem? hslash (by decide)).2
      have hlength := le_of_isBoundary hend
      simp only [hafter, List.length_drop, Nat.sub_sub_self hlength,
        checked_spansLines (show pos ≤ pos + i + 4 by omega) hlength, Option.bind_some]
      split
      · exact hstays
      · exact lands_skipInlineBlanks hend
  | other => exact hstays

theorem lands_commaEnd (hpos : (utf8 text).isBoundary pos = true) :
    Lands (utf8 text) (Checked.commaEnd (utf8 text) pos) (commaEnd (utf8 text) pos) := by
  have hblanks := lands_skipInlineBlanks hpos
  rw [Checked.commaEnd, commaEnd, hblanks.ends]
  simp only [Option.bind_eq_bind, Option.bind_some]
  split
  · next hcomma =>
    exact lands_skipInlineBlanks (isBoundary_of_getElem? (beq_iff_eq.1 hcomma) (by decide)).2
  · exact { ends := rfl, boundary := hblanks.boundary }

theorem lands_itemTailEnd (hpos : (utf8 text).isBoundary pos = true) :
    Lands (utf8 text) (Checked.itemTailEnd (utf8 text) pos) (itemTailEnd (utf8 text) pos) := by
  have hcomma := lands_commaEnd hpos
  have hcomment := lands_skipLineComment hcomma.boundary
  rw [Checked.itemTailEnd, hcomma.ends, itemTailEnd_eq_feedEnd, feedEnd]
  simp only [hcomment.ends, Option.bind_eq_bind, Option.bind_some]
  refine { ends := rfl, boundary := ?_ }
  split
  · next hfeed => exact (isBoundary_of_getElem? (beq_iff_eq.1 hfeed) (by decide)).2
  · exact hcomment.boundary

/-! ### Comments above a line -/

/-- The loop goes back in each round: to the start of the line above or of a comment that ends
    there. -/
theorem advances_climbRound {start : Nat} (hstart : IsLineStart (utf8 text) start) :
    Advances (utf8 text) (IsLineStart (utf8 text)) id (climbComments (utf8 text)) start
      (Checked.climbRound (utf8 text) start) := by
  have hboundary := hstart.isBoundary
  by_cases hpos : 0 < start
  · have hend : (utf8 text).isBoundary (start - 1) = true := by
      cases hstart with
      | text => cases hpos
      | line hfeed => exact (isBoundary_of_getElem? hfeed (by decide)).1
    have habove := isLineStart_lineStart (utf8 text) (start - 1)
    have hle := lineStart_le (utf8 text) (start - 1)
    have hscan := climbComments.eq_def (utf8 text) start
    rw [dif_pos hpos] at hscan
    simp only [Checked.climbRound, if_pos hpos, checked_lineStart,
      Bytes.slice?_of_isBoundary hle habove.isBoundary hend,
      checked_blockCommentLine (le_of_isBoundary hend), Option.bind_eq_bind, Option.bind_some]
    -- The line above is a comment, or closes one that opens further up, or ends the climb.
    split
    · next hcomment =>
      simp only [if_pos hcomment] at hscan
      exact .yield habove (by dsimp only [id]; omega) hscan.symm
    · next hcomment =>
      simp only [if_neg hcomment] at hscan
      split
      · next hcloses =>
        simp only [if_pos hcloses] at hscan
        split at hscan
        · next opened hopened =>
          have hlt := blockCommentLine_lt hopened
          simp only [hopened]
          exact .yield (isLineStart_blockCommentLine hopened) (by dsimp only [id]; omega) hscan.symm
        · next hopened =>
          simp only [hopened]
          exact .done hboundary hscan
      · next hcloses =>
        simp only [if_neg hcloses] at hscan
        exact .done hboundary hscan
  · rw [Checked.climbRound, if_neg hpos]
    exact .done hboundary (by rw [climbComments, dif_neg hpos])

theorem lands_climbComments {start : Nat} (hstart : IsLineStart (utf8 text) start) :
    Lands (utf8 text) (Checked.climbComments (utf8 text) start)
      (climbComments (utf8 text) start) :=
  .of_loop (fun _ => advances_climbRound) hstart (le_of_isBoundary hstart.isBoundary)

theorem lands_leadingCommentStart (text : String) (pos : Nat) :
    Lands (utf8 text) (Checked.leadingCommentStart (utf8 text) pos)
      (leadingCommentStart (utf8 text) pos) := by
  rw [Checked.leadingCommentStart, checked_lineStart]
  exact lands_climbComments (isLineStart_lineStart _ pos)

theorem climbComments_le (text : Bytes) (start : Nat) : climbComments text start ≤ start := by
  fun_induction climbComments text start with
  | case1 start _ _ _ _ ih =>
    have hline := lineStart_le text (start - 1)
    omega
  | case2 start _ _ _ _ _ opened hopened ih =>
    have hline := blockCommentLine_lt hopened
    omega
  | case3 => exact le_rfl
  | case4 => exact le_rfl
  | case5 => exact le_rfl

end Landing

/-! ## All scanners -/

/-- From a position between two characters, all scanners end, without an access that leaves the text
    or cuts a character, and do so between two characters: those that go back not behind the
    position, and the others not before it. -/
theorem scans_land (text : String) {pos : Nat} (hpos : (utf8 text).isBoundary pos = true) :
    (Lands (utf8 text) (Checked.lineStart (utf8 text) pos) (lineStart (utf8 text) pos) ∧
      Lands (utf8 text) (Checked.lineEnd (utf8 text) pos) (lineEnd (utf8 text) pos) ∧
      Lands (utf8 text) (Checked.skipWhile isInlineBlank (utf8 text) pos)
        (skipInlineBlanks (utf8 text) pos) ∧
      Lands (utf8 text) (Checked.skipWhile isSpace (utf8 text) pos) (skipSpaces (utf8 text) pos) ∧
      Lands (utf8 text) (Checked.skipTrivia (utf8 text) pos) (skipTrivia (utf8 text) pos) ∧
      Lands (utf8 text) (Checked.itemTailEnd (utf8 text) pos) (itemTailEnd (utf8 text) pos) ∧
      Lands (utf8 text) (Checked.leadingCommentStart (utf8 text) pos)
        (leadingCommentStart (utf8 text) pos)) ∧
    (Checked.commaAfter (utf8 text) pos = some (commaAfter (utf8 text) pos) ∧
      ∀ stop, commaAfter (utf8 text) pos = some stop →
        (utf8 text).isBoundary stop = true ∧ stop ≤ (utf8 text).length) ∧
    (leadingCommentStart (utf8 text) pos ≤ lineStart (utf8 text) pos ∧
      lineStart (utf8 text) pos ≤ pos) ∧
    (pos ≤ lineEnd (utf8 text) pos ∧ pos ≤ skipInlineBlanks (utf8 text) pos ∧
      pos ≤ skipSpaces (utf8 text) pos ∧ pos ≤ skipTrivia (utf8 text) pos ∧
      pos ≤ itemTailEnd (utf8 text) pos) := by
  have hle := le_of_isBoundary hpos
  refine ⟨⟨lands_lineStart text pos, lands_lineEnd hle, lands_skipInlineBlanks hpos,
    lands_skipSpaces hpos, lands_skipTrivia hpos, lands_itemTailEnd hpos,
    lands_leadingCommentStart text pos⟩, ⟨checked_commaAfter hpos, fun stop hstop => ?_⟩,
    ⟨climbComments_le _ _, lineStart_le _ pos⟩, le_lineEnd hle, le_skipInlineBlanks _ pos,
    Nat.le_add_right _ _, le_skipTrivia hle, (itemTailEnd_bounds hle).1⟩
  exact ⟨isBoundary_commaAfter hstop, (commaAfter_eq_some hstop).2⟩

/-- Two characters of the text take more than one byte. -/
theorem scans_land_ellipsis :
    (utf8 "é /* … */,").isBoundary 2 = true ∧
    Checked.skipTrivia (utf8 "é /* … */,") 2 = some 12 ∧
    Checked.commaAfter (utf8 "é /* … */,") 2 = some (some 13) ∧
    (utf8 "é /* … */,").isBoundary 13 = true := by
  have hpos : (utf8 "é /* … */,").isBoundary 2 = true := by decide
  have htrivia : skipTrivia (utf8 "é /* … */,") 2 = 12 := by decide +kernel
  have hcomma : commaAfter (utf8 "é /* … */,") 2 = some 13 := by decide +kernel
  obtain ⟨⟨-, -, -, -, hlands, -⟩, ⟨hchecked, hboundary⟩, -⟩ := scans_land "é /* … */," hpos
  exact ⟨hpos, htrivia ▸ hlands.ends, hcomma ▸ hchecked, (hboundary 13 hcomma).1⟩

end Text

end Statechart
