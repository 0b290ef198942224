import Statechart.Proofs.LineScans

/-!
# The grammar of trivia

What the scanners of trivia pass over, as a language of its own: white space and whole comments up
to a comma, and the tail of an entry, which does not go beyond the end of its line.

* `IsTrivia`: white space and whole comments;
* `IsItemTail`: blanks, a comma and blanks, a comment on the line and blanks, and the line feed,
  each of them if it is there;
* `commaAfter_eq_some_iff`: a comma is found just behind trivia;
* `isItemTail_itemTailEnd`, `le_itemTailEnd`: the tail of an entry is the longest text of its form;
* `scans_trivia`: the scanners accept exactly their grammar.
-/

namespace Statechart.Text

variable {text bytes rest : Bytes} {pos stop : Nat}

/-! ## Comments -/

/-- White space and whole comments: `//` with all up to the first line feed behind it, and `/*` with
    all up to the first `*/` behind it. -/
inductive IsTrivia : Bytes → Prop
  | nil : IsTrivia []
  | space {byte : UInt8} {rest : Bytes} : isSpace byte = true → IsTrivia rest →
      IsTrivia (byte :: rest)
  | line {body rest : Bytes} : lineFeed ∉ body → IsTrivia rest →
      IsTrivia (0x2F :: 0x2F :: body ++ lineFeed :: rest)
  | block {body rest : Bytes} : ¬[0x2A, 0x2F] <:+: body → IsTrivia rest →
      IsTrivia (0x2F :: 0x2A :: body ++ 0x2A :: 0x2F :: rest)

/-- The first `*/` is found. -/
theorem afterClose?_append {body : Bytes} (h : ¬[0x2A, 0x2F] <:+: body) (rest : Bytes) :
    afterClose? (body ++ 0x2A :: 0x2F :: rest) = some rest := by
  induction body with
  | nil => rfl
  | cons a body ih =>
    have hbody : ¬[0x2A, 0x2F] <:+: body := fun hin =>
      h (hin.trans (List.suffix_cons a body).isInfix)
    cases body with
    | nil =>
      -- A star in front of the mark does not belong to it.
      rw [List.singleton_append, afterClose?, if_neg (by simp)]
      exact ih hbody
    | cons b body =>
      have hmark : ¬(a == 0x2A && b == 0x2F) = true := by
        rw [Bool.and_eq_true, beq_iff_eq, beq_iff_eq]
        rintro ⟨rfl, rfl⟩
        exact h ⟨[], body, rfl⟩
      rw [List.cons_append, List.cons_append, afterClose?, if_neg hmark]
      exact ih hbody

/-- Up to the mark that is found, there is none. -/
theorem exists_of_afterClose? : ∀ {bytes rest : Bytes}, afterClose? bytes = some rest →
    ∃ body, ¬[0x2A, 0x2F] <:+: body ∧ bytes = body ++ 0x2A :: 0x2F :: rest
  | a :: b :: l, rest, h => by
    rw [afterClose?] at h
    split at h
    · next hmark =>
      rw [Bool.and_eq_true, beq_iff_eq, beq_iff_eq] at hmark
      obtain ⟨rfl, rfl⟩ := hmark
      obtain rfl := Option.some.inj h
      exact ⟨[], by simp, rfl⟩
    · next hmark =>
      obtain ⟨body, hbody, heq⟩ := exists_of_afterClose? h
      refine ⟨a :: body, fun hin => ?_, by rw [List.cons_append, ← heq]⟩
      rw [List.infix_cons_iff] at hin
      rcases hin with hfront | hin
      · -- A mark at the front would have been found there.
        cases body with
        | nil => exact absurd (List.IsPrefix.length_le hfront) (by simp)
        | cons c body =>
          obtain ⟨rfl, hnext⟩ := List.cons_prefix_cons.1 hfront
          obtain rfl := (List.cons_prefix_cons.1 hnext).1
          obtain rfl := (List.cons.inj heq).1
          exact hmark rfl
      · exact hbody hin

/-! ## White space and comments up to a comma -/

theorem IsTrivia.append_of_isSpace {spaces : Bytes} (hspaces : ∀ byte ∈ spaces, isSpace byte = true)
    (h : IsTrivia bytes) : IsTrivia (spaces ++ bytes) := by
  induction spaces with
  | nil => exact h
  | cons byte spaces ih =>
    exact .space (hspaces byte List.mem_cons_self)
      (ih fun b hb => hspaces b (List.mem_cons_of_mem _ hb))

theorem IsTrivia.of_isSpace {byte : UInt8} (h : IsTrivia (byte :: bytes))
    (hbyte : isSpace byte = true) : IsTrivia bytes := by
  cases h with
  | space _ h => exact h
  | line | block => exact absurd hbyte (by decide)

theorem lineFeed_not_mem_takeWhile (bytes : Bytes) :
    lineFeed ∉ bytes.takeWhile (· != lineFeed) :=
  fun hmem => absurd (List.mem_takeWhile_imp hmem) (by simp)

theorem afterTrivia_cons_of_isSpace {byte : UInt8} (h : isSpace byte = true) (bytes : Bytes) :
    afterTrivia (byte :: bytes) = afterTrivia bytes :=
  afterTrivia_congr (List.dropWhile_cons_of_pos h)

/-- Trivia are passed over. -/
theorem afterTrivia_append {trivia : Bytes} (h : IsTrivia trivia) (rest : Bytes) :
    afterTrivia (trivia ++ rest) = afterTrivia rest := by
  induction h with
  | nil => rfl
  | space hbyte _ ih => rw [List.cons_append, afterTrivia_cons_of_isSpace hbyte, ih]
  | line hbody _ ih =>
    simp only [List.cons_append, List.append_assoc]
    rw [afterTrivia_line, dropWhile_ne_lineFeed hbody, List.dropWhile_cons_of_neg (by simp),
      afterTrivia_cons_of_isSpace rfl, ih]
  | block hbody _ ih =>
    simp only [List.cons_append, List.append_assoc]
    rw [afterTrivia_block, afterClose?_append hbody, Option.elim_some, ih]

/-- What comes behind trivia is no white space. -/
theorem isSpace_of_afterTrivia {byte : UInt8} (h : afterTrivia bytes = byte :: rest) :
    isSpace byte = false := by
  fun_induction afterTrivia bytes with
  | case1 _ _ _ ih => exact ih h
  | case2 _ _ _ _ _ ih => exact ih h
  | case3 => cases h
  | case4 bytes =>
    have hhead := List.head?_dropWhile_not isSpace bytes
    rw [h] at hhead
    simpa using hhead

/-- What is passed over is trivia, unless it goes to the end of the text. -/
theorem exists_trivia_of_afterTrivia {byte : UInt8} (h : afterTrivia bytes = byte :: rest) :
    ∃ trivia, IsTrivia trivia ∧ bytes = trivia ++ byte :: rest := by
  have hspaces : ∀ bytes : Bytes, ∀ byte ∈ bytes.takeWhile isSpace, isSpace byte = true :=
    fun _ _ hbyte => List.mem_takeWhile_imp hbyte
  fun_induction afterTrivia bytes with
  | case1 bytes body hopen ih =>
    obtain ⟨trivia, htrivia, heq⟩ := ih h
    -- The line goes up to a line feed, which is the first of the trivia behind it.
    cases trivia with
    | nil => exact absurd (isSpace_of_afterTrivia h) (by rw [eq_lineFeed_of_dropWhile heq]; decide)
    | cons feed trivia =>
      obtain rfl := eq_lineFeed_of_dropWhile heq
      refine ⟨bytes.takeWhile isSpace ++
        (0x2F :: 0x2F :: body.takeWhile (· != lineFeed) ++ lineFeed :: trivia),
        (IsTrivia.line (lineFeed_not_mem_takeWhile body)
          (htrivia.of_isSpace rfl)).append_of_isSpace (hspaces bytes), ?_⟩
      conv_lhs =>
        rw [← List.takeWhile_append_dropWhile (p := isSpace) (l := bytes), opening_eq_line hopen,
          ← List.takeWhile_append_dropWhile (p := (· != lineFeed)) (l := body), heq]
      simp only [List.cons_append, List.append_assoc]
  | case2 bytes body hopen rest' hclose ih =>
    obtain ⟨trivia, htrivia, heq⟩ := ih h
    obtain ⟨inner, hinner, rfl⟩ := exists_of_afterClose? hclose
    refine ⟨bytes.takeWhile isSpace ++ (0x2F :: 0x2A :: inner ++ 0x2A :: 0x2F :: trivia),
      (IsTrivia.block hinner htrivia).append_of_isSpace (hspaces bytes), ?_⟩
    conv_lhs =>
      rw [← List.takeWhile_append_dropWhile (p := isSpace) (l := bytes), opening_eq_block hopen,
        heq]
    simp only [List.cons_append, List.append_assoc]
  | case3 => cases h
  | case4 bytes =>
    refine ⟨bytes.takeWhile isSpace, ?_, ?_⟩
    · simpa using IsTrivia.nil.append_of_isSpace (hspaces bytes)
    · rw [← h, List.takeWhile_append_dropWhile]

theorem suffix_afterTrivia (bytes : Bytes) : afterTrivia bytes <:+ bytes := by
  fun_induction afterTrivia bytes with
  | case1 bytes body hopen ih =>
    have hbody : body <:+ bytes.dropWhile isSpace := opening_eq_line hopen ▸ ⟨[0x2F, 0x2F], rfl⟩
    exact ((ih.trans (List.dropWhile_suffix _)).trans hbody).trans (List.dropWhile_suffix _)
  | case2 bytes body hopen rest hclose ih =>
    have hbody : body <:+ bytes.dropWhile isSpace := opening_eq_block hopen ▸ ⟨[0x2F, 0x2A], rfl⟩
    exact ((ih.trans (suffix_of_afterClose? hclose)).trans hbody).trans (List.dropWhile_suffix _)
  | case3 => exact List.nil_suffix
  | case4 bytes => exact List.dropWhile_suffix _

theorem drop_skipTrivia (text : Bytes) (pos : Nat) :
    text.drop (skipTrivia text pos) = afterTrivia (text.drop pos) :=
  drop_length_sub ((suffix_afterTrivia _).trans (List.drop_suffix pos text))

/-! ## Parts of a text -/

/-- The text between two positions is what the rest of the text starts with. -/
theorem range_eq_iff (hle : pos ≤ stop) {part : Bytes} :
    text.range pos stop = part ↔ text.drop pos = part ++ text.drop stop := by
  have hdrop : text.drop stop = (text.drop pos).drop (stop - pos) := by
    rw [List.drop_drop, Nat.add_sub_cancel' hle]
  rw [Bytes.range, hdrop]
  constructor
  · rintro rfl
    rw [List.take_append_drop]
  · intro h
    conv_lhs at h => rw [← List.take_append_drop (stop - pos) (text.drop pos)]
    exact List.append_cancel_right h

theorem eq_add_length_of_drop {part : Bytes} (hpos : pos ≤ text.length) (hstop : stop ≤ text.length)
    (h : text.drop pos = part ++ text.drop stop) : stop = pos + part.length := by
  have hlength := congrArg List.length h
  rw [List.length_append, List.length_drop, List.length_drop] at hlength
  omega

/-- A comma is found just behind white space and whole comments. -/
theorem commaAfter_eq_some_iff : commaAfter text pos = some stop ↔
    stop ≤ text.length ∧ ∃ trivia, IsTrivia trivia ∧ text.range pos stop = trivia ++ [0x2C] := by
  constructor
  · intro h
    obtain ⟨rfl, hstop⟩ := commaAfter_eq_some h
    have hcomma : text[skipTrivia text pos]? = some 0x2C := by
      rw [commaAfter] at h
      split at h
      · next hcomma => exact beq_iff_eq.1 hcomma
      · cases h
    have hdrop := drop_eq_cons_of_getElem? hcomma
    rw [drop_skipTrivia] at hdrop
    obtain ⟨trivia, htrivia, heq⟩ := exists_trivia_of_afterTrivia hdrop
    have hpos : pos ≤ text.length := by
      by_contra hpos
      rw [List.drop_of_length_le (by omega)] at heq
      cases trivia <;> cases heq
    refine ⟨hstop, trivia, htrivia, (range_eq_iff ?_).2 ?_⟩
    · exact Nat.le_succ_of_le (le_skipTrivia hpos)
    · rw [heq, List.append_assoc, List.singleton_append]
  · rintro ⟨hstop, trivia, htrivia, hrange⟩
    have hle : pos ≤ stop := by
      by_contra hlt
      rw [range_of_le (by omega)] at hrange
      cases trivia <;> cases hrange
    have hdrop := (range_eq_iff hle).1 hrange
    rw [List.append_assoc, List.singleton_append] at hdrop
    have hskip : skipTrivia text pos + 1 = stop := by
      have hlength := congrArg List.length hdrop
      rw [List.length_drop, List.length_append, List.length_cons, List.length_drop] at hlength
      rw [skipTrivia, hdrop, afterTrivia_append htrivia, afterTrivia_comma, List.length_cons,
        List.length_drop]
      omega
    have hcomma : text.drop (skipTrivia text pos) = 0x2C :: text.drop stop := by
      rw [drop_skipTrivia, hdrop, afterTrivia_append htrivia, afterTrivia_comma]
    rw [commaAfter, getElem?_of_drop hcomma, ← hskip]
    rfl

/-! ## Tails of entries -/

/-- A comment that ends on the line on which it starts. -/
inductive IsLineComment : Bytes → Prop
  | line {body : Bytes} : lineFeed ∉ body → IsLineComment (0x2F :: 0x2F :: body)
  | block {body : Bytes} : lineFeed ∉ body → ¬[0x2A, 0x2F] <:+: body →
      IsLineComment (0x2F :: 0x2A :: body ++ [0x2A, 0x2F])

/-- Spaces and tabs. -/
def IsBlanks (bytes : Bytes) : Prop :=
  ∀ byte ∈ bytes, isInlineBlank byte = true

theorem IsLineComment.lineFeed_not_mem {comment : Bytes} (h : IsLineComment comment) :
    lineFeed ∉ comment := by
  cases h with
  | line hbody => simpa [lineFeed] using hbody
  | block hbody _ => simpa [lineFeed] using hbody

theorem IsBlanks.lineFeed_not_mem {blanks : Bytes} (h : IsBlanks blanks) : lineFeed ∉ blanks :=
  fun hmem => absurd (h _ hmem) (by decide)

/-- At most one comment on the line, blanks, and at most one line feed. -/
inductive IsLineTail : Bytes → Prop
  | intro {comment blanks feed : Bytes} : comment = [] ∨ IsLineComment comment → IsBlanks blanks →
      feed = [] ∨ feed = [lineFeed] → IsLineTail (comment ++ blanks ++ feed)

/-- Blanks, at most one comma, blanks, at most one comment on the line, blanks, and at most one line
    feed. -/
inductive IsItemTail : Bytes → Prop
  | intro {before comma after tail : Bytes} : IsBlanks before → comma = [] ∨ comma = [0x2C] →
      IsBlanks after → IsLineTail tail → IsItemTail (before ++ comma ++ after ++ tail)

/-- Where a line feed, if there is one, ends. -/
def feedEnd (text : Bytes) (pos : Nat) : Nat :=
  if text[pos]? == some lineFeed then pos + 1 else pos

/-- Where the blanks and the comma, if there is one, end. -/
def commaEnd (text : Bytes) (pos : Nat) : Nat :=
  let next := skipInlineBlanks text pos
  if text[next]? == some 0x2C then skipInlineBlanks text (next + 1) else next

theorem itemTailEnd_eq_feedEnd (text : Bytes) (pos : Nat) :
    itemTailEnd text pos = feedEnd text (skipLineComment text (commaEnd text pos)) := rfl

/-! ### What the tail is made of -/

theorem drop_eq_blanks_append (text : Bytes) (pos : Nat) : ∃ blanks, IsBlanks blanks ∧
    text.drop pos = blanks ++ text.drop (skipInlineBlanks text pos) := by
  refine ⟨(text.drop pos).takeWhile isInlineBlank, fun _ hbyte => List.mem_takeWhile_imp hbyte, ?_⟩
  rw [drop_skipInlineBlanks, List.takeWhile_append_dropWhile]

theorem drop_eq_comma_append (text : Bytes) (pos : Nat) : ∃ before comma after,
    IsBlanks before ∧ (comma = [] ∨ comma = [0x2C]) ∧ IsBlanks after ∧
      text.drop pos = before ++ comma ++ after ++ text.drop (commaEnd text pos) := by
  obtain ⟨before, hbefore, hdrop⟩ := drop_eq_blanks_append text pos
  rw [commaEnd]
  split
  · next hcomma =>
    obtain ⟨after, hafter, hdrop'⟩ := drop_eq_blanks_append text (skipInlineBlanks text pos + 1)
    refine ⟨before, [0x2C], after, hbefore, .inr rfl, hafter, ?_⟩
    rw [hdrop, drop_eq_cons_of_getElem? (beq_iff_eq.1 hcomma), hdrop']
    simp only [List.append_assoc, List.cons_append, List.nil_append]
  · exact ⟨before, [], [], hbefore, .inl rfl, fun _ h => absurd h List.not_mem_nil, by simpa⟩

theorem drop_eq_comment_append (hpos : pos ≤ text.length) : ∃ comment blanks,
    (comment = [] ∨ IsLineComment comment) ∧ IsBlanks blanks ∧
      text.drop pos = comment ++ blanks ++ text.drop (skipLineComment text pos) := by
  have hnone : ∃ comment blanks, (comment = [] ∨ IsLineComment comment) ∧ IsBlanks blanks ∧
      text.drop pos = comment ++ blanks ++ text.drop pos :=
    ⟨[], [], .inl rfl, fun _ h => absurd h List.not_mem_nil, rfl⟩
  rw [skipLineComment]
  split
  · next rest hopen =>
    have hbytes := opening_eq_line hopen
    refine ⟨(text.drop pos).takeWhile (· != lineFeed), [], .inr ?_,
      fun _ h => absurd h List.not_mem_nil, ?_⟩
    · rw [hbytes]
      exact .line (lineFeed_not_mem_takeWhile rest)
    · rw [drop_lineEnd hpos, List.append_nil, List.takeWhile_append_dropWhile]
  · next rest hopen =>
    have hbytes := opening_eq_block hopen
    split
    · next rest' hclose =>
      obtain ⟨body, hbody, rfl⟩ := exists_of_afterClose? hclose
      dsimp only
      -- A block that goes on to another line is left where it is.
      split
      · exact hnone
      · next hspans =>
        obtain ⟨blanks, hblanks, hdrop⟩ :=
          drop_eq_blanks_append text (text.length - rest'.length)
        have hcomment : text.drop pos
            = 0x2F :: 0x2A :: body ++ [0x2A, 0x2F] ++ text.drop (text.length - rest'.length) := by
          rw [drop_close hbytes hclose, hbytes]
          simp
        refine ⟨0x2F :: 0x2A :: body ++ [0x2A, 0x2F], blanks, .inr (.block ?_ hbody), hblanks, ?_⟩
        · have hlength := congrArg List.length hbytes
          simp only [List.length_drop, List.length_cons, List.length_append] at hlength
          rw [spansLines, (range_eq_iff (by omega)).2 hcomment, Bool.not_eq_true,
            List.any_eq_false] at hspans
          intro hfeed
          exact hspans lineFeed (List.mem_append_left _
            (List.mem_cons_of_mem _ (List.mem_cons_of_mem _ hfeed))) (beq_self_eq_true _)
        · rw [hcomment, List.append_assoc _ blanks, ← hdrop]
    · exact hnone
  · exact hnone

theorem drop_eq_feed_append (text : Bytes) (pos : Nat) : ∃ feed, (feed = [] ∨ feed = [lineFeed]) ∧
    text.drop pos = feed ++ text.drop (feedEnd text pos) := by
  rw [feedEnd]
  split
  · next hfeed =>
    exact ⟨[lineFeed], .inr rfl, drop_eq_cons_of_getElem? (beq_iff_eq.1 hfeed)⟩
  · exact ⟨[], .inl rfl, rfl⟩

theorem commaEnd_mem (hpos : pos ≤ text.length) :
    pos ≤ commaEnd text pos ∧ commaEnd text pos ≤ text.length := by
  have hblanks := le_skipInlineBlanks text pos
  rw [commaEnd]
  split
  · next hcomma =>
    have hlength : skipInlineBlanks text pos + 1 ≤ text.length :=
      (List.getElem?_eq_some_iff.1 (beq_iff_eq.1 hcomma)).1
    have hblanks' := le_skipInlineBlanks text (skipInlineBlanks text pos + 1)
    exact ⟨by omega, skipInlineBlanks_le hlength⟩
  · exact ⟨hblanks, skipInlineBlanks_le hpos⟩

theorem le_feedEnd (text : Bytes) (pos : Nat) : pos ≤ feedEnd text pos := by
  rw [feedEnd]
  split <;> omega

theorem feedEnd_le (hpos : pos ≤ text.length) : feedEnd text pos ≤ text.length := by
  rw [feedEnd]
  split
  · next hfeed => exact (List.getElem?_eq_some_iff.1 (beq_iff_eq.1 hfeed)).1
  · exact hpos

theorem itemTailEnd_bounds (hpos : pos ≤ text.length) :
    pos ≤ itemTailEnd text pos ∧ itemTailEnd text pos ≤ text.length := by
  obtain ⟨hcomma, hcomma'⟩ := commaEnd_mem hpos
  obtain ⟨hcomment, hcomment'⟩ := skipLineComment_mem hcomma'
  rw [itemTailEnd_eq_feedEnd]
  exact ⟨(hcomma.trans hcomment).trans (le_feedEnd _ _), feedEnd_le hcomment'⟩

/-- What is taken for the tail of an entry has the form of one. -/
theorem isItemTail_itemTailEnd (hpos : pos ≤ text.length) :
    IsItemTail (text.range pos (itemTailEnd text pos)) := by
  obtain ⟨before, comma, after, hbefore, hcomma, hafter, hdrop⟩ := drop_eq_comma_append text pos
  obtain ⟨comment, blanks, hcomment, hblanks, hdrop'⟩ :=
    drop_eq_comment_append (commaEnd_mem hpos).2
  obtain ⟨feed, hfeed, hdrop''⟩ :=
    drop_eq_feed_append text (skipLineComment text (commaEnd text pos))
  have hrange : text.range pos (itemTailEnd text pos)
      = before ++ comma ++ after ++ (comment ++ blanks ++ feed) := by
    rw [range_eq_iff (itemTailEnd_bounds hpos).1, hdrop, hdrop', hdrop'', itemTailEnd_eq_feedEnd]
    simp only [List.append_assoc]
  rw [hrange]
  exact .intro hbefore hcomma hafter (.intro hcomment hblanks hfeed)

/-! ### The longest tail -/

theorem skipInlineBlanks_add {blanks : Bytes} (hblanks : IsBlanks blanks)
    (h : text.drop pos = blanks ++ rest) :
    skipInlineBlanks text (pos + blanks.length) = skipInlineBlanks text pos := by
  rw [skipInlineBlanks, skipInlineBlanks, drop_add_length h, h,
    List.takeWhile_append_of_pos hblanks, List.length_append, Nat.add_assoc]

theorem lineEnd_add {part : Bytes} (hpos : pos ≤ text.length) (hpart : lineFeed ∉ part)
    (h : text.drop pos = part ++ rest) : lineEnd text (pos + part.length) = lineEnd text pos := by
  rw [lineEnd, lineEnd, drop_add_length h, h, takeWhile_ne_lineFeed hpart, List.length_append,
    Nat.min_eq_left (add_length_le hpos h), Nat.min_eq_left hpos, Nat.add_assoc]

theorem skipLineComment_of_ne {byte : UInt8} (h : text[pos]? = some byte) (hbyte : byte ≠ 0x2F) :
    skipLineComment text pos = pos := by
  rw [skipLineComment, drop_eq_cons_of_getElem? h]
  split
  · next hopen => exact absurd (List.cons.inj (opening_eq_line hopen)).1 hbyte
  · next hopen => exact absurd (List.cons.inj (opening_eq_block hopen)).1 hbyte
  · rfl

/-- A scan that stops at line feeds leaves the line feed behind a position. -/
theorem le_feedEnd_of_drop {found : Nat} {feed : Bytes} (hpos : pos ≤ text.length)
    (hstop : stop ≤ text.length) (hfound : pos ≤ found)
    (hkeeps : text[pos]? = some lineFeed → found = pos) (hfeed : feed = [] ∨ feed = [lineFeed])
    (h : text.drop pos = feed ++ text.drop stop) : stop ≤ feedEnd text found := by
  rw [eq_add_length_of_drop hpos hstop h]
  rcases hfeed with rfl | rfl
  · exact hfound.trans (le_feedEnd text found)
  · have hbyte : text[pos]? = some lineFeed := getElem?_of_drop h
    rw [hkeeps hbyte, feedEnd, if_pos (beq_iff_eq.2 hbyte)]
    exact le_rfl

theorem skipInlineBlanks_of_lineFeed (h : text[pos]? = some lineFeed) :
    skipInlineBlanks text pos = pos :=
  skipInlineBlanks_eq (drop_eq_cons_of_getElem? h) rfl

theorem lineEnd_of_lineFeed (h : text[pos]? = some lineFeed) : lineEnd text pos = pos := by
  have hpos := (List.getElem?_eq_some_iff.1 h).1
  rw [lineEnd, drop_eq_cons_of_getElem? h, List.takeWhile_cons, if_neg (by simp),
    Nat.min_eq_left hpos.le]
  rfl

theorem skipLineComment_of_line {body : Bytes} (h : text.drop pos = 0x2F :: 0x2F :: body) :
    skipLineComment text pos = lineEnd text pos := by
  rw [skipLineComment, h]
  rfl

theorem skipLineComment_of_block {body : Bytes} (hfeed : lineFeed ∉ body)
    (hbody : ¬[0x2A, 0x2F] <:+: body)
    (h : text.drop pos = 0x2F :: 0x2A :: body ++ [0x2A, 0x2F] ++ rest) :
    skipLineComment text pos
      = skipInlineBlanks text (pos + (0x2F :: 0x2A :: body ++ [0x2A, 0x2F]).length) := by
  have hopen : opening (text.drop pos) = .block (body ++ 0x2A :: 0x2F :: rest) := by
    rw [h, List.append_assoc]
    rfl
  have hclose : text.length - rest.length
      = pos + (0x2F :: 0x2A :: body ++ [0x2A, 0x2F]).length := by
    have hlength := congrArg List.length h
    have hpositive : 0 < (0x2F :: 0x2A :: body ++ [0x2A, 0x2F]).length := Nat.succ_pos _
    rw [List.length_drop, List.length_append] at hlength
    omega
  have hspans : spansLines text pos (pos + (0x2F :: 0x2A :: body ++ [0x2A, 0x2F]).length)
      = false := by
    have hrange : text.range pos (pos + (0x2F :: 0x2A :: body ++ [0x2A, 0x2F]).length)
        = 0x2F :: 0x2A :: body ++ [0x2A, 0x2F] := by
      rw [range_eq_iff (Nat.le_add_right _ _), drop_add_length h, h]
    rw [spansLines, hrange, List.any_eq_false]
    intro byte hbyte hline
    exact (IsLineComment.block hfeed hbody).lineFeed_not_mem (beq_iff_eq.1 hline ▸ hbyte)
  simp only [skipLineComment, hopen, afterClose?_append hbody, hclose, hspans]
  rfl

/-- A comment on the line and the blanks behind it are gone over, up to a line feed that comes
    next. -/
theorem skipLineComment_skipInlineBlanks {comment blanks : Bytes} (hpos : pos ≤ text.length)
    (hcomment : comment = [] ∨ IsLineComment comment) (hblanks : IsBlanks blanks)
    (hstop : stop = pos + (comment ++ blanks).length)
    (h : text.drop pos = comment ++ blanks ++ rest) :
    stop ≤ skipLineComment text (skipInlineBlanks text pos) ∧ (text[stop]? = some lineFeed →
      skipLineComment text (skipInlineBlanks text pos) = stop) := by
  have hle : stop ≤ text.length := hstop ▸ add_length_le hpos h
  rcases hcomment with rfl | @⟨body, hfeed⟩ | @⟨body, hfeed, hbody⟩
  · rw [List.nil_append] at hstop h
    rw [← skipInlineBlanks_add hblanks h, ← hstop]
    refine ⟨(le_skipInlineBlanks text stop).trans (skipLineComment_mem (skipInlineBlanks_le hle)).1,
      fun hbyte => ?_⟩
    rw [skipInlineBlanks_of_lineFeed hbyte, skipLineComment_of_ne hbyte (by decide)]
  · have hline : lineFeed ∉ 0x2F :: 0x2F :: body ++ blanks := fun hmem =>
      (List.mem_append.1 hmem).elim (IsLineComment.line hfeed).lineFeed_not_mem
        hblanks.lineFeed_not_mem
    rw [skipInlineBlanks_eq h rfl, skipLineComment_of_line h, ← lineEnd_add hpos hline h, ← hstop]
    exact ⟨le_lineEnd hle, lineEnd_of_lineFeed⟩
  · rw [List.append_assoc _ blanks] at h
    rw [skipInlineBlanks_eq h rfl, skipLineComment_of_block hfeed hbody h,
      ← skipInlineBlanks_add hblanks (drop_add_length h), Nat.add_assoc, ← List.length_append,
      ← hstop]
    exact ⟨le_skipInlineBlanks text stop, skipInlineBlanks_of_lineFeed⟩

/-- Blanks and the tail of a line are gone over. -/
theorem le_feedEnd_of_isLineTail {before tail : Bytes} (hbefore : IsBlanks before)
    (htail : IsLineTail tail) (hpos : pos ≤ text.length) (hstop : stop ≤ text.length)
    (h : text.drop pos = before ++ (tail ++ text.drop stop)) :
    stop ≤ feedEnd text (skipLineComment text (skipInlineBlanks text pos)) := by
  obtain @⟨comment, blanks, feed, hcomment, hblanks, hfeed⟩ := htail
  have hnext := add_length_le hpos h
  have hdrop : text.drop (pos + before.length) = comment ++ blanks ++ (feed ++ text.drop stop) := by
    rw [drop_add_length h, List.append_assoc _ feed]
  obtain ⟨hfound, hkeeps⟩ :=
    skipLineComment_skipInlineBlanks hnext hcomment hblanks rfl hdrop
  rw [skipInlineBlanks_add hbefore h] at hfound hkeeps
  exact le_feedEnd_of_drop (add_length_le hnext hdrop) hstop hfound hkeeps hfeed
    (drop_add_length hdrop)

/-- What has the form of a tail of an entry ends before that tail does. -/
theorem le_itemTailEnd (hpos : pos ≤ text.length) (hstop : stop ≤ text.length)
    (h : IsItemTail (text.range pos stop)) : stop ≤ itemTailEnd text pos := by
  by_cases hle : pos ≤ stop
  · generalize hpart : text.range pos stop = part at h
    rw [range_eq_iff hle] at hpart
    obtain @⟨before, comma, after, tail, hbefore, hcomma, hafter, htail⟩ := h
    rw [itemTailEnd_eq_feedEnd, commaEnd]
    rcases hcomma with rfl | rfl
    · have hblanks : IsBlanks (before ++ after) := fun byte hbyte =>
        (List.mem_append.1 hbyte).elim (hbefore byte) (hafter byte)
      rw [List.append_nil, List.append_assoc _ tail] at hpart
      have hfound := le_feedEnd_of_isLineTail hblanks htail hpos hstop hpart
      split
      · next hbyte =>
        -- Before the comma there is neither a comment nor a line feed.
        have hcomma := beq_iff_eq.1 hbyte
        have hnext : skipInlineBlanks text pos + 1 ≤ text.length :=
          (List.getElem?_eq_some_iff.1 hcomma).1
        rw [skipLineComment_of_ne hcomma (by decide), feedEnd, hcomma, if_neg (by decide)] at hfound
        have hblanks' := le_skipInlineBlanks text (skipInlineBlanks text pos + 1)
        have hcomment := (skipLineComment_mem (skipInlineBlanks_le hnext)).1
        exact (by omega : stop ≤ _).trans (hcomment.trans (le_feedEnd _ _))
      · exact hfound
    · simp only [List.append_assoc, List.singleton_append] at hpart
      have hcomma := drop_add_length hpart
      have hnext : text.drop (pos + before.length + 1) = after ++ (tail ++ text.drop stop) := by
        rw [← List.drop_drop, hcomma]
        rfl
      have hbyte := getElem?_of_drop hcomma
      rw [← skipInlineBlanks_add hbefore hpart, skipInlineBlanks_eq hcomma rfl, hbyte,
        if_pos (beq_self_eq_true _)]
      exact le_feedEnd_of_isLineTail hafter htail (List.getElem?_eq_some_iff.1 hbyte).1 hstop hnext
  · exact (Nat.le_of_not_le hle).trans (itemTailEnd_bounds hpos).1

/-- Nothing of the next line belongs to the tail of an entry. -/
theorem IsItemTail.lineFeed_not_mem_dropLast (h : IsItemTail bytes) :
    lineFeed ∉ bytes.dropLast := by
  obtain @⟨before, comma, after, -, hbefore, hcomma, hafter,
    @⟨comment, blanks, feed, hcomment, hblanks, hfeed⟩⟩ := h
  have hline : lineFeed ∉ before ++ comma ++ after ++ (comment ++ blanks) := by
    have hcomma' : lineFeed ∉ comma := by
      rcases hcomma with rfl | rfl <;> decide
    have hcomment' : lineFeed ∉ comment :=
      hcomment.elim (fun h => h ▸ List.not_mem_nil) (·.lineFeed_not_mem)
    simp only [List.mem_append, not_or]
    exact ⟨⟨⟨hbefore.lineFeed_not_mem, hcomma'⟩, hafter.lineFeed_not_mem⟩, hcomment',
      hblanks.lineFeed_not_mem⟩
  rw [← List.append_assoc]
  rcases hfeed with rfl | rfl
  · rw [List.append_nil]
    exact fun hmem => hline ((List.dropLast_subset _) hmem)
  · rw [List.dropLast_concat]
    exact hline

/-! ## Both scanners -/

/-- A comma is found just behind white space and whole comments. The tail of an entry is the longest
    text of its form: blanks, a comma, blanks, a comment on the line, blanks and the line feed, each
    of them if it is there; so nothing of the next line belongs to it. -/
theorem scans_trivia (text : Bytes) {pos : Nat} (hpos : pos ≤ text.length) :
    (∀ stop, commaAfter text pos = some stop ↔
      stop ≤ text.length ∧ ∃ trivia, IsTrivia trivia ∧ text.range pos stop = trivia ++ [0x2C]) ∧
    (pos ≤ itemTailEnd text pos ∧ itemTailEnd text pos ≤ text.length) ∧
    IsItemTail (text.range pos (itemTailEnd text pos)) ∧
    (∀ stop ≤ text.length, IsItemTail (text.range pos stop) → stop ≤ itemTailEnd text pos) ∧
    lineFeed ∉ (text.range pos (itemTailEnd text pos)).dropLast :=
  ⟨fun _ => commaAfter_eq_some_iff, itemTailEnd_bounds hpos, isItemTail_itemTailEnd hpos,
    fun _ hstop h => le_itemTailEnd hpos hstop h,
    (isItemTail_itemTailEnd hpos).lineFeed_not_mem_dropLast⟩

/-- The comma in a comment is not found, and the second comment does not belong to the entry. -/
theorem scans_trivia_comments :
    1 ≤ (utf8 "a /* , */ // b\n, c").length ∧
    (∃ trivia, IsTrivia trivia ∧ (utf8 "a /* , */ // b\n, c").range 1 16 = trivia ++ [0x2C]) ∧
    IsItemTail (utf8 " /* , */ ") ∧ itemTailEnd (utf8 "a /* , */ // b\n, c") 1 = 10 := by
  have hpos : 1 ≤ (utf8 "a /* , */ // b\n, c").length := by decide
  have hcomma : commaAfter (utf8 "a /* , */ // b\n, c") 1 = some 16 := by decide +kernel
  have htail : itemTailEnd (utf8 "a /* , */ // b\n, c") 1 = 10 := by decide +kernel
  obtain ⟨hscans, -, hform, -, -⟩ := scans_trivia (utf8 "a /* , */ // b\n, c") hpos
  rw [htail] at hform
  exact ⟨hpos, ((hscans 16).1 hcomma).2, hform, htail⟩

end Statechart.Text
