import Statechart.Source.Literal

/-!
# String literals

A string that is written between quotes is read back, and it is one literal: the mark that closes
it is the first that no backslash stands before.

* `cookBody_cons`, `cookBody_backslash`: how a literal is read, step by step;
* `Enclosed`: characters that can stand between two marks;
* `quote_literal`: what is quoted is one literal, and is read back.
-/

namespace Statechart.Text

/-! ## Reading step by step -/

@[simp]
theorem cookBody_nil : cookBody [] = [] := by
  rw [cookBody]

theorem cookBody_cons {c : Char} (h : c ≠ '\\') (rest : List Char) :
    cookBody (c :: rest) = c :: cookBody rest := by
  rw [cookBody, beq_false_of_ne h]
  rfl

theorem cookBody_backslash (rest : List Char) :
    cookBody ('\\' :: rest) = (escape rest).1 ++ cookBody (escape rest).2 := by
  rw [cookBody]
  rfl

/-- The value of a literal is that of what stands between its marks. -/
theorem cook_enclosed (mark : Char) (body : List Char) :
    cook (String.ofList (mark :: body ++ [mark])) = String.ofList (cookBody body) := by
  rw [cook, String.toList_ofList]
  cases body with
  | nil => rfl
  | cons c body =>
    simp only [List.cons_append, betweenDelimiters]
    rw [← List.cons_append, List.dropLast_concat]

/-! ## Literals -/

/-- Characters that can stand between two marks: there is no mark among them, nor a backslash at
    their end, but behind a backslash. -/
inductive Enclosed (mark : Char) : List Char → Prop
  | nil : Enclosed mark []
  | escaped (c : Char) {rest : List Char} : Enclosed mark rest → Enclosed mark ('\\' :: c :: rest)
  | raw {c : Char} {rest : List Char} :
      c ≠ mark → c ≠ '\\' → Enclosed mark rest → Enclosed mark (c :: rest)

variable {mark : Char}

/-- The mark behind them closes a literal. -/
theorem Enclosed.throughMark {body : List Char} (h : Enclosed mark body) (hmark : mark ≠ '\\')
    (rest : List Char) : Source.throughMark mark (body ++ mark :: rest) = body ++ [mark] := by
  induction h with
  | nil =>
    rw [List.nil_append, Source.throughMark, beq_self_eq_true]
    · rfl
    · exact fun _ _ heq => absurd heq hmark
  | escaped c _ ih =>
    rw [List.cons_append, List.cons_append, Source.throughMark, ih]
    rfl
  | raw hne hc _ ih =>
    rw [List.cons_append, Source.throughMark, ih, beq_false_of_ne hne]
    · rfl
    · exact fun _ _ heq => absurd heq hc

/-! ## Quoting -/

/-- A character that is quoted is read back. -/
theorem cookBody_quoteChar (hmark : mark ∈ ['\x27', '\x22']) (c : Char) (rest : List Char) :
    cookBody (quoteChar mark c ++ rest) = c :: cookBody rest := by
  by_cases hbackslash : c = '\\'
  · subst hbackslash
    exact cookBody_backslash _
  by_cases hlineFeed : c = '\n'
  · subst hlineFeed
    exact cookBody_backslash _
  by_cases hreturn : c = '\r'
  · subst hreturn
    exact cookBody_backslash _
  by_cases htab : c = '\t'
  · subst htab
    exact cookBody_backslash _
  simp only [quoteChar, beq_iff_eq, hbackslash, hlineFeed, hreturn, htab, if_false]
  split
  · next heq =>
    -- Neither mark stands for anything else behind a backslash.
    subst heq
    simp only [List.mem_cons, List.not_mem_nil, or_false] at hmark
    rcases hmark with rfl | rfl <;> exact cookBody_backslash _
  · exact cookBody_cons hbackslash rest

theorem cookBody_quoteBody (hmark : mark ∈ ['\x27', '\x22']) (value : List Char) :
    cookBody (quoteBody mark value) = value := by
  induction value with
  | nil => exact cookBody_nil
  | cons c value ih =>
    rw [quoteBody, List.flatMap_cons, cookBody_quoteChar hmark, ← quoteBody, ih]

/-- A character is escaped by a backslash, or it is none that has to be. -/
theorem quoteChar_cases (mark c : Char) :
    (∃ d, quoteChar mark c = ['\\', d] ∧ d ≠ '\n' ∧ d ≠ '\r') ∨
      quoteChar mark c = [c] ∧ c ≠ mark ∧ c ≠ '\\' ∧ c ≠ '\n' ∧ c ≠ '\r' := by
  simp only [quoteChar, beq_iff_eq]
  split
  · exact .inl ⟨_, rfl, by decide, by decide⟩
  · next hbackslash =>
    split
    · exact .inl ⟨_, rfl, by decide, by decide⟩
    · next hlineFeed =>
      split
      · exact .inl ⟨_, rfl, by decide, by decide⟩
      · next hreturn =>
        split
        · exact .inl ⟨_, rfl, by decide, by decide⟩
        · split
          · exact .inl ⟨_, rfl, hlineFeed, hreturn⟩
          · next hmark => exact .inr ⟨rfl, hmark, hbackslash, hlineFeed, hreturn⟩

theorem enclosed_quoteBody (mark : Char) (value : List Char) :
    Enclosed mark (quoteBody mark value) := by
  induction value with
  | nil => exact .nil
  | cons c value ih =>
    rw [quoteBody, List.flatMap_cons, ← quoteBody]
    rcases quoteChar_cases mark c with ⟨d, heq, -⟩ | ⟨heq, hmark, hbackslash, -⟩
    · rw [heq]
      exact .escaped d ih
    · rw [heq]
      exact .raw hmark hbackslash ih

/-- No line ends in what is quoted. -/
theorem not_mem_quoteBody {c : Char} (h : c ∈ ['\n', '\r']) (mark : Char) (value : List Char) :
    c ∉ quoteBody mark value := by
  have hne : c ≠ '\\' := by
    rintro rfl
    exact absurd h (by decide)
  rw [quoteBody, List.mem_flatMap]
  rintro ⟨quoted, -, hmem⟩
  simp only [List.mem_cons, List.not_mem_nil, or_false] at h
  rcases quoteChar_cases mark quoted with ⟨d, heq, hfeed, hreturn⟩ | ⟨heq, -, -, hfeed, hreturn⟩
  · rw [heq, List.mem_cons, List.mem_singleton, or_iff_right hne] at hmem
    rcases h with rfl | rfl
    · exact hfeed hmem.symm
    · exact hreturn hmem.symm
  · rw [heq, List.mem_singleton] at hmem
    rcases h with rfl | rfl
    · exact hfeed hmem.symm
    · exact hreturn hmem.symm

/-- What is quoted is read back. It is one literal, from its first mark to the next that no
    backslash stands before, whatever follows. -/
theorem quote_literal (hmark : mark ∈ ['\x27', '\x22']) (value : String) :
    cook (quote mark value) = value ∧
      (∃ body, (quote mark value).toList = mark :: body ++ [mark] ∧ Enclosed mark body ∧
        '\n' ∉ body ∧ '\r' ∉ body) ∧
      ∀ rest, Source.stringLexeme ((quote mark value).toList ++ rest) =
        (quote mark value).toList := by
  have htext : (quote mark value).toList = mark :: quoteBody mark value.toList ++ [mark] := by
    rw [quote, String.toList_ofList]
  refine ⟨?_, ⟨_, htext, enclosed_quoteBody _ _, not_mem_quoteBody (by simp) _ _,
    not_mem_quoteBody (by simp) _ _⟩, fun rest => ?_⟩
  · rw [quote, cook_enclosed, cookBody_quoteBody hmark, String.ofList_toList]
  · have hne : mark ≠ '\\' := by
      rintro rfl
      exact absurd hmark (by decide)
    have hstart : (mark == '\x27' || mark == '\x22') = true := by simpa using hmark
    have hclosed := (enclosed_quoteBody mark value.toList).throughMark hne rest
    rw [htext, List.cons_append, List.cons_append, List.append_assoc, List.singleton_append,
      Source.stringLexeme, hstart, if_pos rfl, hclosed]

/-- A value with both marks, a backslash before a letter and ends of lines. -/
theorem quote_literal_escapes :
    quote '\x27' "it's \\n \"\r\n\t" = "'it\\'s \\\\n \"\\r\\n\\t'" ∧
      cook (quote '\x27' "it's \\n \"\r\n\t") = "it's \\n \"\r\n\t" ∧
      (∃ body, (quote '\x27' "it's \\n \"\r\n\t").toList = '\x27' :: body ++ ['\x27'] ∧
        Enclosed '\x27' body ∧ '\n' ∉ body ∧ '\r' ∉ body) ∧
      ∀ rest, Source.stringLexeme ((quote '\x27' "it's \\n \"\r\n\t").toList ++ rest) =
        (quote '\x27' "it's \\n \"\r\n\t").toList :=
  ⟨by decide +kernel, quote_literal (by decide) _⟩

end Statechart.Text
