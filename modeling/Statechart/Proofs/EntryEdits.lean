import Statechart.Proofs.Outcome
import Statechart.Proofs.Placement

/-!
# Edits of a literal, entry by entry

The edits that turn a literal into that of the draft come from its entries: from those that
are kept, from those that are removed, and from the runs of new ones.

* `mem_kept_iff`: the positions that count as kept are those of kept entries;
* `Baseline.planOfEntry`: how an entry of the draft is written;
* `Baseline.edits_planOf`: the edits of a node are those of its entries, if both nodes are
  literals of one kind, else the node stays or is replaced as a whole;
* `Baseline.entryEdits_eq`: the edits of entries;
* `Baseline.entryEdits_of_origins`: entries that are not moved are edited one by one.
-/

namespace Statechart

namespace Splice

open Entry

variable {span : Span} {old new : List Entry} {o n : Entry} {i : Nat}

/-- For each entry of the draft the position of the one that it keeps. -/
def matching (old new : List Entry) : List (Option Nat) :=
  matchFrom old 0 (new.map (·.origin))

/-- The positions of the entries that are kept. -/
def keptPositions (old new : List Entry) : List Nat :=
  (matching old new).filterMap id

theorem length_matching (old new : List Entry) : (matching old new).length = new.length := by
  rw [matching, length_matchFrom, List.length_map]

/-- A match of two entries keeps the place of the first. -/
theorem keepsPlace_of_mem_zip (hold : Placed span old)
    (h : (n, some i) ∈ new.zip (matching old new)) :
    ∃ o, old[i]? = some o ∧ KeepsPlace old new o n := by
  obtain ⟨d, hd, hget⟩ := List.getElem_of_mem h
  have hzip : (new.zip (matching old new))[d]? = some (n, some i) := by
    rw [List.getElem?_eq_getElem hd, hget]
  obtain ⟨hn, hi⟩ := List.getElem?_zip_eq_some.1 hzip
  have hpos := ((getElem?_matchFrom old 0 _ d i).1 hi).2.1
  rw [List.getElem?_map, hn, Option.map_some, Option.bind_some,
    positionOf?_eq_some_iff hold] at hpos
  obtain ⟨o, ho, -⟩ := hpos
  obtain ⟨horigin, hbefore⟩ := (matchFrom_eq_some_iff hold hn ho).1 hi
  exact ⟨o, ho, i, d, ho, hn, horigin, hbefore⟩

/-- An entry whose place is kept is matched. -/
theorem mem_zip_of_keepsPlace (hold : Placed span old) (h : KeepsPlace old new o n)
    (hi : old[i]? = some o) : (n, some i) ∈ new.zip (matching old new) := by
  obtain ⟨j, d, hj, hd, horigin, hbefore⟩ := h
  obtain rfl := hold.eq_of_origin hi hj rfl
  have hmatch := (matchFrom_eq_some_iff hold hd hi).2 ⟨horigin, hbefore⟩
  exact List.mem_of_getElem? (List.getElem?_zip_eq_some.2 ⟨hd, hmatch⟩)

/-- The positions that count as kept are those of kept entries. -/
theorem mem_kept_iff (hold : Placed span old) (hi : old[i]? = some o) :
    i ∈ keptPositions old new ↔ ∃ n, KeepsPlace old new o n := by
  constructor
  · intro h
    obtain ⟨d, hd⟩ := List.mem_iff_getElem?.1 (List.mem_filterMap.1 h |>.elim fun x hx =>
      (show some i ∈ matching old new from hx.2 ▸ hx.1))
    have hlt : d < new.length := by
      rw [← length_matching old new]
      exact (List.getElem?_eq_some_iff.1 hd).1
    obtain ⟨o', ho', hkeeps⟩ := keepsPlace_of_mem_zip hold (n := new[d]) (i := i)
      (List.mem_of_getElem? (List.getElem?_zip_eq_some.2 ⟨List.getElem?_eq_getElem hlt, hd⟩))
    obtain rfl := Option.some.inj (ho'.symm.trans hi)
    exact ⟨_, hkeeps⟩
  · rintro ⟨n, hkeeps⟩
    exact List.mem_filterMap.2
      ⟨some i, (List.of_mem_zip (mem_zip_of_keepsPlace hold hkeeps hi)).2, rfl⟩

/-- A kept position is one of an entry. -/
theorem exists_of_mem_kept (hold : Placed span old) (h : i ∈ keptPositions old new) :
    ∃ o, old[i]? = some o := by
  obtain ⟨x, hx, rfl⟩ := List.mem_filterMap.1 h
  obtain ⟨d, hd⟩ := List.mem_iff_getElem?.1 hx
  have hpos := ((getElem?_matchFrom old 0 _ d i).1 hd).2.1
  obtain ⟨origin, -, hpos⟩ := Option.bind_eq_some_iff.1 hpos
  exact ((positionOf?_eq_some_iff hold).1 hpos).imp fun _ ho => ho.1

/-- Entries are kept in their order. -/
theorem pairwise_keptPositions (old new : List Entry) :
    (keptPositions old new).Pairwise (· < ·) := by
  -- Each match moves the bound behind itself.
  have hfrom : ∀ (origins : List Origin) (bound : Nat),
      (∀ i ∈ (matchFrom old bound origins).filterMap id, bound ≤ i) ∧
        ((matchFrom old bound origins).filterMap id).Pairwise (· < ·) := by
    intro origins
    induction origins with
    | nil => exact fun _ => ⟨fun _ h => absurd h List.not_mem_nil, List.Pairwise.nil⟩
    | cons origin rest ih =>
      intro bound
      rw [matchFrom]
      split
      · next i hi =>
        have hbound : bound ≤ i := by simpa using (Option.filter_eq_some_iff.1 hi).2
        obtain ⟨hrest, hpair⟩ := ih (i + 1)
        simp only [List.filterMap_cons, id_eq]
        exact ⟨List.forall_mem_cons.2 ⟨hbound, fun j hj => by have := hrest j hj; omega⟩,
          List.pairwise_cons.2 ⟨fun j hj => by have := hrest j hj; omega, hpair⟩⟩
      · simpa using ih bound
  exact (hfrom _ 0).2

/-- The last kept position before another is the greatest. -/
theorem le_of_keptBefore? {j k : Nat} (h : keptBefore? (keptPositions old new) i = some j)
    (hk : k ∈ keptPositions old new) (hki : k < i) : k ≤ j := by
  have hpair : (keptPositions old new).reverse.Pairwise (· > ·) :=
    List.pairwise_reverse.2 (pairwise_keptPositions old new)
  obtain ⟨-, before, after, hsplit, hbefore⟩ := List.find?_eq_some_iff_append.1 h
  rw [← List.mem_reverse, hsplit] at hk
  rw [hsplit] at hpair
  rcases List.mem_append.1 hk with hk | hk
  · exact absurd (decide_eq_true hki) (by simpa using hbefore k hk)
  · rcases List.mem_cons.1 hk with rfl | hk
    · exact le_rfl
    · exact (List.rel_of_pairwise_cons (List.pairwise_append.1 hpair).2.1 hk).le

/-- Entries that are not moved are matched one by one. -/
theorem matching_of_origins (hold : Placed span old)
    (horigins : new.map (·.origin) = old.map (·.origin)) :
    matching old new = (List.range old.length).map some := by
  rw [matching, horigins]
  refine List.ext_getElem? fun d => ?_
  rw [List.getElem?_map]
  by_cases hd : d < old.length
  · rw [List.getElem?_range hd]
    have hentry := List.getElem?_eq_getElem hd
    exact (matchFrom_eq_some_iff hold hentry hentry).2
      ⟨rfl, fun d' j n o hlt hn ho horigin => hold.eq_of_origin hn ho horigin ▸ hlt⟩
  · rw [List.getElem?_eq_none (by rw [length_matchFrom, List.length_map]; omega),
      List.getElem?_eq_none (by rw [List.length_range]; omega)]
    rfl

/-- Runs are found by the matches alone. -/
theorem runsFrom_map (f : α → β) (anchor : Option Nat) (run : List α)
    (entries : List (α × Option Nat)) :
    runsFrom anchor (run.map f) (entries.map (Prod.map f id)) =
      (runsFrom anchor run entries).map (Prod.map id (List.map f)) := by
  induction entries generalizing anchor run with
  | nil => cases run <;> rfl
  | cons entry rest ih =>
    obtain ⟨a, _ | i⟩ := entry
    · have hrun : run.map f ++ [f a] = (run ++ [a]).map f := by simp
      simp only [List.map_cons, Prod.map_apply, id_eq, runsFrom, hrun]
      exact ih anchor (run ++ [a])
    · have hrest := ih (some i) []
      rw [List.map_nil] at hrest
      simp only [List.map_cons, Prod.map_apply, id_eq, runsFrom, hrest, List.map_append,
        List.isEmpty_map]
      cases run <;> rfl

/-- There are no runs if each entry keeps one. -/
theorem runsFrom_eq_nil {entries : List (α × Option Nat)} (h : ∀ e ∈ entries, e.2.isSome)
    (anchor : Option Nat) : runsFrom anchor [] entries = [] := by
  induction entries generalizing anchor with
  | nil => rfl
  | cons entry rest ih =>
    obtain ⟨a, _ | i⟩ := entry
    · exact absurd (h _ List.mem_cons_self) (by simp)
    · exact ih (fun e he => h e (List.mem_cons_of_mem _ he)) (some i)

end Splice

namespace Expr

mutual

/-- An expression says the same as itself. -/
theorem sameShape_refl : ∀ expr : Expr, sameShape expr expr = true
  | object _ props => by rw [sameShape, sameProps_refl props]
  | array _ items => by rw [sameShape, sameItems_refl items]
  | member _ base _ => by rw [sameShape, sameShape_refl base, beq_self_eq_true]; rfl
  | call _ callee args => by rw [sameShape, sameShape_refl callee, sameItems_refl args]; rfl
  | str _ _ | template _ _ | number _ _ | bool _ _ | null _ | undefined _ | ident _ _
  | function _ | other _ _ => by simp [sameShape]

theorem sameItems_refl : ∀ items : List Expr, sameItems items items = true
  | [] => rfl
  | item :: rest => by rw [sameItems, sameShape_refl item, sameItems_refl rest]; rfl

theorem sameProps_refl : ∀ props : List (PropertyOf Expr), sameProps props props = true
  | [] => rfl
  | ⟨_, key, _, value⟩ :: rest => by
    rw [sameProps, sameShape_refl value, sameProps_refl rest, beq_self_eq_true]; rfl

end

end Expr

namespace Baseline

open Splice

variable (baseline : Baseline)

/-- How an entry of the draft is written. -/
def planOfEntry : Entry → EntryPlan
  | .prop p => baseline.propPlan p.origin p.key (baseline.planOf p.value)
  | .item e => itemPlan (baseline.planOf e)

theorem node_planOf (expr : Expr) : (baseline.planOf expr).node = expr := by
  cases expr <;> rfl

theorem origin_planOfEntry (entry : Entry) : (baseline.planOfEntry entry).origin = entry.origin := by
  cases entry with
  | prop p => rfl
  | item e => exact congrArg Expr.origin (baseline.node_planOf e)

theorem planOfProps_eq (props : List Property) :
    baseline.planOfProps props = (props.map Entry.prop).map baseline.planOfEntry := by
  induction props with
  | nil => rfl
  | cons p props ih => simp only [planOfProps, ih, List.map_cons, planOfEntry]

theorem planOfItems_eq (items : List Expr) :
    baseline.planOfItems items = (items.map Entry.item).map baseline.planOfEntry := by
  induction items with
  | nil => rfl
  | cons e items ih => simp only [planOfItems, ih, List.map_cons, planOfEntry]

theorem matchFrom_plans (old new : List Entry) :
    matchFrom old 0 ((new.map baseline.planOfEntry).map (·.origin)) = matching old new := by
  rw [matching, List.map_map]
  exact congrArg _ (List.map_congr_left fun entry _ => baseline.origin_planOfEntry entry)

variable {baseline}

theorem replacement_eq_ok {span : Span} {line : Nat} {text : String → Spliced String}
    {edits : List TextEdit} (h : baseline.replacement span line text = .ok edits) :
    ∃ newText, edits = [.replace span.start span.stop newText] := by
  obtain ⟨newText, -, h⟩ := bind_eq_ok.1 h
  cases h
  exact ⟨newText, rfl⟩

/-- The edits of a node are those of its entries if the node is a literal of the same kind
    in the draft; else it stays as it is or is replaced as a whole. -/
theorem edits_planOf {old new : Expr} {span : Span} {edits : List TextEdit}
    (hspan : old.span = some span) (h : (baseline.planOf new).edits old = .ok edits) :
    (sameContainer old new = true ∧ ∃ fresh, baseline.entryEdits span (Entry.ofExpr old)
        ((Entry.ofExpr new).map baseline.planOfEntry) fresh = .ok edits) ∨
      (sameContainer old new = false ∧ (edits = [] ∨ old.sameShape new = false ∧
        ∃ newText, edits = [.replace span.start span.stop newText])) := by
  -- What the plan of a node does, whatever the plans of its entries are.
  have hplan : ∀ (fresh : String → Spliced String) (entries : List EntryPlan),
      (baseline.plan new fresh entries).edits old = .ok edits →
      (sameContainer old new = true ∧
          baseline.entryEdits span (Entry.ofExpr old) entries fresh = .ok edits) ∨
        (sameContainer old new = false ∧ (edits = [] ∨ old.sameShape new = false ∧
          ∃ newText, edits = [.replace span.start span.stop newText])) := by
    intro fresh entries h
    simp only [plan, hspan] at h
    cases hc : sameContainer old new with
    | true => exact .inl ⟨rfl, by simpa [isReusable, hc] using h⟩
    | false =>
      refine .inr ⟨rfl, ?_⟩
      cases hshape : old.sameShape new with
      | true =>
        simp only [isReusable, hc, hshape, Bool.false_or, if_true, Bool.false_eq_true,
          if_false] at h
        cases h
        exact .inl rfl
      | false =>
        simp only [isReusable, hc, hshape, Bool.or_self, Bool.false_eq_true, if_false] at h
        exact .inr ⟨rfl, replacement_eq_ok h⟩
  cases new with
  | object origin props =>
    rw [planOf, planOfProps_eq] at h
    exact (hplan _ _ h).imp_left fun ⟨hc, h⟩ => ⟨hc, _, h⟩
  | array origin items =>
    rw [planOf, planOfItems_eq] at h
    exact (hplan _ _ h).imp_left fun ⟨hc, h⟩ => ⟨hc, _, h⟩
  | _ =>
    simp only [planOf] at h
    exact (hplan _ _ h).imp_left fun ⟨hc, _⟩ => absurd hc (by cases old <;> simp [sameContainer])

/-- The edits of a literal of the same kind are those of its entries. -/
theorem edits_planOf_literal (baseline : Baseline) {old new : Expr} {span : Span}
    (hspan : old.span = some span) (hsame : sameContainer old new = true) :
    ∃ fresh, (baseline.planOf new).edits old = baseline.entryEdits span (Entry.ofExpr old)
      ((Entry.ofExpr new).map baseline.planOfEntry) fresh := by
  cases new with
  | object origin props =>
    refine ⟨baseline.objectText (baseline.planOfProps props), ?_⟩
    rw [planOf]
    simp only [plan, hspan, isReusable, hsame, Bool.true_or, if_true, planOfProps_eq]
    rfl
  | array origin items =>
    refine ⟨baseline.arrayText items (baseline.planOfItems items), ?_⟩
    rw [planOf]
    simp only [plan, hspan, isReusable, hsame, Bool.true_or, if_true, planOfItems_eq]
    rfl
  | _ => exact absurd hsame (by cases old <;> simp [sameContainer])

theorem keyEdits_self (prop : Property) : baseline.keyEdits prop prop.key = [] := by
  rw [keyEdits]
  split
  · rw [if_pos rfl]
  · rfl

/-- A property whose value stays the same node has the edits of that. -/
theorem propEdits_of_origin {prop : Property} {value : Expr} {edits : List TextEdit}
    (horigin : prop.value.origin = value.origin)
    (hedits : (baseline.planOf value).edits prop.value = .ok edits) :
    baseline.propEdits prop prop.key (baseline.planOf value) = .ok edits := by
  simp only [propEdits, node_planOf, horigin, if_true, keyEdits_self, hedits]
  rfl

/-! ## The edits of entries -/

variable {span : Span} {old new : List Entry} {fresh : String → Spliced String}
  {edits : List TextEdit}

variable (baseline) in
/-- Deletes the entries that are not kept. -/
def removals (span : Span) (old new : List Entry) : List TextEdit :=
  let multiline := Text.spansLines baseline.source span.start span.stop
  deletions baseline.source multiline
    (multiline && !((matching old new).getLast? == some none)) old (keptPositions old new)

variable (baseline) in
/-- Inserts texts next to the entry at `place`, behind it or before it. -/
def insertionAt (span : Span) (anchor : Option Nat) (place : Span) (texts : List String) :
    List TextEdit :=
  let ownLine := Text.spansLines baseline.source span.start span.stop
    && Text.startsLine baseline.source place.start
  if anchor.isSome then insertionAfter baseline.source ownLine place texts
  else insertionBefore baseline.source ownLine place texts

/-- If no entry is kept, there is nothing to edit or the literal is replaced. -/
theorem entryEdits_of_kept_nil (hkept : keptPositions old new = [])
    (h : baseline.entryEdits span old (new.map baseline.planOfEntry) fresh = .ok edits) :
    edits = [] ∨ ¬(old = [] ∧ new = []) ∧
      ∃ newText, edits = [.replace span.start span.stop newText] := by
  have hkept' : (matchFrom old 0 ((new.map baseline.planOfEntry).map (·.origin))).filterMap id
      = [] := by rw [matchFrom_plans]; exact hkept
  simp only [entryEdits, hkept'] at h
  split at h
  · cases h
    exact .inl rfl
  · next hempty => exact .inr ⟨fun ⟨hold, hnew⟩ => hempty (by simp [hold, hnew]), replacement_eq_ok h⟩

/-- If entries are kept, the edits are those of the kept entries, of the removed ones and of
    the runs of new ones. -/
theorem entryEdits_eq {first : Nat} {rest : List Nat}
    (hkept : keptPositions old new = first :: rest) :
    baseline.entryEdits span old (new.map baseline.planOfEntry) fresh = (do
      let changes ← (new.zip (matching old new)).mapM fun (entry, i) =>
        match i.bind (old[·]?) with
        | some before => (baseline.planOfEntry entry).edits before
        | none => pure []
      let insertions ← (runs (new.zip (matching old new))).mapM fun (anchor, run) =>
        match old[anchor.getD first]?.bind (·.span) with
        | none => pure []
        | some place => do
          let texts ← run.mapM fun entry =>
            (baseline.planOfEntry entry).text (Text.indentAt baseline.source place.start)
          pure (baseline.insertionAt span anchor place texts)
      pure (changes.flatten ++ baseline.removals span old new ++ insertions.flatten)) := by
  have hkept' : (matchFrom old 0 ((new.map baseline.planOfEntry).map (·.origin))).filterMap id
      = first :: rest := by rw [matchFrom_plans]; exact hkept
  have hruns := runsFrom_map baseline.planOfEntry none [] (new.zip (matching old new))
  rw [List.map_nil] at hruns
  simp only [entryEdits, hkept']
  rw [matchFrom_plans, List.zip_map_left, List.mapM_map, runs, hruns, List.mapM_map, removals, hkept]
  simp only [Function.comp_def, Prod.map_fst, Prod.map_snd, id_eq, List.mapM_map]
  rfl

theorem entryEdits_of_kept {first : Nat} {rest : List Nat}
    (hkept : keptPositions old new = first :: rest)
    (h : baseline.entryEdits span old (new.map baseline.planOfEntry) fresh = .ok edits) :
    ∃ changes insertions : List (List TextEdit),
      (new.zip (matching old new)).mapM (fun (entry, i) =>
        match i.bind (old[·]?) with
        | some before => (baseline.planOfEntry entry).edits before
        | none => pure []) = .ok changes ∧
      (runs (new.zip (matching old new))).mapM (fun (anchor, run) =>
        match old[anchor.getD first]?.bind (·.span) with
        | none => pure []
        | some place => do
          let texts ← run.mapM fun entry =>
            (baseline.planOfEntry entry).text (Text.indentAt baseline.source place.start)
          pure (baseline.insertionAt span anchor place texts)) = .ok insertions ∧
      edits = changes.flatten ++ baseline.removals span old new ++ insertions.flatten := by
  rw [entryEdits_eq hkept] at h
  obtain ⟨changes, hchanges, h⟩ := bind_eq_ok.1 h
  obtain ⟨insertions, hinsertions, h⟩ := bind_eq_ok.1 h
  cases h
  exact ⟨changes, insertions, hchanges, hinsertions, rfl⟩

/-- The edits of entries that are not moved are those of the entries one by one. -/
theorem entryEdits_of_origins (hold : Entry.Placed span old)
    (horigins : new.map (·.origin) = old.map (·.origin)) :
    baseline.entryEdits span old (new.map baseline.planOfEntry) fresh =
      ((new.zip old).mapM fun (n, o) => (baseline.planOfEntry n).edits o).map List.flatten := by
  have hmatching := matching_of_origins hold horigins
  have hlength : new.length = old.length := by simpa using congrArg List.length horigins
  have hkept : keptPositions old new = List.range old.length := by
    rw [keptPositions, hmatching, List.filterMap_map]
    simp
  cases hrange : List.range old.length with
  | nil =>
    obtain rfl : old = [] := by simpa using hrange
    obtain rfl : new = [] := by simpa using hlength
    rfl
  | cons first rest =>
    -- Nothing is deleted, and there are no runs to insert.
    have hremovals : baseline.removals span old new = [] := by
      rw [removals, deletions, List.flatMap_eq_nil_iff, hkept]
      rintro ⟨entry, i⟩ he
      have hi := (List.getElem?_eq_some_iff.1 (List.mk_mem_zipIdx_iff_getElem?.1 he)).1
      dsimp only
      split
      · exact if_pos (List.contains_iff_mem.2 (List.mem_range.2 hi))
      · rfl
    have hruns : runs (new.zip (matching old new)) = [] := by
      refine runsFrom_eq_nil ?_ none
      rintro ⟨entry, i⟩ he
      rw [hmatching] at he
      obtain ⟨_, -, hi⟩ := List.mem_map.1 (List.of_mem_zip he).2
      rw [← hi]
      rfl
    -- Each entry is edited from the one at its own position.
    have hpairs : (new.zip (matching old new)).map (Prod.map id (·.bind (old[·]?))) =
        (new.zip old).map (Prod.map id some) := by
      have hold' : (List.range old.length).map (old[·]?) = old.map some := by
        refine List.ext_getElem (by simp) fun d hd hd' => ?_
        simp at hd hd' ⊢
      rw [hmatching, ← List.zip_map_right, ← List.zip_map_right, List.map_map, ← hold']
      rfl
    have hchanges : (new.zip (matching old new)).mapM (fun (entry, i) =>
          match i.bind (old[·]?) with
          | some before => (baseline.planOfEntry entry).edits before
          | none => pure []) =
        (new.zip old).mapM fun (n, o) => (baseline.planOfEntry n).edits o := by
      have hmapped := congrArg (List.mapM (m := Spliced) fun (entry, before?) =>
        match before? with
        | some before => (baseline.planOfEntry entry).edits before
        | none => pure []) hpairs
      rwa [List.mapM_map, List.mapM_map] at hmapped
    rw [entryEdits_eq (hkept.trans hrange), hruns, hremovals]
    refine (congrArg (· >>= _) hchanges).trans ?_
    cases (new.zip old).mapM fun (n, o) => (baseline.planOfEntry n).edits o with
    | error e => rfl
    | ok changes =>
      change Except.ok (changes.flatten ++ [] ++ [].flatten) = Except.ok changes.flatten
      simp

/-- The edits of entries that are not moved, from the edits of each. -/
theorem entryEdits_of_each (hold : Entry.Placed span old)
    (horigins : new.map (·.origin) = old.map (·.origin)) {f : Entry → Entry → List TextEdit}
    (heach : ∀ pair ∈ new.zip old,
      (baseline.planOfEntry pair.1).edits pair.2 = .ok (f pair.1 pair.2)) :
    baseline.entryEdits span old (new.map baseline.planOfEntry) fresh =
      .ok ((new.zip old).flatMap fun (n, o) => f n o) := by
  have hchanges : (new.zip old).mapM (fun (n, o) => (baseline.planOfEntry n).edits o) =
      .ok ((new.zip old).map fun (n, o) => f n o) := by
    rw [mapM_eq_ok_iff, List.forall₂_map_right_iff, List.forall₂_same]
    exact heach
  rw [entryEdits_of_origins hold horigins, hchanges]
  rfl

end Baseline

end Statechart
