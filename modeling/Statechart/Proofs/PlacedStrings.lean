import Mathlib.Data.List.Flatten
import Statechart.Proofs.KeptText
import Statechart.Proofs.Layouts

/-!
# The places of strings

The strings that a draft can change in place are those reached through the entries of literals.
In a tree whose nodes lie inside one another as in its source, they stand one after the other, and
a string that is not empty there shares its place with no other string of the tree, not even with
one inside a call.

* `Expr.nested`: each node has a place, and its parts lie inside it;
* `Expr.strings`: the strings reached through entries, with their places;
* `Expr.blanked`: the tree with these strings emptied, which is what a draft that only gives them
  other values leaves as it is;
* `Expr.changedStrings`: the strings that such a draft changes;
* `Expr.pairwise_strings`, `Expr.length_textsAt_le_one`: how they stand.
-/

namespace Statechart

/-! ## Nested trees -/

/-- Whether a span is there, is not reversed, and lies inside another. -/
def Span.holds (outer : Span) (inner : Option Span) : Bool :=
  inner.any fun span => outer.inside span && span.start ≤ span.stop

theorem Span.holds_some {outer span : Span} : outer.holds (some span) = true ↔
    outer.start ≤ span.start ∧ span.start ≤ span.stop ∧ span.stop ≤ outer.stop := by
  simp only [holds, inside, Option.any_some, Bool.and_eq_true, decide_eq_true_eq]
  omega

theorem Span.exists_of_holds {outer : Span} {inner : Option Span} (h : outer.holds inner = true) :
    ∃ span, inner = some span := by
  cases inner with
  | none => cases h
  | some span => exact ⟨span, rfl⟩

theorem Span.holds_trans {outer span : Span} {inner : Option Span}
    (h : outer.holds (some span) = true) (hinner : span.holds inner = true) :
    outer.holds inner = true := by
  obtain ⟨place, rfl⟩ := exists_of_holds hinner
  rw [holds_some] at *
  omega

namespace Expr

mutual

/-- Whether each node has a place with its parts inside it, and the entries of literals stand in
    order. -/
def nested : Expr → Bool
  | object origin props =>
    origin.span.any (fun span =>
      Span.inOrder span.start span.stop (props.map (·.origin.span))) && propsNested props
  | array origin items =>
    origin.span.any (fun span =>
      Span.inOrder span.start span.stop (items.map (·.span))) && itemsNested items
  | member origin base _ => origin.span.any (·.holds base.span) && nested base
  | call origin callee args =>
    origin.span.any (fun span => span.holds callee.span && args.all (span.holds ·.span))
      && nested callee && itemsNested args
  | expr => expr.span.isSome

/-- Whether each of some trees is nested. -/
def itemsNested : List Expr → Bool
  | [] => true
  | item :: rest => nested item && itemsNested rest

/-- Whether the values of properties are nested and lie inside the properties. -/
def propsNested : List (PropertyOf Expr) → Bool
  | [] => true
  | ⟨origin, _, _, value⟩ :: rest =>
    origin.span.any (·.holds value.span) && nested value && propsNested rest

end

/-- The nodes directly inside a node. -/
def parts : Expr → List Expr
  | object _ props => props.map (·.value)
  | array _ items => items
  | member _ base _ => [base]
  | call _ callee args => callee :: args
  | _ => []

variable {expr part : Expr} {span outer : Span}

theorem parts_of_isLiteral (h : expr.isLiteral = true) :
    expr.parts = (Entry.ofExpr expr).map Entry.value := by
  cases expr with
  | object origin props => simp [parts, Entry.ofExpr, Entry.value, Function.comp_def]
  | array origin items => simp [parts, Entry.ofExpr, Entry.value, Function.comp_def]
  | _ => cases h

theorem sizeOf_lt_of_mem_parts (h : part ∈ expr.parts) : sizeOf part < sizeOf expr := by
  have hlit : expr.isLiteral = true → sizeOf part < sizeOf expr := by
    intro hlit
    rw [parts_of_isLiteral hlit] at h
    obtain ⟨entry, hentry, rfl⟩ := List.mem_map.1 h
    exact Baseline.sizeOf_value_lt hentry
  cases expr with
  | object origin props => exact hlit rfl
  | array origin items => exact hlit rfl
  | member origin base property =>
    obtain rfl := List.mem_singleton.1 h
    simp only [member.sizeOf_spec]
    omega
  | call origin callee args =>
    simp only [call.sizeOf_spec]
    rcases List.mem_cons.1 h with rfl | h
    · omega
    · have := List.sizeOf_lt_of_mem h
      omega
  | _ => cases h

/-- The placed nodes of a tree are its root and those of its parts. -/
theorem placed_eq (expr : Expr) : expr.placed = expr.place ++ expr.parts.flatMap placed := by
  have hitems : ∀ items : List Expr, placedInItems items = items.flatMap placed := by
    intro items
    induction items with
    | nil => rfl
    | cons item rest ih => rw [placedInItems, ih, List.flatMap_cons]
  have hprops : ∀ props : List Property,
      placedInProps props = (props.map (·.value)).flatMap placed := by
    intro props
    induction props with
    | nil => rfl
    | cons p rest ih => rw [placedInProps, ih, List.map_cons, List.flatMap_cons]
  cases expr with
  | object origin props => rw [placed, hprops, parts]
  | array origin items => rw [placed, hitems, parts]
  | member origin base property => simp [placed, parts]
  | call origin callee args => simp [placed, parts, hitems]
  | _ => simp [placed, parts]

theorem nested_of_mem_items {items : List Expr} (h : itemsNested items = true) :
    ∀ item ∈ items, item.nested = true := by
  induction items with
  | nil => exact fun _ hitem => absurd hitem List.not_mem_nil
  | cons item rest ih =>
    rw [itemsNested, Bool.and_eq_true] at h
    exact List.forall_mem_cons.2 ⟨h.1, ih h.2⟩

theorem nested_of_mem_props {props : List Property} (h : propsNested props = true) :
    ∀ p ∈ props, (∃ place, p.origin.span = some place ∧ place.holds p.value.span = true) ∧
      p.value.nested = true := by
  induction props with
  | nil => exact fun _ hp => absurd hp List.not_mem_nil
  | cons p rest ih =>
    rw [propsNested, Bool.and_eq_true, Bool.and_eq_true, Option.any_eq_true] at h
    exact List.forall_mem_cons.2 ⟨⟨h.1.1, h.1.2⟩, ih h.2⟩

/-- The entries of a nested literal stand in order inside it, with their values nested inside
    them. -/
theorem nested_literal (hlit : expr.isLiteral = true) (h : expr.nested = true) :
    ∃ span, expr.span = some span ∧ Entry.Placed span (Entry.ofExpr expr) ∧
      ∀ e ∈ Entry.ofExpr expr,
        (∃ place, e.span = some place ∧ place.holds e.value.span = true) ∧
          e.value.nested = true := by
  cases expr with
  | object origin props =>
    rw [nested, Bool.and_eq_true, Option.any_eq_true] at h
    obtain ⟨⟨span, hspan, horder⟩, hprops⟩ := h
    refine ⟨span, hspan, Entry.placed_of_inOrder ?_,
      List.forall_mem_map.2 (nested_of_mem_props hprops)⟩
    rw [Entry.ofExpr, List.map_map]
    exact horder
  | array origin items =>
    rw [nested, Bool.and_eq_true, Option.any_eq_true] at h
    obtain ⟨⟨span, hspan, horder⟩, hitems⟩ := h
    have hplaced : Entry.Placed span (items.map Entry.item) := by
      refine Entry.placed_of_inOrder ?_
      rw [List.map_map]
      exact horder
    refine ⟨span, hspan, hplaced, fun e he => ?_⟩
    obtain ⟨place, hplace, -, hne, -⟩ := hplaced.inside e he
    obtain ⟨item, hitem, rfl⟩ := List.mem_map.1 he
    have hplace : item.span = some place := hplace
    refine ⟨⟨place, hplace, ?_⟩, nested_of_mem_items hitems item hitem⟩
    rw [Entry.value, hplace]
    exact Span.holds_some.2 ⟨le_rfl, hne.le, le_rfl⟩
  | _ => cases hlit

/-- The parts of a nested tree are nested and lie inside it. -/
theorem nested_parts (h : expr.nested = true) :
    ∃ span, expr.span = some span ∧
      ∀ part ∈ expr.parts, span.holds part.span = true ∧ part.nested = true := by
  have hlit : expr.isLiteral = true → ∃ span, expr.span = some span ∧
      ∀ part ∈ expr.parts, span.holds part.span = true ∧ part.nested = true := by
    intro hlit
    obtain ⟨span, hspan, hplaced, hentries⟩ := nested_literal hlit h
    refine ⟨span, hspan, ?_⟩
    rw [parts_of_isLiteral hlit]
    refine List.forall_mem_map.2 fun e he => ?_
    obtain ⟨⟨place, hplace, hholds⟩, hnested⟩ := hentries e he
    obtain ⟨_, hplace', hstart, hne, hstop⟩ := hplaced.inside e he
    obtain rfl := Option.some.inj (hplace'.symm.trans hplace)
    exact ⟨Span.holds_trans (Span.holds_some.2 ⟨hstart, hne.le, hstop⟩) hholds, hnested⟩
  cases expr with
  | object origin props => exact hlit rfl
  | array origin items => exact hlit rfl
  | member origin base property =>
    rw [nested, Bool.and_eq_true, Option.any_eq_true] at h
    obtain ⟨⟨span, hspan, hholds⟩, hbase⟩ := h
    exact ⟨span, hspan, List.forall_mem_singleton.2 ⟨hholds, hbase⟩⟩
  | call origin callee args =>
    simp only [nested, Bool.and_eq_true, Option.any_eq_true, List.all_eq_true] at h
    obtain ⟨⟨⟨span, hspan, hcallee, hargs⟩, hnested⟩, hitems⟩ := h
    exact ⟨span, hspan, List.forall_mem_cons.2 ⟨⟨hcallee, hnested⟩, fun arg harg =>
      ⟨hargs arg harg, nested_of_mem_items hitems arg harg⟩⟩⟩
  | _ =>
    obtain ⟨span, hspan⟩ := Option.isSome_iff_exists.1 h
    exact ⟨span, hspan, fun _ hpart => absurd hpart List.not_mem_nil⟩

/-- The nodes of a nested tree lie inside what it lies inside. -/
theorem holds_of_mem_placed {outer : Span} {expr : Expr} (houter : outer.holds expr.span = true)
    (h : expr.nested = true) : ∀ p ∈ expr.placed, outer.holds (some p.1) = true := by
  obtain ⟨span, hspan, hparts⟩ := nested_parts h
  intro p hp
  rw [placed_eq, List.mem_append, List.mem_flatMap] at hp
  rcases hp with hp | ⟨part, hpart, hp⟩
  · rw [place, hspan] at hp
    obtain rfl := List.mem_singleton.1 hp
    rw [← hspan]
    exact houter
  · have := sizeOf_lt_of_mem_parts hpart
    rw [hspan] at houter
    exact holds_of_mem_placed (Span.holds_trans houter (hparts part hpart).1)
      (hparts part hpart).2 p hp
termination_by sizeOf expr

/-! ## Strings -/

/-- The strings of a tree that have a place. -/
def texts (expr : Expr) : List (Span × String) :=
  expr.placed.filterMap fun (span, node) => node.text?.map (span, ·)

/-- The strings of a tree at a place. -/
def textsAt (expr : Expr) (span : Span) : List (Span × String) :=
  expr.texts.filter (·.1 == span)

mutual

/-- The strings that are reached through entries, with their places. -/
def strings : Expr → List (Span × String)
  | object _ props => stringsInProps props
  | array _ items => stringsInItems items
  | str origin value => origin.span.toList.map (·, value)
  | _ => []

/-- The strings that are reached in some trees. -/
def stringsInItems : List Expr → List (Span × String)
  | [] => []
  | item :: rest => strings item ++ stringsInItems rest

/-- The strings that are reached in the values of some properties. -/
def stringsInProps : List (PropertyOf Expr) → List (Span × String)
  | [] => []
  | ⟨_, _, _, value⟩ :: rest => strings value ++ stringsInProps rest

end

mutual

/-- The tree with the strings that are reached through entries emptied. -/
def blanked : Expr → Expr
  | object origin props => object origin (blankedProps props)
  | array origin items => array origin (blankedItems items)
  | str origin _ => str origin ""
  | expr => expr

/-- Trees with their strings emptied. -/
def blankedItems : List Expr → List Expr
  | [] => []
  | item :: rest => blanked item :: blankedItems rest

/-- Properties with the strings in their values emptied. -/
def blankedProps : List (PropertyOf Expr) → List (PropertyOf Expr)
  | [] => []
  | ⟨origin, key, keySpan, value⟩ :: rest =>
    ⟨origin, key, keySpan, blanked value⟩ :: blankedProps rest

end

/-- The strings of a draft that have another value than in the tree. -/
def changedStrings (old new : Expr) : List (Span × String) :=
  ((new.strings.zip old.strings).filter fun (n, o) => n.2 != o.2).map (·.1)

/-- A tree is a string, a literal with entries, or has no strings that are reached. -/
theorem byEntries {motive : Expr → Prop}
    (str : ∀ origin value, motive (str origin value))
    (literal : ∀ expr, expr.isLiteral = true → (∀ e ∈ Entry.ofExpr expr, motive e.value) →
      motive expr)
    (other : ∀ expr, expr.isLiteral = false → expr.text? = none → motive expr) (expr : Expr) :
    motive expr := by
  have hliteral : expr.isLiteral = true → motive expr := fun hlit =>
    literal expr hlit fun e he => by
      have := Baseline.sizeOf_value_lt he
      exact byEntries str literal other e.value
  cases expr with
  | object origin props => exact hliteral rfl
  | array origin items => exact hliteral rfl
  | str origin value => exact str origin value
  | _ => exact other _ rfl rfl
termination_by sizeOf expr

theorem strings_literal (h : expr.isLiteral = true) :
    expr.strings = (Entry.ofExpr expr).flatMap (·.value.strings) := by
  cases expr with
  | object origin props =>
    rw [strings, Entry.ofExpr, List.flatMap_map]
    clear h
    induction props with
    | nil => rfl
    | cons p rest ih => rw [stringsInProps, ih, List.flatMap_cons, Entry.value]
  | array origin items =>
    rw [strings, Entry.ofExpr, List.flatMap_map]
    clear h
    induction items with
    | nil => rfl
    | cons item rest ih => rw [stringsInItems, ih, List.flatMap_cons, Entry.value]
  | _ => cases h

theorem strings_of_not_literal (h : expr.isLiteral = false) (htext : expr.text? = none) :
    expr.strings = [] := by
  cases expr with
  | object _ _ | array _ _ => cases h
  | str _ _ => cases htext
  | _ => rfl

theorem texts_literal (h : expr.isLiteral = true) :
    expr.texts = (Entry.ofExpr expr).flatMap (·.value.texts) := by
  have hself : expr.place.filterMap (fun (span, node) => node.text?.map (span, ·)) = [] := by
    refine List.filterMap_eq_nil_iff.2 fun p hp => ?_
    obtain ⟨span, -, rfl⟩ := List.mem_map.1 hp
    cases expr <;> first | rfl | cases h
  rw [texts, placed_eq, List.filterMap_append, hself, List.nil_append, parts_of_isLiteral h,
    List.flatMap_map, List.filterMap_flatMap]
  rfl

/-- A string lies inside what its tree lies inside. -/
theorem holds_of_mem_texts (houter : outer.holds expr.span = true) (h : expr.nested = true)
    {p : Span × String} (hp : p ∈ expr.texts) : outer.holds (some p.1) = true := by
  obtain ⟨⟨span, node⟩, hnode, htext⟩ := List.mem_filterMap.1 hp
  obtain ⟨value, -, rfl⟩ := Option.map_eq_some_iff.1 htext
  exact holds_of_mem_placed houter h (span, node) hnode

/-- The strings that are reached through entries are among those of the tree. -/
theorem strings_sublist_texts (expr : Expr) : expr.strings.Sublist expr.texts := by
  induction expr using byEntries with
  | str origin value =>
    have heq : (Expr.str origin value).texts = (Expr.str origin value).strings := by
      simp only [strings, texts, placed, place, span, Expr.origin]
      cases origin.span <;> rfl
    rw [heq]
  | literal expr hlit ih =>
    rw [strings_literal hlit, texts_literal hlit]
    exact List.Sublist.flatMap_right _ ih
  | other expr hlit htext =>
    rw [strings_of_not_literal hlit htext]
    exact List.nil_sublist _

/-- A string lies inside what its tree lies inside. -/
theorem holds_of_mem_strings (houter : outer.holds expr.span = true) (h : expr.nested = true)
    {p : Span × String} (hp : p ∈ expr.strings) : outer.holds (some p.1) = true :=
  holds_of_mem_texts houter h ((strings_sublist_texts expr).subset hp)

/-- The strings that are reached through entries stand one after the other. -/
theorem pairwise_strings (h : expr.nested = true) :
    expr.strings.Pairwise fun a b => a.1.stop ≤ b.1.start := by
  induction expr using byEntries with
  | str origin value =>
    rw [strings]
    cases origin.span <;> simp
  | literal expr hlit ih =>
    obtain ⟨_, -, hplaced, hentries⟩ := nested_literal hlit h
    rw [strings_literal hlit, List.pairwise_flatMap]
    refine ⟨fun e he => ih e he (hentries e he).2,
      hplaced.ordered.imp_of_mem fun {e e'} he he' horder a ha b hb => ?_⟩
    obtain ⟨⟨place, hplace, hvalue⟩, hnested⟩ := hentries e he
    obtain ⟨⟨place', hplace', hvalue'⟩, hnested'⟩ := hentries e' he'
    have hstop := horder place place' hplace hplace'
    have ha := Span.holds_some.1 (holds_of_mem_strings hvalue hnested ha)
    have hb := Span.holds_some.1 (holds_of_mem_strings hvalue' hnested' hb)
    omega
  | other expr hlit htext =>
    rw [strings_of_not_literal hlit htext]
    exact List.Pairwise.nil

theorem textsAt_literal (h : expr.isLiteral = true) (span : Span) :
    expr.textsAt span = (Entry.ofExpr expr).flatMap (·.value.textsAt span) := by
  rw [textsAt, texts_literal h, List.filter_flatMap]
  rfl

/-- No string of a nested tree stands at a place apart from it that is not empty. -/
theorem textsAt_of_apart (houter : outer.holds expr.span = true) (h : expr.nested = true)
    (hne : span.start < span.stop) (hapart : span.stop ≤ outer.start ∨ outer.stop ≤ span.start) :
    expr.textsAt span = [] := by
  refine List.filter_eq_nil_iff.2 fun p hp hat => ?_
  have hin := Span.holds_some.1 (holds_of_mem_texts houter h hp)
  rw [beq_iff_eq.1 hat] at hin
  omega

/-- A string that is not empty in the source shares its place with no other. -/
theorem length_textsAt_le_one (h : expr.nested = true) {value : String}
    (hp : (span, value) ∈ expr.strings) (hne : span.start < span.stop) :
    (expr.textsAt span).length ≤ 1 := by
  induction expr using byEntries with
  | str origin _ =>
    refine (List.length_filter_le _ _).trans ?_
    simp only [texts, placed, place, Expr.span, Expr.origin]
    cases origin.span <;> simp [text?]
  | literal expr hlit ih =>
    obtain ⟨_, -, hplaced, hentries⟩ := nested_literal hlit h
    rw [strings_literal hlit, List.mem_flatMap] at hp
    obtain ⟨e, he, hp⟩ := hp
    obtain ⟨⟨place, hplace, hvalue⟩, hnested⟩ := hentries e he
    have hin : place.start ≤ span.start ∧ span.start ≤ span.stop ∧ span.stop ≤ place.stop :=
      Span.holds_some.1 (holds_of_mem_strings hvalue hnested hp)
    obtain ⟨before, behind, hsplit⟩ := List.append_of_mem he
    have hordered := hplaced.ordered
    rw [hsplit] at hordered hentries
    rw [List.pairwise_append, List.pairwise_cons] at hordered
    obtain ⟨-, ⟨hbehind, -⟩, hbefore⟩ := hordered
    -- The strings of the other entries stand before or behind this one.
    have hnone : before.flatMap (·.value.textsAt span) = [] ∧
        behind.flatMap (·.value.textsAt span) = [] := by
      constructor <;> refine List.flatMap_eq_nil_iff.2 fun e' he' => ?_
      · obtain ⟨⟨place', hplace', hvalue'⟩, hnested'⟩ := hentries e' (by simp [he'])
        have := hbefore e' he' e List.mem_cons_self place' place hplace' hplace
        exact textsAt_of_apart hvalue' hnested' hne (by omega)
      · obtain ⟨⟨place', hplace', hvalue'⟩, hnested'⟩ := hentries e' (by simp [he'])
        have := hbehind e' he' place place' hplace hplace'
        exact textsAt_of_apart hvalue' hnested' hne (by omega)
    rw [textsAt_literal hlit, hsplit, List.flatMap_append, List.flatMap_cons, hnone.1, hnone.2,
      List.nil_append, List.append_nil]
    exact ih e he hnested hp
  | other expr hlit htext =>
    rw [strings_of_not_literal hlit htext] at hp
    exact absurd hp List.not_mem_nil

end Expr

/-! ## Drafts with other strings -/

/-- The entry with the strings that are reached in it emptied. -/
def Entry.blanked (entry : Entry) : Entry :=
  entry.withValue entry.value.blanked

theorem Entry.value_blanked (entry : Entry) : entry.blanked.value = entry.value.blanked := by
  cases entry <;> rfl

/-- Entries that are the same but for their strings have values that are. -/
theorem Entry.value_of_blanked {n o : Entry} (h : n.blanked = o.blanked) :
    o.value.blanked = n.value.blanked := by
  rw [← value_blanked, ← value_blanked, h]

theorem Entry.origin_blanked (entry : Entry) : entry.blanked.origin = entry.origin := by
  obtain p | item := entry
  · rfl
  · cases item <;> rfl

namespace Expr

theorem origin_blanked (expr : Expr) : expr.blanked.origin = expr.origin := by
  cases expr <;> rfl

theorem isLiteral_blanked (expr : Expr) : expr.blanked.isLiteral = expr.isLiteral := by
  cases expr <;> rfl

theorem ofExpr_blanked (expr : Expr) :
    Entry.ofExpr expr.blanked = (Entry.ofExpr expr).map Entry.blanked := by
  cases expr with
  | object origin props =>
    rw [blanked, Entry.ofExpr, Entry.ofExpr, List.map_map]
    induction props with
    | nil => rfl
    | cons p rest ih => rw [blankedProps, List.map_cons, List.map_cons, ih]; rfl
  | array origin items =>
    rw [blanked, Entry.ofExpr, Entry.ofExpr, List.map_map]
    induction items with
    | nil => rfl
    | cons item rest ih => rw [blankedItems, List.map_cons, List.map_cons, ih]; rfl
  | _ => rfl

theorem blanked_of_not_literal {expr : Expr} (h : expr.isLiteral = false)
    (htext : expr.text? = none) : expr.blanked = expr := by
  cases expr with
  | object _ _ | array _ _ => cases h
  | str _ _ => cases htext
  | _ => rfl

/-- A draft keeps what has no strings that are reached. -/
theorem eq_of_blanked {old new : Expr} (h : old.blanked = new.blanked)
    (hlit : new.isLiteral = false) (htext : new.text? = none) : old = new := by
  rw [blanked_of_not_literal hlit htext] at h
  subst h
  cases old with
  | object _ _ | array _ _ => cases hlit
  | str _ _ => cases htext
  | _ => rfl

/-- Emptying the strings leaves them in their places. -/
theorem strings_blanked (expr : Expr) :
    expr.blanked.strings = expr.strings.map fun p => (p.1, "") := by
  induction expr using byEntries with
  | str origin value =>
    rw [blanked, strings, strings, List.map_map]
    rfl
  | literal expr hlit ih =>
    rw [strings_literal (by rw [isLiteral_blanked, hlit]), strings_literal hlit, ofExpr_blanked,
      List.flatMap_map, List.map_flatMap]
    simp only [Entry.value_blanked]
    exact List.flatMap_congr ih
  | other expr hlit htext =>
    rw [blanked_of_not_literal hlit htext, strings_of_not_literal hlit htext]
    rfl

variable {old new : Expr}

theorem origin_eq_of_blanked (h : old.blanked = new.blanked) : new.origin = old.origin := by
  rw [← origin_blanked new, ← h, origin_blanked]

/-- The strings of the draft are in the places where they are in the tree. -/
theorem places_of_blanked (h : old.blanked = new.blanked) :
    new.strings.map (·.1) = old.strings.map (·.1) := by
  have hplaces : ∀ expr : Expr, expr.strings.map (·.1) = expr.blanked.strings.map (·.1) := by
    intro expr
    rw [strings_blanked, List.map_map]
    rfl
  rw [hplaces, ← h, ← hplaces]

theorem length_strings_of_blanked (h : old.blanked = new.blanked) :
    new.strings.length = old.strings.length := by
  simpa using congrArg List.length (places_of_blanked h)

/-- The entries of the draft are those of the tree, one by one, but for their strings. -/
theorem entries_of_blanked (h : old.blanked = new.blanked) :
    List.Forall₂ (fun n o : Entry => n.blanked = o.blanked) (Entry.ofExpr new)
      (Entry.ofExpr old) := by
  have heq : (Entry.ofExpr new).map Entry.blanked = (Entry.ofExpr old).map Entry.blanked := by
    rw [← ofExpr_blanked, ← ofExpr_blanked, h]
  rw [← List.forall₂_eq_eq_eq, List.forall₂_map_left_iff, List.forall₂_map_right_iff] at heq
  exact heq

/-- The draft keeps the origins of entries. -/
theorem origins_of_blanked (h : old.blanked = new.blanked) :
    (Entry.ofExpr new).map (·.origin) = (Entry.ofExpr old).map (·.origin) := by
  rw [← List.forall₂_eq_eq_eq, List.forall₂_map_left_iff, List.forall₂_map_right_iff]
  refine (entries_of_blanked h).imp fun n o hentry => ?_
  rw [← n.origin_blanked, hentry, o.origin_blanked]

/-- A string that is changed is one of the tree, and had another value. -/
theorem exists_of_mem_changedStrings (h : old.blanked = new.blanked) {p : Span × String}
    (hp : p ∈ changedStrings old new) : ∃ value, (p.1, value) ∈ old.strings ∧ value ≠ p.2 := by
  obtain ⟨⟨n, place, value⟩, hmem, rfl⟩ := List.mem_map.1 hp
  obtain ⟨hzip, hne⟩ := List.mem_filter.1 hmem
  have hplaces := places_of_blanked h
  rw [← List.forall₂_eq_eq_eq, List.forall₂_map_left_iff, List.forall₂_map_right_iff] at hplaces
  obtain rfl : n.1 = place := List.forall₂_zip hplaces hzip
  exact ⟨value, (List.of_mem_zip hzip).2, Ne.symm (bne_iff_ne.1 hne)⟩

theorem changedStrings_sublist (h : old.blanked = new.blanked) :
    ((changedStrings old new).map (·.1)).Sublist (old.strings.map (·.1)) := by
  have hsub : (changedStrings old new).Sublist ((new.strings.zip old.strings).map (·.1)) :=
    List.filter_sublist.map _
  rw [List.map_fst_zip (length_strings_of_blanked h).le] at hsub
  rw [← places_of_blanked h]
  exact hsub.map _

/-- The strings that are changed stand one after the other. -/
theorem pairwise_changedStrings (hnested : old.nested = true) (h : old.blanked = new.blanked) :
    (changedStrings old new).Pairwise fun a b => a.1.stop ≤ b.1.start := by
  have hplaces := (List.pairwise_map (f := Prod.fst) (R := fun a b : Span => a.stop ≤ b.start)).2
    (pairwise_strings hnested)
  exact List.pairwise_map.1 (hplaces.sublist (changedStrings_sublist h))

/-- A tree does not change its own strings. -/
theorem changedStrings_self (expr : Expr) : changedStrings expr expr = [] := by
  rw [changedStrings, List.map_eq_nil_iff, List.filter_eq_nil_iff]
  rintro ⟨n, o⟩ hmem
  rw [List.zip_eq_zipWith, List.zipWith_self] at hmem
  obtain ⟨_, -, heq⟩ := List.mem_map.1 hmem
  cases heq
  simp

/-- The strings that are changed in a literal are those changed in its entries. -/
theorem changedStrings_literal (h : old.blanked = new.blanked) (hlit : new.isLiteral = true) :
    changedStrings old new = ((Entry.ofExpr new).zip (Entry.ofExpr old)).flatMap fun (n, o) =>
      changedStrings o.value n.value := by
  have hlit' : old.isLiteral = true := by rw [← isLiteral_blanked, h, isLiteral_blanked, hlit]
  have hzip : ∀ {entries entries' : List Entry},
      List.Forall₂ (fun n o : Entry => n.blanked = o.blanked) entries entries' →
      (entries.flatMap (·.value.strings)).zip (entries'.flatMap (·.value.strings)) =
        (entries.zip entries').flatMap fun (n, o) => n.value.strings.zip o.value.strings := by
    intro entries entries' hall
    induction hall with
    | nil => rfl
    | cons hentry _ ih =>
      have hlength := length_strings_of_blanked (Entry.value_of_blanked hentry)
      rw [List.flatMap_cons, List.flatMap_cons, List.zip_append hlength, ih, List.zip_cons_cons,
        List.flatMap_cons]
  rw [changedStrings, strings_literal hlit, strings_literal hlit', hzip (entries_of_blanked h),
    List.filter_flatMap, List.map_flatMap]
  rfl

end Expr

end Statechart
