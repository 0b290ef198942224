import Mathlib.Order.Lattice
import Statechart.Splice.Difference

/-!
# Trees in their sources

A tree that was read from a source has a place for each of its nodes: the entries of a
literal stand one after the other inside it, and the key and the value of a property inside
the property. In such a tree the entries of a literal can be told apart by their origins,
so that a draft says which of them it keeps.

* `Expr.wellPlaced`: a tree as it is read from a source;
* `Entry.Placed`: its entries stand in order inside a span;
* `Entry.KeepsPlace`: the draft keeps an entry where it stands;
* `matchFrom_eq_some_iff`: the matching of entries finds just those.
-/

namespace Statechart

/-! ## Well-placed trees -/

/-- Whether spans are there, not empty, and stand one after the other between two
    positions. -/
def Span.inOrder (start stop : Nat) : List (Option Span) → Bool
  | [] => true
  | none :: _ => false
  | some span :: rest =>
    start ≤ span.start && span.start < span.stop && span.stop ≤ stop
      && inOrder span.stop stop rest

/-- Whether a span lies inside another. -/
def Span.inside (outer inner : Span) : Bool :=
  outer.start ≤ inner.start && inner.stop ≤ outer.stop

namespace Expr

/-- Whether an expression is an object or an array. -/
def isLiteral (expr : Expr) : Bool :=
  expr.isObject || expr.isArray

/-- Whether the key of a property stands inside it, and before its value when that has
    entries of its own. A method and a shorthand are their own values. -/
def keyPlaced (span valueSpan : Span) (keySpan : Option Span) (value : Expr) : Bool :=
  match keySpan with
  | some key => span.inside key && (key.stop ≤ valueSpan.start || !value.isLiteral)
  | none => true

/-- Whether the key and the value of a property stand inside it. -/
def partsPlaced (origin : Origin) (keySpan : Option Span) (value : Expr) : Bool :=
  match origin.span, value.span with
  | some span, some valueSpan =>
    span.inside valueSpan && keyPlaced span valueSpan keySpan value
  | _, _ => false

mutual

/-- Whether each node of a tree has its place, with the entries of literals in order. -/
def wellPlaced : Expr → Bool
  | object origin props =>
    origin.span.any (fun span =>
      Span.inOrder span.start span.stop (props.map (·.origin.span))) && propsWellPlaced props
  | array origin items =>
    origin.span.any (fun span =>
      Span.inOrder span.start span.stop (items.map (·.span))) && itemsWellPlaced items
  | expr => expr.span.isSome

/-- Whether items are well placed. -/
def itemsWellPlaced : List Expr → Bool
  | [] => true
  | item :: rest => wellPlaced item && itemsWellPlaced rest

/-- Whether the parts of properties are well placed. -/
def propsWellPlaced : List (PropertyOf Expr) → Bool
  | [] => true
  | ⟨origin, _, keySpan, value⟩ :: rest =>
    partsPlaced origin keySpan value && wellPlaced value && propsWellPlaced rest

end

end Expr

namespace Entry

/-- The expression in an entry: the value of a property, or the item itself. -/
def value : Entry → Expr
  | prop p => p.value
  | item e => e

/-- Whether the parts of an entry stand inside it. -/
def partsPlaced : Entry → Bool
  | prop p => Expr.partsPlaced p.origin p.keySpan p.value
  | item _ => true

/-- Entries that stand in order inside a span, none of them empty. -/
structure Placed (span : Span) (entries : List Entry) : Prop where
  inside : ∀ e ∈ entries, ∃ s, e.span = some s ∧ span.start ≤ s.start ∧ s.start < s.stop ∧
    s.stop ≤ span.stop
  ordered : entries.Pairwise fun a b =>
    ∀ s t, a.span = some s → b.span = some t → s.stop ≤ t.start

theorem placed_of_inOrder {entries : List Entry} {start stop : Nat}
    (h : Span.inOrder start stop (entries.map (·.span)) = true) :
    Placed ⟨start, stop⟩ entries := by
  induction entries generalizing start with
  | nil => exact ⟨fun _ h => absurd h List.not_mem_nil, List.Pairwise.nil⟩
  | cons e rest ih =>
    cases hs : e.span with
    | none => simp [hs, Span.inOrder] at h
    | some s =>
      simp only [List.map_cons, hs, Span.inOrder, Bool.and_eq_true, decide_eq_true_eq] at h
      obtain ⟨⟨⟨hstart, hne⟩, hstop⟩, hrest⟩ := h
      have hplaced := ih hrest
      refine ⟨fun e' he' => ?_, List.pairwise_cons.2 ⟨fun b hb s' t hs' ht => ?_,
        hplaced.ordered⟩⟩
      · rcases List.mem_cons.1 he' with rfl | he'
        · exact ⟨s, hs, hstart, hne, hstop⟩
        · obtain ⟨t, ht, hin, hne', hout⟩ := hplaced.inside e' he'
          exact ⟨t, ht, le_trans hstart (le_trans hne.le hin), hne', hout⟩
      · obtain ⟨t', ht', hin, -, -⟩ := hplaced.inside b hb
        obtain rfl := Option.some.inj (ht'.symm.trans ht)
        obtain rfl := Option.some.inj (hs.symm.trans hs')
        exact hin

end Entry

theorem Expr.exists_span {expr : Expr} (h : expr.wellPlaced = true) :
    ∃ span, expr.span = some span := by
  cases expr with
  | object origin props =>
    rw [wellPlaced, Bool.and_eq_true, Option.any_eq_true] at h
    exact h.1.imp fun _ hspan => hspan.1
  | array origin items =>
    rw [wellPlaced, Bool.and_eq_true, Option.any_eq_true] at h
    exact h.1.imp fun _ hspan => hspan.1
  | _ => exact Option.isSome_iff_exists.1 h

/-- The entries of a well-placed literal stand in order inside it, with their parts inside
    them and their values well placed. -/
theorem Expr.wellPlaced_literal {expr : Expr} (hlit : expr.isLiteral = true)
    (h : expr.wellPlaced = true) :
    ∃ span, expr.span = some span ∧ Entry.Placed span (Entry.ofExpr expr) ∧
      ∀ e ∈ Entry.ofExpr expr, e.partsPlaced = true ∧ e.value.wellPlaced = true := by
  have hprops : ∀ props : List Property, Expr.propsWellPlaced props = true →
      ∀ e ∈ props.map Entry.prop, e.partsPlaced = true ∧ e.value.wellPlaced = true := by
    intro props
    induction props with
    | nil => exact fun _ _ h => absurd h List.not_mem_nil
    | cons p props ih =>
      intro hp
      simp only [Expr.propsWellPlaced, Bool.and_eq_true] at hp
      exact List.forall_mem_cons.2 ⟨hp.1, ih hp.2⟩
  have hitems : ∀ items : List Expr, Expr.itemsWellPlaced items = true →
      ∀ e ∈ items.map Entry.item, e.partsPlaced = true ∧ e.value.wellPlaced = true := by
    intro items
    induction items with
    | nil => exact fun _ _ h => absurd h List.not_mem_nil
    | cons e items ih =>
      intro hp
      simp only [Expr.itemsWellPlaced, Bool.and_eq_true] at hp
      exact List.forall_mem_cons.2 ⟨⟨rfl, hp.1⟩, ih hp.2⟩
  cases expr with
  | object origin props =>
    rw [Expr.wellPlaced, Bool.and_eq_true, Option.any_eq_true] at h
    obtain ⟨⟨span, hspan, horder⟩, hp⟩ := h
    refine ⟨span, hspan, Entry.placed_of_inOrder ?_, hprops props hp⟩
    rw [Entry.ofExpr, List.map_map]
    exact horder
  | array origin items =>
    rw [Expr.wellPlaced, Bool.and_eq_true, Option.any_eq_true] at h
    obtain ⟨⟨span, hspan, horder⟩, hp⟩ := h
    refine ⟨span, hspan, Entry.placed_of_inOrder ?_, hitems items hp⟩
    rw [Entry.ofExpr, List.map_map]
    exact horder
  | _ => exact absurd hlit (by simp [Expr.isLiteral, Expr.isObject, Expr.isArray, Expr.props?,
      Expr.items?])

/-! ## Entries that stay where they are -/

namespace Entry

/-- The draft keeps an entry in its place: it has one of the same origin, and each entry
    before that which comes from the literal too stood before it there. An entry that has
    moved back is not kept. -/
def KeepsPlace (old new : List Entry) (o n : Entry) : Prop :=
  ∃ i d : Nat, old[i]? = some o ∧ new[d]? = some n ∧ n.origin = o.origin ∧
    ∀ (d' j : Nat) (n' o' : Entry), d' < d → new[d']? = some n' → old[j]? = some o' →
      n'.origin = o'.origin → j < i

variable {span : Span} {old new : List Entry} {o n n' : Entry}

namespace Placed

/-- The entries at two positions, the first before the second. -/
theorem stop_le (h : Placed span old) {i j : Nat} {a b : Entry} {s t : Span} (hij : i < j)
    (ha : old[i]? = some a) (hb : old[j]? = some b) (hs : a.span = some s)
    (ht : b.span = some t) : s.stop ≤ t.start := by
  obtain ⟨hi, rfl⟩ := List.getElem?_eq_some_iff.1 ha
  obtain ⟨hj, rfl⟩ := List.getElem?_eq_some_iff.1 hb
  exact List.pairwise_iff_getElem.1 h.ordered i j hi hj hij s t hs ht

/-- The entries can be told apart by their origins. -/
theorem eq_of_origin (h : Placed span old) {i j : Nat} {a b : Entry} (ha : old[i]? = some a)
    (hb : old[j]? = some b) (hab : a.origin = b.origin) : i = j := by
  obtain ⟨s, hs, -, hne, -⟩ := h.inside a (List.mem_of_getElem? ha)
  have ht : b.span = some s := by rw [Entry.span, ← hab]; exact hs
  rcases Nat.lt_trichotomy i j with hij | rfl | hij
  · exact absurd (h.stop_le hij ha hb hs ht) (Nat.not_le.2 hne)
  · rfl
  · exact absurd (h.stop_le hij hb ha ht hs) (Nat.not_le.2 hne)

/-- Two entries stand apart unless they are the same. -/
theorem apart (h : Placed span old) {i j : Nat} {a b : Entry} {s t : Span} (hij : i ≠ j)
    (ha : old[i]? = some a) (hb : old[j]? = some b) (hs : a.span = some s)
    (ht : b.span = some t) : s.stop ≤ t.start ∨ t.stop ≤ s.start := by
  rcases Nat.lt_or_gt_of_ne hij with hij | hij
  · exact .inl (h.stop_le hij ha hb hs ht)
  · exact .inr (h.stop_le hij hb ha ht hs)

end Placed

theorem KeepsPlace.mem (h : KeepsPlace old new o n) : o ∈ old ∧ n ∈ new := by
  obtain ⟨i, d, hi, hd, -⟩ := h
  exact ⟨List.mem_of_getElem? hi, List.mem_of_getElem? hd⟩

theorem KeepsPlace.origin_eq (h : KeepsPlace old new o n) : n.origin = o.origin := by
  obtain ⟨-, -, -, -, horigin, -⟩ := h
  exact horigin

/-- The draft keeps an entry by one entry only. -/
theorem KeepsPlace.unique (hold : Placed span old) (h : KeepsPlace old new o n)
    (h' : KeepsPlace old new o n') : n' = n := by
  obtain ⟨i, d, hi, hd, horigin, hbefore⟩ := h
  obtain ⟨j, d', hj, hd', horigin', hbefore'⟩ := h'
  obtain rfl := hold.eq_of_origin hi hj rfl
  -- Of two entries of the draft with this origin, the first would come from before itself.
  rcases Nat.lt_trichotomy d d' with hlt | rfl | hlt
  · exact absurd (hbefore' d i n o hlt hd hi horigin) (Nat.lt_irrefl _)
  · exact Option.some.inj (hd'.symm.trans hd)
  · exact absurd (hbefore d' i n' o hlt hd' hi horigin') (Nat.lt_irrefl _)

/-- What is not changed is kept. -/
theorem KeepsPlace.refl (hold : Placed span old) (ho : o ∈ old) : KeepsPlace old old o o := by
  obtain ⟨i, hi⟩ := List.mem_iff_getElem?.1 ho
  refine ⟨i, i, hi, hi, rfl, fun d' j n' o' hlt hn' ho' horigin => ?_⟩
  rwa [← hold.eq_of_origin hn' ho' horigin]

end Entry

namespace Splice

open Entry

variable {span : Span} {old new : List Entry}

/-- The position of an origin is that of the entry with it. -/
theorem positionOf?_eq_some_iff (hold : Placed span old) {origin : Origin} {i : Nat} :
    positionOf? old origin = some i ↔ ∃ o, old[i]? = some o ∧ o.origin = origin := by
  have hsound : ∀ {i}, positionOf? old origin = some i →
      ∃ o, old[i]? = some o ∧ o.origin = origin := by
    intro i h
    rw [positionOf?, Option.map_eq_some_iff] at h
    obtain ⟨⟨o, i'⟩, hfind, rfl⟩ := h
    have hmem := List.mem_reverse.1 (List.mem_of_find?_eq_some hfind)
    have hp := List.find?_some hfind
    rw [Bool.and_eq_true, beq_iff_eq] at hp
    exact ⟨o, List.mk_mem_zipIdx_iff_getElem?.1 hmem, hp.2⟩
  -- The last entry of the origin is the only one.
  refine ⟨hsound, fun ⟨o, hi, horigin⟩ => ?_⟩
  obtain ⟨s, hs, -⟩ := hold.inside o (List.mem_of_getElem? hi)
  cases hpos : positionOf? old origin with
  | some j =>
    obtain ⟨o', hj, horigin'⟩ := hsound hpos
    rw [hold.eq_of_origin hi hj (horigin.trans horigin'.symm)]
  | none =>
    rw [positionOf?, Option.map_eq_none_iff, List.find?_eq_none] at hpos
    have hmem : (o, i) ∈ old.zipIdx.reverse :=
      List.mem_reverse.2 (List.mk_mem_zipIdx_iff_getElem?.2 hi)
    exact absurd (by simp [hs, horigin]) (hpos (o, i) hmem)

theorem length_matchFrom (old : List Entry) (bound : Nat) (origins : List Origin) :
    (matchFrom old bound origins).length = origins.length := by
  induction origins generalizing bound with
  | nil => rfl
  | cons origin rest ih =>
    rw [matchFrom]
    split <;> simp [ih]

/-- An entry is matched with the one of its origin if that lies behind the bound and behind
    all that the origins before it have. -/
theorem getElem?_matchFrom (old : List Entry) (bound : Nat) (origins : List Origin) (d i : Nat) :
    (matchFrom old bound origins)[d]? = some (some i) ↔
      bound ≤ i ∧ (origins[d]?.bind (positionOf? old)) = some i ∧
        ∀ d' j, d' < d → (origins[d']?.bind (positionOf? old)) = some j → j < i := by
  -- By the origins, with the bound that those before have left.
  induction origins generalizing bound d with
  | nil => simp [matchFrom]
  | cons origin rest ih =>
    rw [matchFrom]
    cases d with
    | zero =>
      cases hpos : positionOf? old origin with
      | none => simp [hpos]
      | some k =>
        by_cases hk : bound ≤ k
        · simp only [Option.filter_some, hk, decide_true, if_true, List.getElem?_cons_zero,
            Option.some.injEq, Option.bind_some, hpos, Nat.not_lt_zero, false_implies,
            implies_true, and_true]
          exact ⟨fun h => h ▸ ⟨hk, rfl⟩, fun h => h.2⟩
        · simp only [Option.filter_some, hk, decide_false, Bool.false_eq_true, if_false,
            List.getElem?_cons_zero, Option.bind_some, hpos, Option.some.injEq, reduceCtorEq,
            false_iff, not_and]
          exact fun hle heq => absurd (heq ▸ hle) hk
    | succ d =>
      -- The first origin moves the bound exactly when it is not yet behind it.
      have hstep : ∀ bound', (matchFrom old bound' rest)[d]? = some (some i) ↔ _ := fun bound' =>
        ih bound' d
      have hzero : (∀ d' j, d' < d + 1 →
          ((origin :: rest)[d']?.bind (positionOf? old)) = some j → j < i) ↔
          (∀ j, positionOf? old origin = some j → j < i) ∧
            ∀ d' j, d' < d → (rest[d']?.bind (positionOf? old)) = some j → j < i := by
        constructor
        · exact fun h => ⟨fun j hj => h 0 j (Nat.succ_pos _) (by simpa using hj),
            fun d' j hd' hj => h (d' + 1) j (Nat.succ_lt_succ hd') (by simpa using hj)⟩
        · rintro ⟨hfirst, hrest⟩ (_ | d') j hd' hj
          · exact hfirst j (by simpa using hj)
          · exact hrest d' j (Nat.lt_of_succ_lt_succ hd') (by simpa using hj)
      rw [hzero]
      cases hpos : positionOf? old origin with
      | none =>
        simp only [Option.filter_none, List.getElem?_cons_succ, hstep, reduceCtorEq,
          false_implies, implies_true, true_and]
      | some k =>
        by_cases hk : bound ≤ k
        · simp only [Option.filter_some, hk, decide_true, if_true, List.getElem?_cons_succ,
            hstep, Option.some.injEq, forall_eq']
          constructor
          · exact fun ⟨hle, hat, hall⟩ => ⟨by omega, hat, by omega, hall⟩
          · exact fun ⟨_, hat, hlt, hall⟩ => ⟨by omega, hat, hall⟩
        · simp only [Option.filter_some, hk, decide_false, Bool.false_eq_true, if_false,
            List.getElem?_cons_succ, hstep, Option.some.injEq, forall_eq']
          constructor
          · exact fun ⟨hle, hat, hall⟩ => ⟨hle, hat, by omega, hall⟩
          · exact fun ⟨hle, hat, _, hall⟩ => ⟨hle, hat, hall⟩

/-- Entries are matched with those whose place they keep. -/
theorem matchFrom_eq_some_iff (hold : Placed span old) {o n : Entry} {d i : Nat}
    (hd : new[d]? = some n) (hi : old[i]? = some o) :
    (matchFrom old 0 (new.map (·.origin)))[d]? = some (some i) ↔
      n.origin = o.origin ∧
        ∀ (d' j : Nat) (n' o' : Entry), d' < d → new[d']? = some n' → old[j]? = some o' →
          n'.origin = o'.origin → j < i := by
  rw [getElem?_matchFrom]
  simp only [Nat.zero_le, true_and, List.getElem?_map, hd, Option.map_some, Option.bind_some,
    positionOf?_eq_some_iff hold]
  constructor
  · rintro ⟨⟨o', ho', horigin⟩, hbefore⟩
    obtain rfl := Option.some.inj (ho'.symm.trans hi)
    refine ⟨horigin.symm, fun d' j n' o' hlt hn' hj heq => hbefore d' j hlt ?_⟩
    rw [hn', Option.map_some, Option.bind_some, positionOf?_eq_some_iff hold]
    exact ⟨o', hj, heq.symm⟩
  · rintro ⟨horigin, hbefore⟩
    refine ⟨⟨o, hi, horigin.symm⟩, fun d' j hlt hpos => ?_⟩
    obtain ⟨origin, horigin', hpos⟩ := Option.bind_eq_some_iff.1 hpos
    obtain ⟨n', hn', rfl⟩ := Option.map_eq_some_iff.1 horigin'
    obtain ⟨o', hj, heq⟩ := (positionOf?_eq_some_iff hold).1 hpos
    exact hbefore d' j n' o' hlt hn' hj heq.symm

end Splice

end Statechart
