import Statechart.Proofs.Hierarchy

/-!
# Descriptors and what they stand for

What a descriptor stands for is decided by the paths and the ids of the states, and a descriptor
that is written for a state stands for it.

* `Graph.Refers`: a descriptor on a state stands for another, by their paths;
* `Graph.resolve?_eq_some_iff`: reading finds just that state;
* `Graph.Addressable`: keys and ids that can be written in descriptors;
* `Graph.resolve?_descriptorLike`: what is written is read back.
-/

namespace Statechart

/-! ## Keys and points -/

/-- A key that can stand in a descriptor: not empty, without points, and not taken for an id. -/
def PlainKey (key : String) : Prop :=
  key ≠ "" ∧ '.' ∉ key.toList ∧ key.toList.head? ≠ some '#'

instance (key : String) : Decidable (PlainKey key) := inferInstanceAs (Decidable (_ ∧ _))

theorem splitOnChar_of_not_mem {sep : Char} {cs : List Char} (h : sep ∉ cs) :
    Text.splitOnChar sep cs = [cs] := by
  induction cs with
  | nil => rfl
  | cons c cs ih =>
    rw [List.mem_cons, not_or] at h
    rw [Text.splitOnChar, if_neg (by simpa using Ne.symm h.1), ih h.2]

theorem splitOnChar_append {sep : Char} {cs : List Char} (h : sep ∉ cs) (rest : List Char) :
    Text.splitOnChar sep (cs ++ sep :: rest) = cs :: Text.splitOnChar sep rest := by
  induction cs with
  | nil => rw [List.nil_append, Text.splitOnChar, if_pos (beq_self_eq_true sep)]
  | cons c cs ih =>
    rw [List.mem_cons, not_or] at h
    rw [List.cons_append, Text.splitOnChar, if_neg (by simpa using Ne.symm h.1), ih h.2]

theorem joinKeys_cons_cons (key next : String) (keys : List String) :
    Graph.joinKeys (key :: next :: keys) = key ++ "." ++ Graph.joinKeys (next :: keys) :=
  String.intercalate_cons_cons

/-- Keys with points between them are taken apart again. -/
theorem keysOf_joinKeys {keys : List String} (hne : keys ≠ [])
    (h : ∀ key ∈ keys, '.' ∉ key.toList) : keysOf (Graph.joinKeys keys).toList = keys := by
  induction keys with
  | nil => exact absurd rfl hne
  | cons key keys ih =>
    have hkey := h key List.mem_cons_self
    cases keys with
    | nil =>
      rw [Graph.joinKeys, String.intercalate_singleton, keysOf, splitOnChar_of_not_mem hkey]
      simp
    | cons next keys =>
      have hrest := ih (List.cons_ne_nil _ _) fun k hk => h k (List.mem_cons_of_mem _ hk)
      have htext : (Graph.joinKeys (key :: next :: keys)).toList =
          key.toList ++ '.' :: (Graph.joinKeys (next :: keys)).toList := by
        rw [joinKeys_cons_cons]
        simp
      rw [keysOf] at hrest ⊢
      rw [htext, splitOnChar_append hkey, List.map_cons, hrest, String.ofList_toList]

theorem toList_head?_joinKeys {key : String} (hkey : key ≠ "") (keys : List String) :
    (Graph.joinKeys (key :: keys)).toList.head? = key.toList.head? := by
  have hne : key.toList ≠ [] := by simpa using hkey
  cases keys with
  | nil => rw [Graph.joinKeys, String.intercalate_singleton]
  | cons next keys =>
    rw [joinKeys_cons_cons]
    simp [List.head?_append_of_ne_nil _ hne]

/-- Keys alone are read as a descriptor of a sibling. -/
theorem splitDescriptor_joinKeys {key : String} (hkey : PlainKey key) (keys : List String) :
    splitDescriptor (Graph.joinKeys (key :: keys)) =
      (.sibling, (Graph.joinKeys (key :: keys)).toList) := by
  obtain ⟨hne, hpoint, hhash⟩ := hkey
  have hhead := toList_head?_joinKeys hne keys
  rw [splitDescriptor]
  split
  · next heq =>
    rw [heq] at hhead
    exact absurd hhead.symm hhash
  · next heq =>
    rw [heq] at hhead
    exact absurd (List.mem_of_mem_head? hhead.symm) hpoint
  · rfl

theorem splitDescriptor_hash (text : String) :
    splitDescriptor ("#" ++ text) = (.idAnchored, text.toList) := by
  simp [splitDescriptor]

theorem splitDescriptor_point (text : String) :
    splitDescriptor ("." ++ text) = (.relative, text.toList) := by
  simp [splitDescriptor]

/-- An id and keys are taken apart at the first point. -/
theorem splitAnchor?_append {id : String} (hid : '.' ∉ id.toList) (rest : List Char) :
    splitAnchor? (id.toList ++ '.' :: rest) = some (id, keysOf rest) := by
  have hwhile : ∀ {cs : List Char}, '.' ∉ cs →
      (cs ++ '.' :: rest).dropWhile (· != '.') = '.' :: rest ∧
        (cs ++ '.' :: rest).takeWhile (· != '.') = cs := by
    intro cs hcs
    induction cs with
    | nil => exact ⟨rfl, rfl⟩
    | cons c cs ih =>
      rw [List.mem_cons, not_or] at hcs
      have hc : (c != '.') = true := by simpa using Ne.symm hcs.1
      obtain ⟨hdrop, htake⟩ := ih hcs.2
      exact ⟨by simp only [List.cons_append, List.dropWhile_cons, hc, if_true, hdrop],
        by simp only [List.cons_append, List.takeWhile_cons, hc, if_true, htake]⟩
  obtain ⟨hdrop, htake⟩ := hwhile hid
  rw [splitAnchor?, hdrop, htake]
  simp

namespace Graph

variable (graph : Graph)

/-! ## What a descriptor stands for -/

/-- There is a state at the path. -/
def Has (path : StatePath) : Prop :=
  ∃ node, graph.At node path

/-- The state at the path is given the id. -/
def IdAt (id : String) (path : StatePath) : Prop :=
  ∃ node, graph.At node path ∧ graph.explicitId? node = some id

/-- The state at the path is named by the id: it is given it, or it is the root without one. -/
def Named (id : String) (path : StatePath) : Prop :=
  graph.IdAt id path ∨
    ((∀ other, ¬graph.IdAt id other) ∧ (∀ other, ¬graph.IdAt other []) ∧
      id = defaultRootId ∧ path = [])

/-- A descriptor on the state at `source` stands for the state at `target`. -/
def Refers (source : StatePath) (descriptor : String) (target : StatePath) : Prop :=
  match splitDescriptor descriptor with
  | (.idAnchored, rest) =>
    graph.Named (String.ofList rest) target ∨
      ((∀ other, ¬graph.Named (String.ofList rest) other) ∧
        ∃ id keys anchor, splitAnchor? rest = some (id, keys) ∧ graph.Named id anchor ∧
          target = anchor ++ keys ∧ graph.Has target)
  | (.relative, rest) => target = source ++ keysOf rest ∧ graph.Has target
  | (.sibling, rest) => target = source.dropLast ++ keysOf rest ∧ graph.Has target

/-- No id is given twice. -/
def DistinctIds : Prop :=
  ∀ i j id, graph.explicitId? i = some id → graph.explicitId? j = some id → i = j

variable {graph}

theorem lt_of_explicitId? {i : NodeId} {id : String} (h : graph.explicitId? i = some id) :
    i < graph.nodes.length := by
  rw [explicitId?, node?] at h
  obtain ⟨node, hnode, -⟩ := Option.bind_eq_some_iff.1 h
  exact (List.getElem?_eq_some_iff.1 hnode).1

theorem nodeWithId?_eq_some_iff (hgraph : graph.WellFormed) (hids : graph.DistinctIds)
    {id : String} {i : NodeId} :
    graph.nodeWithId? id = some i ↔ graph.explicitId? i = some id := by
  have hsound : ∀ {j}, graph.nodeWithId? id = some j → graph.explicitId? j = some id := by
    intro j h
    obtain ⟨node, hnode, rfl⟩ := Option.map_eq_some_iff.1 h
    have hid := List.find?_some hnode
    obtain ⟨k, hk⟩ := List.mem_iff_getElem?.1 (List.mem_of_find?_eq_some hnode)
    rw [hgraph.hierarchy.id_eq hk, explicitId?, node?, hk]
    exact beq_iff_eq.1 hid
  refine ⟨hsound, fun h => ?_⟩
  cases hfind : graph.nodeWithId? id with
  | some j => exact congrArg some (hids j i id (hsound hfind) h)
  | none =>
    rw [explicitId?, node?] at h
    obtain ⟨node, hnode, hid⟩ := Option.bind_eq_some_iff.1 h
    rw [nodeWithId?, Option.map_eq_none_iff, List.find?_eq_none] at hfind
    exact absurd (beq_iff_eq.2 hid) (hfind node (List.mem_of_getElem? hnode))

theorem idAt_iff (hgraph : graph.WellFormed) {i : NodeId} {path : StatePath} {id : String}
    (h : graph.At i path) : graph.IdAt id path ↔ graph.explicitId? i = some id := by
  constructor
  · rintro ⟨j, hj, hid⟩
    exact At.unique hgraph h hj ▸ hid
  · exact fun hid => ⟨i, h, hid⟩

/-- Looking up an id finds the state that it names. -/
theorem lookupId?_eq_some_iff (hgraph : graph.WellFormed) (hids : graph.DistinctIds)
    {id : String} {i : NodeId} {path : StatePath} (h : graph.At i path) :
    graph.lookupId? id = some i ↔ graph.Named id path := by
  rw [lookupId?, Named, idAt_iff hgraph h, ← nodeWithId?_eq_some_iff hgraph hids]
  cases hnode : graph.nodeWithId? id with
  | some j =>
    have hj := (nodeWithId?_eq_some_iff hgraph hids).1 hnode
    have hat := at_pathOf (lt_of_explicitId? hj)
    exact ⟨.inl, fun hor => hor.elim (fun h => h) fun hnot => absurd ⟨j, hat, hj⟩ (hnot.1 _)⟩
  | none =>
    have hnone : ∀ other, ¬graph.IdAt id other := by
      rintro other ⟨j, -, hj⟩
      rw [(nodeWithId?_eq_some_iff hgraph hids).2 hj] at hnode
      cases hnode
    have hroot : (∀ other, ¬graph.IdAt other []) ↔ (graph.explicitId? root).isNone := by
      simp only [idAt_iff hgraph (at_root hgraph), Option.isNone_iff_eq_none,
        Option.eq_none_iff_forall_ne_some, ne_eq]
    rw [hroot]
    simp only [hnone, not_false_eq_true, implies_true, true_and, reduceCtorEq, false_or]
    split
    · next hcond =>
      rw [Bool.and_eq_true, beq_iff_eq] at hcond
      constructor
      · intro heq
        cases heq
        exact ⟨hcond.1, hcond.2, h.path_unique (at_root hgraph)⟩
      · rintro ⟨-, -, rfl⟩
        exact congrArg some (At.unique hgraph (at_root hgraph) h)
    · next hcond =>
      constructor
      · intro heq
        cases heq
      · rintro ⟨hnoid, hid, -⟩
        exact absurd (by rw [hnoid, hid]; simp) hcond

theorem exists_of_lookupId? (hgraph : graph.WellFormed) (hids : graph.DistinctIds) {id : String}
    {i : NodeId} (h : graph.lookupId? id = some i) : ∃ path, graph.At i path := by
  rw [lookupId?] at h
  split at h
  · next node hnode =>
    cases h
    exact ⟨_, at_pathOf (lt_of_explicitId? ((nodeWithId?_eq_some_iff hgraph hids).1 hnode))⟩
  · split at h
    · cases h
      exact ⟨[], at_root hgraph⟩
    · cases h

theorem exists_lookupId? (hgraph : graph.WellFormed) (hids : graph.DistinctIds) {id : String}
    {path : StatePath} (h : graph.Named id path) :
    ∃ i, graph.At i path ∧ graph.lookupId? id = some i := by
  have hat : ∃ i, graph.At i path := by
    rcases h with ⟨i, hi, -⟩ | ⟨-, -, -, rfl⟩
    · exact ⟨i, hi⟩
    · exact ⟨root, at_root hgraph⟩
  obtain ⟨i, hi⟩ := hat
  exact ⟨i, hi, (lookupId?_eq_some_iff hgraph hids hi).2 h⟩

theorem lookupId?_eq_none_iff (hgraph : graph.WellFormed) (hids : graph.DistinctIds)
    {id : String} : graph.lookupId? id = none ↔ ∀ path, ¬graph.Named id path := by
  constructor
  · intro h path hpath
    obtain ⟨i, -, hi⟩ := exists_lookupId? hgraph hids hpath
    rw [h] at hi
    cases hi
  · intro h
    cases hfound : graph.lookupId? id with
    | none => rfl
    | some i =>
      obtain ⟨path, hi⟩ := exists_of_lookupId? hgraph hids hfound
      exact absurd ((lookupId?_eq_some_iff hgraph hids hi).1 hfound) (h path)

/-- Descriptors of siblings start from the parent, or from the root itself. -/
theorem at_siblingBase (hgraph : graph.WellFormed) {source : NodeId} {path : StatePath}
    (h : graph.At source path) : graph.At (graph.siblingBase source) path.dropLast := by
  rcases List.eq_nil_or_concat' path with rfl | ⟨init, key, rfl⟩
  · obtain rfl := At.unique hgraph h (at_root hgraph)
    rw [siblingBase, parent?_root hgraph]
    exact at_root hgraph
  · obtain ⟨parent, hparent, -, hat, -⟩ := parent?_of_at hgraph h
    rw [siblingBase, hparent, List.dropLast_concat]
    exact hat

theorem descend?_eq_some_iff' (hgraph : graph.WellFormed) {base target : NodeId}
    {path q : StatePath} {keys : List String} (hbase : graph.At base path)
    (htarget : graph.At target q) :
    graph.descend? base keys = some target ↔ q = path ++ keys ∧ graph.Has q := by
  rw [descend?_eq_some_iff hgraph hbase]
  exact ⟨fun h => ⟨htarget.path_unique h, target, htarget⟩, fun h => h.1 ▸ htarget⟩

/-- Reading a descriptor finds the state that it stands for. -/
theorem resolve?_eq_some_iff (hgraph : graph.WellFormed) (hids : graph.DistinctIds)
    {source target : NodeId} {p q : StatePath} {descriptor : String}
    (hsource : graph.At source p) (htarget : graph.At target q) :
    graph.resolve? source descriptor = some target ↔ graph.Refers p descriptor q := by
  rcases hparts : splitDescriptor descriptor with ⟨family, rest⟩
  rw [resolve?, Refers, hparts]
  cases family with
  | idAnchored =>
    dsimp only
    -- The whole text may be an id; only if it is none, it is taken apart at its first point.
    cases hwhole : graph.lookupId? (String.ofList rest) with
    | some node =>
      obtain ⟨path, hnode⟩ := exists_of_lookupId? hgraph hids hwhole
      have hnamed := (lookupId?_eq_some_iff hgraph hids hnode).1 hwhole
      have hnot : ¬∀ other, ¬graph.Named (String.ofList rest) other := fun h => h path hnamed
      rw [← lookupId?_eq_some_iff hgraph hids htarget, hwhole]
      exact ⟨.inl, fun h => h.elim (fun h => h) fun h => absurd h.1 hnot⟩
    | none =>
      have hnone := (lookupId?_eq_none_iff hgraph hids).1 hwhole
      simp only [hnone, not_false_eq_true, implies_true, true_and, false_or]
      cases hsplit : splitAnchor? rest with
      | none => simp
      | some anchored =>
        obtain ⟨id, keys⟩ := anchored
        simp only [Option.bind_some, Option.some.injEq, Prod.mk.injEq]
        constructor
        · intro h
          obtain ⟨anchor, hanchor, h⟩ := Option.bind_eq_some_iff.1 h
          obtain ⟨path, hat⟩ := exists_of_lookupId? hgraph hids hanchor
          exact ⟨id, keys, path, ⟨rfl, rfl⟩, (lookupId?_eq_some_iff hgraph hids hat).1 hanchor,
            (descend?_eq_some_iff' hgraph hat htarget).1 h⟩
        · rintro ⟨_, _, path, ⟨rfl, rfl⟩, hnamed, h⟩
          obtain ⟨anchor, hat, hanchor⟩ := exists_lookupId? hgraph hids hnamed
          rw [hanchor, Option.bind_some]
          exact (descend?_eq_some_iff' hgraph hat htarget).2 h
  | relative => exact descend?_eq_some_iff' hgraph hsource htarget
  | sibling => exact descend?_eq_some_iff' hgraph (at_siblingBase hgraph hsource) htarget

/-- What a descriptor is read as is a state. -/
theorem exists_at_of_resolve? (hgraph : graph.WellFormed) (hids : graph.DistinctIds)
    {source target : NodeId} {p : StatePath} {descriptor : String} (hsource : graph.At source p)
    (h : graph.resolve? source descriptor = some target) : graph.At target (graph.pathOf target) := by
  suffices hat : ∃ q, graph.At target q from hat.elim fun q hq => hq.pathOf_eq.symm ▸ hq
  rw [resolve?] at h
  split at h
  · split at h
    · next node hnode =>
      cases h
      exact exists_of_lookupId? hgraph hids hnode
    · obtain ⟨⟨id, keys⟩, -, h⟩ := Option.bind_eq_some_iff.1 h
      obtain ⟨anchor, hanchor, h⟩ := Option.bind_eq_some_iff.1 h
      obtain ⟨a, hat⟩ := exists_of_lookupId? hgraph hids hanchor
      exact ⟨_, (descend?_eq_some_iff hgraph hat).1 h⟩
  · exact ⟨_, (descend?_eq_some_iff hgraph hsource).1 h⟩
  · exact ⟨_, (descend?_eq_some_iff hgraph (at_siblingBase hgraph hsource)).1 h⟩

/-- What descriptors stand for is decided by the paths and the ids of the states. -/
theorem refers_congr {a b : Graph} (hhas : ∀ path, a.Has path ↔ b.Has path)
    (hid : ∀ id path, a.IdAt id path ↔ b.IdAt id path) {source target : StatePath}
    {descriptor : String} : a.Refers source descriptor target ↔ b.Refers source descriptor target := by
  have hnamed : ∀ id path, a.Named id path ↔ b.Named id path := by
    intro id path
    simp only [Named, hid]
  rw [Refers, Refers]
  split <;> simp only [hnamed, hhas]

/-! ## Writing descriptors -/

variable (graph) in
/-- A graph whose keys and ids can be written in descriptors. -/
structure Addressable : Prop where
  keys : ∀ {i : NodeId} {path : StatePath}, graph.At i path → ∀ key ∈ path, PlainKey key
  distinct : graph.DistinctIds
  points : ∀ {i : NodeId} {id : String}, graph.explicitId? i = some id → '.' ∉ id.toList
  rootName : ∀ {i : NodeId}, graph.explicitId? i = some defaultRootId → i = root

/-- The names of states have no points. -/
theorem Addressable.not_mem_of_named (h : graph.Addressable) {id : String} {path : StatePath}
    (hnamed : graph.Named id path) : '.' ∉ id.toList := by
  rcases hnamed with ⟨i, -, hid⟩ | ⟨-, -, rfl, -⟩
  · exact h.points hid
  · decide

variable (hgraph : graph.WellFormed) (h : graph.Addressable)

include hgraph h

theorem named_rootId : graph.Named graph.rootId [] := by
  have hroot := at_root hgraph
  rw [rootId]
  cases hid : graph.explicitId? root with
  | some id => exact .inl ⟨root, hroot, hid⟩
  | none =>
    have hnone : ∀ other, ¬graph.IdAt other [] := fun other hother => by
      rw [idAt_iff hgraph hroot, hid] at hother
      cases hother
    refine .inr ⟨fun other ⟨i, _, hi⟩ => ?_, hnone, rfl, rfl⟩
    obtain rfl := h.rootName hi
    rw [hid] at hi
    cases hi

/-- The root, and a state with an id, are named by the id that is written for them. -/
theorem named_anchor {anchor : NodeId} {path : StatePath} (hat : graph.At anchor path)
    (hanchor : anchor = root ∨ (graph.explicitId? anchor).isSome) :
    graph.Named (if anchor == root then graph.rootId else graph.stateId anchor) path := by
  split
  · next heq =>
    obtain rfl := beq_iff_eq.1 heq
    obtain rfl := hat.path_unique (at_root hgraph)
    exact named_rootId hgraph h
  · next hne =>
    obtain ⟨id, hid⟩ := Option.isSome_iff_exists.1
      (hanchor.resolve_left fun heq => hne (beq_iff_eq.2 heq))
    rw [stateId, hid]
    exact .inl ⟨anchor, hat, hid⟩

omit hgraph in
theorem not_point_of_at {i : NodeId} {p q : StatePath} (hat : graph.At i (p ++ q)) :
    ∀ key ∈ q, '.' ∉ key.toList :=
  fun key hkey => (h.keys hat key (List.mem_append_right _ hkey)).2.1

/-- The form anchored at a state stands for the target. -/
theorem refers_anchoredAt {anchor target : NodeId} {a keys : StatePath} (source : StatePath)
    (hat : graph.At anchor a) (htarget : graph.At target (a ++ keys))
    (hanchor : anchor = root ∨ (graph.explicitId? anchor).isSome) :
    graph.Refers source (graph.anchoredAt anchor target) (a ++ keys) := by
  have hnamed := named_anchor hgraph h hat hanchor
  simp only [anchoredAt, keysBelow_eq hat htarget]
  generalize (if anchor == root then graph.rootId else graph.stateId anchor) = id at hnamed ⊢
  by_cases hkeys : keys = []
  · subst hkeys
    rw [List.isEmpty_nil, if_pos rfl, Refers, splitDescriptor_hash, List.append_nil]
    simp only [String.ofList_toList]
    exact .inl hnamed
  -- Ids have no points, so that the id with keys behind it is no id.
  · have hpoint : ∀ other, ¬graph.Named (id ++ "." ++ joinKeys keys) other := fun other hother =>
      h.not_mem_of_named hother (by simp)
    have htext : "#" ++ id ++ "." ++ joinKeys keys = "#" ++ (id ++ "." ++ joinKeys keys) := by
      rw [String.append_assoc, String.append_assoc, String.append_assoc]
    have hlist : (id ++ "." ++ joinKeys keys).toList = id.toList ++ '.' :: (joinKeys keys).toList := by
      simp
    rw [if_neg (by simpa using hkeys), htext, Refers, splitDescriptor_hash]
    simp only [String.ofList_toList]
    refine .inr ⟨hpoint, id, keys, a, ?_, hnamed, rfl, target, htarget⟩
    rw [hlist, splitAnchor?_append (h.not_mem_of_named hnamed),
      keysOf_joinKeys hkeys (not_point_of_at h htarget)]

theorem refers_anchoredForm {target : NodeId} {q : StatePath} (source : StatePath)
    (htarget : graph.At target q) : graph.Refers source (graph.anchoredForm target) q := by
  rw [anchoredForm]
  cases hfind : (target :: graph.ancestors target).find? fun id =>
      (graph.explicitId? id).isSome with
  | none => exact refers_anchoredAt hgraph h source (at_root hgraph) htarget (.inl rfl)
  | some anchor =>
    have hid := List.find?_some hfind
    -- The nearest state with an id: the target itself, or one above it.
    rcases List.mem_cons.1 (List.mem_of_find?_eq_some hfind) with rfl | hmem
    · have hself : graph.Refers source (graph.anchoredAt anchor anchor) (q ++ []) :=
        refers_anchoredAt hgraph h source htarget (by rwa [List.append_nil]) (.inr hid)
      rwa [List.append_nil] at hself
    · obtain ⟨a, keys, rfl, -, hat⟩ := (mem_ancestors_iff hgraph htarget).1 hmem
      exact refers_anchoredAt hgraph h source hat htarget (.inr hid)

theorem refers_relativeForm {source target : NodeId} {p q : StatePath} {text : String}
    (hsource : graph.At source p) (htarget : graph.At target q)
    (htext : graph.relativeForm? source target = some text) : graph.Refers p text q := by
  rw [relativeForm?] at htext
  split at htext
  · next hbelow =>
    cases htext
    obtain ⟨keys, rfl, hkeys⟩ := (isDescendant_iff hgraph htarget hsource).1 hbelow
    rw [keysBelow_eq hsource htarget, Refers, splitDescriptor_point]
    dsimp only
    rw [keysOf_joinKeys hkeys (not_point_of_at h htarget)]
    exact ⟨rfl, target, htarget⟩
  · cases htext

omit hgraph in
/-- Keys that lead from the parent to the target stand for it. -/
theorem refers_joinKeys {target : NodeId} {p : StatePath} {keys : List String}
    (hkeys : keys ≠ []) (htarget : graph.At target (p.dropLast ++ keys)) :
    graph.Refers p (joinKeys keys) (p.dropLast ++ keys) := by
  cases keys with
  | nil => exact absurd rfl hkeys
  | cons key keys =>
    have hkey := h.keys htarget key (List.mem_append_right _ List.mem_cons_self)
    rw [Refers, splitDescriptor_joinKeys hkey]
    dsimp only
    rw [keysOf_joinKeys hkeys (not_point_of_at h htarget)]
    exact ⟨rfl, target, htarget⟩

theorem refers_siblingForm {source target : NodeId} {p q : StatePath} {text : String}
    (hsource : graph.At source p) (htarget : graph.At target q)
    (htext : graph.siblingForm? source target = some text) : graph.Refers p text q := by
  obtain ⟨parent, hparent, htext⟩ := Option.bind_eq_some_iff.1 htext
  split at htext
  · next hsame =>
    have hsame := beq_iff_eq.1 hsame
    have hconcat : ∀ {i path}, graph.At i path → graph.parent? i = some parent →
        ∃ init key, path = init ++ [key] ∧ graph.At parent init ∧
          (graph.node? i).map (·.key) = some key := by
      intro i path hat hpar
      rcases List.eq_nil_or_concat' path with rfl | ⟨init, key, rfl⟩
      · obtain rfl := At.unique hgraph hat (at_root hgraph)
        rw [parent?_root hgraph] at hpar
        cases hpar
      · obtain ⟨above, habove, -, hat', hkey⟩ := parent?_of_at hgraph hat
        obtain rfl := Option.some.inj (habove.symm.trans hpar)
        exact ⟨init, key, rfl, hat', hkey⟩
    obtain ⟨init, key, rfl, hinit, -⟩ := hconcat hsource hparent
    obtain ⟨init', key', rfl, hinit', hkey'⟩ := hconcat htarget hsame
    obtain rfl := hinit.path_unique hinit'
    obtain rfl := Option.some.inj (hkey'.symm.trans htext)
    have hrefers := refers_joinKeys h (p := init ++ [key]) (List.cons_ne_nil key' [])
      (by rwa [List.dropLast_concat])
    rw [List.dropLast_concat, joinKeys, String.intercalate_singleton] at hrefers
    exact hrefers
  · cases htext

theorem refers_siblingPath {source target : NodeId} {p q : StatePath} {text : String}
    (hsource : graph.At source p) (htarget : graph.At target q)
    (htext : graph.siblingPath? source target = some text) : graph.Refers p text q := by
  rw [siblingPath?] at htext
  have hbase := at_siblingBase hgraph hsource
  split at htext
  · next hbelow =>
    cases htext
    obtain ⟨keys, rfl, hkeys⟩ := (isDescendant_iff hgraph htarget hbase).1 hbelow
    rw [keysBelow_eq hbase htarget]
    exact refers_joinKeys h hkeys htarget
  · cases htext

theorem refers_descriptorFor {source target : NodeId} {p q : StatePath}
    (hsource : graph.At source p) (htarget : graph.At target q) :
    graph.Refers p (graph.descriptorFor source target) q := by
  rw [descriptorFor]
  split
  · next text htext => exact refers_siblingForm hgraph h hsource htarget htext
  · cases htext : graph.relativeForm? source target with
    | some text => exact refers_relativeForm hgraph h hsource htarget htext
    | none => exact refers_anchoredForm hgraph h p htarget

/-- A descriptor that is written in the place of another stands for the target. -/
theorem refers_descriptorLike {source target : NodeId} {p q : StatePath} (previous : String)
    (hsource : graph.At source p) (htarget : graph.At target q) :
    graph.Refers p (graph.descriptorLike source target previous) q := by
  rcases hparts : splitDescriptor previous with ⟨family, rest⟩
  rw [descriptorLike, hparts]
  cases family with
  | sibling =>
    dsimp only
    split
    · next text htext => exact refers_siblingForm hgraph h hsource htarget htext
    · cases htext : graph.siblingPath? source target with
      | some text => exact refers_siblingPath hgraph h hsource htarget htext
      | none => exact refers_descriptorFor hgraph h hsource htarget
  | relative =>
    dsimp only
    cases htext : graph.relativeForm? source target with
    | some text => exact refers_relativeForm hgraph h hsource htarget htext
    | none => exact refers_descriptorFor hgraph h hsource htarget
  | idAnchored =>
    dsimp only
    split
    · next hfound =>
      have hnamed := (lookupId?_eq_some_iff hgraph h.distinct htarget).1 (beq_iff_eq.1 hfound)
      rw [Refers, hparts]
      exact .inl hnamed
    · split
      · next anchor hanchor =>
        split
        · next hbelow =>
          obtain ⟨a, hat⟩ := exists_of_lookupId? hgraph h.distinct hanchor
          obtain ⟨keys, rfl⟩ := (isSelfOrDescendant_iff hgraph htarget hat).1 hbelow
          refine refers_anchoredAt hgraph h p hat htarget ?_
          -- What an id finds is the root or has that id.
          rcases (lookupId?_eq_some_iff hgraph h.distinct hat).1 hanchor with
            hid | ⟨-, -, -, rfl⟩
          · rw [idAt_iff hgraph hat] at hid
            exact .inr (by rw [hid]; rfl)
          · exact .inl (At.unique hgraph hat (at_root hgraph))
        · exact refers_anchoredForm hgraph h p htarget
      · exact refers_anchoredForm hgraph h p htarget

/-- What is written is read back. -/
theorem resolve?_descriptorLike {source target : NodeId} {p q : StatePath} (previous : String)
    (hsource : graph.At source p) (htarget : graph.At target q) :
    graph.resolve? source (graph.descriptorLike source target previous) = some target :=
  (resolve?_eq_some_iff hgraph h.distinct hsource htarget).2
    (refers_descriptorLike hgraph h previous hsource htarget)

end Graph

end Statechart
