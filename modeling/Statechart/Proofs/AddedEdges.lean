import Statechart.Proofs.EdgePatches

/-!
# Edges that patches add

A patch that adds an edge puts an item at the end of a slot. One with several targets is put there
with the first of them and is then given the others, at a position that the session counts: that
of the handles that it knows. The draft counts the items that are written. An item that is no
transition has no handle, and then the edge that is given the targets is another one, and the new
handle leads to another item.

* `Session.AddsAtEnd`: what a patch that adds an edge is to do;
* `Session.exists_of_addEdge`: what it does;
* `Session.addsAtEnd_iff`: these are the same just if as many handles are known as items are
  written in the slot;
* `Session.addEdge_overwrites`: a transition that loses its target to an edge that is added.
-/

namespace Statechart

open Draft

theorem SlotTable.replace_append (table : SlotTable) (place : StatePath × Slot) (a b : Expr) :
    (table.append place a).replace place (table place).length b = table.append place b := by
  rw [SlotTable.replace, SlotTable.append, Function.update_self, Function.update_idem,
    List.set_append_right _ _ (Nat.le_refl _), Nat.sub_self]
  rfl

namespace Session

/-- An edge is added with a handle: its item comes at the end of a slot, all other items stay, and
    the handle leads to it. -/
structure AddsAtEnd (before after : Session) (id : EdgeId) (path : StatePath) (slot : Slot) :
    Prop where
  items : ∃ item, itemsAt after.editor.draft =
    (itemsAt before.editor.draft).append (path, slot) item
  handle : after.transition id =
    .ok (path, ⟨slot, (itemsAt before.editor.draft (path, slot)).length⟩)

variable {session : Session} {id : EdgeId} {source : NodeId} {targets : List NodeId} {slot : Slot}
  {internal : Option Bool} {path : StatePath} {edits : List Edit}

theorem transition_attachEdge (hfree : session.model.hasEdge id = false)
    (hpath : session.model.path source = .ok path) (editor : Editor) :
    transition ⟨editor, session.model.attachEdge id source slot⟩ id =
      .ok (path, session.model.slotEnd source slot) := by
  have hlookup : (session.model.attachEdge id source slot).edges.lookup id =
      some ⟨source, session.model.slotEnd source slot⟩ := by
    rw [Model.hasEdge, Option.isSome_eq_false_iff, Option.isNone_iff_eq_none] at hfree
    rw [Model.attachEdge, List.lookup_append, hfree]
    simp
  exact bind_eq_ok.2 ⟨_, Model.edge_eq_ok.2 hlookup, bind_eq_ok.2 ⟨_, hpath, rfl⟩⟩

/-- An edge is added at the end of its slot. If it has several targets, they are then given to the
    item at the position of its handle. -/
theorem exists_of_addEdge (hpath : session.model.path source = .ok path)
    (hmade : (session.applyOne (.addEdge id source targets slot internal)).edits = .ok edits) :
    (session.applyOne (.addEdge id source targets slot internal)).after.transition id =
        .ok (path, session.model.slotEnd source slot) ∧
      ∃ item, itemsAt
          (session.applyOne (.addEdge id source targets slot internal)).after.editor.draft =
            (itemsAt session.editor.draft).append (path, slot) item ∨
        1 < targets.length ∧ ∃ item', itemsAt
          (session.applyOne (.addEdge id source targets slot internal)).after.editor.draft =
            ((itemsAt session.editor.draft).append (path, slot) item).replace (path, slot)
              (session.model.slotLength source slot) item' := by
  rw [applyOne] at hmade ⊢
  cases hsteps : session.stepsOf (.addEdge id source targets slot internal) with
  | error e => rw [hsteps] at hmade; cases hmade
  | ok steps =>
    rw [hsteps] at hmade
    obtain ⟨hfree, path', paths, hpath', hpaths, rfl⟩ := addEdge_eq_ok.1 hsteps
    obtain rfl := Except.ok.inj (hpath.symm.trans hpath')
    dsimp only at hmade ⊢
    rw [runSteps] at hmade ⊢
    cases happly : session.editor.apply
        (.addTransition path slot paths.head? (internal == some false) none) with
    | error cause => rw [happly] at hmade; cases hmade
    | ok editor =>
      obtain ⟨draft, hdraft, rfl⟩ := Editor.exists_of_apply happly
      obtain ⟨item, -, htable⟩ := Editor.itemsAt_addTransition hdraft
      rw [happly] at hmade
      dsimp only at hmade ⊢
      -- More than one target is a second edit, made where the slot is thought to end.
      split at hmade
      · next hmany =>
        rw [if_pos hmany]
        rw [runSteps] at hmade ⊢
        cases happly' : (session.editor.withDraft draft).apply
            (.retargetTransition path (session.model.slotEnd source slot) paths) with
        | error cause => rw [happly'] at hmade; cases hmade
        | ok editor' =>
          obtain ⟨draft', hdraft', rfl⟩ := Editor.exists_of_apply happly'
          obtain ⟨-, item', -, -, -, htable'⟩ := Editor.itemsAt_retargetTransition hdraft'
          refine ⟨transition_attachEdge hfree hpath _, item, .inr ⟨?_, item', ?_⟩⟩
          · rwa [(mapM_eq_ok_iff.1 hpaths).length_eq]
          · exact htable'.trans (htable ▸ rfl)
      · next hmany =>
        rw [if_neg hmany]
        exact ⟨transition_attachEdge hfree hpath _, item, .inl htable⟩

theorem addsAtEnd_of_slotLength_eq (hpath : session.model.path source = .ok path)
    (hmade : (session.applyOne (.addEdge id source targets slot internal)).edits = .ok edits)
    (hlength : session.model.slotLength source slot =
      (itemsAt session.editor.draft (path, slot)).length) :
    session.AddsAtEnd (session.applyOne (.addEdge id source targets slot internal)).after id path
      slot := by
  obtain ⟨hhandle, item, hitems⟩ := exists_of_addEdge hpath hmade
  refine ⟨?_, by rw [hhandle, Model.slotEnd, hlength]⟩
  rcases hitems with hitems | ⟨-, item', hitems⟩
  · exact ⟨item, hitems⟩
  · exact ⟨item', by rw [hitems, hlength, SlotTable.replace_append]⟩

/-- A session that is in step with its draft adds edges at the end. -/
theorem InStep.addsAtEnd (h : session.InStep) (hpath : session.model.path source = .ok path)
    (hmade : (session.applyOne (.addEdge id source targets slot internal)).edits = .ok edits) :
    session.AddsAtEnd (session.applyOne (.addEdge id source targets slot internal)).after id path
      slot :=
  addsAtEnd_of_slotLength_eq hpath hmade
    (h.tracks.slotLength_eq (Model.mem_of_lookup (Model.path_eq_ok.1 hpath)) slot)

/-- An edge is added at the end of its slot, with all else left alone and its handle leading to it,
    just if the session knows as many handles for the slot as items are written there. -/
theorem addsAtEnd_iff (session : Session) (hpath : session.model.path source = .ok path)
    (hmade : (session.applyOne (.addEdge id source targets slot internal)).edits = .ok edits) :
    session.AddsAtEnd (session.applyOne (.addEdge id source targets slot internal)).after id path
        slot ↔
      session.model.slotLength source slot =
        (itemsAt session.editor.draft (path, slot)).length := by
  refine ⟨fun hadds => ?_, addsAtEnd_of_slotLength_eq hpath hmade⟩
  obtain ⟨hhandle, -⟩ := exists_of_addEdge hpath hmade
  have heq := Except.ok.inj (hhandle.symm.trans hadds.handle)
  exact congrArg (·.2.index) heq

/-- A machine with a state that has the given entries in its `on`. -/
def machineText (entries : String) : String :=
  "createMachine(\x7bstates: \x7ba: \x7bon: \x7b" ++ entries ++
    "\x7d\x7d, b: \x7b\x7d, c: \x7b\x7d\x7d\x7d)"

/-- An entry that is no transition does no harm in another slot. -/
theorem addsAtEnd_iff_otherSlot : ∃ machine edits,
    (Source.machines .typescript .standard (machineText "GO: 'b', STOP: foo"))[0]? = some machine ∧
    ((ofEditor (.ofMachine (machineText "GO: 'b', STOP: foo") machine {})).applyOne
      (.addEdge 1 1 [2, 3] (.on "GO") none)).edits = .ok edits ∧
    (ofEditor (.ofMachine (machineText "GO: 'b', STOP: foo") machine {})).AddsAtEnd
      ((ofEditor (.ofMachine (machineText "GO: 'b', STOP: foo") machine {})).applyOne
        (.addEdge 1 1 [2, 3] (.on "GO") none)).after 1 ["a"] (.on "GO") := by
  have hfound : ((Source.machines .typescript .standard
      (machineText "GO: 'b', STOP: foo"))[0]?).any (fun machine =>
        let session := ofEditor (.ofMachine (machineText "GO: 'b', STOP: foo") machine {})
        (session.applyOne (.addEdge 1 1 [2, 3] (.on "GO") none)).edits.toOption.isSome &&
          ((session.model.path 1).toOption = some ["a"] &&
            session.model.slotLength 1 (.on "GO") =
              (itemsAt session.editor.draft (["a"], .on "GO")).length)) = true := by
    decide +kernel
  obtain ⟨machine, hmachine, h⟩ := (Option.any_eq_true _ _).1 hfound
  simp only [Bool.and_eq_true, decide_eq_true_eq] at h
  obtain ⟨hmade, hpath, hlength⟩ := h
  obtain ⟨edits, hedits⟩ := Option.isSome_iff_exists.1 hmade
  have hmade := eq_ok_of_toOption hedits
  exact ⟨machine, edits, hmachine, hmade,
    (addsAtEnd_iff _ (eq_ok_of_toOption hpath) hmade).2 hlength⟩

/-- The first entry is no transition and has no handle. The second is given the targets of the edge
    that is added, and the new one is left with the first of them. -/
theorem addEdge_overwrites : ∃ machine edits,
    (Source.machines .typescript .standard (machineText "GO: [foo, 'b']"))[0]? = some machine ∧
    ((ofEditor (.ofMachine (machineText "GO: [foo, 'b']") machine {})).applyOne
      (.addEdge 1 1 [2, 3] (.on "GO") none)).edits = .ok edits ∧
    (itemsAt (ofEditor (.ofMachine (machineText "GO: [foo, 'b']") machine {})).editor.draft
      (["a"], .on "GO")).map Draft.targets = [[], ["b"]] ∧
    (itemsAt ((ofEditor (.ofMachine (machineText "GO: [foo, 'b']") machine {})).applyOne
      (.addEdge 1 1 [2, 3] (.on "GO") none)).after.editor.draft (["a"], .on "GO")).map
        Draft.targets = [[], ["b", "c"], ["b"]] ∧
    ¬(ofEditor (.ofMachine (machineText "GO: [foo, 'b']") machine {})).AddsAtEnd
      ((ofEditor (.ofMachine (machineText "GO: [foo, 'b']") machine {})).applyOne
        (.addEdge 1 1 [2, 3] (.on "GO") none)).after 1 ["a"] (.on "GO") := by
  have hfound : ((Source.machines .typescript .standard
      (machineText "GO: [foo, 'b']"))[0]?).any (fun machine =>
        let session := ofEditor (.ofMachine (machineText "GO: [foo, 'b']") machine {})
        let outcome := session.applyOne (.addEdge 1 1 [2, 3] (.on "GO") none)
        outcome.edits.toOption.isSome &&
          ((itemsAt session.editor.draft (["a"], .on "GO")).map Draft.targets = [[], ["b"]] &&
            (itemsAt outcome.after.editor.draft (["a"], .on "GO")).map Draft.targets =
              [[], ["b", "c"], ["b"]])) = true := by
    decide +kernel
  obtain ⟨machine, hmachine, h⟩ := (Option.any_eq_true _ _).1 hfound
  simp only [Bool.and_eq_true, decide_eq_true_eq] at h
  obtain ⟨hmade, hbefore, hafter⟩ := h
  obtain ⟨edits, hedits⟩ := Option.isSome_iff_exists.1 hmade
  refine ⟨machine, edits, hmachine, eq_ok_of_toOption hedits, hbefore, hafter, ?_⟩
  rintro ⟨⟨item, hitems⟩, -⟩
  rw [hitems, SlotTable.append, Function.update_self, List.map_append, hbefore] at hafter
  simp at hafter

end Session

end Statechart
