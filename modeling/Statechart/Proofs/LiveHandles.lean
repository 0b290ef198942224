import Statechart.Proofs.PatchSteps

/-!
# Handles that are live when they are used

A patch meets an unknown handle only if it uses one that is not live. So patches that are
*scoped* — each handle is live at the start, or is introduced before it is used — never do.

* `Session.Scoped`: handles are live or introduced before they are used;
* `Session.not_isUnknown_applyInOrder`: scoped patches meet no unknown handle.
-/

namespace Statechart.Session

variable {session : Session}

/-- Each handle that patches use is live, or is introduced by a patch before. A patch that
    introduces a known handle may use any: it is refused before it looks them up. -/
def Scoped (model : Model) (patches : List Patch) : Prop :=
  ∀ before patch after, patches = before ++ patch :: after →
    (∃ handle, patch.introduces? = some handle ∧ model.knows handle = true) ∨
      ∀ handle ∈ patch.uses, model.Live handle ∨ ∃ q ∈ before, q.introduces? = some handle

/-- What comes after a patch that is made is scoped by what the patch has left. -/
theorem Scoped.tail {patch : Patch} {rest : List Patch} {edits : List Edit}
    (hkeeps : patch.isRemoval = false) (h : Scoped session.model (patch :: rest))
    (happly : (session.applyOne patch).edits = .ok edits) :
    Scoped (session.applyOne patch).after.model rest := by
  have hextends : session.model.Extends (session.applyOne patch).after.model := by
    rcases change_applyOne session patch with hmodel | hchange
    · rw [hmodel]
      exact .refl _
    · exact hchange.extends hkeeps
  have hfirst : ∀ handle, patch.introduces? = some handle →
      (session.applyOne patch).after.model.Live handle := by
    intro handle hintroduced
    have hchange := change_of_introduces happly hintroduced
    refine hchange.live (fun used hused => ?_) hintroduced
    rcases h [] patch rest rfl with ⟨taken, htaken, hknown⟩ | huses
    · rw [hchange.free htaken] at hknown
      cases hknown
    · rcases huses used hused with hlive | ⟨_, hq, -⟩
      · exact hlive
      · cases hq
  rintro before next after rfl
  rcases h (patch :: before) next after rfl with ⟨handle, hintroduced, hknown⟩ | huses
  · exact .inl ⟨handle, hintroduced, hextends.knows hknown⟩
  · refine .inr fun handle hhandle => ?_
    rcases huses handle hhandle with hlive | ⟨q, hq, hintroduced⟩
    · exact .inl (hextends.live hlive)
    · rcases List.mem_cons.1 hq with rfl | hq
      · exact .inl (hfirst handle hintroduced)
      · exact .inr ⟨q, hq, hintroduced⟩

/-- Scoped patches never meet an unknown handle. -/
theorem not_isUnknown_applyInOrder {patches : List Patch} (hsources : session.model.SourcesKnown)
    (hkeeps : ∀ patch ∈ patches, patch.isRemoval = false) (hscoped : Scoped session.model patches)
    {e : PatchError} (h : (session.applyInOrder patches).edits = .error e) :
    e.isUnknown = false := by
  -- By the patches: one that takes nothing away leaves the handles live that were, and makes
  -- the one live that it introduces.
  induction patches generalizing session with
  | nil => cases h
  | cons patch rest ih =>
    obtain ⟨hkeep, hkeeps⟩ := List.forall_mem_cons.1 hkeeps
    rw [applyInOrder] at h
    cases happly : (session.applyOne patch).edits with
    | error e' =>
      simp only [happly] at h
      cases h
      rw [applyOne] at happly
      cases hsteps : session.stepsOf patch with
      | ok steps =>
        rw [hsteps] at happly
        obtain ⟨cause, rfl⟩ := error_runSteps happly
        rfl
      | error e' =>
        rw [hsteps] at happly
        cases happly
        rcases hscoped [] patch rest rfl with ⟨taken, htaken, hknown⟩ | huses
        · obtain ⟨e, he, hnot⟩ := exists_error_of_taken htaken hknown
          rw [he] at hsteps
          cases hsteps
          exact hnot
        · by_contra hunknown
          obtain ⟨handle, hhandle, hdead⟩ := (amountsTo_stepsOf session patch).refused hsources _
            hsteps (by simpa using hunknown)
          rcases huses handle hhandle with hlive | ⟨_, hq, -⟩
          · exact hdead hlive
          · cases hq
    | ok edits =>
      simp only [happly] at h
      cases hrest : ((session.applyOne patch).after.applyInOrder rest).edits with
      | ok more => simp only [hrest, Except.map] at h; cases h
      | error e' =>
        simp only [hrest, Except.map] at h
        cases h
        exact ih (sourcesKnown_applyOne hsources patch) hkeeps
          (hscoped.tail hkeep happly) hrest

end Statechart.Session
