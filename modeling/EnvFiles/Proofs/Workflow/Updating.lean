import EnvFiles.Proofs.Workflow.Reading

/-!
# Updating a values file

An update reads a values file and writes it once, if a value changes. So it ends in one of four
ways: the file cannot be read, nothing changes, the file is written, or writing fails and nothing
changes either.
-/

namespace EnvFiles

variable {σ : Type} {store : Store σ}

/-- A world in which every covered path reads as before and the same replies are left. -/
structure StoreView.Unchanged (view : StoreView store) (before after : World σ) : Prop where
  valid : view.valid after.store
  files : ∀ path, view.covers path →
    view.files after.store path = view.files before.store path
  replies : after.desk.replies = before.desk.replies

/-- A world in which one file was written: the paths to it read as the text, other covered paths
as before, and the same replies are left. -/
structure StoreView.Written (view : StoreView store) (path : Path) (text : Text)
    (before after : World σ) : Prop where
  valid : view.valid after.store
  files_of_sameFile : ∀ other, view.covers other → view.sameFile path other →
    ∃ back, view.files after.store other = .ok (some back) ∧ ReadsBack text back
  files_of_not_sameFile : ∀ other, view.covers other → ¬ view.sameFile path other →
    view.files after.store other = view.files before.store other
  replies : after.desk.replies = before.desk.replies

variable {view : StoreView store}

/-- Reading changes nothing. -/
theorem StoreView.Same.unchanged {before after : World σ} (h : view.Same before after) :
    view.Unchanged before after :=
  ⟨h.valid, fun path _ => congrFun h.files path, h.replies⟩

/-- No change, and no change again. -/
theorem StoreView.Unchanged.trans {first second third : World σ}
    (h : view.Unchanged first second) (h' : view.Unchanged second third) :
    view.Unchanged first third :=
  ⟨h'.valid, fun path hpath => (h'.files path hpath).trans (h.files path hpath),
    h'.replies.trans h.replies⟩

/-- Reading before a write. -/
theorem StoreView.Written.of_same {path : Path} {text : Text} {first second third : World σ}
    (h : view.Same first second) (h' : view.Written path text second third) :
    view.Written path text first third :=
  ⟨h'.valid, h'.files_of_sameFile,
    fun other hother hne => (h'.files_of_not_sameFile other hother hne).trans
      (congrFun h.files other), h'.replies.trans h.replies⟩

/-- A write that succeeds, and one that fails. -/
theorem endsIn_write {world : World σ} (hvalid : view.valid world.store) {path : Path}
    (hcovers : view.covers path) (text : Text) {done : Unit → World σ → Prop}
    {failed : Failure → World σ → Prop}
    (hdone : ∀ after, view.Written path text world after → done () after)
    (hfailed : ∀ failure after, (store.write path text world.store).answer = .error failure →
      view.Unchanged world after → failed failure after) :
    (Run.write store path text).EndsIn world done failed := by
  have hvalid' := view.valid_write world.store path text hvalid hcovers
  refine Run.endsIn_call (fun done after hanswer hafter hreplies => hdone after ?_)
    fun failure after hanswer hafter hreplies => hfailed failure after hanswer ?_
  · refine ⟨hafter ▸ hvalid', fun other hother hsame => ?_, fun other hother hne => ?_, hreplies⟩
    · rw [hafter]
      exact view.files_write world.store path text other hvalid hcovers hother hanswer hsame
    · rw [hafter]
      exact view.files_write_other world.store path text other hvalid hcovers hother hne
  · refine ⟨hafter ▸ hvalid', fun other hother => ?_, hreplies⟩
    rw [hafter]
    exact view.files_write_failed world.store path text other failure hvalid hcovers hother hanswer

/-- An update of a values file reads it and, if a value changes, writes it once. -/
theorem endsIn_applyUpdates_calls {world : World σ} {path : Path} {updates : Table Text Text}
    {schema : List Definition} {done : Table Text Text → World σ → Prop}
    {failed : Failure → World σ → Prop}
    (hunread : ∀ failure read, (store.read path world.store).answer = .error failure →
      read.store = (store.read path world.store).after →
        read.desk.replies = world.desk.replies → failed failure read)
    (hread : ∀ content read, (store.read path world.store).answer = .ok content →
      read.store = (store.read path world.store).after →
        read.desk.replies = world.desk.replies →
          let changes := changesTo (readValues (content.getD [])).values updates
          (changes = [] → done [] read) ∧
            (changes ≠ [] → (Run.write store path
              (rewriteValues (readValues (content.getD [])) changes schema)).EndsIn read
                (fun _ => done changes) failed)) :
    (applyUpdates store path updates schema).EndsIn world done failed := by
  unfold applyUpdates readValuesFile
  rw [Attempt.endsIn_bind, Attempt.endsIn_bind]
  refine Run.endsIn_call (fun content read hanswer hafter hreplies => ?_) hunread
  obtain ⟨hsame, hchanged⟩ := hread content read hanswer hafter hreplies
  rw [Attempt.endsIn_pure]
  by_cases hchanges : changesTo (readValues (content.getD [])).values updates = []
  · simp only [hchanges, List.isEmpty_nil, if_true]
    exact hsame hchanges
  · rw [if_neg (by simpa using hchanges), Attempt.endsIn_bind]
    exact hchanged hchanges

/-- The ways in which an update of a values file ends. -/
theorem endsIn_applyUpdates {world : World σ} (hvalid : view.valid world.store) {path : Path}
    (hcovers : view.covers path) {updates : Table Text Text} {schema : List Definition}
    {done : Table Text Text → World σ → Prop} {failed : Failure → World σ → Prop}
    (hunreadable : ∀ failure after, view.files world.store path = .error failure →
      view.Same world after → failed failure after)
    (hsame : ∀ content after, view.files world.store path = .ok content →
      changesTo (readValues (content.getD [])).values updates = [] → view.Same world after →
        done [] after)
    (hwritten : ∀ content after, view.files world.store path = .ok content →
      let changes := changesTo (readValues (content.getD [])).values updates
      changes ≠ [] →
        view.Written path (rewriteValues (readValues (content.getD [])) changes schema) world
          after → done changes after)
    (hfailed : ∀ content failure text state after, view.files world.store path = .ok content →
      changesTo (readValues (content.getD [])).values updates ≠ [] → view.valid state →
        (store.write path text state).answer = .error failure →
          view.Unchanged world after → failed failure after) :
    (applyUpdates store path updates schema).EndsIn world done failed := by
  have hfiles := view.answer_read world.store path hvalid
  have hunchanged {read : World σ} (hafter : read.store = (store.read path world.store).after)
      (hreplies : read.desk.replies = world.desk.replies) : view.Same world read := by
    refine ⟨?_, ?_, hreplies, ?_⟩ <;> rw [hafter]
    · exact view.valid_read world.store path hvalid
    · exact view.files_read world.store path hvalid
    · exact .read path .start
  refine endsIn_applyUpdates_calls (fun failure read hanswer hafter hreplies => ?_)
    fun content read hanswer hafter hreplies => ⟨fun hchanges => ?_, fun hchanges => ?_⟩
  · exact hunreadable failure read (hfiles.symm.trans hanswer) (hunchanged hafter hreplies)
  · exact hsame content read (hfiles.symm.trans hanswer) hchanges (hunchanged hafter hreplies)
  · have hcontent := hfiles.symm.trans hanswer
    have hread := hunchanged hafter hreplies
    refine endsIn_write hread.valid hcovers _ (fun after hafter => ?_)
      fun failure after hanswer hafter => ?_
    · exact hwritten content after hcontent hchanges (hafter.of_same hread)
    · exact hfailed content failure _ _ after hcontent hchanges hread.valid hanswer
        (hread.unchanged.trans hafter)

end EnvFiles
