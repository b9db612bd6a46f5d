import EnvFiles.Proofs.Workflow.Reading

/-!
# Rounds

A round takes a step for each of several items, each of which has a file of its own. A step sees
its file as it was before the round, because the steps before it left it alone, and the steps
after it leave what it made of it. So what a round does to the files is what each step does to
its own. A round whose steps change nothing changes nothing.
-/

namespace EnvFiles

variable {σ β ι : Type} {store : Store σ}

/-- A world after a step that changed at most what one path reads as. -/
structure StoreView.Changed (view : StoreView store) (path : Path) (before after : World σ) :
    Prop where
  valid : view.valid after.store
  others : ∀ other, view.covers other → ¬ view.sameFile path other →
    view.files after.store other = view.files before.store other

/-- A world in which given paths read as they did at the start. -/
structure StoreView.Steady (view : StoreView store) (fixed : List Path) (start world : World σ) :
    Prop where
  valid : view.valid world.store
  files : ∀ path ∈ fixed, view.files world.store path = view.files start.store path

section Rounds

variable {view : StoreView store} {fixed : List Path} {start world : World σ}

/-- Reading leaves the files that are fixed. -/
theorem StoreView.Same.steady {after : World σ} (h : view.Same world after)
    (hsteady : view.Steady fixed start world) : view.Steady fixed start after :=
  ⟨h.valid, fun path hpath => (congrFun h.files path).trans (hsteady.files path hpath)⟩

/-- A step leaves the files that are fixed, if its own is none of them. -/
theorem StoreView.Changed.steady {path : Path} {after : World σ}
    (h : view.Changed path world after) (hsteady : view.Steady fixed start world)
    (hcovers : ∀ other ∈ fixed, view.covers other)
    (hne : ∀ other ∈ fixed, ¬ view.sameFile path other) : view.Steady fixed start after :=
  ⟨h.valid, fun other hother => (h.others other (hcovers other hother) (hne other hother)).trans
    (hsteady.files other hother)⟩

/-- A run that writes none of the files that are fixed leaves them, whether it returns or fails. -/
theorem StoreView.steady_of_writesOnly {run : Run σ β} {targets : List Path}
    (h : run.WritesOnly store targets) (hvalid : view.valid start.store)
    (hcovers : ∀ path ∈ targets, view.covers path) (hcoversFixed : ∀ path ∈ fixed, view.covers path)
    (hne : ∀ path ∈ targets, ∀ other ∈ fixed, ¬ view.sameFile path other)
    {outcome : Except Failure β} {after : World σ} (hrun : run.runFrom start = (outcome, after)) :
    view.Steady fixed start after := by
  have hreached := h start
  rw [hrun] at hreached
  exact ⟨view.valid_of_reached hcovers hvalid hreached, fun path hpath =>
    view.files_of_reached_of_not_sameFile hcovers hvalid hreached (hcoversFixed path hpath)
      fun target htarget => hne target htarget path hpath⟩

/-- A run that writes nothing leaves every file. -/
theorem StoreView.unwritten_of_writesOnly {run : Run σ β} (h : run.WritesOnly store [])
    (hvalid : view.valid start.store) {outcome : Except Failure β} {after : World σ}
    (hrun : run.runFrom start = (outcome, after)) :
    view.valid after.store ∧ view.files after.store = view.files start.store := by
  have hreached := h start
  rw [hrun] at hreached
  exact view.files_of_reached hvalid hreached

/-- After a step a path reads as that of the step does, if they lead to one file, or as before. -/
theorem StoreView.Changed.files_or {path other : Path} {after : World σ}
    (h : view.Changed path world after) (hvalid : view.valid world.store)
    (hpath : view.covers path) (hother : view.covers other) :
    (view.sameFile path other ∧
        view.files world.store other = view.files world.store path ∧
          view.files after.store other = view.files after.store path) ∨
      (¬ view.sameFile path other ∧
        view.files after.store other = view.files world.store other) := by
  by_cases hsame : view.sameFile path other
  · exact Or.inl ⟨hsame, (view.files_congr _ _ _ hvalid hpath hother hsame).symm,
      (view.files_congr _ _ _ h.valid hpath hother hsame).symm⟩
  · exact Or.inr ⟨hsame, h.others other hother hsame⟩

variable {items : List ι} {path : ι → Path} {step : β → ι → Run σ β}

/-- Items with different files, none of which is fixed. -/
structure StoreView.Apart (view : StoreView store) (fixed : List Path) (path : ι → Path)
    (items : List ι) : Prop where
  covers : ∀ item ∈ items, view.covers (path item)
  covers_fixed : ∀ other ∈ fixed, view.covers other
  not_sameFile_fixed : ∀ item ∈ items, ∀ other ∈ fixed, ¬ view.sameFile (path item) other
  pairwise : items.Pairwise fun first second => ¬ view.sameFile (path first) (path second)

/-- The items after the first one. -/
theorem StoreView.Apart.tail {item : ι} (h : view.Apart fixed path (item :: items)) :
    view.Apart fixed path items where
  covers other hother := h.covers other (List.mem_cons_of_mem _ hother)
  covers_fixed := h.covers_fixed
  not_sameFile_fixed other hother := h.not_sameFile_fixed other (List.mem_cons_of_mem _ hother)
  pairwise := (List.pairwise_cons.mp h.pairwise).2

/-- A run that writes the files of the items after the first one leaves that of the first one and the
fixed ones. -/
theorem StoreView.Apart.steady_tail {item : ι} (h : view.Apart fixed path (item :: items))
    {run : Run σ β} (hwrites : run.WritesOnly store (items.map path))
    (hvalid : view.valid start.store) {outcome : Except Failure β} {after : World σ}
    (hrun : run.runFrom start = (outcome, after)) :
    view.Steady (path item :: fixed) start after := by
  obtain ⟨hhead, -⟩ := List.pairwise_cons.mp h.pairwise
  apply StoreView.steady_of_writesOnly hwrites hvalid
  · exact List.forall_mem_map.mpr h.tail.covers
  · exact List.forall_mem_cons.mpr ⟨h.covers item (List.mem_cons_self ..), h.covers_fixed⟩
  · intro target htarget
    obtain ⟨other, hother, rfl⟩ := List.mem_map.mp htarget
    refine List.forall_mem_cons.mpr ⟨fun hsame => ?_, h.tail.not_sameFile_fixed other hother⟩
    exact hhead other hother (view.sameFile_equivalence.symm hsame)
  · exact hrun

/-- Items whose files are those of other items. -/
theorem StoreView.Apart.of_map {κ : Type} {function : κ → ι} {others : List κ}
    (h : view.Apart fixed path (others.map function)) :
    view.Apart fixed (fun other => path (function other)) others where
  covers _ hother := h.covers _ (List.mem_map_of_mem hother)
  covers_fixed := h.covers_fixed
  not_sameFile_fixed _ hother := h.not_sameFile_fixed _ (List.mem_map_of_mem hother)
  pairwise := List.pairwise_map.mp h.pairwise

/-- What each step does to its own file, a round does to the files of all items, and to no
other file. -/
theorem endsIn_round (ready : ι → Content → Prop) (made : ι → Content → Content → Prop)
    {failed : Failure → World σ → Prop} (hapart : view.Apart fixed path items)
    (hstep : ∀ item ∈ items, ∀ result before, view.Steady fixed start before →
      ready item (view.files before.store (path item)) →
        (step result item).EndsIn before
          (fun _ after => view.Changed (path item) before after ∧
            made item (view.files before.store (path item)) (view.files after.store (path item)))
          failed)
    (hsteady : view.Steady fixed start world)
    (hready : ∀ item ∈ items, ready item (view.files world.store (path item))) (result : β) :
    (items.foldlM step result).EndsIn world
      (fun _ after => (view.Steady fixed start after ∧ ∀ item ∈ items,
        made item (view.files world.store (path item)) (view.files after.store (path item))) ∧
          ∀ other, view.covers other → (∀ item ∈ items, ¬ view.sameFile (path item) other) →
            view.files after.store other = view.files world.store other)
      failed := by
  induction items generalizing world result with
  | nil => exact ⟨⟨hsteady, fun _ hmem => absurd hmem List.not_mem_nil⟩, fun _ _ _ => rfl⟩
  | cons item rest ih =>
    obtain ⟨hhead, -⟩ := List.pairwise_cons.mp hapart.pairwise
    have hmem : item ∈ item :: rest := List.mem_cons_self ..
    rw [List.foldlM_cons, Attempt.endsIn_bind]
    refine (hstep item hmem result world hsteady (hready item hmem)).mono
      (fun next middle hmiddle => ?_) fun _ _ h => h
    obtain ⟨hchanged, hmade⟩ := hmiddle
    have hkept : ∀ other ∈ rest, view.files middle.store (path other) =
        view.files world.store (path other) := fun other hother =>
      hchanged.others _ (hapart.covers other (List.mem_cons_of_mem _ hother)) (hhead other hother)
    have hsteady' := hchanged.steady hsteady hapart.covers_fixed
      (hapart.not_sameFile_fixed item hmem)
    refine (ih hapart.tail (fun other hother => hstep other (List.mem_cons_of_mem _ hother))
      hsteady' (fun other hother => ?_) next).mono (fun _ after hafter => ?_) fun _ _ h => h
    · rw [hkept other hother]
      exact hready other (List.mem_cons_of_mem _ hother)
    · obtain ⟨⟨hsteady'', hrest⟩, hothers⟩ := hafter
      refine ⟨⟨hsteady'', List.forall_mem_cons.mpr ⟨?_, fun other hother => ?_⟩⟩,
        fun other hcovered hne => ?_⟩
      · rwa [hothers _ (hapart.covers item hmem) fun other hother hsame =>
          hhead other hother (view.sameFile_equivalence.symm hsame)]
      · rw [← hkept other hother]
        exact hrest other hother
      · obtain ⟨hneHead, hneRest⟩ := List.forall_mem_cons.mp hne
        exact (hothers other hcovered hneRest).trans (hchanged.others other hcovered hneHead)

/-- A round whose steps change nothing and keep a measure of the result changes nothing and keeps
it. -/
theorem endsIn_idleRound {γ : Type} (measure : β → γ) {failed : Failure → World σ → Prop}
    (hvalid : view.valid world.store)
    (hstep : ∀ item ∈ items, ∀ result before, view.Same world before →
      (step result item).EndsIn before
        (fun next after => view.Same before after ∧ measure next = measure result) failed)
    (result : β) :
    (items.foldlM step result).EndsIn world
      (fun next after => view.Same world after ∧ measure next = measure result) failed := by
  have hround : ∀ before, view.Same world before → ∀ result,
      (items.foldlM step result).EndsIn before
        (fun next after => view.Same world after ∧ measure next = measure result) failed := by
    induction items with
    | nil => exact fun before hbefore result => ⟨hbefore, rfl⟩
    | cons item rest ih =>
      intro before hbefore result
      rw [List.foldlM_cons, Attempt.endsIn_bind]
      refine (hstep item (List.mem_cons_self ..) result before hbefore).mono
        (fun next middle hmiddle => ?_) fun _ _ h => h
      refine (ih (fun other hother => hstep other (List.mem_cons_of_mem _ hother)) middle
        (hbefore.trans hmiddle.1) next).mono (fun last after hafter => ?_) fun _ _ h => h
      exact ⟨hafter.1, hafter.2.trans hmiddle.2⟩
  exact hround world (.refl hvalid) result

end Rounds
end EnvFiles
