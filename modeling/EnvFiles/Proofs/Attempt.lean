import EnvFiles.Desk

/-!
# How attempts end

An attempt ends with a result or with a failure, and both leave a state. `EndsIn` says what holds
at either end, so a statement about it is about every run of the attempt, also about one that
stops halfway. The lemmas follow the steps from which attempts are put together; a sequence ends
as its second step does, or as its first one fails.
-/

namespace EnvFiles

/-- A computation that comes to a result does so step by step. -/
theorem exists_of_bind_eq_ok {ε α β : Type} {first : Except ε α} {next : α → Except ε β}
    {result : β} (h : (first >>= next) = .ok result) :
    ∃ middle, first = .ok middle ∧ next middle = .ok result := by
  cases first with
  | error failure => cases h
  | ok middle => exact ⟨middle, rfl, h⟩

/-- A computation in two steps comes to a result when each of them does. -/
theorem bind_eq_ok_iff {ε α β : Type} {first : Except ε α} {next : α → Except ε β} {result : β} :
    (first >>= next) = .ok result ↔ ∃ middle, first = .ok middle ∧ next middle = .ok result :=
  ⟨exists_of_bind_eq_ok, fun ⟨_, hfirst, hnext⟩ => hfirst ▸ hnext⟩

/-- A result alone. -/
theorem pure_eq_ok_iff {ε α : Type} {result other : α} :
    (pure result : Except ε α) = .ok other ↔ result = other :=
  ⟨Except.ok.inj, fun h => congrArg _ h⟩

/-- A function of what is computed comes to a result when that does. -/
theorem exists_map_eq_ok_iff {ε α β : Type} {first : Except ε α} {function : α → β} :
    (∃ result, function <$> first = .ok result) ↔ ∃ middle, first = .ok middle := by
  simp only [map_eq_pure_bind, bind_eq_ok_iff, pure_eq_ok_iff]
  exact ⟨fun ⟨_, middle, hfirst, _⟩ => ⟨middle, hfirst⟩,
    fun ⟨middle, hfirst⟩ => ⟨_, middle, hfirst, rfl⟩⟩

namespace Attempt

variable {σ τ α β : Type} {before : σ} {done : α → σ → Prop} {failed : Failure → σ → Prop}

/-- From the given state a result of the attempt and the state after it are as `done` says, a
failure and the state after it as `failed` says. -/
def EndsIn (attempt : Attempt σ α) (before : σ) (done : α → σ → Prop)
    (failed : Failure → σ → Prop) : Prop :=
  match attempt.runFrom before with
  | (.ok result, after) => done result after
  | (.error failure, after) => failed failure after

/-- A result is as the end of the attempt says. -/
theorem EndsIn.of_runFrom_ok {attempt : Attempt σ α} (h : attempt.EndsIn before done failed)
    {result : α} {after : σ} (hrun : attempt.runFrom before = (.ok result, after)) :
    done result after := by
  rw [EndsIn, hrun] at h
  exact h

/-- A failure is as the end of the attempt says. -/
theorem EndsIn.of_runFrom_error {attempt : Attempt σ α} (h : attempt.EndsIn before done failed)
    {failure : Failure} {after : σ} (hrun : attempt.runFrom before = (.error failure, after)) :
    failed failure after := by
  rw [EndsIn, hrun] at h
  exact h

/-- An attempt whose outcome is known ends in some state. -/
theorem runFrom_eq_of_fst {attempt : Attempt σ α} {result : Except Failure α}
    (h : (attempt.runFrom before).1 = result) :
    attempt.runFrom before = (result, (attempt.runFrom before).2) := by rw [← h]

/-- When a function of what an attempt comes to is known, the attempt returns. -/
theorem exists_of_map_fst {attempt : Attempt σ α} {function : α → β} {value : β}
    (h : function <$> (attempt.runFrom before).1 = .ok value) :
    ∃ result after, attempt.runFrom before = (.ok result, after) ∧ function result = value := by
  rcases hrun : attempt.runFrom before with ⟨failure | result, after⟩
  · rw [hrun] at h
    cases h
  · rw [hrun] at h
    exact ⟨result, after, rfl, Except.ok.inj h⟩

/-- An attempt returns when its outcome is a result. -/
theorem exists_runFrom_iff {attempt : Attempt σ α} :
    (∃ result after, attempt.runFrom before = (.ok result, after)) ↔
      ∃ result, (attempt.runFrom before).1 = .ok result :=
  ⟨fun ⟨result, _, hrun⟩ => ⟨result, congrArg Prod.fst hrun⟩,
    fun ⟨result, hresult⟩ => ⟨result, _, runFrom_eq_of_fst hresult⟩⟩

/-- What holds of the state at both ends holds of the state after the attempt. -/
theorem EndsIn.after {attempt : Attempt σ α} {kept : σ → Prop}
    (h : attempt.EndsIn before (fun _ => kept) fun _ => kept) :
    kept (attempt.runFrom before).2 := by
  rw [EndsIn] at h
  split at h <;> simp_all

/-- An attempt that cannot fail returns. -/
theorem EndsIn.returns {attempt : Attempt σ α}
    (h : attempt.EndsIn before done fun _ _ => False) :
    ∃ result after, attempt.runFrom before = (.ok result, after) ∧ done result after := by
  rw [EndsIn] at h
  split at h
  · rename_i result after hrun
    exact ⟨result, after, hrun, h⟩
  · exact h.elim

/-- An attempt that cannot return fails. -/
theorem EndsIn.fails {attempt : Attempt σ α} (h : attempt.EndsIn before (fun _ _ => False) failed) :
    ∃ failure after, attempt.runFrom before = (.error failure, after) ∧ failed failure after := by
  rw [EndsIn] at h
  split at h
  · exact h.elim
  · rename_i failure after hrun
    exact ⟨failure, after, hrun, h⟩

/-- The ends may be described less exactly. -/
theorem EndsIn.mono {attempt : Attempt σ α} {done' : α → σ → Prop} {failed' : Failure → σ → Prop}
    (h : attempt.EndsIn before done failed)
    (hdone : ∀ result after, done result after → done' result after)
    (hfailed : ∀ failure after, failed failure after → failed' failure after) :
    attempt.EndsIn before done' failed' := by
  rw [EndsIn] at h ⊢
  split at h
  · exact hdone _ _ h
  · exact hfailed _ _ h

/-- Two descriptions of the ends of one attempt. -/
theorem EndsIn.and {attempt : Attempt σ α} {done' : α → σ → Prop} {failed' : Failure → σ → Prop}
    (h : attempt.EndsIn before done failed) (h' : attempt.EndsIn before done' failed') :
    attempt.EndsIn before (fun result after => done result after ∧ done' result after)
      fun failure after => failed failure after ∧ failed' failure after := by
  rw [EndsIn] at h h' ⊢
  rcases hrun : attempt.runFrom before with ⟨result | result, after⟩
  · rw [hrun] at h h'
    exact ⟨h, h'⟩
  · rw [hrun] at h h'
    exact ⟨h, h'⟩

/-- The end of an attempt is the end of its run. -/
theorem EndsIn.and_runFrom {attempt : Attempt σ α} (h : attempt.EndsIn before done failed) :
    attempt.EndsIn before
      (fun result after => done result after ∧ attempt.runFrom before = (.ok result, after))
      fun failure after => failed failure after ∧
        attempt.runFrom before = (.error failure, after) := by
  rw [EndsIn] at h ⊢
  rcases hrun : attempt.runFrom before with ⟨failure | result, after⟩
  · rw [hrun] at h
    exact ⟨h, rfl⟩
  · rw [hrun] at h
    exact ⟨h, rfl⟩

/-- What always holds holds at the end. -/
theorem endsIn_of_forall (attempt : Attempt σ α) (hdone : ∀ result after, done result after)
    (hfailed : ∀ failure after, failed failure after) : attempt.EndsIn before done failed := by
  rw [EndsIn]
  split
  · exact hdone _ _
  · exact hfailed _ _

/-- A result alone changes nothing. -/
theorem endsIn_pure (result : α) :
    (pure result : Attempt σ α).EndsIn before done failed ↔ done result before := Iff.rfl

/-- A sequence goes on from the result of its first step. -/
theorem runFrom_bind (attempt : Attempt σ α) (next : α → Attempt σ β) (before : σ) :
    (attempt >>= next).runFrom before = match attempt.runFrom before with
      | (.ok result, after) => (next result).runFrom after
      | (.error failure, after) => (.error failure, after) := by
  change (ExceptT.bindCont next (attempt.runFrom before).1).run (attempt.runFrom before).2 = _
  rcases attempt.runFrom before with ⟨result | failure, after⟩ <;> rfl

/-- A sequence that returns does so step by step. -/
theorem exists_of_runFrom_bind {attempt : Attempt σ α} {next : α → Attempt σ β} {result : β}
    {after : σ} (h : (attempt >>= next).runFrom before = (.ok result, after)) :
    ∃ first middle, attempt.runFrom before = (.ok first, middle) ∧
      (next first).runFrom middle = (.ok result, after) := by
  rw [runFrom_bind] at h
  rcases hrun : attempt.runFrom before with ⟨failure | first, middle⟩
  · rw [hrun] at h
    cases h
  · rw [hrun] at h
    exact ⟨first, middle, rfl, h⟩

/-- A sequence ends as its second step does, or as its first one fails. -/
theorem endsIn_bind (attempt : Attempt σ α) (next : α → Attempt σ β) {done : β → σ → Prop} :
    (attempt >>= next).EndsIn before done failed ↔
      attempt.EndsIn before (fun result after => (next result).EndsIn after done failed)
        failed := by
  rw [EndsIn, EndsIn, runFrom_bind]
  rcases attempt.runFrom before with ⟨result | failure, after⟩ <;> rfl

/-- A function of the result is applied to the outcome. -/
theorem runFrom_map (attempt : Attempt σ α) (function : α → β) (before : σ) :
    (function <$> attempt).runFrom before =
      ((attempt.runFrom before).1.map function, (attempt.runFrom before).2) := by
  rw [map_eq_pure_bind, runFrom_bind]
  rcases attempt.runFrom before with ⟨result | failure, after⟩ <;> rfl

/-- A function of the result. -/
theorem endsIn_map (attempt : Attempt σ α) (function : α → β) {done : β → σ → Prop} :
    (function <$> attempt).EndsIn before done failed ↔
      attempt.EndsIn before (fun result after => done (function result) after) failed := by
  rw [map_eq_pure_bind, endsIn_bind]
  rfl

/-- Looking at the state. -/
theorem endsIn_get {done : σ → σ → Prop} :
    (get : Attempt σ σ).EndsIn before done failed ↔ done before before := Iff.rfl

/-- Changing the state. -/
theorem endsIn_modify (change : σ → σ) {done : Unit → σ → Prop} :
    (modify change : Attempt σ Unit).EndsIn before done failed ↔ done () (change before) := Iff.rfl

/-- An attempt given by its outcome and the state after it. -/
theorem runFrom_ofFunction (step : σ → Except Failure α × σ) :
    (ofFunction step).runFrom before = step before := rfl

/-- An attempt on a part of the state ends as it does on the part alone. -/
theorem endsIn_onPart (get : σ → τ) (set : τ → σ → σ) (attempt : Attempt τ α) :
    (onPart get set attempt).EndsIn before done failed ↔
      attempt.EndsIn (get before) (fun result after => done result (set after before))
        (fun failure after => failed failure (set after before)) := by
  rw [EndsIn, EndsIn, onPart, runFrom_ofFunction]
  rcases attempt.runFrom (get before) with ⟨result | failure, after⟩ <;> rfl

/-- A result that was computed, or a failure in its place. -/
theorem runFrom_ofExcept (result : Except Failure α) :
    (MonadExcept.ofExcept result : Attempt σ α).runFrom before = (result, before) := by
  cases result <;> rfl

/-- Tasks that do nothing, one after another, do nothing. -/
theorem forM_eq_pure {γ : Type} {items : List γ} {task : γ → Attempt σ Unit}
    (h : ∀ item ∈ items, task item = Pure.pure ()) : items.forM task = Pure.pure () := by
  induction items with
  | nil => rfl
  | cons item rest ih =>
    obtain ⟨hitem, hrest⟩ := List.forall_mem_cons.mp h
    change (task item >>= fun _ => rest.forM task) = Pure.pure ()
    rw [hitem, ih hrest]
    rfl

/-- A list of attempts goes on from the first one. -/
theorem endsIn_forM_cons {γ : Type} (item : γ) (rest : List γ) (task : γ → Attempt σ Unit)
    {done : Unit → σ → Prop} :
    ((item :: rest).forM task).EndsIn before done failed ↔
      (task item).EndsIn before (fun _ after => (rest.forM task).EndsIn after done failed) failed :=
  endsIn_bind (task item) fun _ => rest.forM task

/-- What every step of a list of attempts keeps, all of them keep. -/
theorem endsIn_forM {γ : Type} {kept : σ → Prop} {items : List γ} {task : γ → Attempt σ Unit}
    (h : ∀ item ∈ items, ∀ state, kept state →
      (task item).EndsIn state (fun _ => kept) fun _ => kept)
    (hbefore : kept before) : (items.forM task).EndsIn before (fun _ => kept) fun _ => kept := by
  induction items generalizing before with
  | nil => exact hbefore
  | cons item rest ih =>
    rw [endsIn_forM_cons]
    refine (h item (List.mem_cons_self ..) before hbefore).mono (fun _ after hafter => ?_)
      fun _ _ hafter => hafter
    exact ih (fun other hother => h other (List.mem_cons_of_mem _ hother)) hafter

/-- What every step of a round keeps, the whole round keeps. -/
theorem endsIn_foldlM_kept {β ι : Type} {kept : β → σ → Prop} {items : List ι}
    {step : β → ι → Attempt σ β}
    (hstep : ∀ item ∈ items, ∀ result state, kept result state →
      (step result item).EndsIn state kept failed)
    {result : β} (hbefore : kept result before) :
    (items.foldlM step result).EndsIn before kept failed := by
  induction items generalizing result before with
  | nil => exact hbefore
  | cons item rest ih =>
    rw [List.foldlM_cons, endsIn_bind]
    exact (hstep item (List.mem_cons_self ..) result before hbefore).mono
      (fun _ _ hmiddle => ih (fun other hother => hstep other (List.mem_cons_of_mem _ hother))
        hmiddle) fun _ _ h => h

/-- A round over items. When every step keeps an invariant, makes something of its own item and
leaves what was made of the others, the whole round keeps the invariant and makes it of all. -/
theorem endsIn_foldlM {β ι : Type} {kept : β → σ → Prop} {made : ι → β → σ → Prop}
    {items : List ι} {step : β → ι → Attempt σ β}
    (hstep : ∀ item ∈ items, ∀ result state, kept result state →
      (step result item).EndsIn state (fun next after => kept next after ∧ made item next after ∧
        ∀ other ∈ items, made other result state → made other next after) failed)
    {result : β} (hbefore : kept result before) :
    (items.foldlM step result).EndsIn before
      (fun last after => kept last after ∧ ∀ item ∈ items, made item last after) failed := by
  induction items generalizing kept result before with
  | nil => exact ⟨hbefore, fun _ hmem => absurd hmem List.not_mem_nil⟩
  | cons item rest ih =>
    rw [List.foldlM_cons, endsIn_bind]
    refine (hstep item (List.mem_cons_self ..) result before hbefore).mono
      (fun next middle hmiddle => ?_) fun _ _ h => h
    -- What was made of the first item joins the invariant of the steps after it.
    have hrest : (rest.foldlM step next).EndsIn middle
        (fun last after => (kept last after ∧ made item last after) ∧
          ∀ other ∈ rest, made other last after) failed := by
      refine ih (fun other hother result state hstate => ?_) ⟨hmiddle.1, hmiddle.2.1⟩
      refine (hstep other (List.mem_cons_of_mem _ hother) result state hstate.1).mono
        (fun next after hafter => ?_) fun _ _ h => h
      obtain ⟨hkept, hmade, hothers⟩ := hafter
      exact ⟨⟨hkept, hothers item (List.mem_cons_self ..) hstate.2⟩, hmade,
        fun third hthird => hothers third (List.mem_cons_of_mem _ hthird)⟩
    exact hrest.mono (fun _ _ hafter => ⟨hafter.1.1, List.forall_mem_cons.mpr
      ⟨hafter.1.2, hafter.2⟩⟩) fun _ _ h => h

/-- How a state may stand to an earlier one: as that state itself, and as what comes later stands to
what comes earlier. -/
structure Advance (σ : Type) where
  made : σ → σ → Prop
  refl : ∀ state, made state state
  trans : ∀ {first second third}, made first second → made second third → made first third

/-- An attempt after which the state stands so to the one before, whether it returns or fails. -/
def Advances (advance : Advance σ) (attempt : Attempt σ α) : Prop :=
  ∀ before, advance.made before (attempt.runFrom before).2

namespace Advances

variable {advance : Advance σ}

/-- Both ends of an attempt stand so to the state before it. -/
theorem endsIn {attempt : Attempt σ α} (h : attempt.Advances advance) (before : σ) :
    attempt.EndsIn before (fun _ => advance.made before) fun _ => advance.made before := by
  have hmade := h before
  rw [EndsIn]
  rcases hrun : attempt.runFrom before with ⟨failure | result, after⟩
  · rwa [hrun] at hmade
  · rwa [hrun] at hmade

/-- A result alone. -/
theorem pure (result : α) : (Pure.pure result : Attempt σ α).Advances advance :=
  advance.refl

/-- What was computed. -/
theorem ofExcept (result : Except Failure α) :
    (MonadExcept.ofExcept result : Attempt σ α).Advances advance := by
  intro before
  rw [runFrom_ofExcept]
  exact advance.refl before

/-- Attempts one after the other. -/
theorem bind {attempt : Attempt σ α} {next : α → Attempt σ β} (h : attempt.Advances advance)
    (hnext : ∀ result, (next result).Advances advance) : (attempt >>= next).Advances advance := by
  intro before
  have hfirst := h before
  rw [runFrom_bind]
  rcases hrun : attempt.runFrom before with ⟨failure | result, after⟩
  · rwa [hrun] at hfirst
  · rw [hrun] at hfirst
    exact advance.trans hfirst (hnext result after)

/-- A function of the result. -/
theorem map {attempt : Attempt σ α} (h : attempt.Advances advance) (function : α → β) :
    (function <$> attempt).Advances advance := by
  rw [map_eq_pure_bind]
  exact h.bind fun _ => pure _

/-- Going through a list. -/
theorem forM {γ : Type} {items : List γ} {task : γ → Attempt σ Unit}
    (h : ∀ item ∈ items, (task item).Advances advance) : (items.forM task).Advances advance := by
  induction items with
  | nil => exact pure ()
  | cons item rest ih =>
    obtain ⟨hitem, hrest⟩ := List.forall_mem_cons.mp h
    exact hitem.bind fun _ => ih hrest

end Advances

end Attempt
end EnvFiles
