import EnvFiles.Proofs.Attempt

/-!
# Attempts in step

Two attempts on different states are in step when, started from related states, they come to the
same outcome and related states again. The second one may be stopped on the way where the first
one is not; then the first one only ever goes further than the second one came. The rules follow
the steps from which attempts are put together.
-/

namespace EnvFiles.Attempt

variable {σ τ σ' τ' α β : Type}

/-- How the states of two attempts compare. `onward` is what an attempt always does to its own
state, `stopped` how the states compare once the second attempt was stopped by a failure. -/
structure Coupling (σ τ : Type) where
  related : σ → τ → Prop
  onward : σ → σ → Prop
  stopped : Failure → σ → τ → Prop
  onward_refl : ∀ state, onward state state
  onward_trans : ∀ {first second third}, onward first second → onward second third →
    onward first third
  stopped_onward : ∀ {failure first later second}, stopped failure first second →
    onward first later → stopped failure later second

/-- The ends of two attempts agree, or the second one was stopped. -/
def Coupling.Agree (coupling : Coupling σ τ) (first : Except Failure α × σ)
    (second : Except Failure α × τ) : Prop :=
  (first.1 = second.1 ∧ coupling.related first.2 second.2) ∨
    ∃ failure, second.1 = .error failure ∧ coupling.stopped failure first.2 second.2

/-- Two attempts keep in step. -/
structure InStep (coupling : Coupling σ τ) (first : Attempt σ α) (second : Attempt τ α) :
    Prop where
  onward : ∀ state, coupling.onward state (first.runFrom state).2
  agree : ∀ state other, coupling.related state other →
    coupling.Agree (first.runFrom state) (second.runFrom other)

namespace InStep

variable {coupling : Coupling σ τ}

/-- The same result on both sides. -/
theorem pure (result : α) :
    InStep coupling (Pure.pure result : Attempt σ α) (Pure.pure result) where
  onward := coupling.onward_refl
  agree _ _ hrelated := Or.inl ⟨rfl, hrelated⟩

/-- The same computed outcome on both sides. -/
theorem ofExcept (outcome : Except Failure α) :
    InStep coupling (MonadExcept.ofExcept outcome : Attempt σ α)
      (MonadExcept.ofExcept outcome) where
  onward state := by
    rw [runFrom_ofExcept]
    exact coupling.onward_refl state
  agree state other hrelated := by
    rw [runFrom_ofExcept, runFrom_ofExcept]
    exact Or.inl ⟨rfl, hrelated⟩

/-- Steps in step one after the other. A second attempt that is stopped in its first step leaves
the first attempt to go on alone. -/
theorem bind {first : Attempt σ α} {second : Attempt τ α} {next : α → Attempt σ β}
    {next' : α → Attempt τ β} (h : InStep coupling first second)
    (hnext : ∀ result, InStep coupling (next result) (next' result)) :
    InStep coupling (first >>= next) (second >>= next') where
  onward state := by
    have hfirst := h.onward state
    rw [runFrom_bind]
    rcases hrun : first.runFrom state with ⟨failure | result, after⟩
    · rwa [hrun] at hfirst
    · rw [hrun] at hfirst
      exact coupling.onward_trans hfirst ((hnext result).onward after)
  agree state other hrelated := by
    rw [runFrom_bind, runFrom_bind]
    have hagree := h.agree state other hrelated
    rcases hrun : first.runFrom state with ⟨failure | result, after⟩
    all_goals rcases hrun' : second.runFrom other with ⟨failure' | result', after'⟩
    all_goals rw [hrun, hrun'] at hagree
    all_goals rcases hagree with ⟨heq, hafter⟩ | ⟨stop, heq, hafter⟩
    all_goals cases heq
    · exact Or.inl ⟨rfl, hafter⟩
    · exact Or.inr ⟨_, rfl, hafter⟩
    · exact Or.inr ⟨_, rfl, coupling.stopped_onward hafter ((hnext result).onward after)⟩
    · exact (hnext result).agree after after' hafter

/-- The same function of the results. -/
theorem map {first : Attempt σ α} {second : Attempt τ α} (h : InStep coupling first second)
    (function : α → β) : InStep coupling (function <$> first) (function <$> second) := by
  rw [map_eq_pure_bind, map_eq_pure_bind]
  exact h.bind fun result => pure (function result)

/-- Steps that look at the states first, and are in step whenever the states are related. -/
theorem get_bind (hrelated : ∀ state, ∃ other, coupling.related state other)
    {next : σ → Attempt σ α} {next' : τ → Attempt τ α}
    (hnext : ∀ state other, coupling.related state other →
      InStep coupling (next state) (next' other)) :
    InStep coupling (get >>= next) (get >>= next') where
  onward state := by
    obtain ⟨other, hother⟩ := hrelated state
    exact (hnext state other hother).onward state
  agree state other h := (hnext state other h).agree state other h

/-- Changes that keep states related. -/
theorem modify {change : σ → σ} {change' : τ → τ}
    (honward : ∀ state, coupling.onward state (change state))
    (hrelated : ∀ state other, coupling.related state other →
      coupling.related (change state) (change' other)) :
    InStep coupling (modify change : Attempt σ Unit) (modify change') where
  onward := honward
  agree state other h := Or.inl ⟨rfl, hrelated state other h⟩

/-- The same list of attempts. -/
theorem forM {γ : Type} {items : List γ} {task : γ → Attempt σ Unit}
    {task' : γ → Attempt τ Unit}
    (h : ∀ item ∈ items, InStep coupling (task item) (task' item)) :
    InStep coupling (items.forM task) (items.forM task') := by
  induction items with
  | nil => exact pure ()
  | cons item rest ih =>
    exact (h item (List.mem_cons_self ..)).bind fun _ =>
      ih fun other hother => h other (List.mem_cons_of_mem _ hother)

/-- Attempts in step on a part of the states. -/
theorem onPart {whole : Coupling σ' τ'} {get : σ' → σ} {set : σ → σ' → σ'} {get' : τ' → τ}
    {set' : τ → τ' → τ'} {first : Attempt σ α} {second : Attempt τ α}
    (h : InStep coupling first second)
    (hget : ∀ state other, whole.related state other →
      coupling.related (get state) (get' other))
    (hset : ∀ state other part part', whole.related state other → coupling.related part part' →
      whole.related (set part state) (set' part' other))
    (hstopped : ∀ failure state other part part', whole.related state other →
      coupling.stopped failure part part' →
        whole.stopped failure (set part state) (set' part' other))
    (honward : ∀ state part, coupling.onward (get state) part →
      whole.onward state (set part state)) :
    InStep whole (first.onPart get set) (second.onPart get' set') where
  onward state := honward state _ (h.onward (get state))
  agree state other hrelated := by
    rcases h.agree (get state) (get' other) (hget state other hrelated) with
      ⟨heq, hafter⟩ | ⟨failure, heq, hafter⟩
    · exact Or.inl ⟨heq, hset _ _ _ _ hrelated hafter⟩
    · exact Or.inr ⟨failure, heq, hstopped _ _ _ _ _ hrelated hafter⟩

end InStep
end EnvFiles.Attempt
