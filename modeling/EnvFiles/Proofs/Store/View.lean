import EnvFiles.Proofs.Attempt
import EnvFiles.Store.Logged
import EnvFiles.Store.Rehearsal
import EnvFiles.Text.Lines
import Mathlib.Logic.Basic

/-!
# What runs see of a store and do to it

`Store.Reached` says by which calls a state was reached: reads of any path, and writes to given
paths only. With no such path, nothing was written. It holds for every store whatsoever.

A `StoreView` is what makes a store one in which reading a file back gives what was last written.
It tells what each path reads as, and which paths lead to one file, because links may lead to a
file in several ways. A write to a path changes what the paths to the same file read as, and
nothing else; a write that fails changes nothing. What is read back may have its line ends turned
into line feeds.
-/

namespace EnvFiles

variable {σ α β : Type}

/-- One state reached from another by reads, and writes to the given paths. -/
inductive Store.Reached (store : Store σ) (targets : List Path) (first : σ) : σ → Prop
  | start : Reached store targets first first
  | read {state : σ} (path : Path) : Reached store targets first state →
      Reached store targets first (store.read path state).after
  | write {state : σ} {path : Path} (text : Text) : path ∈ targets →
      Reached store targets first state →
      Reached store targets first (store.write path text state).after

namespace Store.Reached

variable {store : Store σ} {targets more : List Path} {first second third : σ}

/-- One run after another. -/
theorem trans (h : store.Reached targets first second) (h' : store.Reached targets second third) :
    store.Reached targets first third := by
  induction h' with
  | start => exact h
  | read path _ ih => exact ih.read path
  | write text hpath _ ih => exact ih.write text hpath

/-- What may be written may be written with more. -/
theorem mono (h : store.Reached targets first second) (hsubset : targets ⊆ more) :
    store.Reached more first second := by
  induction h with
  | start => exact start
  | read path _ ih => exact ih.read path
  | write text hpath _ ih => exact ih.write text (hsubset hpath)

/-- Behind a rehearsal nothing is written. -/
theorem base {first second : Rehearsal σ} (h : store.rehearsed.Reached targets first second) :
    store.Reached [] first.base second.base := by
  induction h with
  | start => exact start
  | @read state path _ ih =>
    have hread : (store.rehearsed.read path state).after.base = state.base ∨
        (store.rehearsed.read path state).after.base = (store.read path state.base).after := by
      simp only [Store.rehearsed]
      split
      · exact Or.inl rfl
      · exact Or.inr rfl
    rcases hread with hread | hread
    · rwa [hread]
    · rw [hread]
      exact ih.read path
  | write text _ _ ih => exact ih

end Store.Reached

/-- A step at the desk of a run ends as it does at the desk alone. -/
theorem Run.endsIn_atDesk {step : DeskStep α} {world : World σ} {done : α → World σ → Prop}
    {failed : Failure → World σ → Prop} :
    (Run.atDesk step).EndsIn world done failed ↔
      step.EndsIn world.desk (fun result desk => done result { world with desk })
        fun failure desk => failed failure { world with desk } := Attempt.endsIn_onPart ..

/-- A call of an operation ends as the store answers, and takes no reply. -/
theorem Run.endsIn_call {operation : σ → Reply σ α} {world : World σ}
    {done : α → World σ → Prop} {failed : Failure → World σ → Prop}
    (hdone : ∀ result after, (operation world.store).answer = .ok result →
      after.store = (operation world.store).after → after.desk.replies = world.desk.replies →
        done result after)
    (hfailed : ∀ failure after, (operation world.store).answer = .error failure →
      after.store = (operation world.store).after → after.desk.replies = world.desk.replies →
        failed failure after) :
    (Run.call operation).EndsIn world done failed := by
  rw [Attempt.EndsIn, Run.call, Attempt.runFrom_ofFunction]
  dsimp only
  cases hanswer : (operation world.store).answer with
  | ok result => exact hdone result _ hanswer rfl rfl
  | error failure => exact hfailed failure _ hanswer rfl rfl

/-- A run that writes to the given paths only. -/
def Run.WritesOnly (store : Store σ) (targets : List Path) (run : Run σ α) : Prop :=
  ∀ world, store.Reached targets world.store (run.runFrom world).2.store

namespace Run.WritesOnly

variable {store : Store σ} {targets more : List Path}

/-- A result alone writes nothing. -/
theorem pure (result : α) : (Pure.pure result : Run σ α).WritesOnly store targets :=
  fun _ => .start

/-- Two runs one after the other, the second for the results that the first can have. -/
theorem bind_of {run : Run σ α} {next : α → Run σ β} {good : α → Prop}
    (h : run.WritesOnly store targets)
    (hgood : ∀ world, run.EndsIn world (fun result _ => good result) fun _ _ => True)
    (hnext : ∀ result, good result → (next result).WritesOnly store targets) :
    (run >>= next).WritesOnly store targets := by
  intro world
  have hrun := h world
  rw [Attempt.runFrom_bind]
  rcases heq : run.runFrom world with ⟨failure | result, after⟩
  · rw [heq] at hrun
    exact hrun
  · rw [heq] at hrun
    exact hrun.trans (hnext result ((hgood world).of_runFrom_ok heq) after)

/-- Two runs one after the other. -/
theorem bind {run : Run σ α} {next : α → Run σ β} (h : run.WritesOnly store targets)
    (hnext : ∀ result, (next result).WritesOnly store targets) :
    (run >>= next).WritesOnly store targets :=
  bind_of h
    (fun _ => Attempt.endsIn_of_forall run (fun _ _ => trivial) fun _ _ => trivial)
    fun result _ => hnext result

/-- A function of the result. -/
theorem map {run : Run σ α} (h : run.WritesOnly store targets) (function : α → β) :
    (function <$> run).WritesOnly store targets := by
  rw [map_eq_pure_bind]
  exact h.bind fun _ => pure _

/-- What may be written may be written with more. -/
theorem mono {run : Run σ α} (h : run.WritesOnly store targets) (hsubset : targets ⊆ more) :
    run.WritesOnly store more := fun world => (h world).mono hsubset

/-- What happens at the desk is not written. -/
theorem atDesk (step : DeskStep α) : (Run.atDesk step : Run σ α).WritesOnly store targets := by
  intro world
  have hstore : ((Run.atDesk step : Run σ α).runFrom world).2.store = world.store := rfl
  rw [hstore]
  exact .start

/-- Reading writes nothing. -/
theorem read (path : Path) : (Run.read store path).WritesOnly store targets :=
  fun _ => .read path .start

/-- Writing writes to its path. -/
theorem write {path : Path} (text : Text) (h : path ∈ targets) :
    (Run.write store path text).WritesOnly store targets := fun _ => .write text h .start

/-- What was computed is not written. -/
theorem ofExcept (result : Except Failure α) :
    (Run.ofExcept result : Run σ α).WritesOnly store targets := by
  intro world
  rw [Run.ofExcept, Attempt.runFrom_ofExcept]
  exact .start

end Run.WritesOnly

/-- What a path reads as. -/
abbrev Content := Except Failure (Option Text)

/-- What the paths of a store read as. -/
abbrev Files := Path → Content

/-- A text as it was written, or with line feeds for all its line ends. -/
def ReadsBack (written read : Text) : Prop := read = written ∨ read = Text.unifyNewlines written

/-- A store in which reading a file back gives what was last written, as far as the covered paths
are concerned. It is assumed that a write that fails changes nothing (`files_write_failed`): a
store that empties a file before it finds that it cannot write it has no view. -/
structure StoreView (store : Store σ) where
  covers : Path → Prop
  sameFile : Path → Path → Prop
  valid : σ → Prop
  files : σ → Files
  sameFile_equivalence : Equivalence sameFile
  files_congr : ∀ state first second, valid state → covers first → covers second →
    sameFile first second → files state first = files state second
  answer_read : ∀ state path, valid state → (store.read path state).answer = files state path
  valid_read : ∀ state path, valid state → valid (store.read path state).after
  files_read : ∀ state path, valid state → files (store.read path state).after = files state
  valid_write : ∀ state path text, valid state → covers path →
    valid (store.write path text state).after
  files_write : ∀ state path text other, valid state → covers path → covers other →
    (store.write path text state).answer = .ok () → sameFile path other →
    ∃ back, files (store.write path text state).after other = .ok (some back) ∧ ReadsBack text back
  files_write_other : ∀ state path text other, valid state → covers path → covers other →
    ¬ sameFile path other → files (store.write path text state).after other = files state other
  files_write_failed : ∀ state path text other failure, valid state → covers path →
    covers other → (store.write path text state).answer = .error failure →
    files (store.write path text state).after other = files state other

/-- As long as nothing is written, every path reads as before. -/
theorem StoreView.files_of_reached {store : Store σ} (view : StoreView store) {first second : σ}
    (hvalid : view.valid first) (h : store.Reached [] first second) :
    view.valid second ∧ view.files second = view.files first := by
  induction h with
  | start => exact ⟨hvalid, rfl⟩
  | @read state path _ ih =>
    exact ⟨view.valid_read state path ih.1, (view.files_read state path ih.1).trans ih.2⟩
  | write text hpath _ _ => exact absurd hpath List.not_mem_nil

/-- A state stays valid under writes to covered paths. -/
theorem StoreView.valid_of_reached {store : Store σ} (view : StoreView store)
    {targets : List Path} (hcovers : ∀ path ∈ targets, view.covers path) {first second : σ}
    (hvalid : view.valid first) (h : store.Reached targets first second) : view.valid second := by
  induction h with
  | start => exact hvalid
  | read path _ ih => exact view.valid_read _ path ih
  | write text hpath _ ih => exact view.valid_write _ _ text ih (hcovers _ hpath)

/-- A path that can be read can still be read after writes to covered paths. -/
theorem StoreView.readable_of_reached {store : Store σ} (view : StoreView store)
    {targets : List Path} (hcovers : ∀ path ∈ targets, view.covers path) {first second : σ}
    (hvalid : view.valid first) (h : store.Reached targets first second) {path : Path}
    (hpath : view.covers path) (hreadable : ∃ content, view.files first path = .ok content) :
    view.valid second ∧ ∃ content, view.files second path = .ok content := by
  induction h with
  | start => exact ⟨hvalid, hreadable⟩
  | @read state other _ ih =>
    rw [view.files_read state other ih.1]
    exact ⟨view.valid_read state other ih.1, ih.2⟩
  | @write state other text hother _ ih =>
    obtain ⟨hstate, content, hcontent⟩ := ih
    have hcovered := hcovers other hother
    refine ⟨view.valid_write state other text hstate hcovered, ?_⟩
    by_cases hsame : view.sameFile other path
    · cases hanswer : (store.write other text state).answer with
      | ok _ =>
        obtain ⟨back, hback, -⟩ :=
          view.files_write state other text path hstate hcovered hpath hanswer hsame
        exact ⟨some back, hback⟩
      | error failure =>
        refine ⟨content, ?_⟩
        rwa [view.files_write_failed state other text path failure hstate hcovered hpath hanswer]
    · refine ⟨content, ?_⟩
      rwa [view.files_write_other state other text path hstate hcovered hpath hsame]

/-- A path to none of the written files reads as before. -/
theorem StoreView.files_of_reached_of_not_sameFile {store : Store σ} (view : StoreView store)
    {targets : List Path} (hcovers : ∀ path ∈ targets, view.covers path) {first second : σ}
    (hvalid : view.valid first) (h : store.Reached targets first second) {path : Path}
    (hpath : view.covers path) (hne : ∀ target ∈ targets, ¬ view.sameFile target path) :
    view.files second path = view.files first path := by
  induction h with
  | start => rfl
  | @read state other hreached ih =>
    rw [view.files_read state other (view.valid_of_reached hcovers hvalid hreached), ih]
  | @write state other text hother hreached ih =>
    rw [view.files_write_other state other text path
      (view.valid_of_reached hcovers hvalid hreached) (hcovers other hother) hpath
        (hne other hother), ih]

section Wrapped

variable {store : Store σ}

/-- A logged store reads as the store inside. -/
def StoreView.logged (view : StoreView store) (logger : Text) :
    StoreView (store.logged logger) where
  covers := view.covers
  sameFile := view.sameFile
  valid := view.valid
  files := view.files
  sameFile_equivalence := view.sameFile_equivalence
  files_congr := view.files_congr
  answer_read := view.answer_read
  valid_read := view.valid_read
  files_read := view.files_read
  valid_write := view.valid_write
  files_write := view.files_write
  files_write_other := view.files_write_other
  files_write_failed := view.files_write_failed

/-- A store behind a rehearsal that is not used reads as it does alone. -/
def StoreView.direct (view : StoreView store) : StoreView store.direct where
  covers := view.covers
  sameFile := view.sameFile
  valid state := view.valid state.base
  files state := view.files state.base
  sameFile_equivalence := view.sameFile_equivalence
  files_congr state := view.files_congr state.base
  answer_read state := view.answer_read state.base
  valid_read state := view.valid_read state.base
  files_read state := view.files_read state.base
  valid_write state := view.valid_write state.base
  files_write state := view.files_write state.base
  files_write_other state := view.files_write_other state.base
  files_write_failed state := view.files_write_failed state.base

/-- A rehearsed store reads as the pending texts say, and otherwise as the store behind it. Every path
is its own file there, because a pending write is seen under its own path only. -/
def StoreView.rehearsed (view : StoreView store) : StoreView store.rehearsed where
  covers _ := True
  sameFile := Eq
  valid state := view.valid state.base
  files state path :=
    match state.pending.get? path with
    | some content => .ok content
    | none => view.files state.base path
  sameFile_equivalence := eq_equivalence
  files_congr _ _ _ _ _ _ h := by rw [h]
  answer_read state path hvalid := by
    simp only [Store.rehearsed]
    cases state.pending.get? path with
    | some content => rfl
    | none => exact view.answer_read state.base path hvalid
  valid_read state path hvalid := by
    simp only [Store.rehearsed]
    cases state.pending.get? path with
    | some content => exact hvalid
    | none => exact view.valid_read state.base path hvalid
  files_read state path hvalid := by
    simp only [Store.rehearsed]
    cases state.pending.get? path with
    | some content => rfl
    | none =>
      have hread := view.files_read state.base path hvalid
      simp only [Rehearsal.ofBase, hread]
  valid_write _ _ _ hvalid _ := hvalid
  files_write state path text other _ _ _ _ hsame := by
    refine ⟨text, ?_, Or.inl rfl⟩
    simp only [Store.rehearsed, Rehearsal.plan, Table.get?_put, if_pos hsame]
  files_write_other state path text other _ _ _ hne := by
    simp only [Store.rehearsed, Rehearsal.plan, Table.get?_put, if_neg hne]
  files_write_failed _ _ _ _ _ _ _ _ hanswer := by cases hanswer

end Wrapped

end EnvFiles
