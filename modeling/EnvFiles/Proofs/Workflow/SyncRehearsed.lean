import EnvFiles.Proofs.Store.Memory
import EnvFiles.Proofs.Table
import EnvFiles.Proofs.Workflow.Shadowing
import EnvFiles.Proofs.Workflow.Writes
import Mathlib.Logic.Function.Basic

/-!
# A rehearsed sync plans the real one

To say what a sync really wrote, its store is recorded: the record lists the successful writes and
changes nothing else. On a store that gives back exactly what was last written, a rehearsal
shadows the recorded store, because what is pending is what the record says. So a rehearsed sync
and the real one ask the same and report the same, and the plan lists what the real one wrote.

Only the store can tell them apart, by refusing a write. The real sync then stops, where the
rehearsal goes on as if the write had been done.
-/

namespace EnvFiles

open Attempt

variable {σ : Type}

/-- A store that gives back exactly what was last written. A write that fails may do anything. -/
structure Store.IsExact (store : Store σ) (files : σ → Files) : Prop where
  answer_read : ∀ path state, (store.read path state).answer = files state path
  files_read : ∀ path state, files (store.read path state).after = files state
  files_write : ∀ path text state, (store.write path text state).answer = .ok () →
    files (store.write path text state).after =
      Function.update (files state) path (.ok (some text))

/-- As long as nothing is written, every path reads as before. -/
theorem Store.IsExact.files_of_reached {store : Store σ} {files : σ → Files}
    (hstore : store.IsExact files) {first second : σ} (h : store.Reached [] first second) :
    files second = files first := by
  induction h with
  | start => rfl
  | read path _ ih => exact (hstore.files_read path _).trans ih
  | write text hpath _ _ => exact absurd hpath List.not_mem_nil

/-- A failure with which the store refused a write, leaving the given state. -/
def Store.Refuses (store : Store σ) (failure : Failure) (after : σ) : Prop :=
  ∃ path text state, (store.write path text state).answer = .error failure ∧
    (store.write path text state).after = after

/-- The state of a store with the writes made so far. -/
structure Recorded (σ : Type) where
  state : σ
  written : List (Path × Text) := []

/-- The record after a write with the given answer. -/
def Recorded.add (recorded : Recorded σ) (path : Path) (text : Text) :
    Except Failure Unit → List (Path × Text)
  | .ok _ => recorded.written ++ [(path, text)]
  | .error _ => recorded.written

/-- The store with a record of its successful writes. -/
def Store.recorded (inner : Store σ) : Store (Recorded σ) where
  read path recorded :=
    let reply := inner.read path recorded.state
    ⟨reply.answer, { recorded with state := reply.after }, reply.notices⟩
  write path text recorded :=
    let reply := inner.write path text recorded.state
    ⟨reply.answer, ⟨reply.after, recorded.add path text reply.answer⟩, reply.notices⟩
  delete path recorded :=
    let reply := inner.delete path recorded.state
    ⟨reply.answer, { recorded with state := reply.after }, reply.notices⟩
  holds path recorded := inner.holds path recorded.state

/-- A recorded store does what the store does. -/
theorem shadows_recorded (store : Store σ) :
    store.recorded.Shadows (fun recorded state => recorded.state = state) (fun _ _ => False)
      store where
  read path recorded state h := by
    subst h
    exact ⟨rfl, rfl⟩
  write path text recorded state h := by
    subst h
    exact Or.inl ⟨rfl, rfl⟩

/-- A rehearsal over the given files foresees what the record says: it would write the same, and
what is not pending reads as at first. -/
structure Rehearsal.Foresees (files : σ → Files) (start : Files) (rehearsal : Rehearsal σ)
    (real : Recorded σ) : Prop where
  base : files rehearsal.base = start
  pending : rehearsal.pending =
    (Table.ofEntries real.written).map fun entry => (entry.1, some entry.2)
  reads : ∀ path, files real.state path =
    (((Table.ofEntries real.written).get? path).map fun text => .ok (some text)).getD (start path)

/-- What a rehearsal would write is what the record says. -/
theorem Rehearsal.Foresees.writes_eq {files : σ → Files} {start : Files}
    {rehearsal : Rehearsal σ} {real : Recorded σ} (h : rehearsal.Foresees files start real) :
    rehearsal.writes = Table.ofEntries real.written := by
  rw [writes, h.pending, List.filterMap_map]
  exact List.filterMap_some

/-- On an exact store a rehearsal shadows the real changes, up to a write that is refused. -/
theorem shadows_rehearsed {store : Store σ} {files : σ → Files} (hstore : store.IsExact files)
    (start : Files) :
    store.rehearsed.Shadows (Rehearsal.Foresees files start)
      (fun failure real => store.Refuses failure real.state) store.recorded where
  read path rehearsal real h := by
    have hpending : rehearsal.pending.get? path =
        ((Table.ofEntries real.written).get? path).map some := by
      rw [h.pending, Table.get?_mapValues]
    have hreal : (store.recorded.read path real).answer = files real.state path :=
      hstore.answer_read path real.state
    have hafter : ∀ other, files (store.recorded.read path real).after.state other =
        files real.state other := fun other => by
      rw [← hstore.files_read path real.state]
      rfl
    rw [hreal, h.reads]
    simp only [Store.rehearsed, hpending]
    cases (Table.ofEntries real.written).get? path with
    | some text => exact ⟨rfl, h.base, h.pending, fun other => (hafter other).trans (h.reads other)⟩
    | none =>
      refine ⟨?_, ?_, h.pending, fun other => (hafter other).trans (h.reads other)⟩
      · rw [← h.base]
        exact hstore.answer_read path rehearsal.base
      · exact (hstore.files_read path rehearsal.base).trans h.base
  write path text rehearsal real h := by
    cases hanswer : (store.write path text real.state).answer with
    | error failure => exact Or.inr ⟨failure, hanswer, path, text, real.state, hanswer, rfl⟩
    | ok done =>
      have hwritten : (store.recorded.write path text real).after.written =
          real.written ++ [(path, text)] := by
        simp only [Store.recorded, Recorded.add, hanswer]
      refine Or.inl ⟨hanswer.symm, h.base, ?_, fun other => ?_⟩
      · rw [hwritten, Table.ofEntries_concat, ← Table.put_mapValues, ← h.pending]
        rfl
      · have hfiles := hstore.files_write path text real.state hanswer
        change files (store.write path text real.state).after other = _
        rw [hfiles, hwritten, Table.ofEntries_concat, Table.get?_put]
        by_cases hother : path = other
        · subst hother
          simp
        · rw [Function.update_of_ne (Ne.symm hother), if_neg hother, h.reads]

section Syncing

variable (store : Store σ) (registry : Registry) (options : RunOptions)
  (workspaces : List Workspace) (population : Option (List Workspace))

/-- The report with the plan of the given writes. -/
def SyncReport.planning (report : SyncReport) (written : List (Path × Text)) : SyncReport :=
  { report with pending := Table.ofEntries written }

/-- A rehearsed sync is a sync on a rehearsal, whose pending writes it reports. -/
theorem runFrom_rehearsedSync (world : World σ) :
    (sync store registry options workspaces population true).runFrom world =
      match (syncIn store.rehearsed registry options workspaces
        (population.getD workspaces)).runFrom ⟨⟨world.store, []⟩, world.desk⟩ with
      | (outcome, after) =>
        ((fun report => { report with pending := after.store.writes }) <$> outcome,
          ⟨after.store.base, after.desk⟩) := by
  rw [sync, if_pos rfl, runFrom_bind, Run.rehearse, runFrom_ofFunction]
  rcases (syncIn store.rehearsed registry options workspaces
    (population.getD workspaces)).runFrom ⟨⟨world.store, []⟩, world.desk⟩ with
    ⟨failure | report, after⟩ <;> rfl

/-- A rehearsed sync that returned is a sync of the rehearsed store that returned. -/
theorem exists_of_rehearsedSync {start after : World σ} {report : SyncReport}
    (hrun : (sync store registry options workspaces population true).runFrom start =
      (.ok report, after)) :
    ∃ planned dry, (syncIn store.rehearsed registry options workspaces
        (population.getD workspaces)).runFrom ⟨⟨start.store, []⟩, start.desk⟩ = (.ok planned, dry) ∧
      report = { planned with pending := dry.store.writes } ∧
        after = ⟨dry.store.base, dry.desk⟩ := by
  rw [runFrom_rehearsedSync] at hrun
  rcases hdry : (syncIn store.rehearsed registry options workspaces
    (population.getD workspaces)).runFrom ⟨⟨start.store, []⟩, start.desk⟩ with
    ⟨failure | planned, dry⟩
  · rw [hdry] at hrun
    cases hrun
  · rw [hdry] at hrun
    cases hrun
    exact ⟨planned, dry, rfl, rfl, rfl⟩

/-- A recorded sync does what the sync does. -/
theorem exists_recorded {world real : World σ} {outcome : Except Failure SyncReport}
    (hreal : (sync store registry options workspaces population).runFrom world =
      (outcome, real)) :
    ∃ written desk, (sync store.recorded registry options workspaces population).runFrom
        ⟨⟨world.store, []⟩, world.desk⟩ = (outcome, ⟨⟨real.store, written⟩, desk⟩) ∧
      desk.Alike real.desk := by
  have hagree := ((shadows_recorded store).inStep_syncIn registry options workspaces
    (population.getD workspaces)).agree ⟨⟨world.store, []⟩, world.desk⟩ world ⟨rfl, .refl _⟩
  change Coupling.Agree _ _ ((sync store registry options workspaces population).runFrom world)
    at hagree
  rw [hreal] at hagree
  rcases hrecorded : (syncIn store.recorded registry options workspaces
    (population.getD workspaces)).runFrom ⟨⟨world.store, []⟩, world.desk⟩ with
    ⟨found, ⟨⟨state, written⟩, desk⟩⟩
  rw [hrecorded] at hagree
  rcases hagree with ⟨houtcome, hstore, hdesk⟩ | ⟨failure, -, hfalse, -⟩
  · cases houtcome
    cases hstore
    exact ⟨written, desk, hrecorded, hdesk⟩
  · exact hfalse.elim

end Syncing

/-- A rehearsed sync plans the real one. On a store that gives back exactly what was last
written, started from the same state, the rehearsal writes nothing and leaves every file as it
is. Either both ask the same questions and come to the same outcome, the rehearsal's report
listing what the real sync wrote and left there; or the store refused a write of the real sync,
which then ended with that failure, having asked no more than the rehearsal. -/
theorem sync_rehearsed {store : Store σ} {files : σ → Files} (hstore : store.IsExact files)
    (registry : Registry) (options : RunOptions) (workspaces : List Workspace)
    (population : Option (List Workspace)) (world : World σ) :
    ∃ planned dry outcome real written desk,
      (sync store registry options workspaces population true).runFrom world = (planned, dry) ∧
      (sync store registry options workspaces population).runFrom world = (outcome, real) ∧
      (sync store.recorded registry options workspaces population).runFrom
        ⟨⟨world.store, []⟩, world.desk⟩ = (outcome, ⟨⟨real.store, written⟩, desk⟩) ∧
      store.Reached [] world.store dry.store ∧ files dry.store = files world.store ∧
      ((dry.desk.asked = real.desk.asked ∧
          planned = (fun report => report.planning written) <$> outcome ∧
          ∀ path text, (Table.ofEntries written).get? path = some text →
            files real.store path = .ok (some text)) ∨
        ∃ failure, outcome = .error failure ∧ store.Refuses failure real.store ∧
          real.desk.asked <+: dry.desk.asked) := by
  have hplanned := runFrom_rehearsedSync store registry options workspaces population world
  rcases hdry : (syncIn store.rehearsed registry options workspaces
    (population.getD workspaces)).runFrom ⟨⟨world.store, []⟩, world.desk⟩ with ⟨found, dry⟩
  rcases hreal : (sync store registry options workspaces population).runFrom world with
    ⟨outcome, real⟩
  obtain ⟨written, desk, hrecorded, hdesk⟩ :=
    exists_recorded store registry options workspaces population hreal
  rw [hdry] at hplanned
  have hreached : store.Reached [] world.store dry.store.base := by
    have hwrites := writesOnly_rehearsedSync store registry options workspaces population world
    rwa [hplanned] at hwrites
  have hstart : Rehearsal.Foresees files (files world.store) ⟨world.store, []⟩
      ⟨world.store, []⟩ := ⟨rfl, rfl, fun _ => rfl⟩
  have hagree := ((shadows_rehearsed hstore (files world.store)).inStep_syncIn registry options
    workspaces (population.getD workspaces)).agree ⟨⟨world.store, []⟩, world.desk⟩
      ⟨⟨world.store, []⟩, world.desk⟩ ⟨hstart, .refl _⟩
  change Coupling.Agree _ _ ((sync store.recorded registry options workspaces
    population).runFrom _) at hagree
  rw [hdry, hrecorded] at hagree
  have hkept : files dry.store.base = files world.store := hstore.files_of_reached hreached
  refine ⟨_, _, outcome, real, written, desk, hplanned, rfl, hrecorded, hreached, hkept, ?_⟩
  rcases hagree with ⟨houtcome, hforesees, halike⟩ | ⟨failure, hfailure, hrefused, hasked⟩
  · refine Or.inl ⟨halike.asked.trans hdesk.asked, ?_, fun path text hpath => ?_⟩
    · rw [hforesees.writes_eq]
      exact congrArg _ houtcome
    · rw [hforesees.reads, hpath]
      rfl
  · rw [hdesk.asked] at hasked
    exact Or.inr ⟨failure, hfailure, hrefused, hasked⟩

section Fixed

/-- The store in memory gives back exactly what was last written. -/
theorem isExact_memoryStore : memoryStore.IsExact memoryView.files where
  answer_read _ _ := rfl
  files_read _ _ := rfl
  files_write path text table _ := by
    funext other
    change Except.ok ((table.put path text).get? other) = _
    rw [Table.get?_put]
    by_cases h : path = other
    · simp [h]
    · rw [if_neg h, Function.update_of_ne (Ne.symm h)]
      rfl

/-- The only workspace of the stores below. -/
def plannedWorkspace : Workspace :=
  ⟨"web", ["web"], ["web", ".env.local.example"], ["web", ".env.local"]⟩

/-- A shared variable that is asked for, and one of the workspace that takes its value. -/
def askingWorld : World (Table Path Text) where
  store := [([".env.local.example"], "# [prompt]\nX=\n"),
    (["web", ".env.local.example"], "# [copy:X]\nY=\n")]
  desk := { replies := ["1"] }

/-- A sync of the workspace above that may ask. -/
def askingSync (rehearsal : Bool) : Run (Table Path Text) SyncReport :=
  sync memoryStore {} { interactive := true } [plannedWorkspace] none rehearsal

/-- Two files written, the second one twice. -/
def askingPlan : Table Path Text :=
  [([".env.local"], "X=1\n"), (["web", ".env.local"], "X=1\n\nY=1\n")]

/-- A rehearsal that asks plans the two files, one of which is written twice. -/
theorem sync_rehearsed_asking :
    memoryStore.IsExact memoryView.files ∧ ∃ report dry real written,
      (askingSync true).runFrom askingWorld = (.ok (report.planning written), dry) ∧
      (askingSync false).runFrom askingWorld = (.ok report, real) ∧
      dry.desk.asked = real.desk.asked ∧ Table.ofEntries written = askingPlan ∧
      ∀ path text, askingPlan.get? path = some text →
        memoryView.files real.store path = .ok (some text) := by
  obtain ⟨planned, dry, outcome, real, written, desk, hdry, hreal, -, -, -, hend⟩ :=
    sync_rehearsed isExact_memoryStore {} { interactive := true } [plannedWorkspace] none
      askingWorld
  change (askingSync true).runFrom askingWorld = _ at hdry
  change (askingSync false).runFrom askingWorld = _ at hreal
  have hplan : SyncReport.pending <$> ((askingSync true).runFrom askingWorld).1 =
      .ok askingPlan := by decide +kernel
  rcases hend with ⟨hasked, hplanned, hleft⟩ | ⟨failure, -, ⟨path, text, state, hrefused, -⟩, -⟩
  · rw [hplanned] at hdry
    rw [hdry] at hplan
    cases outcome with
    | error failure => cases hplan
    | ok report =>
      have hwritten : Table.ofEntries written = askingPlan := Except.ok.inj hplan
      rw [hwritten] at hleft
      exact ⟨isExact_memoryStore, report, dry, real, written, hdry, hreal, hasked, hwritten, hleft⟩
  · cases hrefused

/-- The store in memory with a path that cannot be written, as where a directory stands. -/
def guardedStore (guarded : Path) : Store (Table Path Text) :=
  { memoryStore with
    write := fun path text table =>
      if path = guarded then ⟨.error .isDirectory, table, []⟩
      else memoryStore.write path text table }

/-- A store that refuses writes to a path still gives back exactly what was last written. -/
theorem isExact_guardedStore (guarded : Path) :
    (guardedStore guarded).IsExact memoryView.files where
  answer_read _ _ := rfl
  files_read _ _ := rfl
  files_write path text table h := by
    simp only [guardedStore] at h ⊢
    split at h
    · cases h
    · rename_i hpath
      rw [if_neg hpath]
      exact isExact_memoryStore.files_write path text table h

/-- A sync of the workspace above where its values file cannot be written. -/
def guardedSync (rehearsal : Bool) : Run (Table Path Text) SyncReport :=
  sync (guardedStore plannedWorkspace.valuesPath) {} {} [plannedWorkspace] none rehearsal

/-- There the rehearsal reports success, and the real sync fails. -/
theorem sync_rehearsed_refused :
    (guardedStore plannedWorkspace.valuesPath).IsExact memoryView.files ∧
      SyncReport.ok <$> ((guardedSync true).runFrom
        ⟨[(["web", ".env.local.example"], "X=1\n")], {}⟩).1 = .ok true ∧
      SyncReport.ok <$> ((guardedSync false).runFrom
        ⟨[(["web", ".env.local.example"], "X=1\n")], {}⟩).1 = .error .isDirectory :=
  ⟨isExact_guardedStore _, by decide +kernel, by decide +kernel⟩

end Fixed
end EnvFiles
