import EnvFiles.Discovery.Workspaces
import EnvFiles.Proofs.Workflow.SyncRehearsed
import EnvFiles.Proofs.Workflow.Updating

/-!
# A failing pass leaves whole workspaces

A pass over workspaces resolves all variables of one before it writes anything of it, and then
writes its values file once. So a pass that fails has done exactly what it does to the workspaces
before the one at which it stopped, wherever in that one the failure came from. A sync writes
nothing until all shared variables are resolved.

What a run writes is seen on the recorded store, whose record grows by every write that is done.
-/

namespace EnvFiles

open Attempt

variable {σ α β : Type} {store : Store σ}

/-- A run that writes to some of the given paths only, in their order and to each listed one at
most once. -/
def Run.WritesInOrder (paths : List Path) (run : Run (Recorded σ) α) : Prop :=
  ∀ world, ∃ more, (run.runFrom world).2.store.written = world.store.written ++ more ∧
    (more.map Prod.fst).Sublist paths

namespace Run.WritesInOrder

variable {first second : List Path}

/-- A run that writes nothing. -/
theorem of_writesOnly {run : Run (Recorded σ) α} (h : run.WritesOnly store.recorded []) :
    run.WritesInOrder [] := by
  intro world
  refine ⟨[], ?_, List.Sublist.refl _⟩
  have hreached := h world
  generalize (run.runFrom world).2.store = after at hreached
  rw [List.append_nil]
  induction hreached with
  | start => rfl
  | read path _ ih => exact ih
  | write text hpath _ _ => exact absurd hpath List.not_mem_nil

/-- A result alone writes nothing. -/
theorem pure (result : α) : (Pure.pure result : Run (Recorded σ) α).WritesInOrder [] :=
  fun _ => ⟨[], (List.append_nil _).symm, List.Sublist.refl _⟩

/-- A write is recorded once, if it is done. -/
theorem write (path : Path) (text : Text) :
    (Run.write store.recorded path text).WritesInOrder [path] := by
  intro world
  change ∃ more, world.store.add path text (store.write path text world.store.state).answer = _ ∧ _
  cases (store.write path text world.store.state).answer with
  | ok _ => exact ⟨[(path, text)], rfl, List.Sublist.refl _⟩
  | error _ => exact ⟨[], (List.append_nil _).symm, List.nil_sublist _⟩

/-- Two runs one after the other. -/
theorem bind {run : Run (Recorded σ) α} {next : α → Run (Recorded σ) β}
    (h : run.WritesInOrder first) (hnext : ∀ result, (next result).WritesInOrder second) :
    (run >>= next).WritesInOrder (first ++ second) := by
  intro world
  obtain ⟨more, hmore, hsublist⟩ := h world
  rw [runFrom_bind]
  rcases hrun : run.runFrom world with ⟨failure | result, after⟩
  · rw [hrun] at hmore
    exact ⟨more, hmore, hsublist.trans (List.sublist_append_left first second)⟩
  · rw [hrun] at hmore
    obtain ⟨last, hlast, hsublist'⟩ := hnext result after
    refine ⟨more ++ last, ?_, ?_⟩
    · rw [hlast, hmore, List.append_assoc]
    · rw [List.map_append]
      exact hsublist.append hsublist'

/-- A run after one that writes nothing. -/
theorem of_bind {run : Run (Recorded σ) α} {next : α → Run (Recorded σ) β}
    (h : run.WritesOnly store.recorded []) (hnext : ∀ result, (next result).WritesInOrder second) :
    (run >>= next).WritesInOrder second := (of_writesOnly h).bind hnext

/-- A run whose result is put together from that of another one. -/
theorem bind_pure {run : Run (Recorded σ) α} (h : run.WritesInOrder first) (function : α → β) :
    (run >>= fun result => Pure.pure (function result)).WritesInOrder first := by
  have hbind := h.bind fun result => pure (function result)
  rwa [List.append_nil] at hbind

end Run.WritesInOrder

section Recording

variable (store) (registry : Registry) (options : RunOptions)

/-- An update writes its file once. -/
theorem writesInOrder_applyUpdates (path : Path) (updates : Table Text Text)
    (schema : List Definition) :
    (applyUpdates store.recorded path updates schema).WritesInOrder [path] := by
  refine .of_bind (writesOnly_readValuesFile store.recorded [] path) fun file => ?_
  dsimp only
  split
  · exact fun world => ⟨[], (List.append_nil _).symm, List.nil_sublist _⟩
  · exact (Run.WritesInOrder.write path _).bind_pure fun _ => _

/-- Reconciling a workspace writes its values file once. -/
theorem writesInOrder_reconcileAndWrite (writing : Bool) (workspace : Workspace) :
    (reconcileAndWrite store.recorded registry options writing workspace).WritesInOrder
      [workspace.valuesPath] := by
  refine .of_bind (writesOnly_reconcileWorkspace store.recorded registry options workspace none
    [] []) fun reconciliation => ?_
  split
  · exact fun world => ⟨[], (List.append_nil _).symm, List.nil_sublist _⟩
  · refine .of_bind (writesOnly_workspaceSchema store.recorded _ [] _ _) fun schema => ?_
    exact (writesInOrder_applyUpdates store _ _ _).bind_pure _

/-- Reconciling workspaces writes the values file of each once, in their order. -/
theorem writesInOrder_reconcileFrom (writing : Bool) (report : ReconcileReport)
    (workspaces : List Workspace) :
    (reconcileFrom store.recorded registry options writing report workspaces).WritesInOrder
      (workspaces.map Workspace.valuesPath) := by
  induction workspaces generalizing report with
  | nil => exact .pure _
  | cons workspace rest ih =>
    exact (writesInOrder_reconcileAndWrite store registry options writing workspace).bind
      fun _ => ih _

/-- A recorded pass does what the pass does. -/
theorem exists_recorded_reconcileAll (writing : Bool) (workspaces : List Workspace)
    (world : World σ) :
    ∃ recorded desk,
      (reconcileAll store.recorded registry options workspaces writing).runFrom
          ⟨⟨world.store, []⟩, world.desk⟩ =
        (((reconcileAll store registry options workspaces writing).runFrom world).1,
          ⟨recorded, desk⟩) ∧
      recorded.state =
        ((reconcileAll store registry options workspaces writing).runFrom world).2.store ∧
      (recorded.written.map Prod.fst).Sublist (workspaces.map Workspace.valuesPath) := by
  have hagree := ((shadows_recorded store).inStep_reconcileFrom registry options writing {}
    workspaces).agree ⟨⟨world.store, []⟩, world.desk⟩ world ⟨rfl, .refl _⟩
  obtain ⟨more, hmore, hsublist⟩ := writesInOrder_reconcileFrom store registry options writing {}
    workspaces ⟨⟨world.store, []⟩, world.desk⟩
  rcases hrun : (reconcileFrom store.recorded registry options writing {} workspaces).runFrom
    ⟨⟨world.store, []⟩, world.desk⟩ with ⟨outcome, recorded, desk⟩
  rw [hrun] at hagree hmore
  rcases hagree with ⟨houtcome, hstore, -⟩ | ⟨failure, -, hfalse, -⟩
  · refine ⟨recorded, desk, ?_, hstore, ?_⟩
    · exact hrun.trans (congrArg (·, _) houtcome)
    · rw [show recorded.written = more from hmore]
      exact hsublist
  · exact hfalse.elim

end Recording

section Stopping

variable (store) (registry : Registry) (options : RunOptions) (writing : Bool)

/-- Some workspaces are reconciled after others. -/
theorem reconcileFrom_append (report : ReconcileReport) (earlier later : List Workspace) :
    reconcileFrom store registry options writing report (earlier ++ later) =
      reconcileFrom store registry options writing report earlier >>= fun report =>
        reconcileFrom store registry options writing report later := by
  induction earlier generalizing report with
  | nil => rfl
  | cons workspace rest ih =>
    rw [List.cons_append, reconcileFrom, reconcileFrom, bind_assoc]
    exact bind_congr fun result => ih _

/-- A pass fails as soon as a workspace cannot be reconciled. -/
theorem reconcileFrom_eq_error {earlier later : List Workspace} {workspace : Workspace}
    {first report : ReconcileReport} {world middle after : World σ} {failure : Failure}
    (hearlier : (reconcileFrom store registry options writing first earlier).runFrom world =
      (.ok report, middle))
    (hworkspace : (reconcileAndWrite store registry options writing workspace).runFrom middle =
      (.error failure, after)) :
    (reconcileFrom store registry options writing first
      (earlier ++ workspace :: later)).runFrom world = (.error failure, after) := by
  rw [reconcileFrom_append, runFrom_bind, hearlier]
  change (reconcileFrom store registry options writing report (workspace :: later)).runFrom middle
    = _
  rw [reconcileFrom, runFrom_bind, hworkspace]

/-- A pass that fails does so at one of its workspaces, after those before it. -/
theorem exists_of_reconcileFrom_eq_error {workspaces : List Workspace} {first : ReconcileReport}
    {world after : World σ} {failure : Failure}
    (hrun : (reconcileFrom store registry options writing first workspaces).runFrom world =
      (.error failure, after)) :
    ∃ earlier workspace later report middle, workspaces = earlier ++ workspace :: later ∧
      (reconcileFrom store registry options writing first earlier).runFrom world =
        (.ok report, middle) ∧
      (reconcileAndWrite store registry options writing workspace).runFrom middle =
        (.error failure, after) := by
  induction workspaces generalizing first world with
  | nil => cases hrun
  | cons workspace rest ih =>
    rw [reconcileFrom, runFrom_bind] at hrun
    rcases hworkspace : (reconcileAndWrite store registry options writing workspace).runFrom world
      with ⟨other | result, next⟩
    · rw [hworkspace] at hrun
      cases hrun
      exact ⟨[], workspace, rest, first, world, rfl, rfl, hworkspace⟩
    · rw [hworkspace] at hrun
      obtain ⟨earlier, stopped, later, report, middle, rfl, hearlier, hstopped⟩ := ih hrun
      refine ⟨workspace :: earlier, stopped, later, report, middle, rfl, ?_, hstopped⟩
      rw [reconcileFrom, runFrom_bind, hworkspace]
      exact hearlier

/-- A workspace whose variables cannot be resolved is not reconciled. -/
theorem reconcileAndWrite_eq_error {workspace : Workspace} {middle after : World σ}
    {failure : Failure}
    (h : (reconcileWorkspace store registry options workspace).runFrom middle =
      (.error failure, after)) :
    (reconcileAndWrite store registry options writing workspace).runFrom middle =
      (.error failure, after) := by
  rw [reconcileAndWrite, runFrom_bind, h]

variable {store}

/-- A run that writes nothing leaves all files as they were. -/
theorem Run.WritesOnly.endsIn_unwritten {run : Run σ α} (h : run.WritesOnly store [])
    (view : StoreView store) {world : World σ} (hvalid : view.valid world.store) :
    run.EndsIn world
      (fun _ after => view.valid after.store ∧ view.files after.store = view.files world.store)
      fun _ after => view.valid after.store ∧ view.files after.store = view.files world.store := by
  have hafter := view.files_of_reached hvalid (h world)
  rw [EndsIn]
  rcases hrun : run.runFrom world with ⟨failure | result, after⟩ <;> rwa [hrun] at hafter

/-- A workspace that cannot be reconciled leaves all files as they were. -/
theorem endsIn_reconcileAndWrite_failed (view : StoreView store) {workspace : Workspace}
    (hcovers : view.covers workspace.valuesPath) {world : World σ}
    (hvalid : view.valid world.store) :
    (reconcileAndWrite store registry options writing workspace).EndsIn world (fun _ _ => True)
      fun _ after => ∀ path, view.covers path →
        view.files after.store path = view.files world.store path := by
  rw [reconcileAndWrite, endsIn_bind]
  refine ((writesOnly_reconcileWorkspace store registry options workspace none [] [])
    |>.endsIn_unwritten view hvalid).mono (fun reconciliation resolved hresolved => ?_)
    fun _ after hafter path _ => congrFun hafter.2 path
  split
  · trivial
  · rw [endsIn_bind]
    refine ((writesOnly_workspaceSchema store _ [] _ _).endsIn_unwritten view hresolved.1).mono
      (fun schema read hread => ?_)
      fun _ after hafter path _ => congrFun (hafter.2.trans hresolved.2) path
    have hunchanged {after : World σ} (h : view.Unchanged read after) (path : Path)
        (hpath : view.covers path) : view.files after.store path = view.files world.store path :=
      (h.files path hpath).trans (congrFun (hread.2.trans hresolved.2) path)
    rw [endsIn_bind]
    refine endsIn_applyUpdates hread.1 hcovers (fun _ after _ hafter => ?_) (fun _ _ _ _ _ => trivial)
      (fun _ _ _ _ _ => trivial) fun _ _ _ _ after _ _ _ _ hafter => ?_
    · exact hunchanged hafter.unchanged
    · exact hunchanged hafter

/-- A pass stopped at a workspace. Every file reads as reconciling the workspaces before it alone
leaves it, and every file but theirs as before the pass. -/
structure StoreView.StoppedAt (view : StoreView store) (world : World σ)
    (earlier : List Workspace) (workspace : Workspace) (later : List Workspace)
    (middle after : World σ) : Prop where
  files_eq_middle : ∀ path, view.covers path →
    view.files after.store path = view.files middle.store path
  files_eq_before : ∀ path, view.covers path →
    (∀ other ∈ earlier, ¬ view.sameFile other.valuesPath path) →
      view.files after.store path = view.files world.store path
  files_remaining : ∀ other ∈ workspace :: later,
    view.files after.store other.valuesPath = view.files world.store other.valuesPath

variable {registry options writing} in
/-- Where a workspace cannot be reconciled, the pass is stopped at it. -/
theorem StoreView.stoppedAt (view : StoreView store) {earlier later : List Workspace}
    {workspace : Workspace} {report : ReconcileReport} {world middle after : World σ}
    {failure : Failure} (hvalid : view.valid world.store)
    (hcovers : ∀ other ∈ earlier ++ workspace :: later, view.covers other.valuesPath)
    (hdistinct : (earlier ++ workspace :: later).Pairwise fun first second =>
      ¬ view.sameFile first.valuesPath second.valuesPath)
    (hearlier : (reconcileAll store registry options earlier writing).runFrom world =
      (.ok report, middle))
    (hworkspace : (reconcileAndWrite store registry options writing workspace).runFrom middle =
      (.error failure, after)) :
    view.StoppedAt world earlier workspace later middle after := by
  have hreached := writesOnly_reconcileAll store registry options earlier writing world
  rw [hearlier] at hreached
  have hpaths : ∀ path ∈ earlier.map Workspace.valuesPath, view.covers path := by
    intro path hpath
    obtain ⟨other, hother, rfl⟩ := List.mem_map.mp hpath
    exact hcovers other (List.mem_append_left _ hother)
  have hmiddle := (endsIn_reconcileAndWrite_failed registry options writing view
    (hcovers workspace (List.mem_append_right _ (List.mem_cons_self ..)))
    (view.valid_of_reached hpaths hvalid hreached)).of_runFrom_error hworkspace
  have hbefore (path : Path) (hpath : view.covers path)
      (hne : ∀ other ∈ earlier, ¬ view.sameFile other.valuesPath path) :
      view.files after.store path = view.files world.store path := by
    refine (hmiddle path hpath).trans
      (view.files_of_reached_of_not_sameFile hpaths hvalid hreached hpath fun target htarget => ?_)
    obtain ⟨other, hother, rfl⟩ := List.mem_map.mp htarget
    exact hne other hother
  refine ⟨hmiddle, hbefore, fun other hother => ?_⟩
  exact hbefore _ (hcovers other (List.mem_append_right _ hother)) fun first hfirst =>
    (List.pairwise_append.mp hdistinct).2.2 first hfirst other hother

end Stopping

section Syncing

variable (store) (registry : Registry) (options : RunOptions)

/-- What a sync has read when its shared variables are resolved. -/
structure SharedReading where
  rootSchema : Schema
  sharedValues : Table Text Text
  members : List Member
  /-- The pass over the shared variables, unless there are none. -/
  pass : Option SharedPass

/-- A sync up to where its shared variables are resolved. -/
def resolveSharedIn (first : Workspace) (workspaces population : List Workspace) :
    Run σ SharedReading := do
  Run.atDesk (registry.beforeSync workspaces)
  let rootSchema ← readExampleFile store registry.patterns options.rootExample
  let held ← readAllValues store (population.map Workspace.valuesPath)
  let members ← readMembers store registry.patterns options.rootExample workspaces
  let sharedValues := canonicalValues rootSchema.names held
  if rootSchema.definitions.isEmpty then return ⟨rootSchema, sharedValues, members, none⟩
  else
    let pass ← resolveShared store registry options first members rootSchema.definitions
    return ⟨rootSchema, sharedValues, members, some pass⟩

/-- The rest of a sync: shared values are distributed and the members are synced. -/
def distributeIn (reading : SharedReading) : Run σ SyncReport := do
  let report ← match reading.pass with
    | none => pure {}
    | some pass => do
      let values := pass.values reading.rootSchema.names
      fillFile store options.rootValues values reading.rootSchema.definitions
      fillMembers store registry options values reading.members
      pure pass.report
  let report ← syncMembers store registry options reading.sharedValues reading.rootSchema.names
    report reading.members
  Run.atDesk (registry.afterSync report.results)
  return report

/-- A sync resolves its shared variables before all else. -/
theorem syncIn_cons (first : Workspace) (rest population : List Workspace) :
    syncIn store registry options (first :: rest) population =
      resolveSharedIn store registry options first (first :: rest) population >>=
        distributeIn store registry options := by
  simp only [syncIn, resolveSharedIn, bind_assoc]
  refine bind_congr fun _ => bind_congr fun rootSchema => bind_congr fun held =>
    bind_congr fun members => ?_
  rw [syncShared]
  split
  · simp only [distributeIn, pure_bind]
  · simp only [distributeIn, bind_assoc, pure_bind]

/-- Resolving the shared variables writes nothing. -/
theorem writesOnly_resolveSharedIn (first : Workspace) (workspaces population : List Workspace) :
    (resolveSharedIn store registry options first workspaces population).WritesOnly store [] := by
  refine (Run.WritesOnly.atDesk _).bind fun _ =>
    (writesOnly_readExampleFile store _ _ _).bind fun rootSchema =>
      (writesOnly_readAllValues store _ _).bind fun held =>
        (writesOnly_readMembers store _ _ _ _).bind fun members => ?_
  dsimp only
  split
  · exact .pure _
  · have hresolve : (resolveShared store registry options first members
        rootSchema.definitions).WritesOnly store [] :=
      (writesOnly_readAllValues store [] _).bind fun _ =>
        (Run.WritesOnly.atDesk _).bind fun _ => .pure _
    exact hresolve.bind fun _ => .pure _

end Syncing

/-- A failing pass is atomic per workspace. For every store in which reading a file back gives what
was last written, every registry and every list of replies:

* a workspace that cannot be resolved after those before it were reconciled stops the pass, with
  nothing written after those; the files read as reconciling those before it alone leaves them,
  and all files but theirs as before the pass;
* a pass that fails is one that was stopped like this at one of its workspaces;
* on the recorded store, which does the same, each values file is written once at most;
* a sync that fails before its shared variables are resolved has written nothing, and neither has
  a rehearsed one, wherever it ends. -/
theorem reconcileAll_atomic (view : StoreView store) (registry : Registry) (options : RunOptions)
    (writing : Bool) (workspaces : List Workspace) (world : World σ)
    (hvalid : view.valid world.store)
    (hcovers : ∀ workspace ∈ workspaces, view.covers workspace.valuesPath)
    (hdistinct : workspaces.Pairwise fun first second =>
      ¬ view.sameFile first.valuesPath second.valuesPath) :
    (∀ earlier workspace later report middle failure after,
      workspaces = earlier ++ workspace :: later →
      (reconcileAll store registry options earlier writing).runFrom world = (.ok report, middle) →
      (reconcileWorkspace store registry options workspace).runFrom middle =
        (.error failure, after) →
        (reconcileAll store registry options workspaces writing).runFrom world =
          (.error failure, after) ∧
        store.Reached [] middle.store after.store ∧
        view.StoppedAt world earlier workspace later middle after) ∧
    (∀ failure after, (reconcileAll store registry options workspaces writing).runFrom world =
      (.error failure, after) →
        ∃ earlier workspace later report middle, workspaces = earlier ++ workspace :: later ∧
          (reconcileAll store registry options earlier writing).runFrom world =
            (.ok report, middle) ∧
          (reconcileAndWrite store registry options writing workspace).runFrom middle =
            (.error failure, after) ∧
          view.StoppedAt world earlier workspace later middle after) ∧
    (∃ recorded desk,
      (reconcileAll store.recorded registry options workspaces writing).runFrom
          ⟨⟨world.store, []⟩, world.desk⟩ =
        (((reconcileAll store registry options workspaces writing).runFrom world).1,
          ⟨recorded, desk⟩) ∧
      recorded.state =
        ((reconcileAll store registry options workspaces writing).runFrom world).2.store ∧
      (recorded.written.map Prod.fst).Pairwise fun first second =>
        ¬ view.sameFile first second) ∧
    ∀ first rest population,
      (∀ failure after, (resolveSharedIn store registry options first (first :: rest)
          (population.getD (first :: rest))).runFrom world = (.error failure, after) →
        (sync store registry options (first :: rest) population).runFrom world =
          (.error failure, after) ∧
        store.Reached [] world.store after.store ∧
        view.files after.store = view.files world.store) ∧
      store.Reached [] world.store
        ((sync store registry options (first :: rest) population true).runFrom world).2.store := by
  refine ⟨fun earlier workspace later report middle failure after heq hearlier hresolving => ?_,
    fun failure after hrun => ?_, ?_, fun first rest population => ⟨fun failure after hrun => ?_, ?_⟩⟩
  · subst heq
    have hworkspace := reconcileAndWrite_eq_error store registry options writing hresolving
    have hreached : store.Reached [] middle.store
        ((reconcileWorkspace store registry options workspace).runFrom middle).2.store :=
      writesOnly_reconcileWorkspace store registry options workspace none [] [] middle
    rw [hresolving] at hreached
    exact ⟨reconcileFrom_eq_error store registry options writing hearlier hworkspace, hreached,
      view.stoppedAt hvalid hcovers hdistinct hearlier hworkspace⟩
  · obtain ⟨earlier, workspace, later, report, middle, rfl, hearlier, hworkspace⟩ :=
      exists_of_reconcileFrom_eq_error store registry options writing hrun
    exact ⟨earlier, workspace, later, report, middle, rfl, hearlier, hworkspace,
      view.stoppedAt hvalid hcovers hdistinct hearlier hworkspace⟩
  · obtain ⟨recorded, desk, hrun, hstate, hsublist⟩ :=
      exists_recorded_reconcileAll store registry options writing workspaces world
    exact ⟨recorded, desk, hrun, hstate, (List.pairwise_map.mpr hdistinct).sublist hsublist⟩
  · have hreached := writesOnly_resolveSharedIn store registry options first (first :: rest)
      (population.getD (first :: rest)) world
    rw [hrun] at hreached
    refine ⟨?_, hreached, (view.files_of_reached hvalid hreached).2⟩
    change (syncIn store registry options (first :: rest) _).runFrom world = _
    rw [syncIn_cons, runFrom_bind, hrun]
  · exact writesOnly_rehearsedSync store registry options (first :: rest) population world

section Stopped

/-- Three workspaces, the first two of which ask for a value, and one reply. -/
def shortScriptWorld : World (Table Path Text) where
  store := [(["a", ".env.local.example"], "# [prompt]\nX=\n"),
    (["b", ".env.local.example"], "# [prompt]\nY=\n"), (["c", ".env.local.example"], "Z=3\n"),
    (["c", ".env.local"], "Q=4\n")]
  desk := { replies := ["1"] }

/-- A root that asks for a value, and no reply. -/
def noScriptWorld : World (Table Path Text) where
  store := [([".env.local.example"], "# [prompt]\nX=\n")]

/-- The second workspace finds no reply left: the first one is written, the others are not. A sync
whose shared variable finds none leaves all files as they were. -/
theorem reconcileAll_atomic_outOfReplies :
    let options : RunOptions := { interactive := true }
    let workspaces := [workspaceAt {} ["a"], workspaceAt {} ["b"], workspaceAt {} ["c"]]
    workspaces.Pairwise (fun first second =>
        ¬ memoryView.sameFile first.valuesPath second.valuesPath) ∧
      (∃ middle after : World (Table Path Text),
        (reconcileAll memoryStore {} options workspaces).runFrom shortScriptWorld =
          (.error .outOfReplies, after) ∧
        memoryStore.Reached [] middle.store after.store ∧
        memoryView.files after.store ["a", ".env.local"] = .ok (some "X=1\n") ∧
        memoryView.files after.store ["b", ".env.local"] = .ok none ∧
        memoryView.files after.store ["c", ".env.local"] = .ok (some "Q=4\n")) ∧
      ∃ after : World (Table Path Text),
        (sync memoryStore {} options workspaces).runFrom noScriptWorld =
          (.error .outOfReplies, after) ∧
        memoryView.files after.store = memoryView.files noScriptWorld.store := by
  intro options workspaces
  have hdistinct : workspaces.Pairwise fun first second =>
      ¬ memoryView.sameFile first.valuesPath second.valuesPath := by
    have hne : workspaces.Pairwise fun first second => first.valuesPath ≠ second.valuesPath := by
      decide
    exact hne
  refine ⟨hdistinct, ?_, ?_⟩
  · obtain ⟨hstops, -⟩ := reconcileAll_atomic memoryView {} options true workspaces
      shortScriptWorld trivial (fun _ _ => trivial) hdistinct
    have hearlier : ((reconcileAll memoryStore {} options
        [workspaceAt {} ["a"]]).runFrom shortScriptWorld).1.isOk = true := by decide +kernel
    have hmiddle : memoryView.files ((reconcileAll memoryStore {} options
        [workspaceAt {} ["a"]]).runFrom shortScriptWorld).2.store ["a", ".env.local"] =
          .ok (some "X=1\n") := by decide +kernel
    have hfails : ((reconcileWorkspace memoryStore {} options (workspaceAt {} ["b"])).runFrom
        ((reconcileAll memoryStore {} options [workspaceAt {} ["a"]]).runFrom
          shortScriptWorld).2).1.map (fun _ => ()) = .error .outOfReplies := by decide +kernel
    rcases hrun : (reconcileAll memoryStore {} options
        [workspaceAt {} ["a"]]).runFrom shortScriptWorld with ⟨failure | report, middle⟩
    · rw [hrun] at hearlier
      cases hearlier
    · rw [hrun] at hmiddle hfails
      rcases hresolving : (reconcileWorkspace memoryStore {} options
        (workspaceAt {} ["b"])).runFrom middle with ⟨failure | reconciliation, after⟩
      · rw [hresolving] at hfails
        obtain rfl : failure = .outOfReplies := Except.error.inj hfails
        obtain ⟨hfailed, hreached, hstopped⟩ := hstops [workspaceAt {} ["a"]] (workspaceAt {} ["b"])
          [workspaceAt {} ["c"]] report middle _ after rfl hrun hresolving
        exact ⟨middle, after, hfailed, hreached,
          (hstopped.files_eq_middle _ trivial).trans hmiddle,
          hstopped.files_remaining (workspaceAt {} ["b"]) (by decide),
          hstopped.files_remaining (workspaceAt {} ["c"]) (by decide)⟩
      · rw [hresolving] at hfails
        cases hfails
  · obtain ⟨-, -, -, hsync⟩ := reconcileAll_atomic memoryView {} options true []
      noScriptWorld trivial (fun _ _ => trivial) .nil
    have hfails : ((resolveSharedIn memoryStore {} options (workspaceAt {} ["a"]) workspaces
        workspaces).runFrom noScriptWorld).1.map (fun _ => ()) = .error .outOfReplies := by
      decide +kernel
    rcases hrun : (resolveSharedIn memoryStore {} options (workspaceAt {} ["a"]) workspaces
      workspaces).runFrom noScriptWorld with ⟨failure | reading, after⟩
    · rw [hrun] at hfails
      obtain rfl : failure = .outOfReplies := Except.error.inj hfails
      obtain ⟨hfailed, -, hfiles⟩ := (hsync (workspaceAt {} ["a"])
        ([workspaceAt {} ["b"], workspaceAt {} ["c"]]) none).1 _ after hrun
      exact ⟨after, hfailed, hfiles⟩
    · rw [hrun] at hfails
      cases hfails

end Stopped
end EnvFiles
