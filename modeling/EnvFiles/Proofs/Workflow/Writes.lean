import EnvFiles.Proofs.Store.View
import EnvFiles.Proofs.Workflow.Advancing

/-!
# Which files a run writes

A run writes values files only, and of those the one it updates. A sync writes the root's values
file and those of the workspaces it was given, whatever the store, the plugins and the replies do
and wherever it stops; a rehearsed sync writes nothing.
-/

namespace EnvFiles

variable {σ : Type} (store : Store σ) (registry : Registry) (options : RunOptions)

/-- Reads, and writes to given paths. -/
def writesTo (targets : List Path) : Attempt.Advance (World σ) where
  made before after := store.Reached targets before.store after.store
  refl _ := .start
  trans h h' := h.trans h'

/-- These are allowed then. -/
theorem allows_writesTo (targets : List Path) :
    (writesTo store targets).Allows store (· ∈ targets) where
  read path _ := .read path .start
  write _ hpath text _ := .write text hpath .start

section Reading

variable (patterns : List DirectivePattern) (targets : List Path)

/-- Reading an example file writes nothing. -/
theorem writesOnly_readExampleFile (path : Path) :
    (readExampleFile store patterns path).WritesOnly store targets :=
  (allows_writesTo store targets).readExampleFile patterns path

/-- Reading a values file writes nothing. -/
theorem writesOnly_readValuesFile (path : Path) :
    (readValuesFile store path).WritesOnly store targets :=
  (allows_writesTo store targets).readValuesFile path

/-- Reading the effective schema of a workspace writes nothing. -/
theorem writesOnly_workspaceSchema (rootExample : Path) (workspace : Workspace) :
    (workspaceSchema store patterns rootExample workspace).WritesOnly store targets :=
  (allows_writesTo store targets).workspaceSchema patterns rootExample workspace

/-- Reading several values files writes nothing. -/
theorem writesOnly_readAllValues (paths : List Path) :
    (readAllValues store paths).WritesOnly store targets :=
  (allows_writesTo store targets).readAllValues paths

/-- Reading the names that workspaces own writes nothing. -/
theorem writesOnly_readMembers (rootExample : Path) (workspaces : List Workspace) :
    (readMembers store patterns rootExample workspaces).WritesOnly store targets :=
  (allows_writesTo store targets).readMembers patterns rootExample workspaces

end Reading

section Updating

variable {targets : List Path}

/-- An update writes its file. -/
theorem writesOnly_applyUpdates {path : Path} (hpath : path ∈ targets)
    (updates : Table Text Text) (schema : List Definition) :
    (applyUpdates store path updates schema).WritesOnly store targets :=
  (allows_writesTo store targets).applyUpdates hpath updates schema

/-- Filling a file writes it. -/
theorem writesOnly_fillFile {path : Path} (hpath : path ∈ targets) (values : Table Text Text)
    (schema : List Definition) : (fillFile store path values schema).WritesOnly store targets :=
  (allows_writesTo store targets).fillFile hpath values schema

/-- Resolving the variables of a workspace writes nothing. -/
theorem writesOnly_reconcileWorkspace (workspace : Workspace)
    (sharedValues : Option (Table Text Text)) (sharedNames leftOut : List Text) :
    (reconcileWorkspace store registry options workspace sharedValues sharedNames
      leftOut).WritesOnly store targets :=
  (writesOnly_workspaceSchema store _ targets _ _).bind fun _ =>
    (writesOnly_readValuesFile store targets _).bind fun _ =>
      (Run.WritesOnly.atDesk _).bind fun _ => .pure _

/-- Reconciling a workspace writes its values file. -/
theorem writesOnly_reconcileAndWrite (writing : Bool) {workspace : Workspace}
    (hpath : workspace.valuesPath ∈ targets) :
    (reconcileAndWrite store registry options writing workspace).WritesOnly store targets := by
  refine (writesOnly_reconcileWorkspace store registry options workspace none [] []).bind
    fun reconciliation => ?_
  split
  · exact .pure _
  · exact (writesOnly_workspaceSchema store _ targets _ _).bind fun _ =>
      (writesOnly_applyUpdates store hpath _ _).bind fun _ => .pure _

/-- Reconciling workspaces writes their values files. -/
theorem writesOnly_reconcileFrom (writing : Bool) (report : ReconcileReport)
    {workspaces : List Workspace}
    (hpaths : ∀ workspace ∈ workspaces, workspace.valuesPath ∈ targets) :
    (reconcileFrom store registry options writing report workspaces).WritesOnly store targets := by
  induction workspaces generalizing report with
  | nil => exact .pure _
  | cons workspace rest ih =>
    refine (writesOnly_reconcileAndWrite store registry options writing
      (hpaths workspace (List.mem_cons_self ..))).bind fun result => ?_
    exact ih _ fun other hother => hpaths other (List.mem_cons_of_mem _ hother)

/-- A reconciliation of all workspaces writes their values files only. -/
theorem writesOnly_reconcileAll (workspaces : List Workspace) (writing : Bool) :
    (reconcileAll store registry options workspaces writing).WritesOnly store
      (workspaces.map Workspace.valuesPath) :=
  writesOnly_reconcileFrom store registry options writing {}
    fun _ hworkspace => List.mem_map_of_mem hworkspace

end Updating

section Syncing

variable {targets : List Path} {members : List Member}

/-- Distributing shared values writes the values files of the members. -/
theorem writesOnly_fillMembers (values : Table Text Text)
    (hpaths : ∀ member ∈ members, member.workspace.valuesPath ∈ targets) :
    (fillMembers store registry options values members).WritesOnly store targets :=
  (allows_writesTo store targets).fillMembers registry options values hpaths

/-- The shared pass writes the values files of the root and of the members. -/
theorem writesOnly_syncShared (first : Workspace) (rootSchema : Schema)
    (hroot : options.rootValues ∈ targets)
    (hpaths : ∀ member ∈ members, member.workspace.valuesPath ∈ targets) :
    (syncShared store registry options first members rootSchema).WritesOnly store targets := by
  rw [syncShared]
  split
  · exact .pure _
  · have hresolve : (resolveShared store registry options first members
        rootSchema.definitions).WritesOnly store targets :=
      (writesOnly_readAllValues store targets _).bind fun _ =>
        (Run.WritesOnly.atDesk _).bind fun _ => .pure _
    exact hresolve.bind fun _ => (writesOnly_fillFile store hroot _ _).bind fun _ =>
      (writesOnly_fillMembers store registry options _ hpaths).bind fun _ => .pure _

/-- Syncing a member writes its values file. -/
theorem writesOnly_syncMember (sharedValues : Table Text Text) (sharedNames : List Text)
    (report : SyncReport) {member : Member} (hpath : member.workspace.valuesPath ∈ targets) :
    (syncMember store registry options sharedValues sharedNames report
      member).WritesOnly store targets :=
  (writesOnly_reconcileWorkspace store registry options _ _ _ _).bind fun _ =>
    (writesOnly_workspaceSchema store _ targets _ _).bind fun _ =>
      (writesOnly_applyUpdates store hpath _ _).bind
        fun _ => (writesOnly_readValuesFile store targets _).bind fun _ => .pure _

/-- Syncing members writes their values files. -/
theorem writesOnly_syncMembers (sharedValues : Table Text Text) (sharedNames : List Text)
    (report : SyncReport)
    (hpaths : ∀ member ∈ members, member.workspace.valuesPath ∈ targets) :
    (syncMembers store registry options sharedValues sharedNames report
      members).WritesOnly store targets := by
  induction members generalizing report with
  | nil => exact .pure _
  | cons member rest ih =>
    exact (writesOnly_syncMember store registry options _ _ _
      (hpaths member (List.mem_cons_self ..))).bind fun _ =>
        ih _ fun other hother => hpaths other (List.mem_cons_of_mem _ hother)

/-- The files that a sync may write: the values files of the root and of the workspaces. -/
def syncTargets (options : RunOptions) (workspaces : List Workspace) : List Path :=
  options.rootValues :: workspaces.map Workspace.valuesPath

/-- The members are the given workspaces. -/
theorem workspaces_readMembers (patterns : List DirectivePattern) (rootExample : Path)
    (workspaces : List Workspace) (world : World σ) :
    (readMembers store patterns rootExample workspaces).EndsIn world
      (fun members _ => members.map Member.workspace = workspaces) fun _ _ => True := by
  induction workspaces generalizing world with
  | nil => exact rfl
  | cons workspace rest ih =>
    have hrest (own : List Text) (world : World σ) :
        (do return ⟨workspace, own⟩ :: (← readMembers store patterns rootExample rest) :
          Run σ (List Member)).EndsIn world
          (fun members _ => members.map Member.workspace = workspace :: rest)
          fun _ _ => True := by
      rw [Attempt.endsIn_bind]
      refine (ih world).mono (fun more _ hmore => ?_) fun _ _ _ => trivial
      rw [Attempt.endsIn_pure, List.map_cons, hmore]
    rw [readMembers]
    split
    · exact hrest [] world
    · rw [Attempt.endsIn_bind]
      exact Attempt.endsIn_of_forall _ hrest fun _ _ => trivial

/-- A sync writes the values files of the root and of the workspaces. -/
theorem writesOnly_syncIn (workspaces population : List Workspace) :
    (syncIn store registry options workspaces population).WritesOnly store
      (syncTargets options workspaces) := by
  cases workspaces with
  | nil => exact .pure _
  | cons first rest =>
    refine (Run.WritesOnly.atDesk _).bind fun _ =>
      (writesOnly_readExampleFile store _ _ _).bind fun rootSchema =>
        (writesOnly_readAllValues store _ _).bind fun held =>
          (writesOnly_readMembers store _ _ _ _).bind_of
            (workspaces_readMembers store _ _ _) fun members hmembers => ?_
    have hpaths : ∀ member ∈ members,
        member.workspace.valuesPath ∈ syncTargets options (first :: rest) := by
      intro member hmember
      have hworkspace := List.mem_map_of_mem (f := Member.workspace) hmember
      rw [hmembers] at hworkspace
      exact List.mem_cons_of_mem _ (List.mem_map_of_mem hworkspace)
    exact (writesOnly_syncShared store registry options _ _ (List.mem_cons_self ..)
      hpaths).bind fun _ =>
        (writesOnly_syncMembers store registry options _ _ _ hpaths).bind fun _ =>
          (Run.WritesOnly.atDesk _).bind fun _ => .pure _

/-- A rehearsed run leaves the store behind it as its reads do. -/
theorem writesOnly_rehearse {α : Type} {run : Run (Rehearsal σ) α} {targets : List Path}
    (h : run.WritesOnly store.rehearsed targets) :
    (Run.rehearse run : Run σ (α × Table Path Text)).WritesOnly store [] := by
  intro world
  have hbase := (h ⟨⟨world.store, []⟩, world.desk⟩).base
  rw [Run.rehearse, Attempt.runFrom_ofFunction]
  exact hbase

/-- A rehearsed sync writes nothing. -/
theorem writesOnly_rehearsedSync (workspaces : List Workspace)
    (population : Option (List Workspace)) :
    (sync store registry options workspaces population true).WritesOnly store [] :=
  (writesOnly_rehearse store (writesOnly_syncIn store.rehearsed registry options workspaces
    (population.getD workspaces))).bind fun _ => .pure _

/-- A sync, rehearsed or not, writes the values files of the root and of the workspaces. -/
theorem writesOnly_sync (workspaces : List Workspace) (population : Option (List Workspace))
    (rehearsal : Bool) :
    (sync store registry options workspaces population rehearsal).WritesOnly store
      (syncTargets options workspaces) := by
  cases rehearsal with
  | true =>
    exact (writesOnly_rehearsedSync store registry options workspaces population).mono
      (List.nil_subset _)
  | false => exact writesOnly_syncIn store registry options workspaces _

end Syncing
end EnvFiles
