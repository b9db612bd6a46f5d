import EnvFiles.Proofs.Workflow.Checking
import EnvFiles.Proofs.Workflow.SyncPasses
import EnvFiles.Proofs.Workflow.SyncRehearsed

/-!
# A sync reports how it leaves the workspaces

The result of a workspace is taken right after its own pass, from the schema read before the pass
wrote and the values read after it. What the later passes write are the values files of other
workspaces. So where no workspace's values file is an example file or that of another workspace,
every result still holds when the sync is done, and a check then finds the same, overrides aside. A
rehearsed sync reports in this way how its plan would leave the workspaces.
-/

namespace EnvFiles

variable {σ : Type} {store : Store σ}

/-- The comparison without what it says of overrides. -/
def Comparison.withoutOverrides (comparison : Comparison) : Comparison :=
  { comparison with overrides := [] }

section Meaning

variable {patterns : List DirectivePattern} {files : Files} {rootExample : Path}
  {sharedValues : Option (Table Text Text)} {sharedNames : List Text}

/-- Without shared values there are no overrides, and nothing else of a comparison hangs on them. -/
theorem compare_withoutOverrides (schema : List Definition) (values : Table Text Text)
    (workspace : Workspace) :
    (compare schema values workspace sharedValues sharedNames).withoutOverrides =
      compare schema values workspace := by
  have hnone : ∀ valid : List Definition, valid.filterMap (override? none [] values) = [] := by
    intro valid
    rw [List.filterMap_eq_nil_iff]
    intro definition _
    rfl
  simp only [Comparison.withoutOverrides, compare, hnone]
  rfl

/-- A check of a workspace finds what a comparison with shared values does, overrides aside. -/
theorem comparisonIn_withoutOverrides {workspace : Workspace} {result : Comparison}
    (h : comparisonIn patterns files rootExample sharedValues sharedNames workspace = .ok result) :
    comparisonIn patterns files rootExample none [] workspace = .ok result.withoutOverrides := by
  obtain ⟨schema, hschema, hfile⟩ := exists_of_bind_eq_ok h
  obtain ⟨file, hvalues, hcompared⟩ := exists_of_bind_eq_ok hfile
  obtain rfl := Except.ok.inj hcompared
  rw [comparisonIn, hschema, hvalues, compare_withoutOverrides]
  rfl

/-- So does a check of several workspaces. -/
theorem comparisonsIn_withoutOverrides {workspaces : List Workspace} {results : List Comparison}
    (h : comparisonsIn patterns files rootExample sharedValues sharedNames workspaces =
      .ok results) :
    comparisonsIn patterns files rootExample none [] workspaces =
      .ok (results.map Comparison.withoutOverrides) := by
  induction workspaces generalizing results with
  | nil =>
    obtain rfl := Except.ok.inj h
    rfl
  | cons workspace rest ih =>
    obtain ⟨first, hfirst, hrest⟩ := exists_of_bind_eq_ok h
    obtain ⟨others, hothers, hresults⟩ := exists_of_bind_eq_ok hrest
    obtain rfl := Except.ok.inj hresults
    rw [comparisonsIn, comparisonIn_withoutOverrides hfirst, ih hothers]
    rfl

end Meaning

section Passes

variable {view : StoreView store} {registry : Registry} {options : RunOptions}
  {workspaces : List Workspace} {members : List Member} {sharedValues : Table Text Text}
  {sharedNames : List Text} {report next : SyncReport} {before after : World σ}

/-- The shared pass reports no results. -/
theorem results_syncShared {first : Workspace} {root : Schema}
    (hrun : (syncShared store registry options first members root).runFrom before =
      (.ok report, after)) : report.results = [] := by
  rw [syncShared] at hrun
  split at hrun
  · cases hrun
    rfl
  · obtain ⟨pass, _, -, hrun⟩ := Attempt.exists_of_runFrom_bind hrun
    obtain ⟨_, _, -, hrun⟩ := Attempt.exists_of_runFrom_bind hrun
    obtain ⟨_, _, -, hrun⟩ := Attempt.exists_of_runFrom_bind hrun
    cases hrun
    rfl

/-- The result of a member is how it stands after its pass. The schema was read before the pass
wrote, so its values file may be none of the example files. -/
theorem exists_result_of_syncMember {member : Member} (hvalid : view.valid before.store)
    (hworkspace : member.workspace ∈ workspaces)
    (hapart : view.Apart (examplePaths options workspaces) Member.valuesPath members)
    (hmem : member ∈ members)
    (hrun : (syncMember store registry options sharedValues sharedNames report member).runFrom
      before = (.ok next, after)) :
    view.valid after.store ∧ ∃ result, next.results = report.results ++ [result] ∧
      comparisonIn registry.patterns (view.files after.store) options.rootExample
        (some sharedValues) sharedNames member.workspace = .ok result := by
  rw [syncMember] at hrun
  obtain ⟨reconciliation, resolved, hresolved, hrun⟩ := Attempt.exists_of_runFrom_bind hrun
  obtain ⟨schema, read, hread, hrun⟩ := Attempt.exists_of_runFrom_bind hrun
  obtain ⟨applied, written, hwritten, hrun⟩ := Attempt.exists_of_runFrom_bind hrun
  obtain ⟨file, last, hlast, hrun⟩ := Attempt.exists_of_runFrom_bind hrun
  cases hrun
  have hresolvedValid : view.valid resolved.store := (StoreView.unwritten_of_writesOnly
    (writesOnly_reconcileWorkspace store registry options _ _ _ _) hvalid hresolved).1
  obtain ⟨hschema, hsameRead⟩ :=
    (computes_workspaceSchema view _ _ _).of_runFrom_ok hresolvedValid hread
  have hsteady : view.Steady (examplePaths options workspaces) read written :=
    StoreView.steady_of_writesOnly (writesOnly_applyUpdates store (List.mem_singleton_self _) _ _)
      hsameRead.valid (List.forall_mem_singleton.mpr (hapart.covers member hmem))
      hapart.covers_fixed
      (List.forall_mem_singleton.mpr (hapart.not_sameFile_fixed member hmem)) hwritten
  obtain ⟨hvalues, hsameLast⟩ :=
    (computes_readValuesFile view _).of_runFrom_ok hsteady.valid hlast
  refine ⟨hsameLast.valid, _, rfl, ?_⟩
  rw [comparisonIn, hsameLast.files, hsteady.schemaIn_eq hworkspace, hsameRead.files, hschema,
    hvalues]
  rfl

/-- A member stands as before where the example files and its values file read as before. -/
theorem StoreView.Steady.comparisonIn_eq {member : Member}
    (h : view.Steady (member.valuesPath :: examplePaths options workspaces) before after)
    (hworkspace : member.workspace ∈ workspaces) :
    comparisonIn registry.patterns (view.files after.store) options.rootExample
        (some sharedValues) sharedNames member.workspace =
      comparisonIn registry.patterns (view.files before.store) options.rootExample
        (some sharedValues) sharedNames member.workspace := by
  obtain ⟨hvalues, hexample⟩ := List.forall_mem_cons.mp h.files
  have hsteady : view.Steady (examplePaths options workspaces) before after := ⟨h.valid, hexample⟩
  rw [Member.valuesPath] at hvalues
  rw [comparisonIn, comparisonIn, hsteady.schemaIn_eq hworkspace, valuesIn, valuesIn, hvalues]

/-- The results of the members are how they stand after all their passes: a later pass writes none
of the files that an earlier result was taken from. -/
theorem exists_results_of_syncMembers (hvalid : view.valid before.store)
    (hworkspaces : ∀ member ∈ members, member.workspace ∈ workspaces)
    (hapart : view.Apart (examplePaths options workspaces) Member.valuesPath members)
    (hrun : (syncMembers store registry options sharedValues sharedNames report members).runFrom
      before = (.ok next, after)) :
    view.valid after.store ∧ ∃ results, next.results = report.results ++ results ∧
      comparisonsIn registry.patterns (view.files after.store) options.rootExample
        (some sharedValues) sharedNames (members.map Member.workspace) = .ok results := by
  induction members generalizing report before with
  | nil =>
    cases hrun
    exact ⟨hvalid, [], (List.append_nil _).symm, rfl⟩
  | cons member rest ih =>
    obtain ⟨hworkspace, hrestWorkspaces⟩ := List.forall_mem_cons.mp hworkspaces
    rw [syncMembers] at hrun
    obtain ⟨middleReport, middle, hmember, hrest⟩ := Attempt.exists_of_runFrom_bind hrun
    obtain ⟨hmiddle, result, hresult, hcompared⟩ :=
      exists_result_of_syncMember hvalid hworkspace hapart (List.mem_cons_self ..) hmember
    obtain ⟨hafter, results, hresults, hcomparedRest⟩ :=
      ih hmiddle hrestWorkspaces hapart.tail hrest
    have hsteady : view.Steady (member.valuesPath :: examplePaths options workspaces) middle after :=
      hapart.steady_tail (writesOnly_syncMembers store registry options sharedValues sharedNames
        middleReport fun other hother => List.mem_map_of_mem hother) hmiddle hrest
    refine ⟨hafter, result :: results, ?_, ?_⟩
    · rw [hresults, hresult, List.append_assoc, List.singleton_append]
    · rw [List.map_cons, comparisonsIn, hcomparedRest, hsteady.comparisonIn_eq hworkspace, hcompared]
      rfl

/-- The results of a sync are how the workspaces stand after it. -/
theorem exists_comparisonsIn_of_syncIn {population : List Workspace}
    (hvalid : view.valid before.store) (hroot : view.covers options.rootValues)
    (hapart : view.Apart (examplePaths options workspaces) Workspace.valuesPath workspaces)
    (hrun : (syncIn store registry options workspaces population).runFrom before =
      (.ok report, after)) :
    view.valid after.store ∧ ∃ sharedValues sharedNames,
      comparisonsIn registry.patterns (view.files after.store) options.rootExample
        (some sharedValues) sharedNames workspaces = .ok report.results := by
  cases workspaces with
  | nil =>
    cases hrun
    exact ⟨hvalid, [], [], rfl⟩
  | cons first rest =>
    rw [syncIn] at hrun
    obtain ⟨_, told, htold, hrun⟩ := Attempt.exists_of_runFrom_bind hrun
    obtain ⟨root, second, hreadRoot, hrun⟩ := Attempt.exists_of_runFrom_bind hrun
    obtain ⟨held, third, hreadHeld, hrun⟩ := Attempt.exists_of_runFrom_bind hrun
    obtain ⟨members, fourth, hreadMembers, hrun⟩ := Attempt.exists_of_runFrom_bind hrun
    obtain ⟨shared, middle, hshared, hrun⟩ := Attempt.exists_of_runFrom_bind hrun
    obtain ⟨last, fifth, hlast, hrun⟩ := Attempt.exists_of_runFrom_bind hrun
    obtain ⟨_, sixth, htoldAfter, hrun⟩ := Attempt.exists_of_runFrom_bind hrun
    cases hrun
    obtain ⟨htoldValid, -⟩ := StoreView.unwritten_of_writesOnly (.atDesk _) hvalid htold
    obtain ⟨-, hsecond⟩ := (computes_readExampleFile view _ _).of_runFrom_ok htoldValid hreadRoot
    obtain ⟨-, hthird⟩ := (computes_readAllValues view _).of_runFrom_ok hsecond.valid hreadHeld
    obtain ⟨hmembers, hfourth⟩ :=
      (computes_readMembers view _ _ _).of_runFrom_ok hthird.valid hreadMembers
    have hworkspaces : members.map Member.workspace = first :: rest := workspaces_membersIn hmembers
    have hmapped : view.Apart (examplePaths options (first :: rest)) Workspace.valuesPath
        (members.map Member.workspace) := by rwa [hworkspaces]
    have hmembersApart : view.Apart (examplePaths options (first :: rest)) Member.valuesPath
        members := hmapped.of_map
    have hpaths : ∀ member ∈ members,
        member.workspace.valuesPath ∈ options.rootValues :: members.map Member.valuesPath :=
      fun member hmember => List.mem_cons_of_mem _ (List.mem_map_of_mem hmember)
    have hmiddle : view.Steady [] fourth middle :=
      StoreView.steady_of_writesOnly
        (writesOnly_syncShared store registry options first root (List.mem_cons_self ..) hpaths)
        hfourth.valid
        (List.forall_mem_cons.mpr ⟨hroot, List.forall_mem_map.mpr hmembersApart.covers⟩)
        (fun _ hmem => absurd hmem List.not_mem_nil)
        (fun _ _ _ hmem => absurd hmem List.not_mem_nil) hshared
    obtain ⟨hfifth, results, hresults, hcompared⟩ :=
      exists_results_of_syncMembers hmiddle.valid
        (fun member hmember => hworkspaces ▸ List.mem_map_of_mem hmember) hmembersApart hlast
    obtain ⟨hafter, hfiles⟩ := StoreView.unwritten_of_writesOnly (.atDesk _) hfifth htoldAfter
    rw [results_syncShared hshared, List.nil_append] at hresults
    rw [hworkspaces] at hcompared
    rw [hfiles, hresults]
    exact ⟨hafter, _, _, hcompared⟩

variable (view) in
/-- So a check after a sync finds what the results say, overrides aside. -/
theorem exists_check_of_syncIn {population : List Workspace}
    (hvalid : view.valid before.store) (hroot : view.covers options.rootValues)
    (hapart : view.Apart (examplePaths options workspaces) Workspace.valuesPath workspaces)
    (hrun : (syncIn store registry options workspaces population).runFrom before =
      (.ok report, after)) (desk : Desk) :
    report.results.map Comparison.workspace = workspaces ∧ ∃ checked last,
      (check store registry options workspaces).runFrom ⟨after.store, desk⟩ = (.ok checked, last) ∧
        checked.results = report.results.map Comparison.withoutOverrides := by
  obtain ⟨hafter, sharedValues, sharedNames, hcompared⟩ :=
    exists_comparisonsIn_of_syncIn hvalid hroot hapart hrun
  obtain ⟨hmeaning, -⟩ := computes_check view registry options workspaces ⟨after.store, desk⟩ hafter
  simp only [comparisonsIn_withoutOverrides hcompared] at hmeaning
  exact ⟨workspaces_comparisonsIn hcompared, _, _, Attempt.runFrom_eq_of_fst hmeaning, rfl⟩

end Passes

section Plans

/-- A rehearsal in which the given texts, and no deletes, are pending. -/
def Rehearsal.planning (base : σ) (writes : Table Path Text) : Rehearsal σ :=
  ⟨base, writes.map fun entry => (entry.1, some entry.2)⟩

/-- These texts would be written. -/
theorem Rehearsal.writes_planning (base : σ) (writes : Table Path Text) :
    (Rehearsal.planning base writes).writes = writes := by
  rw [Rehearsal.writes, Rehearsal.planning, List.filterMap_map]
  exact List.filterMap_some

/-- Reads and writes that are rehearsed plan no delete. -/
theorem Store.Reached.exists_planning {targets : List Path} {start : σ} {last : Rehearsal σ}
    (h : store.rehearsed.Reached targets ⟨start, []⟩ last) :
    ∃ writes, last = Rehearsal.planning last.base writes := by
  induction h with
  | start => exact ⟨[], rfl⟩
  | @read state path _ ih =>
    obtain ⟨writes, hstate⟩ := ih
    refine ⟨writes, ?_⟩
    simp only [Store.rehearsed]
    split
    · exact hstate
    · rw [hstate]
      rfl
  | @write state path text _ _ ih =>
    obtain ⟨writes, hstate⟩ := ih
    refine ⟨writes.put path text, ?_⟩
    rw [hstate]
    simp only [Store.rehearsed, Rehearsal.plan, Rehearsal.planning, Table.put_mapValues]

/-- Workspaces with different files have different paths, in a rehearsal as well. -/
theorem StoreView.Apart.rehearsed {ι : Type} {view : StoreView store} {fixed : List Path}
    {path : ι → Path} {items : List ι} (h : view.Apart fixed path items) :
    view.rehearsed.Apart fixed path items where
  covers _ _ := trivial
  covers_fixed _ _ := trivial
  not_sameFile_fixed item hitem other hother hsame := by
    apply h.not_sameFile_fixed item hitem other hother
    rw [show path item = other from hsame]
    exact view.sameFile_equivalence.refl _
  pairwise := by
    apply h.pairwise.imp
    intro first second hne hsame
    apply hne
    rw [show path first = path second from hsame]
    exact view.sameFile_equivalence.refl _

end Plans

/-- A sync reports how it leaves the workspaces, whatever the plugins and the replies do. Where the
values files of the workspaces are distinct and none of them is an example file: the report of a
sync that returned has one result for each workspace in order, and a check after the sync finds the
same, overrides aside. After a rehearsed sync a check that is rehearsed with what the report plans
to write does. -/
theorem sync_describes (view : StoreView store) (registry : Registry) (options : RunOptions)
    (workspaces : List Workspace) (population : Option (List Workspace)) (rehearsal : Bool)
    (start after : World σ) (report : SyncReport) (hvalid : view.valid start.store)
    (hroot : view.covers options.rootValues)
    (hapart : view.Apart (examplePaths options workspaces) Workspace.valuesPath workspaces)
    (hrun : (sync store registry options workspaces population rehearsal).runFrom start =
      (.ok report, after)) :
    report.results.map Comparison.workspace = workspaces ∧
      match rehearsal with
      | false => ∃ checked last,
          (check store registry options workspaces).runFrom after = (.ok checked, last) ∧
            checked.results = report.results.map Comparison.withoutOverrides
      | true => ∃ checked last,
          (check store.rehearsed registry options workspaces).runFrom
              ⟨Rehearsal.planning after.store report.pending, after.desk⟩ = (.ok checked, last) ∧
            checked.results = report.results.map Comparison.withoutOverrides := by
  cases rehearsal with
  | false => exact exists_check_of_syncIn view hvalid hroot hapart hrun after.desk
  | true =>
    obtain ⟨planned, dry, hdry, rfl, rfl⟩ :=
      exists_of_rehearsedSync store registry options workspaces population hrun
    have hreached := writesOnly_syncIn store.rehearsed registry options workspaces
      (population.getD workspaces) ⟨⟨start.store, []⟩, start.desk⟩
    rw [hdry] at hreached
    obtain ⟨writes, hplanned⟩ := hreached.exists_planning
    have hwrites : dry.store = Rehearsal.planning dry.store.base dry.store.writes := by
      rw [hplanned, Rehearsal.writes_planning]
      rfl
    have hstart : view.rehearsed.valid ⟨start.store, []⟩ := hvalid
    have hchecked :=
      exists_check_of_syncIn view.rehearsed hstart trivial hapart.rehearsed hdry dry.desk
    rw [hwrites] at hchecked
    exact hchecked

section Described

/-- Three workspaces with the usual files. -/
def describedWorkspaces : List Workspace :=
  ["a", "b", "c"].map fun name =>
    ⟨name, [name], [name, ".env.local.example"], [name, ".env.local"]⟩

/-- A tree in which two workspaces hold different values of a shared variable, and the one between
them declares a copy of a variable that nobody has. -/
def describedWorld : World (Table Path Text) where
  store := [([".env.local.example"], "X=\n"), (["a", ".env.local"], "X=1\n"),
    (["b", ".env.local.example"], "# [copy:Y]\nZ=\n"), (["c", ".env.local"], "X=2\n")]

/-- The names that a comparison finds valid, missing and overridden. -/
def Comparison.summary (comparison : Comparison) : List Text × List Text × List Text :=
  (comparison.valid.map Definition.name, comparison.missing.map Definition.name,
    comparison.overrides.keys)

/-- How the workspaces stand after a sync of that tree. -/
def describedSummary : List (List Text × List Text × List Text) :=
  [(["X"], [], []), (["X"], ["Z"], []), (["X"], [], ["X"])]

/-- A check after a sync of that tree finds the shared variable everywhere and the copy missing, as
the sync says, which has an override besides. -/
theorem sync_describes_differing :
    memoryView.Apart (examplePaths {} describedWorkspaces) Workspace.valuesPath
        describedWorkspaces ∧
      ∃ report after checked last,
        (sync memoryStore {} {} describedWorkspaces).runFrom describedWorld = (.ok report, after) ∧
        (check memoryStore {} {} describedWorkspaces).runFrom after = (.ok checked, last) ∧
        report.results.map Comparison.summary = describedSummary ∧
        checked.results = report.results.map Comparison.withoutOverrides := by
  have hapart : memoryView.Apart (examplePaths {} describedWorkspaces) Workspace.valuesPath
      describedWorkspaces :=
    { covers := fun _ _ => trivial
      covers_fixed := fun _ _ => trivial
      not_sameFile_fixed := by
        change ∀ workspace ∈ describedWorkspaces, ∀ path ∈ examplePaths {} describedWorkspaces,
          workspace.valuesPath ≠ path
        decide
      pairwise := by
        change describedWorkspaces.Pairwise fun first second =>
          first.valuesPath ≠ second.valuesPath
        decide }
  have hsummary : (fun report => report.results.map Comparison.summary) <$>
      ((sync memoryStore {} {} describedWorkspaces).runFrom describedWorld).1 =
        .ok describedSummary := by decide +kernel
  obtain ⟨report, after, hrun, hreported⟩ := Attempt.exists_of_map_fst hsummary
  obtain ⟨-, checked, last, hchecked, hresults⟩ := sync_describes memoryView {} {}
    describedWorkspaces none false describedWorld after report trivial trivial hapart hrun
  exact ⟨hapart, report, after, checked, last, hrun, hchecked, hreported, hresults⟩

end Described
end EnvFiles
