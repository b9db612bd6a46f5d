import EnvFiles.Proofs.Workflow.Checking
import EnvFiles.Proofs.Workflow.SyncDistributed

/-!
# A check after a sync that was fine

A sync is fine when it skipped no required variable. The shared pass counts a variable that came to
an empty value among those it skipped. A pass over a member alone does not: it writes the empty
value. So what a check can still miss after a fine sync is a required variable that a member
resolved for itself to an empty value, and nothing else.
-/

namespace EnvFiles

variable {σ : Type} {store : Store σ}

/-- Some member resolves a required variable for itself that can come to an empty value, and
afterwards its file holds the name with one. -/
def StoreView.LeavesEmpty (view : StoreView store) (registry : Registry) (options : RunOptions)
    (workspaces : List Workspace) (start after : World σ) : Prop :=
  ∃ root members,
    exampleIn registry.patterns (view.files start.store) options.rootExample = .ok root ∧
      membersIn registry.patterns (view.files start.store) options.rootExample workspaces =
        .ok members ∧
      ∃ member ∈ members, ∃ schema,
        schemaIn registry.patterns (view.files start.store) options.rootExample
            member.workspace = .ok schema ∧
          ∃ definition ∈ member.ownDefinitions root.names schema,
            definition.isRequired = true ∧ definition.mayBeEmpty = true ∧
              (valuesOf (view.files after.store member.valuesPath)).get? definition.name = some []

section Members

variable {view : StoreView store} {registry : Registry} {options : RunOptions}
  {workspaces : List Workspace} {root : Schema} {members : List Member} {member : Member}
  {schema : List Definition} {definition : Definition} {values : Table Text Text}
  {shared report : SyncReport} {start middle after : World σ}

/-- A required variable is active. -/
theorem Definition.isActive_of_isRequired (h : definition.isRequired = true) :
    definition.isActive = true := by
  rw [Definition.isRequired, decide_eq_true_eq] at h
  rw [Definition.isActive, h]
  rfl

/-- A name that is there and has no value is there with an empty one. -/
theorem get?_eq_some_nil {name : Text} (hhas : values.has name = true)
    (hfills : values.fills name = false) : values.get? name = some [] := by
  obtain ⟨value, hvalue⟩ := Table.has_iff.mp hhas
  rw [Table.fills_eq, hvalue] at hfills
  rw [hvalue]
  simpa using hfills

/-- A member does not own the name of a definition that is not resolved for it alone. -/
theorem Member.owns_eq_false {sharedNames : List Text} (hmem : definition ∈ schema)
    (h : definition ∉ member.ownDefinitions sharedNames schema) :
    member.owns definition.name = false := by
  have hshared : definition.name ∈ sharedNames ∧ member.owns definition.name = false := by
    simpa [Member.ownDefinitions, hmem] using h
  exact hshared.2

/-- After a fine sync a required variable that a member shares has a value in its file. -/
theorem StoreView.Served.fills_shared
    (h : view.Served registry options workspaces root members values shared report start middle
      after) (hprepared : view.Prepared registry options workspaces start)
    (hmembers : members.map Member.workspace = workspaces) (hok : report.ok = true)
    (hmem : member ∈ members) (hdefinition : definition ∈ root.definitions)
    (hrequired : definition.isRequired = true) (howns : member.owns definition.name = false) :
    (valuesOf (view.files after.store member.valuesPath)).fills definition.name = true := by
  have hskipped : shared.skippedRequired = [] := by
    have hprefix := h.extends_report.required
    rw [List.isEmpty_iff.mp hok] at hprefix
    exact List.prefix_nil.mp hprefix
  have htells := h.shares.tells definition hdefinition
    (Definition.isActive_of_isRequired hrequired)
  -- The shared pass would have reported the variable, had there been no value for it.
  have hvalue : values.has definition.name = true := by
    by_contra hnone
    have hcount := htells.count_required
    rw [hskipped, hrequired, Bool.eq_false_iff.mpr hnone] at hcount
    cases hcount
  exact (h.distributed hprepared hmembers hvalue).member member hmem howns

/-- After a fine sync a required variable that is resolved for a member alone has a value in its
file, or an empty one that it can come to. -/
theorem StoreView.Passed.fills_or_empty (h : view.Passed root.names member schema report after)
    (hok : report.ok = true) (hmem : definition ∈ member.ownDefinitions root.names schema)
    (hrequired : definition.isRequired = true) :
    (valuesOf (view.files after.store member.valuesPath)).fills definition.name = true ∨
      definition.mayBeEmpty = true ∧
        (valuesOf (view.files after.store member.valuesPath)).get? definition.name =
          some [] := by
  rcases h.serves definition hmem (Definition.isActive_of_isRequired hrequired) with
    hfills | ⟨hempty, hhas⟩ | hskipped
  · exact Or.inl hfills
  · cases hfills : (valuesOf (view.files after.store member.valuesPath)).fills
        definition.name with
    | true => exact Or.inl rfl
    | false => exact Or.inr ⟨hempty, get?_eq_some_nil hhas hfills⟩
  · rw [SyncReport.skippedLike, if_pos hrequired, List.isEmpty_iff.mp hok] at hskipped
    cases hskipped

/-- After a fine sync every workspace has its required variables, unless one was left empty. -/
theorem StoreView.Stages.fills_or_leavesEmpty
    (h : view.Stages registry options workspaces root members shared report start after)
    (hprepared : view.Prepared registry options workspaces start) (hok : report.ok = true)
    (hmem : member ∈ members)
    (hschema : schemaIn registry.patterns (view.files start.store) options.rootExample
      member.workspace = .ok schema) (hdefinition : definition ∈ schema)
    (hrequired : definition.isRequired = true) :
    (valuesOf (view.files after.store member.valuesPath)).fills definition.name = true ∨
      view.LeavesEmpty registry options workspaces start after := by
  obtain ⟨values, middle, hserved⟩ := h.served hprepared
  by_cases hown : definition ∈ member.ownDefinitions root.names schema
  · refine ((hserved.passed member hmem schema hschema).fills_or_empty hok hown hrequired).imp_right
      fun hempty => ?_
    exact ⟨root, members, h.root_eq, h.members_eq, member, hmem, schema, hschema, definition, hown,
      hrequired, hempty⟩
  · have howns := Member.owns_eq_false hdefinition hown
    obtain ⟨schema', hschema', hroot⟩ := exists_schemaIn_of_mem h.root_eq h.members_eq hmem
    obtain rfl := Except.ok.inj (hschema'.symm.trans hschema)
    exact Or.inl (hserved.fills_shared hprepared (workspaces_membersIn h.members_eq) hok hmem
      (hroot definition hdefinition howns) hrequired howns)

/-- After a sync the effective schema of a workspace is that of before, and its file can be read. -/
theorem StoreView.Stages.readable
    (h : view.Stages registry options workspaces root members shared report start after)
    (hprepared : view.Prepared registry options workspaces start) {workspace : Workspace}
    (hmem : workspace ∈ workspaces) :
    (schemaIn registry.patterns (view.files after.store) options.rootExample workspace =
        schemaIn registry.patterns (view.files start.store) options.rootExample workspace ∧
      ∃ schema, schemaIn registry.patterns (view.files start.store) options.rootExample workspace =
        .ok schema) ∧ ∃ text, view.files after.store workspace.valuesPath = .ok text := by
  obtain ⟨values, middle, hserved⟩ := h.served hprepared
  rw [← workspaces_membersIn h.members_eq] at hmem
  obtain ⟨member, hmember, rfl⟩ := List.mem_map.mp hmem
  obtain ⟨schema, hschema, -⟩ := exists_schemaIn_of_mem h.root_eq h.members_eq hmember
  exact ⟨⟨hserved.ongoing_after.toSteady.schemaIn_eq
    (workspaces_membersIn h.members_eq ▸ List.mem_map_of_mem hmember), schema, hschema⟩,
      (hserved.passed member hmember schema hschema).readable⟩

end Members

/-- A check after a fine sync misses only what a member left empty. Without plugins, in a tree whose
values files are tidy and none of the example files, whose literals are not blank only, and with
replies of one line: after a sync that returned without skipping a required variable, a check of the
same workspaces returns. It misses a required variable exactly when some member resolves one for
itself that can come to an empty value, and holds its name with one. -/
theorem sync_checked (view : StoreView store) (registry : Registry) (options : RunOptions)
    (workspaces : List Workspace) (population : Option (List Workspace)) (start after : World σ)
    (report : SyncReport) (hprepared : view.Prepared registry options workspaces start)
    (hrun : (sync store registry options workspaces population).runFrom start =
      (.ok report, after)) (hok : report.ok = true) :
    ∃ checked last,
      (check store registry options workspaces).runFrom after = (.ok checked, last) ∧
        (checked.ok = false ↔ view.LeavesEmpty registry options workspaces start after) := by
  rcases eq_or_ne workspaces [] with rfl | hworkspaces
  · -- Without workspaces there is nothing to check.
    refine ⟨{}, after, rfl, fun hbad => ?_, fun hempty => ?_⟩
    · cases hbad
    · obtain ⟨root, members, -, hmembers, member, hmem, -⟩ := hempty
      obtain rfl := Except.ok.inj hmembers
      cases hmem
  · obtain ⟨root, members, shared, hstages⟩ :=
      exists_stages hprepared.plugins_eq_nil hprepared.valid hworkspaces hrun
    obtain ⟨values, middle, hserved⟩ := hstages.served hprepared
    have hmembers := workspaces_membersIn hstages.members_eq
    obtain ⟨checked, last, hcheck, -, hiff⟩ := exists_check registry options workspaces
      hserved.ongoing_after.valid fun workspace hmem => by
        obtain ⟨⟨hsame, hschema⟩, htext⟩ := hstages.readable hprepared hmem
        exact ⟨hsame ▸ hschema, htext⟩
    refine ⟨checked, last, hcheck, fun hbad => ?_, fun hempty => ?_⟩
    · by_contra hnone
      refine Bool.false_ne_true (hbad.symm.trans (hiff.mpr fun workspace hmem schema hschema
        definition hdefinition hrequired => ?_))
      rw [(hstages.readable hprepared hmem).1.1] at hschema
      rw [← hmembers] at hmem
      obtain ⟨member, hmember, rfl⟩ := List.mem_map.mp hmem
      exact (hstages.fills_or_leavesEmpty hprepared hok hmember hschema hdefinition
        hrequired).resolve_right hnone
    · obtain ⟨root', members', hroot', hmembers', member, hmem, schema, hschema, definition,
        hdefinition, hrequired, -, hvalue⟩ := hempty
      have hworkspace : member.workspace ∈ workspaces :=
        workspaces_membersIn hmembers' ▸ List.mem_map_of_mem hmem
      rw [Bool.eq_false_iff]
      intro hgood
      have hfills := hiff.mp hgood member.workspace hworkspace schema
        ((hstages.readable hprepared hworkspace).1.1.trans hschema) definition
          (List.mem_filter.mp hdefinition).1 hrequired
      obtain ⟨value, hget, hne⟩ := Table.fills_iff.mp hfills
      exact hne (Option.some.inj (hget.symm.trans hvalue))

section Asked

/-- A sync in memory and a check after it, and whether each was fine. -/
def syncThenCheck (options : RunOptions) (workspaces : List Workspace) :
    Run (Table Path Text) (Bool × Bool) := do
  let report ← sync memoryStore {} options workspaces
  let checked ← check memoryStore {} options workspaces
  return (report.ok, checked.ok)

/-- A shared variable that is asked for, and one of a workspace, both required. -/
def askedWorld : World (Table Path Text) where
  store := [([".env.local.example"], "# [required] [prompt]\nA=\n"),
    (["web", ".env.local.example"], "# [required]\nB=2\n")]
  desk := { replies := ["1"] }

/-- There the sync is fine, the check after it too, and nothing is left empty. -/
theorem sync_checked_asking :
    ∃ report after checked last,
      (sync memoryStore {} { interactive := true } [dividedWorkspace]).runFrom askedWorld =
          (.ok report, after) ∧
        (check memoryStore {} { interactive := true } [dividedWorkspace]).runFrom after =
          (.ok checked, last) ∧
        (report.ok = true ∧ checked.ok = true) ∧
        ¬ memoryView.LeavesEmpty {} { interactive := true } [dividedWorkspace] askedWorld
          after := by
  have hprepared : memoryView.Prepared {} { interactive := true } [dividedWorkspace]
      askedWorld :=
    prepared_memoryView rfl (by decide) (by decide +kernel) (by decide) (by decide)
  have hboth : ((syncThenCheck { interactive := true } [dividedWorkspace]).runFrom
      askedWorld).1 = .ok (true, true) := by decide +kernel
  obtain ⟨report, after, hrun, hrest⟩ :=
    Attempt.exists_of_runFrom_bind (Attempt.runFrom_eq_of_fst hboth)
  obtain ⟨checked, last, hcheck, hresult⟩ := Attempt.exists_of_runFrom_bind hrest
  obtain ⟨hok, hchecked⟩ := Prod.mk.inj (Except.ok.inj (congrArg Prod.fst hresult))
  obtain ⟨other, _, hother, hiff⟩ := sync_checked memoryView {} { interactive := true }
    [dividedWorkspace] none askedWorld after report hprepared hrun hok
  obtain rfl := Except.ok.inj (congrArg Prod.fst (hother.symm.trans hcheck))
  refine ⟨report, after, other, last, hrun, hcheck, ⟨hok, hchecked⟩, fun hempty => ?_⟩
  exact Bool.false_ne_true ((hiff.mpr hempty).symm.trans hchecked)

/-- The values file of the second workspace is the example file of the first. -/
def crossedWorkspaces : List Workspace :=
  [⟨"api", ["api"], ["api", ".env.local.example"], ["api", ".env.local"]⟩,
    ⟨"web", ["web"], ["web", ".env.local.example"], ["api", ".env.local.example"]⟩]

/-- Whether a sync of a tree in memory and a check after it are fine. -/
def fineThenFine (workspaces : List Workspace) (files : Table Path Text)
    (replies : List Text) : Except Failure (Bool × Bool) :=
  ((syncThenCheck { interactive := !replies.isEmpty } workspaces).runFrom
    { store := files, desk := { replies } }).1

/-- A check after a fine sync can miss a required variable that has an empty example value; and,
outside the trees that are prepared for a sync, one with a blank literal, one with a reply of two
lines, one in a values file with other line ends or with another blank before the equals sign, and
one of an example file that is also a values file. -/
theorem sync_checked_missing :
    fineThenFine [dividedWorkspace]
        [(["web", ".env.local.example"], "# [required]\nX=\n")] [] = .ok (true, false) ∧
      fineThenFine [dividedWorkspace]
        [([".env.local.example"], "# [required] [default: ]\nX=\n")] [] = .ok (true, false) ∧
      fineThenFine [dividedWorkspace]
        [(["web", ".env.local.example"], "# [required] [prompt]\nX=\n")] ["a\nX="] =
          .ok (true, false) ∧
      fineThenFine [dividedWorkspace]
        [(["web", ".env.local.example"], "# [required]\nX=1\nY=2\n"),
          (["web", ".env.local"], "Y=\x0cX=1\n")] [] = .ok (true, false) ∧
      fineThenFine [dividedWorkspace]
        [(["web", ".env.local.example"], "# [required]\nX=1\n"),
          (["web", ".env.local"], "X=\nX\u00a0=\n")] [] = .ok (true, false) ∧
      fineThenFine crossedWorkspaces
        [(["web", ".env.local.example"], "# A [required] [required]\nX=1\n")] [] =
          .ok (true, false) := by
  refine ⟨?_, ?_, ?_, ?_, ?_, ?_⟩ <;> decide +kernel

end Asked
end EnvFiles
