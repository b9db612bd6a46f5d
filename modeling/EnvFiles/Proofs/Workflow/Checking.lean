import EnvFiles.Proofs.Comparison
import EnvFiles.Proofs.Workflow.Settling
import EnvFiles.Workflow.Check

/-!
# What a check comes to

A check only reads, so its report is a function of what the paths read as. It is fine exactly when
every required variable of every effective schema has a value in the file of its workspace. The
table of names in the report lists a workspace under its name, so two results can share an entry
there; that does not matter for whether the report is fine.
-/

namespace EnvFiles

variable {σ : Type} {store : Store σ}

section Reports

/-- A table of entries is empty only if there are none. -/
theorem Table.ofEntries_eq_nil_iff {κ α : Type} [DecidableEq κ] {entries : List (κ × α)} :
    Table.ofEntries entries = [] ↔ entries = [] := by
  refine ⟨fun h => ?_, fun h => by rw [h]; rfl⟩
  rcases List.eq_nil_or_concat entries with hnil | ⟨rest, last, rfl⟩
  · exact hnil
  · rw [List.concat_eq_append, Table.ofEntries_concat] at h
    exact absurd h (upsert_ne_nil _ _ _)

/-- A check is fine when none of its results lacks a required variable. -/
theorem CheckReport.ok_iff {report : CheckReport} :
    report.ok = true ↔ ∀ result ∈ report.results, result.missingOf .required = [] := by
  rw [CheckReport.ok, List.isEmpty_iff, CheckReport.missing, CheckReport.listed,
    Table.ofEntries_eq_nil_iff, List.filterMap_eq_nil_iff]
  refine forall₂_congr fun result _ => ?_
  cases result.missingOf .required <;> simp

/-- A comparison lacks no required variable when each of them has a value. -/
theorem missingOf_required_compare_eq_nil_iff {schema : List Definition}
    {values : Table Text Text} {workspace : Workspace} {sharedValues : Option (Table Text Text)}
    {sharedNames : List Text} :
    (compare schema values workspace sharedValues sharedNames).missingOf .required = [] ↔
      ∀ definition ∈ schema, definition.isRequired = true →
        values.fills definition.name = true := by
  rw [Comparison.missingOf, missing_compare, missingFrom, List.filter_filter,
    List.filter_eq_nil_iff]
  refine forall₂_congr fun definition _ => ?_
  cases hlevel : definition.requirement <;>
    simp [Definition.isActive, Definition.isRequired, hlevel]

end Reports

section Meaning

variable (patterns : List DirectivePattern) (files : Files) (rootExample : Path)
  (sharedValues : Option (Table Text Text)) (sharedNames : List Text)

/-- How the variables of a workspace stand. -/
def comparisonIn (workspace : Workspace) : Except Failure Comparison := do
  let schema ← schemaIn patterns files rootExample workspace
  let file ← valuesIn files workspace.valuesPath
  return compare schema file.values workspace sharedValues sharedNames

/-- How the variables of several workspaces stand. -/
def comparisonsIn : List Workspace → Except Failure (List Comparison)
  | [] => return []
  | workspace :: rest => do
    let result ← comparisonIn patterns files rootExample sharedValues sharedNames workspace
    return result :: (← comparisonsIn rest)

variable {patterns files rootExample sharedValues sharedNames}

/-- The results are those of the workspaces. -/
theorem mem_comparisonsIn {workspaces : List Workspace} {results : List Comparison}
    (h : comparisonsIn patterns files rootExample sharedValues sharedNames workspaces =
      .ok results) {result : Comparison} :
    result ∈ results ↔ ∃ workspace ∈ workspaces,
      comparisonIn patterns files rootExample sharedValues sharedNames workspace = .ok result := by
  induction workspaces generalizing results with
  | nil =>
    obtain rfl := Except.ok.inj h
    simp
  | cons workspace rest ih =>
    obtain ⟨first, hfirst, hrest⟩ := exists_of_bind_eq_ok h
    obtain ⟨others, hothers, hresults⟩ := exists_of_bind_eq_ok hrest
    obtain rfl := Except.ok.inj hresults
    rw [List.mem_cons, List.exists_mem_cons_iff, ih hothers, hfirst, Except.ok.injEq, eq_comm]

/-- The results are those of the workspaces in their order. -/
theorem workspaces_comparisonsIn {workspaces : List Workspace} {results : List Comparison}
    (h : comparisonsIn patterns files rootExample sharedValues sharedNames workspaces =
      .ok results) : results.map Comparison.workspace = workspaces := by
  induction workspaces generalizing results with
  | nil =>
    obtain rfl := Except.ok.inj h
    rfl
  | cons workspace rest ih =>
    obtain ⟨first, hfirst, hrest⟩ := exists_of_bind_eq_ok h
    obtain ⟨others, hothers, hresults⟩ := exists_of_bind_eq_ok hrest
    obtain rfl := Except.ok.inj hresults
    obtain ⟨schema, -, hfile⟩ := exists_of_bind_eq_ok hfirst
    obtain ⟨file, -, hcompared⟩ := exists_of_bind_eq_ok hfile
    obtain rfl := Except.ok.inj hcompared
    rw [List.map_cons, ih hothers]
    rfl

/-- When every workspace has a result, there are results. -/
theorem exists_comparisonsIn {workspaces : List Workspace}
    (h : ∀ workspace ∈ workspaces, ∃ result,
      comparisonIn patterns files rootExample sharedValues sharedNames workspace = .ok result) :
    ∃ results, comparisonsIn patterns files rootExample sharedValues sharedNames workspaces =
      .ok results := by
  induction workspaces with
  | nil => exact ⟨[], rfl⟩
  | cons workspace rest ih =>
    obtain ⟨result, hresult⟩ := h workspace (List.mem_cons_self ..)
    obtain ⟨results, hresults⟩ := ih fun other hother => h other (List.mem_cons_of_mem _ hother)
    refine ⟨result :: results, ?_⟩
    rw [comparisonsIn, hresult, hresults]
    rfl

/-- The result of a workspace whose files can be read. -/
theorem comparisonIn_eq_ok {workspace : Workspace} {schema : List Definition}
    (hschema : schemaIn patterns files rootExample workspace = .ok schema)
    (hreadable : ∃ text, files workspace.valuesPath = .ok text) :
    comparisonIn patterns files rootExample sharedValues sharedNames workspace =
      .ok (compare schema (valuesOf (files workspace.valuesPath)) workspace sharedValues
        sharedNames) := by
  obtain ⟨text, htext⟩ := hreadable
  rw [comparisonIn, hschema, valuesIn, htext]
  rfl

end Meaning

section Runs

variable (view : StoreView store) (registry : Registry) (options : RunOptions)

/-- Checking one workspace. -/
theorem computes_checkWorkspace (sharedValues : Option (Table Text Text))
    (sharedNames : List Text) (workspace : Workspace) :
    (checkWorkspace store registry options sharedValues sharedNames workspace).Computes view
      fun files => comparisonIn registry.patterns files options.rootExample sharedValues
        sharedNames workspace :=
  (computes_workspaceSchema view registry.patterns _ workspace).bind fun _ =>
    (computes_readValuesFile view workspace.valuesPath).bind fun _ => .pure _

/-- Checking several workspaces. -/
theorem computes_checkWorkspaces (sharedValues : Option (Table Text Text))
    (sharedNames : List Text) (workspaces : List Workspace) :
    (checkWorkspaces store registry options sharedValues sharedNames workspaces).Computes view
      fun files => comparisonsIn registry.patterns files options.rootExample sharedValues
        sharedNames workspaces := by
  induction workspaces with
  | nil => exact .pure _
  | cons workspace rest ih =>
    exact (computes_checkWorkspace view registry options sharedValues sharedNames workspace).bind
      fun _ => ih.bind fun _ => .pure _

/-- Checking workspaces. -/
theorem computes_check (workspaces : List Workspace) :
    (check store registry options workspaces).Computes view fun files => do
      let results ← comparisonsIn registry.patterns files options.rootExample none [] workspaces
      return { results } :=
  (computes_checkWorkspaces view registry options none [] workspaces).bind fun _ => .pure _

variable {view}

/-- A check whose files can be read returns, and it is fine exactly when every required variable
of every workspace has a value. -/
theorem exists_check (workspaces : List Workspace) {world : World σ}
    (hvalid : view.valid world.store)
    (hreadable : ∀ workspace ∈ workspaces, (∃ schema, schemaIn registry.patterns
        (view.files world.store) options.rootExample workspace = .ok schema) ∧
      ∃ text, view.files world.store workspace.valuesPath = .ok text) :
    ∃ report after, (check store registry options workspaces).runFrom world =
        (.ok report, after) ∧ view.Same world after ∧
      (report.ok = true ↔ ∀ workspace ∈ workspaces, ∀ schema, schemaIn registry.patterns
          (view.files world.store) options.rootExample workspace = .ok schema →
        ∀ definition ∈ schema, definition.isRequired = true →
          (valuesOf (view.files world.store workspace.valuesPath)).fills definition.name =
            true) := by
  obtain ⟨results, hresults⟩ : ∃ results, comparisonsIn registry.patterns
      (view.files world.store) options.rootExample none [] workspaces = .ok results :=
    exists_comparisonsIn fun workspace hmem =>
      (hreadable workspace hmem).1.elim fun schema hschema =>
        ⟨_, comparisonIn_eq_ok hschema (hreadable workspace hmem).2⟩
  obtain ⟨hmeaning, hsame⟩ := computes_check view registry options workspaces world hvalid
  simp only [hresults] at hmeaning
  refine ⟨⟨results⟩, _, Attempt.runFrom_eq_of_fst hmeaning, hsame, ?_⟩
  rw [CheckReport.ok_iff]
  refine ⟨fun h workspace hmem schema hschema => ?_, fun h result hresult => ?_⟩
  · have hcompared : comparisonIn registry.patterns (view.files world.store)
        options.rootExample none [] workspace = _ :=
      comparisonIn_eq_ok hschema (hreadable workspace hmem).2
    exact missingOf_required_compare_eq_nil_iff.mp
      (h _ ((mem_comparisonsIn hresults).mpr ⟨workspace, hmem, hcompared⟩))
  · obtain ⟨workspace, hmem, hcompared⟩ := (mem_comparisonsIn hresults).mp hresult
    obtain ⟨⟨schema, hschema⟩, htext⟩ := hreadable workspace hmem
    rw [comparisonIn_eq_ok hschema htext] at hcompared
    obtain rfl := Except.ok.inj hcompared
    exact missingOf_required_compare_eq_nil_iff.mpr (h workspace hmem schema hschema)

variable (view)

/-- Checking workspaces against the root's values. -/
theorem computes_status (workspaces : List Workspace) :
    (status store registry options workspaces).Computes view fun files => do
      let shared ← exampleIn registry.patterns files options.rootExample
      let root ← valuesIn files options.rootValues
      let results ← comparisonsIn registry.patterns files options.rootExample (some root.values)
        shared.names workspaces
      return { results } :=
  (computes_readExampleFile view registry.patterns _).bind fun _ =>
    (computes_readValuesFile view _).bind fun _ =>
      (computes_checkWorkspaces view registry options _ _ workspaces).bind fun _ => .pure _

variable {view}

/-- A status whose files can be read returns, and compares every workspace with the root's
values. -/
theorem exists_status (workspaces : List Workspace) {world : World σ}
    (hvalid : view.valid world.store) {root : Schema}
    (hroot : exampleIn registry.patterns (view.files world.store) options.rootExample = .ok root)
    (hrootValues : ∃ text, view.files world.store options.rootValues = .ok text)
    (hreadable : ∀ workspace ∈ workspaces, (∃ schema, schemaIn registry.patterns
        (view.files world.store) options.rootExample workspace = .ok schema) ∧
      ∃ text, view.files world.store workspace.valuesPath = .ok text) :
    ∃ report after, (status store registry options workspaces).runFrom world =
        (.ok report, after) ∧
      report.results.map Comparison.workspace = workspaces ∧
        ∀ result ∈ report.results, ∃ schema, schemaIn registry.patterns
            (view.files world.store) options.rootExample result.workspace = .ok schema ∧
          result = compare schema
            (valuesOf (view.files world.store result.workspace.valuesPath)) result.workspace
            (some (valuesOf (view.files world.store options.rootValues))) root.names := by
  obtain ⟨text, htext⟩ := hrootValues
  obtain ⟨results, hresults⟩ : ∃ results, comparisonsIn registry.patterns
      (view.files world.store) options.rootExample
        (some (valuesOf (view.files world.store options.rootValues))) root.names workspaces =
          .ok results :=
    exists_comparisonsIn fun workspace hmem =>
      (hreadable workspace hmem).1.elim fun schema hschema =>
        ⟨_, comparisonIn_eq_ok hschema (hreadable workspace hmem).2⟩
  obtain ⟨hmeaning, -⟩ := computes_status view registry options workspaces world hvalid
  rw [htext, valuesOf] at hresults
  simp only [hroot, valuesIn, htext] at hmeaning
  refine ⟨⟨results⟩, _, Attempt.runFrom_eq_of_fst (hmeaning.trans ?_),
    workspaces_comparisonsIn hresults, fun result hresult => ?_⟩
  · exact congrArg (fun results : Except Failure (List Comparison) =>
      results >>= fun results => pure (⟨results⟩ : CheckReport)) hresults
  · obtain ⟨workspace, hmem, hcompared⟩ := (mem_comparisonsIn hresults).mp hresult
    obtain ⟨⟨schema, hschema⟩, hworkspace⟩ := hreadable workspace hmem
    rw [comparisonIn_eq_ok hschema hworkspace] at hcompared
    obtain rfl := Except.ok.inj hcompared
    exact ⟨schema, hschema, by rw [htext, valuesOf]; rfl⟩

end Runs
end EnvFiles
