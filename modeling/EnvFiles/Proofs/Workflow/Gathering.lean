import EnvFiles.Proofs.Attempt
import EnvFiles.Proofs.Scan.Diagnosis
import EnvFiles.Proofs.Store.Memory
import EnvFiles.Discovery.Workspaces
import EnvFiles.Workflow.Diagnose

/-!
# What the diagnosis of a project tells apart

Diagnosing a project first gathers what the project declares and uses: the schemas of the root and
the workspaces, and the scans of the workspaces and the shared packages, each in order. The rest is
computed. The declared names are those of all schemas and the used names those of all scans, so no
name that a schema declares is missing and no name that a scan found is unused.
-/

namespace EnvFiles

variable {σ : Type}

/-- Gather the schemas and the scans of a project in order. -/
def gather (store : Store σ) (disk : Node) (registry : Registry) (config : Config) (root : Path)
    (workspaces : List Workspace) : Run σ (List Schema × List ScanResult) := do
  let rootExample := Path.join root config.project.exampleName
  let schemas ← (rootExample :: workspaces.map Workspace.examplePath).mapM
    (readExampleFile store registry.patterns)
  let scans ← Run.atDesk
    (workspaces.mapM fun workspace => scanWorkspace config disk workspace.path)
  let packages ← Run.atDesk (scanAllPackages config disk root)
  return (schemas, scans ++ [packages])

/-- The report on what was gathered. -/
def reportOn (registry : Registry) (config : Config) (gathered : List Schema × List ScanResult) :
    DiagnoseReport :=
  let merged := ScanResult.merge gathered.2
  let declared := firstOccurrences (gathered.1.flatMap Schema.names)
  { files := merged.files
    lines := merged.lines
    declared
    diagnosis := diagnose merged.usages declared (ignoredMissing config registry)
      config.scanning.ignoreUnused }

section Gathering

variable {names : List Text}

/-- Declared names are added schema by schema. -/
theorem foldl_declared (hnodup : names.Nodup) (schemas : List Schema) :
    schemas.foldl (fun names schema => firstOccurrences (names ++ schema.names)) names =
      firstOccurrences (names ++ schemas.flatMap Schema.names) := by
  induction schemas generalizing names with
  | nil => simp [firstOccurrences_of_nodup hnodup]
  | cons schema rest ih =>
    rw [List.foldl_cons, ih (nodup_firstOccurrences _), firstOccurrences_firstOccurrences_append,
      List.append_assoc, List.flatMap_cons]

/-- Declared names are read schema by schema. -/
theorem declaredNames_eq_mapM (store : Store σ) (registry : Registry) (names : List Text)
    (paths : List Path) :
    declaredNames store registry names paths =
      (fun schemas => schemas.foldl
        (fun names schema => firstOccurrences (names ++ schema.names)) names) <$>
          paths.mapM (readExampleFile store registry.patterns) := by
  induction paths generalizing names with
  | nil => simp [declaredNames]
  | cons path rest ih => simp [declaredNames, ih]

/-- Workspaces are scanned one by one. -/
theorem scanWorkspaces_eq_mapM (config : Config) (disk : Node) (workspaces : List Workspace) :
    scanWorkspaces config disk workspaces =
      workspaces.mapM fun workspace => scanWorkspace config disk workspace.path := by
  induction workspaces with
  | nil => rfl
  | cons workspace rest ih => simp [scanWorkspaces, ih]

/-- A diagnosis gathers and reports. -/
theorem diagnoseProject_eq_gather (store : Store σ) (disk : Node) (registry : Registry)
    (config : Config) (root : Path) (workspaces : List Workspace) :
    diagnoseProject store disk registry config root workspaces =
      reportOn registry config <$> gather store disk registry config root workspaces := by
  have hdeclared (schemas : List Schema) :
      schemas.foldl (fun names schema => firstOccurrences (names ++ schema.names)) [] =
        firstOccurrences (schemas.flatMap Schema.names) :=
    foldl_declared List.nodup_nil schemas
  simp [diagnoseProject, gather, reportOn, declaredNames_eq_mapM, scanWorkspaces_eq_mapM,
    hdeclared]

/-- A name counts as declared once, however often it is. -/
theorem diagnose_firstOccurrences (usages : Table Text (List Usage))
    (declared ignoreMissing ignoreUnused : List Text) :
    diagnose usages (firstOccurrences declared) ignoreMissing ignoreUnused =
      diagnose usages declared ignoreMissing ignoreUnused := by
  have hdefined : usages.keys.filter (firstOccurrences declared).contains =
      usages.keys.filter declared.contains := by
    apply List.filter_congr
    simp
  simp [diagnose, hdefined, firstOccurrences_of_nodup (nodup_firstOccurrences declared)]

end Gathering

/-- A diagnosis of usages under distinct names finds exactly one place for each used name and for
each declared one, or leaves it out because it is ignored. So does the diagnosis of a project, for
the joined scans of all workspaces and packages and the names of all schemas, whenever these can be
gathered; it fails only if they cannot. No declared name is missing then, and no name that a scan
found is unused. -/
theorem diagnoseProject_partitions (store : Store σ) (disk : Node) (registry : Registry)
    (config : Config) (root : Path) (workspaces : List Workspace) (world : World σ) :
    (∀ (usages : Table Text (List Usage)) (declared ignoreMissing ignoreUnused : List Text),
      usages.keys.Nodup →
        (diagnose usages declared ignoreMissing ignoreUnused).Partitions usages declared
          ignoreMissing ignoreUnused) ∧
    (diagnoseProject store disk registry config root workspaces).EndsIn world
      (fun report after => ∃ schemas scans merged,
        (gather store disk registry config root workspaces).runFrom world =
          (.ok (schemas, scans), after) ∧
        ScanResult.Joins merged scans ∧ report.files = merged.files ∧
        report.lines = merged.lines ∧
        report.declared = firstOccurrences (schemas.flatMap Schema.names) ∧
        report.diagnosis.Partitions merged.usages (schemas.flatMap Schema.names)
          (ignoredMissing config registry) config.scanning.ignoreUnused ∧
        (∀ schema ∈ schemas, ∀ name ∈ schema.names, name ∉ report.diagnosis.missing.keys) ∧
        ∀ scan ∈ scans, ∀ name ∈ scan.usages.keys, name ∉ report.diagnosis.unused)
      fun failure after =>
        (gather store disk registry config root workspaces).runFrom world =
          (.error failure, after) := by
  refine ⟨fun usages declared ignoreMissing ignoreUnused hnodup =>
    partitions_diagnose hnodup declared ignoreMissing ignoreUnused, ?_⟩
  rw [diagnoseProject_eq_gather, Attempt.endsIn_map, Attempt.EndsIn]
  split
  · rename_i gathered after hrun
    obtain ⟨schemas, scans⟩ := gathered
    have hjoins := ScanResult.joins_merge scans
    have hpartitions : (reportOn registry config (schemas, scans)).diagnosis.Partitions
        (ScanResult.merge scans).usages (schemas.flatMap Schema.names)
          (ignoredMissing config registry) config.scanning.ignoreUnused := by
      simp only [reportOn, diagnose_firstOccurrences]
      exact partitions_diagnose hjoins.nodup_keys _ _ _
    refine ⟨schemas, scans, _, hrun, hjoins, rfl, rfl, rfl, hpartitions, ?_, ?_⟩
    · intro schema hschema name hname hmissing
      have hdeclared := ((hpartitions.mem_missing_iff name).mp hmissing).2.1
      exact hdeclared (List.mem_flatMap.mpr ⟨schema, hschema, hname⟩)
    · intro scan hscan name hname hunused
      have hused := ((hpartitions.mem_unused_iff name).mp hunused).2.1
      rw [hjoins.keys, mem_firstOccurrences] at hused
      exact hused (List.mem_flatMap.mpr ⟨scan, hscan, hname⟩)
  · rename_i failure after hrun
    exact hrun

/-- Two workspaces that refer to one name which is not declared, and a shared package that refers to
another one. -/
def usingTree : Node := .folder [
  ("api", .folder [("src", .folder [
    ("b.ts", .file (Node.encode "process.env.Y process.env.V"))])]),
  ("packages", .folder [("ui", .folder [("src", .folder [
    ("c.ts", .file (Node.encode "process.env.P\nprocess.env.X"))])])]),
  ("web", .folder [
    ("a.ts", .file (Node.encode "process.env.X process.env.Y process.env.NODE_ENV"))])]

/-- The workspaces of this tree. -/
def usingWorkspaces : List Workspace := [workspaceAt {} ["web"], workspaceAt {} ["api"]]

/-- Example files of the root and of the workspaces, two of which declare the same name. -/
def usingWorld : World (Table Path Text) where
  store := [([".env.local.example"], "X=1\nZ=2\n"), (["web", ".env.local.example"], "X=3\n"),
    (["api", ".env.local.example"], "V=\n")]

/-- What is found out about this project. -/
def usingReport : DiagnoseReport where
  files := 3
  lines := 4
  declared := ["X", "Z", "V"]
  diagnosis := {
    missing := [
      ("Y", [⟨"a.ts", 1, "process.env.Y"⟩, ⟨"src/b.ts", 1, "process.env.Y"⟩]),
      ("P", [⟨"src/c.ts", 1, "process.env.P"⟩])]
    defined := ["X", "V"]
    unused := ["Z"] }

/-- A name that is declared twice and used is defined though it is ignored in both ways. In the
project a name of the shared package is missing, beside one that both workspaces use. -/
theorem diagnoseProject_partitions_overlapping :
    let usages : Table Text (List Usage) :=
      [("B", [⟨"b", 2, "B"⟩]), ("A", [⟨"a", 1, "A"⟩, ⟨"b", 1, "A"⟩]), ("C", [])]
    usages.keys.Nodup ∧
    (diagnose usages ["D", "A", "E", "D", "A"] ["A", "C"] ["A", "E"]).Partitions usages
      ["D", "A", "E", "D", "A"] ["A", "C"] ["A", "E"] ∧
    diagnose usages ["D", "A", "E", "D", "A"] ["A", "C"] ["A", "E"] =
      { missing := [("B", [⟨"b", 2, "B"⟩])], defined := ["A"], unused := ["D"] } ∧
    ∃ (after : World (Table Path Text)) (schemas : List Schema) (scans : List ScanResult)
        (merged : ScanResult),
      (diagnoseProject memoryStore usingTree {} {} [] usingWorkspaces).runFrom usingWorld =
        (.ok usingReport, after) ∧
      ScanResult.Joins merged scans ∧
      usingReport.diagnosis.Partitions merged.usages (schemas.flatMap Schema.names)
        (ignoredMissing {} {}) [] := by
  intro usages
  have hnodup : usages.keys.Nodup := by decide
  have hrun : ((diagnoseProject memoryStore usingTree {} {} [] usingWorkspaces).runFrom
      usingWorld).1 = .ok usingReport := by decide +kernel
  obtain ⟨hdiagnose, hproject⟩ := diagnoseProject_partitions memoryStore usingTree {} {} []
    usingWorkspaces usingWorld
  obtain ⟨schemas, scans, merged, -, hjoins, -, -, -, hpartitions, -⟩ :=
    hproject.of_runFrom_ok (Attempt.runFrom_eq_of_fst hrun)
  exact ⟨hnodup, hdiagnose _ _ _ _ hnodup, by decide, _, schemas, scans, merged,
    Attempt.runFrom_eq_of_fst hrun, hjoins, hpartitions⟩

end EnvFiles
