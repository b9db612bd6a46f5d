import EnvFiles.Proofs.Workflow.Checking
import EnvFiles.Proofs.Store.Memory
import EnvFiles.Workflow.Postinstall

/-!
# The listing after an installation and a check

Both say what workspaces lack. A check compares every workspace with its effective schema, in which
a workspace's own definition of a shared name takes the place of the shared one. The listing goes
through the shared schema and the workspaces' own schemas by themselves. So it lists, besides what
the check finds missing, each shared name of its level that a workspace lacks and declares itself
at another level; nothing else is listed, and nothing that the check finds is left out.
-/

namespace EnvFiles

section Schemas

/-- Definitions that need the name at the level, while the values hold nothing for it. -/
def LacksAt (definitions : List Definition) (values : Table Text Text) (level : Requirement)
    (name : Text) : Prop :=
  ∃ definition ∈ definitions, definition.name = name ∧ definition.requirement = level ∧
    values.fills definition.name = false

/-- What a comparison finds missing at a level. -/
theorem mem_missingOf_compare {schema : List Definition} {values : Table Text Text}
    {workspace : Workspace} {sharedValues : Option (Table Text Text)} {sharedNames : List Text}
    {level : Requirement} (hlevel : level ≠ .deprecated) {name : Text} :
    name ∈ ((compare schema values workspace sharedValues sharedNames).missingOf level).map
        Definition.name ↔ LacksAt schema values level name := by
  simp only [Comparison.missingOf, missing_compare, List.mem_map, List.mem_filter,
    mem_missingFrom, decide_eq_true_eq, Definition.isActive, ne_eq]
  constructor
  · rintro ⟨definition, ⟨⟨hmem, -, hfills⟩, hrequirement⟩, rfl⟩
    exact ⟨definition, hmem, rfl, hrequirement, hfills⟩
  · rintro ⟨definition, hmem, rfl, rfl, hfills⟩
    exact ⟨definition, ⟨⟨hmem, hlevel, hfills⟩, rfl⟩, rfl⟩

end Schemas

section Listings

/-- The names listed at a level. -/
def PostinstallReport.missing (report : PostinstallReport) : Requirement → List Text
  | .required => report.missingRequired
  | .optional => report.missingOptional
  | .deprecated => []

/-- Listing a definition lists its name at its level and changes nothing else. -/
theorem PostinstallReport.missing_add (report : PostinstallReport) (definition : Definition)
    (level : Requirement) :
    (report.add definition).missing level =
      if definition.requirement = level ∧ level ≠ .deprecated ∧
          definition.name ∉ report.missing level then
        report.missing level ++ [definition.name]
      else report.missing level := by
  cases hlevel : definition.requirement <;> cases level <;>
    simp [PostinstallReport.add, PostinstallReport.missing, hlevel, ite_not]

/-- The listings of a report name nothing twice. -/
def PostinstallReport.NamesOnce (report : PostinstallReport) : Prop :=
  ∀ level, (report.missing level).Nodup

/-- Listing a definition names nothing twice. -/
theorem PostinstallReport.NamesOnce.add {report : PostinstallReport} (h : report.NamesOnce)
    (definition : Definition) : (report.add definition).NamesOnce := by
  intro level
  rw [missing_add]
  split
  · rename_i hnew
    rw [← List.concat_eq_append]
    exact (h level).concat hnew.2.2
  · exact h level

/-- What is listed once a definition is. -/
theorem PostinstallReport.mem_missing_add {report : PostinstallReport} {definition : Definition}
    {level : Requirement} (hlevel : level ≠ .deprecated) {name : Text} :
    name ∈ (report.add definition).missing level ↔ name ∈ report.missing level ∨
      definition.requirement = level ∧ definition.name = name := by
  rw [missing_add]
  split <;> grind

/-- What is listed once those definitions are that the values do not fill. -/
theorem PostinstallReport.mem_missing_foldl_add {report : PostinstallReport}
    {definitions : List Definition} {lacks : Definition → Bool} {level : Requirement}
    (hlevel : level ≠ .deprecated) {name : Text} :
    name ∈ ((definitions.filter lacks).foldl add report).missing level ↔
      name ∈ report.missing level ∨ ∃ definition ∈ definitions, definition.name = name ∧
        definition.requirement = level ∧ lacks definition = true := by
  induction definitions generalizing report with
  | nil => simp
  | cons definition rest ih =>
    rw [List.exists_mem_cons_iff]
    by_cases hlacks : lacks definition = true
    · rw [List.filter_cons_of_pos hlacks, List.foldl_cons, ih, mem_missing_add hlevel, or_assoc,
        and_comm, and_iff_left hlacks]
    · rw [List.filter_cons_of_neg hlacks, ih]
      simp only [hlacks, and_false, false_or, Bool.false_eq_true]

/-- What listing definitions keeps of a report. -/
theorem PostinstallReport.foldl_add_kept {kept : PostinstallReport → Prop}
    (hadd : ∀ report definition, kept report → kept (report.add definition))
    {report : PostinstallReport} (h : kept report) (definitions : List Definition) :
    kept (definitions.foldl add report) := by
  induction definitions generalizing report with
  | nil => exact h
  | cons definition rest ih => exact ih (hadd report definition h)

/-- A check finds a name missing at a level in one of its workspaces. -/
def CheckReport.Finds (report : CheckReport) (level : Requirement) (name : Text) : Prop :=
  ∃ result ∈ report.results, name ∈ (result.missingOf level).map Definition.name

/-- As long as the workspaces of a check have distinct names, its table of missing names lists all
that it finds. -/
theorem CheckReport.finds_iff {report : CheckReport}
    (hnodup : (report.results.map fun result => result.workspace.name).Nodup) {level : Requirement}
    {name : Text} :
    report.Finds level name ↔ ∃ entry ∈ report.missing level, name ∈ entry.2 := by
  rw [missing, listed, Table.ofEntries_of_nodup]
  · simp only [List.mem_filterMap]
    constructor
    · rintro ⟨result, hresult, hname⟩
      refine ⟨(result.workspace.name, (result.missingOf level).map Definition.name),
        ⟨result, hresult, ?_⟩, hname⟩
      split
      · rename_i hnone
        rw [hnone] at hname
        exact absurd hname List.not_mem_nil
      · rfl
    · rintro ⟨entry, ⟨result, hresult, hentry⟩, hname⟩
      refine ⟨result, hresult, ?_⟩
      split at hentry
      · cases hentry
      · obtain rfl := Option.some.inj hentry
        exact hname
  · refine List.Nodup.sublist (sublist_map_filterMap (fun result entry hentry => ?_) _) hnodup
    split at hentry
    · cases hentry
    · obtain rfl := Option.some.inj hentry
      rfl

end Listings

section Meaning

variable (patterns : List DirectivePattern) (files : Files)

/-- The values of workspaces. -/
def readHoldingsIn : List Workspace → Except Failure (List (Workspace × Table Text Text))
  | [] => return []
  | workspace :: rest => do
    let file ← valuesIn files workspace.valuesPath
    return (workspace, file.values) :: (← readHoldingsIn rest)

/-- The listing together with what workspaces lack of their own example files. -/
def ownMissingIn :
    PostinstallReport → List (Workspace × Table Text Text) → Except Failure PostinstallReport
  | report, [] => return report
  | report, (workspace, values) :: rest => do
    let schema ← exampleIn patterns files workspace.examplePath
    let lacking := schema.definitions.filter fun definition => !values.fills definition.name
    ownMissingIn (lacking.foldl PostinstallReport.add report) rest

/-- What is listed of workspaces. -/
def listingIn (rootExample : Path) (workspaces : List Workspace) :
    Except Failure PostinstallReport := do
  let holdings ← readHoldingsIn files workspaces
  let shared ← exampleIn patterns files rootExample
  let lacking := shared.definitions.filter fun definition =>
    holdings.any fun holding => !holding.2.fills definition.name
  ownMissingIn patterns files (lacking.foldl PostinstallReport.add {}) holdings

variable {patterns files}

/-- The values of workspaces can be read when each of their values files can. -/
theorem readHoldingsIn_eq_ok_iff {workspaces : List Workspace}
    {holdings : List (Workspace × Table Text Text)} :
    readHoldingsIn files workspaces = .ok holdings ↔
      (∀ workspace ∈ workspaces, ∃ text, files workspace.valuesPath = .ok text) ∧
        holdings = workspaces.map fun workspace =>
          (workspace, valuesOf (files workspace.valuesPath)) := by
  induction workspaces generalizing holdings with
  | nil =>
    rw [readHoldingsIn, pure_eq_ok_iff]
    simp [eq_comm]
  | cons workspace rest ih =>
    simp only [readHoldingsIn, valuesIn, bind_eq_ok_iff, pure_eq_ok_iff, ih, List.forall_mem_cons,
      List.map_cons]
    constructor
    · rintro ⟨_, ⟨text, htext, rfl⟩, _, ⟨hrest, rfl⟩, rfl⟩
      exact ⟨⟨⟨text, htext⟩, hrest⟩, by rw [htext, valuesOf]⟩
    · rintro ⟨⟨⟨text, htext⟩, hrest⟩, rfl⟩
      exact ⟨_, ⟨text, htext, rfl⟩, _, ⟨hrest, rfl⟩, by rw [htext, valuesOf]⟩

/-- What workspaces lack of their own example files can be listed when each of these can be read. -/
theorem exists_ownMissingIn_iff {report : PostinstallReport}
    {holdings : List (Workspace × Table Text Text)} :
    (∃ result, ownMissingIn patterns files report holdings = .ok result) ↔
      ∀ holding ∈ holdings, ∃ own, exampleIn patterns files holding.1.examplePath = .ok own := by
  induction holdings generalizing report with
  | nil => simp [ownMissingIn, pure_eq_ok_iff]
  | cons holding rest ih =>
    simp only [ownMissingIn, bind_eq_ok_iff, List.forall_mem_cons]
    constructor
    · rintro ⟨result, own, hown, hresult⟩
      exact ⟨⟨own, hown⟩, ih.mp ⟨result, hresult⟩⟩
    · rintro ⟨⟨own, hown⟩, hrest⟩
      obtain ⟨result, hresult⟩ := ih.mpr hrest
      exact ⟨result, own, hown, hresult⟩

/-- What the workspaces' own example files add to a listing. -/
theorem mem_missing_of_ownMissingIn {report result : PostinstallReport}
    {holdings : List (Workspace × Table Text Text)}
    (h : ownMissingIn patterns files report holdings = .ok result) {level : Requirement}
    (hlevel : level ≠ .deprecated) {name : Text} :
    name ∈ result.missing level ↔ name ∈ report.missing level ∨
      ∃ holding ∈ holdings, ∃ own, exampleIn patterns files holding.1.examplePath = .ok own ∧
        LacksAt own.definitions holding.2 level name := by
  induction holdings generalizing report with
  | nil =>
    obtain rfl := Except.ok.inj h
    simp
  | cons holding rest ih =>
    obtain ⟨own, hown, hrest⟩ := exists_of_bind_eq_ok h
    rw [ih hrest, PostinstallReport.mem_missing_foldl_add hlevel, List.exists_mem_cons_iff, hown,
      or_assoc]
    simp only [Except.ok.injEq, exists_eq_left', LacksAt, Bool.not_eq_true']

/-- What listing definitions keeps, listing those of the workspaces keeps. -/
theorem ownMissingIn_kept {kept : PostinstallReport → Prop}
    (hadd : ∀ report definition, kept report → kept (report.add definition))
    {report result : PostinstallReport} {holdings : List (Workspace × Table Text Text)}
    (h : ownMissingIn patterns files report holdings = .ok result) (hreport : kept report) :
    kept result := by
  induction holdings generalizing report with
  | nil =>
    obtain rfl := Except.ok.inj h
    exact hreport
  | cons holding rest ih =>
    obtain ⟨own, -, hrest⟩ := exists_of_bind_eq_ok h
    exact ih hrest (PostinstallReport.foldl_add_kept hadd hreport _)

/-- A listing comes to a result when the shared schema, every own schema and every values file can
be read. -/
theorem exists_listingIn_iff {rootExample : Path} {workspaces : List Workspace} :
    (∃ summary, listingIn patterns files rootExample workspaces = .ok summary) ↔
      (∃ root, exampleIn patterns files rootExample = .ok root) ∧
        ∀ workspace ∈ workspaces, (∃ text, files workspace.valuesPath = .ok text) ∧
          ∃ own, exampleIn patterns files workspace.examplePath = .ok own := by
  simp only [listingIn, bind_eq_ok_iff, readHoldingsIn_eq_ok_iff]
  constructor
  · rintro ⟨summary, _, ⟨hvalues, rfl⟩, root, hroot, hsummary⟩
    have hown := exists_ownMissingIn_iff.mp ⟨summary, hsummary⟩
    exact ⟨⟨root, hroot⟩, fun workspace hmem => ⟨hvalues workspace hmem,
      hown _ (List.mem_map_of_mem hmem)⟩⟩
  · rintro ⟨⟨root, hroot⟩, hworkspaces⟩
    have hown : ∀ holding ∈ workspaces.map fun workspace =>
        (workspace, valuesOf (files workspace.valuesPath)),
        ∃ own, exampleIn patterns files holding.1.examplePath = .ok own :=
      List.forall_mem_map.mpr fun workspace hmem => (hworkspaces workspace hmem).2
    obtain ⟨summary, hsummary⟩ := exists_ownMissingIn_iff.mpr hown
    exact ⟨summary, _, ⟨fun workspace hmem => (hworkspaces workspace hmem).1, rfl⟩, root, hroot,
      hsummary⟩

/-- A name is listed when a workspace lacks it of the shared schema or of its own. -/
theorem mem_missing_of_listingIn {rootExample : Path} {workspaces : List Workspace}
    {summary : PostinstallReport} {root : Schema}
    (hroot : exampleIn patterns files rootExample = .ok root)
    (h : listingIn patterns files rootExample workspaces = .ok summary) {level : Requirement}
    (hlevel : level ≠ .deprecated) {name : Text} :
    name ∈ summary.missing level ↔ ∃ workspace ∈ workspaces, ∃ own,
      exampleIn patterns files workspace.examplePath = .ok own ∧
        (LacksAt root.definitions (valuesOf (files workspace.valuesPath)) level name ∨
          LacksAt own.definitions (valuesOf (files workspace.valuesPath)) level name) := by
  have hreadable := (exists_listingIn_iff.mp ⟨summary, h⟩).2
  obtain ⟨holdings, hholdings, hrest⟩ := exists_of_bind_eq_ok h
  obtain ⟨-, rfl⟩ := readHoldingsIn_eq_ok_iff.mp hholdings
  obtain ⟨shared, hshared, hsummary⟩ := exists_of_bind_eq_ok hrest
  obtain rfl := Except.ok.inj (hroot.symm.trans hshared)
  have hempty : name ∉ PostinstallReport.missing {} level := by
    cases level <;> exact List.not_mem_nil
  rw [mem_missing_of_ownMissingIn hsummary hlevel, PostinstallReport.mem_missing_foldl_add hlevel,
    or_iff_right hempty]
  simp only [List.any_map, List.any_eq_true, Function.comp_apply, Bool.not_eq_true']
  constructor
  · rintro (⟨definition, hmem, hname, hrequirement, workspace, hworkspace, hfills⟩ |
      ⟨holding, hholding, own, hown, hlacks⟩)
    · obtain ⟨own, hown⟩ := (hreadable workspace hworkspace).2
      exact ⟨workspace, hworkspace, own, hown,
        Or.inl ⟨definition, hmem, hname, hrequirement, hfills⟩⟩
    · obtain ⟨workspace, hworkspace, rfl⟩ := List.mem_map.mp hholding
      exact ⟨workspace, hworkspace, own, hown, Or.inr hlacks⟩
  · rintro ⟨workspace, hworkspace, own, hown, hlacks | hlacks⟩
    · obtain ⟨definition, hmem, hname, hrequirement, hfills⟩ := hlacks
      exact Or.inl ⟨definition, hmem, hname, hrequirement, workspace, hworkspace, hfills⟩
    · exact Or.inr ⟨_, List.mem_map_of_mem hworkspace, own, hown, hlacks⟩

/-- A listing outside continuous integration names nothing twice. -/
theorem kept_of_listingIn {rootExample : Path} {workspaces : List Workspace}
    {summary : PostinstallReport}
    (h : listingIn patterns files rootExample workspaces = .ok summary) :
    summary.ci = none ∧ summary.NamesOnce := by
  obtain ⟨_, -, hrest⟩ := exists_of_bind_eq_ok h
  obtain ⟨root, -, hsummary⟩ := exists_of_bind_eq_ok hrest
  have hadd (report : PostinstallReport) (definition : Definition)
      (hreport : report.ci = none ∧ report.NamesOnce) :
      (report.add definition).ci = none ∧ (report.add definition).NamesOnce := by
    refine ⟨?_, hreport.2.add definition⟩
    rw [PostinstallReport.add]
    split <;> exact hreport.1
  have hempty : ({} : PostinstallReport).ci = none ∧ PostinstallReport.NamesOnce {} :=
    ⟨rfl, fun level => by cases level <;> exact List.nodup_nil⟩
  exact ownMissingIn_kept hadd hsummary (PostinstallReport.foldl_add_kept hadd hempty _)

/-- The effective schema of a workspace can be read when the shared one and its own can. -/
theorem exists_schemaIn_iff {rootExample : Path} {workspace : Workspace} :
    (∃ schema, schemaIn patterns files rootExample workspace = .ok schema) ↔
      (∃ root, exampleIn patterns files rootExample = .ok root) ∧
        ∃ own, exampleIn patterns files workspace.examplePath = .ok own := by
  by_cases hpath : workspace.examplePath = rootExample
  · simp only [schemaIn, bind_eq_ok_iff, if_pos hpath, pure_eq_ok_iff]
    rw [hpath, and_self]
    constructor
    · rintro ⟨_, root, hroot, -⟩
      exact ⟨root, hroot⟩
    · rintro ⟨root, hroot⟩
      exact ⟨_, root, hroot, rfl⟩
  · simp only [schemaIn, bind_eq_ok_iff, if_neg hpath, pure_eq_ok_iff]
    constructor
    · rintro ⟨_, root, hroot, own, hown, -⟩
      exact ⟨⟨root, hroot⟩, own, hown⟩
    · rintro ⟨⟨root, hroot⟩, own, hown⟩
      exact ⟨_, root, hroot, own, hown, rfl⟩

/-- Comparisons come to results when a shared schema, every own schema and every values file can
be read. -/
theorem exists_comparisonsIn_iff {rootExample : Path} {sharedValues : Option (Table Text Text)}
    {sharedNames : List Text} {workspaces : List Workspace} :
    (∃ results, comparisonsIn patterns files rootExample sharedValues sharedNames workspaces =
        .ok results) ↔
      ∀ workspace ∈ workspaces, (∃ text, files workspace.valuesPath = .ok text) ∧
        (∃ root, exampleIn patterns files rootExample = .ok root) ∧
          ∃ own, exampleIn patterns files workspace.examplePath = .ok own := by
  simp only [← exists_schemaIn_iff]
  constructor
  · rintro ⟨results, hresults⟩ workspace hmem
    rw [← workspaces_comparisonsIn hresults] at hmem
    obtain ⟨result, hresult, rfl⟩ := List.mem_map.mp hmem
    obtain ⟨workspace, -, hcompared⟩ := (mem_comparisonsIn hresults).mp hresult
    obtain ⟨schema, hschema, hrest⟩ := exists_of_bind_eq_ok hcompared
    obtain ⟨file, hfile, hdone⟩ := exists_of_bind_eq_ok hrest
    obtain ⟨text, htext, -⟩ := exists_of_bind_eq_ok hfile
    obtain rfl := Except.ok.inj hdone
    exact ⟨⟨text, htext⟩, schema, hschema⟩
  · intro h
    exact exists_comparisonsIn fun workspace hmem => (h workspace hmem).2.elim
      fun schema hschema => ⟨_, comparisonIn_eq_ok hschema (h workspace hmem).1⟩

/-- What a check finds missing, said of the effective schemas. -/
theorem finds_iff_of_comparisonsIn {rootExample : Path} {workspaces : List Workspace}
    {results : List Comparison}
    (h : comparisonsIn patterns files rootExample none [] workspaces = .ok results)
    {level : Requirement} (hlevel : level ≠ .deprecated) {name : Text} :
    (CheckReport.mk results).Finds level name ↔ ∃ workspace ∈ workspaces, ∃ schema,
      schemaIn patterns files rootExample workspace = .ok schema ∧
        LacksAt schema (valuesOf (files workspace.valuesPath)) level name := by
  have hreadable := exists_comparisonsIn_iff.mp ⟨results, h⟩
  constructor
  · rintro ⟨result, hresult, hname⟩
    obtain ⟨workspace, hworkspace, hcompared⟩ := (mem_comparisonsIn h).mp hresult
    obtain ⟨schema, hschema⟩ := exists_schemaIn_iff.mpr (hreadable workspace hworkspace).2
    rw [comparisonIn_eq_ok hschema (hreadable workspace hworkspace).1] at hcompared
    obtain rfl := Except.ok.inj hcompared
    exact ⟨workspace, hworkspace, schema, hschema, (mem_missingOf_compare hlevel).mp hname⟩
  · rintro ⟨workspace, hworkspace, schema, hschema, hlacks⟩
    exact ⟨_, (mem_comparisonsIn h).mpr ⟨workspace, hworkspace,
      comparisonIn_eq_ok hschema (hreadable workspace hworkspace).1⟩,
      (mem_missingOf_compare hlevel).mpr hlacks⟩

/-- The shared schema needs a name at a level, and a workspace that has no value for it declares it
itself at another level. -/
def Relevelled (patterns : List DirectivePattern) (files : Files) (rootExample : Path)
    (workspaces : List Workspace) (level : Requirement) (name : Text) : Prop :=
  ∃ root, exampleIn patterns files rootExample = .ok root ∧
    ∃ workspace ∈ workspaces, ∃ own, exampleIn patterns files workspace.examplePath = .ok own ∧
      LacksAt root.definitions (valuesOf (files workspace.valuesPath)) level name ∧
        ∃ other, other ≠ level ∧
          LacksAt own.definitions (valuesOf (files workspace.valuesPath)) other name

/-- What one workspace lacks of the two schemas by themselves it lacks of its effective schema,
unless its own schema puts the name at another level. -/
theorem lacksAt_schemaIn_iff {rootExample : Path} {workspace : Workspace} {root own : Schema}
    {schema : List Definition} (hroot : exampleIn patterns files rootExample = .ok root)
    (hown : exampleIn patterns files workspace.examplePath = .ok own)
    (hschema : schemaIn patterns files rootExample workspace = .ok schema)
    {values : Table Text Text} {level : Requirement} {name : Text} :
    LacksAt root.definitions values level name ∨ LacksAt own.definitions values level name ↔
      LacksAt schema values level name ∨ LacksAt root.definitions values level name ∧
        ∃ other, other ≠ level ∧ LacksAt own.definitions values other name := by
  by_cases hpath : workspace.examplePath = rootExample
  · rw [hpath] at hown
    obtain rfl := Except.ok.inj (hroot.symm.trans hown)
    rw [schemaIn, hroot] at hschema
    obtain rfl : root.definitions = schema := by simpa [hpath, bind_eq_ok_iff] using hschema
    rw [or_self, or_iff_left_of_imp And.left]
  · have hmerged : mergeDefinitions root.definitions own.definitions = schema := by
      obtain ⟨shared, hshared, hrest⟩ := exists_of_bind_eq_ok hschema
      rw [if_neg hpath] at hrest
      obtain ⟨specific, hspecific, hdone⟩ := exists_of_bind_eq_ok hrest
      rw [← Except.ok.inj hdone, Except.ok.inj (hroot.symm.trans hshared),
        Except.ok.inj (hown.symm.trans hspecific)]
    have hmem (definition : Definition) : definition ∈ schema ↔ definition ∈ own.definitions ∨
        definition ∈ root.definitions ∧
          definition.name ∉ own.definitions.map Definition.name := by
      rw [← hmerged, mem_mergeDefinitions_iff (soundSchema_exampleIn hroot).nodup_names
        (soundSchema_exampleIn hown).nodup_names]
    constructor
    · rintro (⟨definition, hdefinition, rfl, hlevel, hfills⟩ | ⟨definition, hdefinition, hlacks⟩)
      · by_cases hname : definition.name ∈ own.definitions.map Definition.name
        · obtain ⟨redeclared, hredeclared, hsame⟩ := List.mem_map.mp hname
          have hlacks : values.fills redeclared.name = false := hsame ▸ hfills
          by_cases hother : redeclared.requirement = level
          · exact Or.inl ⟨redeclared, (hmem _).mpr (Or.inl hredeclared), hsame, hother, hlacks⟩
          · exact Or.inr ⟨⟨definition, hdefinition, rfl, hlevel, hfills⟩, redeclared.requirement,
              hother, redeclared, hredeclared, hsame, rfl, hlacks⟩
        · exact Or.inl ⟨definition, (hmem _).mpr (Or.inr ⟨hdefinition, hname⟩), rfl, hlevel, hfills⟩
      · exact Or.inl ⟨definition, (hmem _).mpr (Or.inl hdefinition), hlacks⟩
    · rintro (⟨definition, hdefinition, hlacks⟩ | ⟨hroot, -⟩)
      · rcases (hmem _).mp hdefinition with hown | ⟨hroot, -⟩
        · exact Or.inr ⟨definition, hown, hlacks⟩
        · exact Or.inl ⟨definition, hroot, hlacks⟩
      · exact Or.inl hroot

/-- The listing names what a check finds missing and what is relevelled. -/
theorem mem_missing_iff_of_listingIn {rootExample : Path} {workspaces : List Workspace}
    {summary : PostinstallReport} {results : List Comparison}
    (hsummary : listingIn patterns files rootExample workspaces = .ok summary)
    (hresults : comparisonsIn patterns files rootExample none [] workspaces = .ok results)
    {level : Requirement} (hlevel : level ≠ .deprecated) {name : Text} :
    name ∈ summary.missing level ↔ (CheckReport.mk results).Finds level name ∨
      Relevelled patterns files rootExample workspaces level name := by
  obtain ⟨⟨root, hroot⟩, hreadable⟩ := exists_listingIn_iff.mp ⟨summary, hsummary⟩
  rw [mem_missing_of_listingIn hroot hsummary hlevel, finds_iff_of_comparisonsIn hresults hlevel,
    Relevelled]
  constructor
  · rintro ⟨workspace, hworkspace, own, hown, hlacks⟩
    obtain ⟨schema, hschema⟩ := exists_schemaIn_iff.mpr ⟨⟨root, hroot⟩, own, hown⟩
    rcases (lacksAt_schemaIn_iff hroot hown hschema).mp hlacks with hlacks | hlacks
    · exact Or.inl ⟨workspace, hworkspace, schema, hschema, hlacks⟩
    · exact Or.inr ⟨root, hroot, workspace, hworkspace, own, hown, hlacks⟩
  · rintro (⟨workspace, hworkspace, schema, hschema, hlacks⟩ |
      ⟨shared, hshared, workspace, hworkspace, own, hown, hlacks, -⟩)
    · obtain ⟨own, hown⟩ := (hreadable workspace hworkspace).2
      exact ⟨workspace, hworkspace, own, hown,
        (lacksAt_schemaIn_iff hroot hown hschema).mpr (Or.inl hlacks)⟩
    · obtain rfl := Except.ok.inj (hroot.symm.trans hshared)
      exact ⟨workspace, hworkspace, own, hown, Or.inl hlacks⟩

end Meaning

section Runs

variable {σ : Type} {store : Store σ} (view : StoreView store) (registry : Registry)
  (options : RunOptions)

/-- Reading the values of workspaces. -/
theorem computes_readHoldings (workspaces : List Workspace) :
    (readHoldings store workspaces).Computes view fun files => readHoldingsIn files workspaces := by
  induction workspaces with
  | nil => exact .pure _
  | cons workspace rest ih =>
    exact (computes_readValuesFile view _).bind fun _ => ih.bind fun _ => .pure _

/-- Listing what workspaces lack of their own example files. -/
theorem computes_listOwnMissing (report : PostinstallReport)
    (holdings : List (Workspace × Table Text Text)) :
    (listOwnMissing store registry report holdings).Computes view fun files =>
      ownMissingIn registry.patterns files report holdings := by
  induction holdings generalizing report with
  | nil => exact .pure _
  | cons holding rest ih =>
    exact (computes_readExampleFile view registry.patterns _).bind fun _ => ih _

/-- When every workspace has its own example file, the listing outside continuous integration is of
all of them. -/
theorem runFrom_postinstall {environ : Table Text Text} {workspaces : List Workspace}
    {world : World σ} (hvalid : view.valid world.store)
    (hci : isCi options.config environ = false)
    (hexamples : ∀ workspace ∈ workspaces, store.holds workspace.examplePath world.store = true) :
    ((postinstall store registry options environ workspaces).runFrom world).1 =
      listingIn registry.patterns (view.files world.store) options.rootExample workspaces := by
  have hfilter : workspaces.filter (fun workspace =>
      store.holds workspace.examplePath world.store) = workspaces :=
    List.filter_eq_self.mpr hexamples
  have hwith : (withExample store workspaces).runFrom world = (.ok workspaces, world) := by
    nth_rewrite 2 [← hfilter]
    rfl
  rw [postinstall, hci]
  simp only [Bool.false_eq_true, if_false]
  rw [Attempt.runFrom_bind, hwith]
  exact ((computes_readHoldings view workspaces).bind fun holdings =>
    (computes_readExampleFile view registry.patterns options.rootExample).bind fun _ =>
      computes_listOwnMissing view registry _ holdings) world hvalid |>.1

/-- A check comes to the comparisons of its workspaces. -/
theorem runFrom_check (workspaces : List Workspace) {world : World σ}
    (hvalid : view.valid world.store) :
    ((check store registry options workspaces).runFrom world).1 = CheckReport.mk <$>
      comparisonsIn registry.patterns (view.files world.store) options.rootExample none []
        workspaces :=
  (computes_check view registry options workspaces world hvalid).1

/-- In a tree in which every workspace has its own example file, outside continuous integration, the
listing after an installation returns exactly if the shared schema can be read and a check returns.
Then it lists at each level, once each, the names that the check finds missing there in some
workspace, and the shared names of that level that some workspace lacks and puts at another level
itself. The table of a check tells all that the check finds when the workspaces have distinct
names. -/
theorem postinstall_agrees (environ : Table Text Text) (workspaces : List Workspace)
    (world : World σ) (hvalid : view.valid world.store)
    (hci : isCi options.config environ = false)
    (hexamples : ∀ workspace ∈ workspaces, store.holds workspace.examplePath world.store = true) :
    ((∃ summary after, (postinstall store registry options environ workspaces).runFrom world =
          (.ok summary, after)) ↔
        (∃ root, exampleIn registry.patterns (view.files world.store) options.rootExample =
          .ok root) ∧
        ∃ checked after, (check store registry options workspaces).runFrom world =
          (.ok checked, after)) ∧
      ∀ summary checked after last,
        (postinstall store registry options environ workspaces).runFrom world =
          (.ok summary, after) →
        (check store registry options workspaces).runFrom world = (.ok checked, last) →
        summary.ci = none ∧ ∀ level, level ≠ .deprecated →
          (summary.missing level).Nodup ∧
          (∀ name, name ∈ summary.missing level ↔ checked.Finds level name ∨
            Relevelled registry.patterns (view.files world.store) options.rootExample workspaces
              level name) ∧
          ((workspaces.map Workspace.name).Nodup → ∀ name, checked.Finds level name ↔
            ∃ entry ∈ checked.missing level, name ∈ entry.2) := by
  have hlisting := runFrom_postinstall view registry options hvalid hci hexamples
  have hcheck := runFrom_check view registry options workspaces hvalid
  refine ⟨?_, fun summary checked after last hsummary hchecked => ?_⟩
  · rw [Attempt.exists_runFrom_iff, Attempt.exists_runFrom_iff, hlisting, hcheck,
      exists_listingIn_iff, exists_map_eq_ok_iff, exists_comparisonsIn_iff]
    exact and_congr_right fun hroot => forall₂_congr fun workspace _ => by rw [and_iff_right hroot]
  · rw [hsummary] at hlisting
    rw [hchecked, map_eq_pure_bind] at hcheck
    obtain ⟨results, hresults, hdone⟩ := exists_of_bind_eq_ok hcheck.symm
    obtain rfl := Except.ok.inj hdone
    obtain ⟨hnone, honce⟩ := kept_of_listingIn hlisting.symm
    refine ⟨hnone, fun level hlevel => ⟨honce level, fun name =>
      mem_missing_iff_of_listingIn hlisting.symm hresults hlevel, fun hnodup name =>
        CheckReport.finds_iff ?_⟩⟩
    rw [← workspaces_comparisonsIn hresults, List.map_map] at hnodup
    exact hnodup

end Runs

section Relevelling

/-- Two workspaces with files in directories of their own. -/
def relevelledWorkspaces : List Workspace := ["web", "api"].map fun name =>
  ⟨name, [name], [name, ".env.local.example"], [name, ".env.local"]⟩

/-- A tree in which the first workspace lacks one of two required shared variables and makes it
optional, and the second workspace lacks the other. -/
def relevelledWorld : World (Table Path Text) where
  store := [([".env.local.example"], "# [required]\nX=\n# [required]\nY=\n"),
    (["web", ".env.local.example"], "X=\n# [required]\nZ=\n"), (["web", ".env.local"], "Y=1\n"),
    (["api", ".env.local.example"], ""), (["api", ".env.local"], "X=2\n")]

/-- The listing tells of two required variables and one optional variable that the check finds
missing, and of one that is required in the shared schema only. -/
theorem postinstall_agrees_listing :
    ∃ summary after checked last,
      ((postinstall memoryStore {} {} [] relevelledWorkspaces).runFrom relevelledWorld =
          (.ok summary, after) ∧
        (check memoryStore {} {} relevelledWorkspaces).runFrom relevelledWorld =
          (.ok checked, last)) ∧
      (isCi {} [] = false ∧ ∀ workspace ∈ relevelledWorkspaces,
        memoryStore.holds workspace.examplePath relevelledWorld.store = true) ∧
      (summary.missing .required = ["X", "Y", "Z"] ∧ summary.missing .optional = ["X"]) ∧
      (∀ name, checked.Finds .required name ↔ name = "Z" ∨ name = "Y") ∧
      (∀ name, checked.Finds .optional name ↔ name = "X") ∧
        Relevelled [] (memoryView.files relevelledWorld.store) (RunOptions.rootExample {})
          relevelledWorkspaces .required "X" := by
  have hci : isCi {} [] = false := by decide
  have hexamples : ∀ workspace ∈ relevelledWorkspaces,
      memoryStore.holds workspace.examplePath relevelledWorld.store = true := by decide
  have hlisted : (fun summary => (summary.missing .required, summary.missing .optional)) <$>
      ((postinstall memoryStore {} {} [] relevelledWorkspaces).runFrom relevelledWorld).1 =
        .ok (["X", "Y", "Z"], ["X"]) := by decide +kernel
  have hfound : (fun checked => (checked.missing .required, checked.missing .optional)) <$>
      ((check memoryStore {} {} relevelledWorkspaces).runFrom relevelledWorld).1 =
        .ok ([("web", ["Z"]), ("api", ["Y"])], [("web", ["X"])]) := by decide +kernel
  rw [map_eq_pure_bind] at hlisted hfound
  obtain ⟨summary, hsummary, hnames⟩ := exists_of_bind_eq_ok hlisted
  obtain ⟨checked, hchecked, htables⟩ := exists_of_bind_eq_ok hfound
  obtain ⟨hrequired, hoptional⟩ := Prod.mk.inj (Except.ok.inj hnames)
  obtain ⟨hrequiredTable, hoptionalTable⟩ := Prod.mk.inj (Except.ok.inj htables)
  have hrun := Attempt.runFrom_eq_of_fst hsummary
  have hrun' := Attempt.runFrom_eq_of_fst hchecked
  obtain ⟨-, hlevels⟩ := (postinstall_agrees memoryView {} {} [] relevelledWorkspaces
    relevelledWorld trivial hci hexamples).2 summary checked _ _ hrun hrun'
  obtain ⟨-, hlists, hfinds⟩ := hlevels .required (by decide)
  obtain ⟨-, -, hfindsOptional⟩ := hlevels .optional (by decide)
  have hdistinct : (relevelledWorkspaces.map Workspace.name).Nodup := by decide
  have hfindsRequired (name : Text) : checked.Finds .required name ↔ name = "Z" ∨ name = "Y" := by
    rw [hfinds hdistinct, hrequiredTable]
    simp
  refine ⟨summary, _, checked, _, ⟨hrun, hrun'⟩, ⟨hci, hexamples⟩, ⟨hrequired, hoptional⟩,
    hfindsRequired, fun name => ?_, ?_⟩
  · rw [hfindsOptional hdistinct, hoptionalTable]
    simp
  · refine ((hlists "X").mp (hrequired ▸ List.mem_cons_self ..)).resolve_left ?_
    rw [hfindsRequired]
    decide

/-- A shared variable that a workspace makes optional is listed as required although the check finds
it missing as required nowhere. -/
theorem postinstall_lists_relevelled :
    (isCi {} [] = false ∧ ∀ workspace ∈ relevelledWorkspaces,
      memoryStore.holds workspace.examplePath relevelledWorld.store = true) ∧
    ∃ summary after checked last,
      (postinstall memoryStore {} {} [] relevelledWorkspaces).runFrom relevelledWorld =
          (.ok summary, after) ∧
      (check memoryStore {} {} relevelledWorkspaces).runFrom relevelledWorld =
          (.ok checked, last) ∧
      ("X" : Text) ∈ summary.missing .required ∧ ¬ checked.Finds .required "X" := by
  have hlisted : (fun summary => summary.missing .required) <$>
      ((postinstall memoryStore {} {} [] relevelledWorkspaces).runFrom relevelledWorld).1 =
        .ok ["X", "Y", "Z"] := by decide +kernel
  have hfound : (fun checked => checked.results.map fun result =>
      (result.missingOf .required).map Definition.name) <$>
      ((check memoryStore {} {} relevelledWorkspaces).runFrom relevelledWorld).1 =
        .ok [["Z"], ["Y"]] := by decide +kernel
  rw [map_eq_pure_bind] at hlisted hfound
  obtain ⟨summary, hsummary, hnames⟩ := exists_of_bind_eq_ok hlisted
  obtain ⟨checked, hchecked, hresults⟩ := exists_of_bind_eq_ok hfound
  refine ⟨⟨by decide, by decide⟩, summary, _, checked, _, Attempt.runFrom_eq_of_fst hsummary,
    Attempt.runFrom_eq_of_fst hchecked, Except.ok.inj hnames ▸ List.mem_cons_self .., ?_⟩
  rintro ⟨result, hresult, hname⟩
  have hmem : (result.missingOf .required).map Definition.name ∈
      ([["Z"], ["Y"]] : List (List Text)) :=
    Except.ok.inj hresults ▸ List.mem_map_of_mem hresult
  rcases List.mem_cons.mp hmem with heq | hmem
  · rw [heq] at hname
    exact absurd hname (by decide)
  · rw [List.mem_singleton.mp hmem] at hname
    exact absurd hname (by decide)

end Relevelling
end EnvFiles
