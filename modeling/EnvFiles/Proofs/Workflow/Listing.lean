import EnvFiles.Proofs.Discovery.Workspaces
import EnvFiles.Store.OnTree
import EnvFiles.Workflow.Check

/-!
# What the tables of a check list

A check has a result for each workspace. Its tables list the names of the results under the names of
the workspaces, and under one name only the last result that has any. Workspaces are found by their
folders, so two of them can have one name. Then the names of the earlier one are lost, save those
that the last one has as well; nothing is lost as long as the names of the workspaces differ.
-/

namespace EnvFiles

open Node

variable {σ : Type} {store : Store σ}

/-- The names that a result has at a level: those of missing variables, or at the deprecated level
those still present. -/
def Comparison.namesAt (result : Comparison) : Requirement → List Text
  | .deprecated => result.deprecated
  | level => (result.missingOf level).map Definition.name

namespace CheckReport

variable {report : CheckReport} {level : Requirement} {result : Comparison} {name : Text}

/-- The table of a report for a level. -/
def table (report : CheckReport) : Requirement → Table Text (List Text)
  | .deprecated => report.deprecated
  | level => report.missing level

/-- The last result with names at a level whose workspace has the given name. -/
def last? (report : CheckReport) (level : Requirement) (workspace : Text) : Option Comparison :=
  report.results.reverse.find? fun result =>
    result.workspace.name == workspace && !(result.namesAt level).isEmpty

/-- The table for a level lists a name under the name of a workspace. -/
def Lists (report : CheckReport) (level : Requirement) (workspace name : Text) : Prop :=
  ∃ listed, (report.table level).get? workspace = some listed ∧ name ∈ listed

/-- Every name of every result is listed under the name of its workspace. -/
def LosesNothing (report : CheckReport) (level : Requirement) : Prop :=
  ∀ result ∈ report.results, ∀ name ∈ result.namesAt level,
    report.Lists level result.workspace.name name

instance (report : CheckReport) (level : Requirement) (workspace name : Text) :
    Decidable (report.Lists level workspace name) :=
  decidable_of_iff (((report.table level).get? workspace).any (·.contains name) = true) <| by
    cases h : (report.table level).get? workspace <;> simp [Lists, h]

instance (report : CheckReport) (level : Requirement) : Decidable (report.LosesNothing level) :=
  inferInstanceAs (Decidable (∀ result ∈ report.results, ∀ name ∈ result.namesAt level,
    report.Lists level result.workspace.name name))

section Tables

/-- The tables list what the results have at their levels. -/
theorem table_eq (report : CheckReport) (level : Requirement) :
    report.table level = report.listed fun result => result.namesAt level := by
  cases level <;> rfl

/-- The entry of a workspace name comes from the first result with names that has it. -/
theorem get?_entries (names : Comparison → List Text) (results : List Comparison)
    (workspace : Text) :
    Table.get? (results.filterMap fun result =>
        match names result with
        | [] => none
        | found => some (result.workspace.name, found)) workspace =
      (results.find? fun result =>
        result.workspace.name == workspace && !(names result).isEmpty).map names := by
  induction results with
  | nil => rfl
  | cons result rest ih =>
    rw [List.filterMap_cons]
    cases hnames : names result with
    | nil => rw [ih, List.find?_cons_of_neg (by simp [hnames])]
    | cons first others =>
      by_cases hname : result.workspace.name = workspace
      · rw [List.find?_cons_of_pos (by simp [hname, hnames])]
        simp [Table.get?, hname, hnames]
      · rw [List.find?_cons_of_neg (by simp [hname]), ← ih]
        simp [Table.get?, hname]

/-- Under the name of a workspace the table has the names of the last result with names. -/
theorem get?_table (report : CheckReport) (level : Requirement) (workspace : Text) :
    (report.table level).get? workspace =
      (report.last? level workspace).map fun result => result.namesAt level := by
  rw [table_eq, listed, Table.get?_ofEntries, ← List.filterMap_reverse]
  exact get?_entries _ _ _

/-- A name is listed when the last result with names has it. -/
theorem lists_iff {workspace : Text} :
    report.Lists level workspace name ↔
      ∃ last, report.last? level workspace = some last ∧ name ∈ last.namesAt level := by
  simp only [Lists, get?_table, Option.map_eq_some_iff]
  constructor
  · rintro ⟨_, ⟨last, hlast, rfl⟩, hname⟩
    exact ⟨last, hlast, hname⟩
  · rintro ⟨last, hlast, hname⟩
    exact ⟨_, ⟨last, hlast, rfl⟩, hname⟩

/-- The last result with names is a result under that name. -/
theorem mem_of_last? {workspace : Text} (h : report.last? level workspace = some result) :
    result ∈ report.results ∧ result.workspace.name = workspace := by
  have hfound := List.find?_some h
  rw [Bool.and_eq_true, beq_iff_eq] at hfound
  exact ⟨List.mem_reverse.mp (List.mem_of_find?_eq_some h), hfound.1⟩

/-- Where a result has names there is a last one that does. -/
theorem exists_last? (hresult : result ∈ report.results) (hname : name ∈ result.namesAt level) :
    ∃ last, report.last? level result.workspace.name = some last := by
  rw [← Option.isSome_iff_exists, last?, List.find?_isSome]
  refine ⟨result, List.mem_reverse.mpr hresult, ?_⟩
  simp [List.ne_nil_of_mem hname]

/-- Nothing is lost exactly if the last result under each name has all names of the earlier ones. -/
theorem losesNothing_iff :
    report.LosesNothing level ↔ ∀ result ∈ report.results, ∀ last,
      report.last? level result.workspace.name = some last →
        result.namesAt level ⊆ last.namesAt level := by
  simp only [LosesNothing, lists_iff]
  constructor
  · intro h result hresult last hlast name hname
    obtain ⟨other, hother, hlisted⟩ := h result hresult name hname
    obtain rfl := Option.some.inj (hlast.symm.trans hother)
    exact hlisted
  · intro h result hresult name hname
    obtain ⟨last, hlast⟩ := exists_last? hresult hname
    exact ⟨last, hlast, h result hresult last hlast hname⟩

/-- Nothing is lost where the names of the workspaces differ. -/
theorem losesNothing_of_nodup
    (h : (report.results.map fun result => result.workspace.name).Nodup) (level : Requirement) :
    report.LosesNothing level := by
  rw [losesNothing_iff]
  intro result hresult last hlast
  obtain ⟨hmem, hname⟩ := mem_of_last? hlast
  rw [List.inj_on_of_nodup_map h hmem hresult hname]
  exact List.Subset.refl _

end Tables

end CheckReport

section Checks

variable {registry : Registry} {options : RunOptions} {sharedValues : Option (Table Text Text)}
  {sharedNames : List Text} {before after : World σ}

/-- The result of a workspace tells of it. -/
theorem workspace_of_checkWorkspace {workspace : Workspace} {result : Comparison}
    (h : (checkWorkspace store registry options sharedValues sharedNames workspace).runFrom before =
      (.ok result, after)) : result.workspace = workspace := by
  obtain ⟨schema, _, -, h⟩ := Attempt.exists_of_runFrom_bind h
  obtain ⟨file, _, -, h⟩ := Attempt.exists_of_runFrom_bind h
  obtain rfl := Except.ok.inj (congrArg Prod.fst h)
  rfl

/-- The results tell of the workspaces in their order. -/
theorem workspaces_of_checkWorkspaces {workspaces : List Workspace} {results : List Comparison}
    (h : (checkWorkspaces store registry options sharedValues sharedNames workspaces).runFrom
      before = (.ok results, after)) : results.map Comparison.workspace = workspaces := by
  induction workspaces generalizing before after results with
  | nil =>
    obtain rfl := Except.ok.inj (congrArg Prod.fst h)
    rfl
  | cons workspace rest ih =>
    obtain ⟨result, _, hresult, h⟩ := Attempt.exists_of_runFrom_bind h
    obtain ⟨others, _, hothers, h⟩ := Attempt.exists_of_runFrom_bind h
    obtain rfl := Except.ok.inj (congrArg Prod.fst h)
    rw [List.map_cons, workspace_of_checkWorkspace hresult, ih hothers]

/-- So do those of a check. -/
theorem workspaces_of_check {workspaces : List Workspace} {report : CheckReport}
    (h : (check store registry options workspaces).runFrom before = (.ok report, after)) :
    report.results.map Comparison.workspace = workspaces := by
  obtain ⟨results, _, hresults, h⟩ := Attempt.exists_of_runFrom_bind h
  obtain rfl := Except.ok.inj (congrArg Prod.fst h)
  exact workspaces_of_checkWorkspaces hresults

end Checks

/-- A check of workspaces that were found has a result for each of them, all in different folders.
A name of a result is listed under the name of its workspace exactly if the last result with names
under that name has it. So nothing is lost at a level exactly if these last results have all names
of the earlier ones there, as they do when the names of the workspaces differ or the workspaces
stand side by side. -/
theorem check_lists (store : Store σ) (config : Config) (disk : Node) (project : Path)
    (registry : Registry) (options : RunOptions) (workspaces : List Workspace) (desk found : Desk)
    (world after : World σ) (report : CheckReport)
    (hfound : (discoverWorkspaces config disk project).runFrom desk = (.ok workspaces, found))
    (hcheck : (check store registry options workspaces).runFrom world = (.ok report, after)) :
    (report.results.map Comparison.workspace = workspaces ∧
      (workspaces.map Workspace.path).Nodup) ∧
    ∀ level,
      (∀ result ∈ report.results, ∀ name ∈ result.namesAt level,
        ∃ last ∈ report.results, last.workspace.name = result.workspace.name ∧
          report.last? level result.workspace.name = some last ∧
          (report.Lists level result.workspace.name name ↔ name ∈ last.namesAt level)) ∧
      (report.LosesNothing level ↔ ∀ result ∈ report.results, ∀ last,
        report.last? level result.workspace.name = some last →
          result.namesAt level ⊆ last.namesAt level) ∧
      ((workspaces.map Workspace.name).Nodup ∨ SideBySide workspaces →
        report.LosesNothing level) := by
  have hworkspaces := workspaces_of_check hcheck
  refine ⟨⟨hworkspaces, nodup_of_discoverWorkspaces hfound⟩, fun level =>
    ⟨fun result hresult name hname => ?_, CheckReport.losesNothing_iff, fun hapart => ?_⟩⟩
  · obtain ⟨last, hlast⟩ := CheckReport.exists_last? hresult hname
    obtain ⟨hmem, hsame⟩ := CheckReport.mem_of_last? hlast
    refine ⟨last, hmem, hsame, hlast, ?_⟩
    simp only [CheckReport.lists_iff, hlast, Option.some.injEq, exists_eq_left']
  · have hnodup : (workspaces.map Workspace.name).Nodup :=
      hapart.elim id (nodup_names_of_sideBySide hfound)
    rw [← hworkspaces, List.map_map] at hnodup
    exact CheckReport.losesNothing_of_nodup hnodup level

section Namesakes

/-- Two workspaces in different folders, each with a required variable of its own. -/
def twoFoldersTree (second : Text) : Node := .folder [
  ("apps", .folder [("web", .folder [
    (".env.local.example", .file (encode "# [required]\nA=\n")),
    ("package.json", .file (encode "{}"))])]),
  ("packages", .folder [(second, .folder [
    (".env.local.example", .file (encode "# [required]\nB=\n")),
    ("package.json", .file (encode "{}"))])])]

/-- These workspaces. -/
def twoFolders (second : Text) : List Workspace :=
  [workspaceAt {} ["apps", "web"], workspaceAt {} ["packages", second]]

/-- They are found in this order if their names are in order. -/
theorem discoverWorkspaces_twoFoldersTree (second : Text)
    (hfound : packagesFound (twoFoldersTree second) [] ["apps/*", "packages/*"] =
      .ok [["apps", "web"], ["packages", second]])
    (hsorted : (twoFolders second).Pairwise fun first second =>
      Text.precedes first.name second.name) :
    (discoverWorkspaces {} (twoFoldersTree second) []).runFrom {} =
      (.ok (twoFolders second), {}) :=
  runFrom_discoverWorkspaces rfl hfound (List.cons_ne_nil _ _) hsorted

/-- A check of these workspaces. -/
def checkTwoFolders (second : Text) : Run Node CheckReport :=
  check treeStore {} {} (twoFolders second)

/-- With different names both workspaces are listed. -/
theorem check_lists_apart :
    (discoverWorkspaces {} (twoFoldersTree "worker") []).runFrom {} =
      (.ok (twoFolders "worker"), {}) ∧
    ∃ report after,
      (checkTwoFolders "worker").runFrom ⟨twoFoldersTree "worker", {}⟩ = (.ok report, after) ∧
      report.table .required =
        ([("web", ["A"]), ("worker", ["B"])] : List (Text × List Text)) ∧
      ∀ level, report.LosesNothing level := by
  have hfound := discoverWorkspaces_twoFoldersTree "worker" (by decide +kernel) (by decide +kernel)
  have htable : (fun report : CheckReport => report.table .required) <$>
      ((checkTwoFolders "worker").runFrom ⟨twoFoldersTree "worker", {}⟩).1 =
        .ok ([("web", ["A"]), ("worker", ["B"])] : List (Text × List Text)) := by decide +kernel
  obtain ⟨report, after, hcheck, hlisted⟩ := Attempt.exists_of_map_fst htable
  obtain ⟨-, hlevels⟩ := check_lists treeStore {} (twoFoldersTree "worker") [] {} {} _ {} {} _
    after report hfound hcheck
  exact ⟨hfound, report, after, hcheck, hlisted, fun level =>
    (hlevels level).2.2 (Or.inl (by decide))⟩

/-- With one name only the last of them is, and what the first one lacks is lost. -/
theorem check_lists_namesakes :
    (discoverWorkspaces {} (twoFoldersTree "web") []).runFrom {} =
      (.ok (twoFolders "web"), {}) ∧
    ∃ report after,
      (checkTwoFolders "web").runFrom ⟨twoFoldersTree "web", {}⟩ = (.ok report, after) ∧
      report.results.map (fun result => result.namesAt .required) =
        ([["A"], ["B"]] : List (List Text)) ∧
      report.table .required = ([("web", ["B"])] : List (Text × List Text)) ∧
      ¬ report.LosesNothing .required := by
  have hfound := discoverWorkspaces_twoFoldersTree "web" (by decide +kernel) (by decide +kernel)
  have htable : (fun report : CheckReport => report.table .required) <$>
      ((checkTwoFolders "web").runFrom ⟨twoFoldersTree "web", {}⟩).1 =
        .ok ([("web", ["B"])] : List (Text × List Text)) := by decide +kernel
  have hlost : (fun report : CheckReport =>
      (report.results.map fun result => result.namesAt .required,
        decide (report.LosesNothing .required))) <$>
          ((checkTwoFolders "web").runFrom ⟨twoFoldersTree "web", {}⟩).1 =
      .ok (([["A"], ["B"]] : List (List Text)), false) := by decide +kernel
  obtain ⟨report, after, hcheck, hlisted⟩ := Attempt.exists_of_map_fst htable
  rw [hcheck] at hlost
  obtain ⟨hnames, hlost⟩ := Prod.mk.inj (Except.ok.inj hlost)
  exact ⟨hfound, report, after, hcheck, hnames, hlisted, of_decide_eq_false hlost⟩

end Namesakes
end EnvFiles
