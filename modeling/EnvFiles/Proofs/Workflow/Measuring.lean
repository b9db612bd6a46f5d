import EnvFiles.Proofs.Example.Overriding
import EnvFiles.Proofs.Store.OnTree
import EnvFiles.Proofs.Workflow.Postinstall

/-!
# What a status measures

A status holds the values of every workspace against those of the root's file, as they stand there.
Anywhere else an empty value counts as none. Here a shared name that the root's file holds with an
empty value is measured too, and every value that a workspace has for it is reported as an override,
although there is no other value from which it could differ.
-/

namespace EnvFiles

section Schemas

variable {patterns : List DirectivePattern} {files : Files} {rootExample : Path}
  {workspace : Workspace} {root : Schema} {schema : List Definition} {name : Text}

/-- An effective schema declares every name of the root's schema. -/
theorem exists_mem_schemaIn (hroot : exampleIn patterns files rootExample = .ok root)
    (hschema : schemaIn patterns files rootExample workspace = .ok schema)
    (hname : name ∈ root.names) : ∃ definition ∈ schema, definition.name = name := by
  obtain ⟨shared, hshared, hrest⟩ := exists_of_bind_eq_ok hschema
  obtain rfl := Except.ok.inj (hroot.symm.trans hshared)
  rw [← List.mem_map]
  split at hrest
  · exact Except.ok.inj hrest ▸ hname
  · obtain ⟨specific, -, hmerged⟩ := exists_of_bind_eq_ok hrest
    obtain rfl := Except.ok.inj hmerged
    rw [(mergeDefinitions_overrides root.definitions specific.definitions []).2.1,
      mem_firstOccurrences]
    exact List.mem_append_left _ hname

/-- A workspace offers a value for a shared name that its effective schema does not call
deprecated. -/
structure Offers (root : Schema) (schema : List Definition) (own : Table Text Text)
    (name value : Text) : Prop where
  mem_names : name ∈ root.names
  not_deprecated : ∀ definition ∈ schema, definition.name = name →
    definition.requirement ≠ .deprecated
  filled?_eq : own.filled? name = some value

/-- A comparison with the root's values reports what a workspace offers for a name that these
values hold, empty or not, and not with the same value. -/
theorem get?_overrides_iff_offers (hroot : exampleIn patterns files rootExample = .ok root)
    (hschema : schemaIn patterns files rootExample workspace = .ok schema)
    (own held : Table Text Text) (value : Text) :
    (compare schema own workspace (some held) root.names).overrides.get? name = some value ↔
      Offers root schema own name value ∧
        ((∃ other, held.filled? name = some other ∧ other ≠ value) ∨
          held.get? name = some []) := by
  have hactive : name ∈ root.names →
      ((∃ definition ∈ schema, definition.isActive = true ∧ definition.name = name) ↔
        ∀ definition ∈ schema, definition.name = name → definition.requirement ≠ .deprecated) := by
    intro hname
    simp only [Definition.isActive, decide_eq_true_eq]
    obtain ⟨declared, hdeclared, rfl⟩ := exists_mem_schemaIn hroot hschema hname
    constructor
    · rintro ⟨definition, hmem, hlevel, hsame⟩ other hother hsame'
      have hnodup := (soundSchema_schemaIn hschema).nodup_names
      obtain rfl := List.inj_on_of_nodup_map hnodup hmem hother (hsame.trans hsame'.symm)
      exact hlevel
    · exact fun h => ⟨declared, hdeclared, h declared hdeclared rfl, rfl⟩
  -- A value that a workspace offers is not empty, so it differs from an empty one.
  have hheld : own.filled? name = some value →
      ((∃ other, held.get? name = some other ∧ other ≠ value) ↔
        (∃ other, held.filled? name = some other ∧ other ≠ value) ∨ held.get? name = some []) := by
    intro hvalue
    have hne := (Table.filled?_eq_some_iff.mp hvalue).2
    simp only [Table.filled?_eq_some_iff]
    constructor
    · rintro ⟨other, hother, hdiffers⟩
      by_cases hempty : other = []
      · exact Or.inr (hempty ▸ hother)
      · exact Or.inl ⟨other, ⟨hother, hempty⟩, hdiffers⟩
    · rintro (⟨other, ⟨hother, -⟩, hdiffers⟩ | hempty)
      · exact ⟨other, hother, hdiffers⟩
      · exact ⟨[], hempty, hne.symm⟩
  rw [get?_overrides_compare]
  constructor
  · rintro ⟨hdeclared, hname, hvalue, hother⟩
    exact ⟨⟨hname, (hactive hname).mp hdeclared, hvalue⟩, (hheld hvalue).mp hother⟩
  · rintro ⟨⟨hname, hdeclared, hvalue⟩, hother⟩
    exact ⟨(hactive hname).mpr hdeclared, hname, hvalue, (hheld hvalue).mpr hother⟩

end Schemas

section Statuses

variable (patterns : List DirectivePattern) (files : Files) (options : RunOptions)
  (workspaces : List Workspace)

/-- The files that a status reads can be read: the example and values files of the root and of
every workspace. -/
structure StatusReadable : Prop where
  rootExample : ∃ root, exampleIn patterns files options.rootExample = .ok root
  rootValues : ∃ text, files options.rootValues = .ok text
  example_values : ∀ workspace ∈ workspaces,
    (∃ own, exampleIn patterns files workspace.examplePath = .ok own) ∧
      ∃ text, files workspace.valuesPath = .ok text

/-- A report has a result for each workspace in order, with the overrides that the root's values
make of what the workspace offers. -/
def CheckReport.Measures (report : CheckReport) : Prop :=
  report.results.map Comparison.workspace = workspaces ∧
    ∃ root, exampleIn patterns files options.rootExample = .ok root ∧
      ∀ result ∈ report.results, ∃ schema,
        schemaIn patterns files options.rootExample result.workspace = .ok schema ∧
          ∀ name value, result.overrides.get? name = some value ↔
            Offers root schema (valuesOf (files result.workspace.valuesPath)) name value ∧
              ((∃ other, (valuesOf (files options.rootValues)).filled? name = some other ∧
                  other ≠ value) ∨
                (valuesOf (files options.rootValues)).get? name = some [])

variable {patterns files options workspaces}

/-- What a status comes to. -/
theorem measures_of_status {σ : Type} {store : Store σ} (view : StoreView store)
    (registry : Registry) (options : RunOptions) (workspaces : List Workspace) {world : World σ}
    (hvalid : view.valid world.store) :
    (status store registry options workspaces).EndsIn world
      (fun report _ => StatusReadable registry.patterns (view.files world.store) options workspaces ∧
        report.Measures registry.patterns (view.files world.store) options workspaces)
      fun _ _ => ¬ StatusReadable registry.patterns (view.files world.store) options workspaces := by
  refine (computes_status view registry options workspaces).endsIn hvalid
    (fun report _ hreport _ => ?_) fun failure _ hfailure _ hreadable => ?_
  · obtain ⟨root, hroot, hrest⟩ := exists_of_bind_eq_ok hreport
    obtain ⟨held, hheld, hrest⟩ := exists_of_bind_eq_ok hrest
    obtain ⟨results, hresults, hdone⟩ := exists_of_bind_eq_ok hrest
    obtain rfl := Except.ok.inj hdone
    obtain ⟨text, htext, hdone⟩ := exists_of_bind_eq_ok hheld
    obtain rfl := Except.ok.inj hdone
    have hreadable := exists_comparisonsIn_iff.mp ⟨results, hresults⟩
    refine ⟨⟨⟨root, hroot⟩, ⟨text, htext⟩, fun workspace hmem =>
      ⟨(hreadable workspace hmem).2.2, (hreadable workspace hmem).1⟩⟩,
      workspaces_comparisonsIn hresults, root, hroot, fun result hresult => ?_⟩
    obtain ⟨workspace, hmem, hcompared⟩ := (mem_comparisonsIn hresults).mp hresult
    obtain ⟨schema, hschema⟩ := exists_schemaIn_iff.mpr (hreadable workspace hmem).2
    rw [comparisonIn_eq_ok hschema (hreadable workspace hmem).1] at hcompared
    obtain rfl := Except.ok.inj hcompared
    rw [htext]
    exact ⟨schema, hschema, fun name value => get?_overrides_iff_offers hroot hschema _ _ value⟩
  · obtain ⟨⟨root, hroot⟩, ⟨text, htext⟩, hworkspaces⟩ := hreadable
    obtain ⟨results, hresults⟩ : ∃ results, comparisonsIn registry.patterns
        (view.files world.store) options.rootExample (some (readValues (text.getD [])).values)
        root.names workspaces = .ok results :=
      exists_comparisonsIn_iff.mpr fun workspace hmem =>
        ⟨(hworkspaces workspace hmem).2, ⟨root, hroot⟩, (hworkspaces workspace hmem).1⟩
    simp only [hroot, valuesIn, htext] at hfailure
    cases hfailure.symm.trans (congrArg (fun results : Except Failure (List Comparison) =>
      results >>= fun results => pure (⟨results⟩ : CheckReport)) hresults)

/-- No path at all. -/
def Layout.nowhere : Layout where
  covers _ := False
  place? _ := none
  eq_of_isPrefixOf _ _ h := h.elim

/-- A status of a tree returns exactly if the example and values files of the root and of every
workspace can be read. Then it has a result for each workspace in order. It reports what a workspace
offers for a shared name exactly if the root's file holds another value for it that is not empty, or
holds the name with an empty value. -/
theorem status_measures (root : Node) (registry : Registry) (options : RunOptions)
    (workspaces : List Workspace) (desk : Desk) :
    (status treeStore registry options workspaces).EndsIn ⟨root, desk⟩
      (fun report _ => StatusReadable registry.patterns (readFile root) options workspaces ∧
        report.Measures registry.patterns (readFile root) options workspaces)
      fun _ _ => ¬ StatusReadable registry.patterns (readFile root) options workspaces :=
  measures_of_status (treeView Layout.nowhere) registry options workspaces
    fun _ hcovers => hcovers.elim

section Empty

/-- A tree whose root's file holds the one shared name with an empty value. -/
def emptyRootTree : Node := .folder [
  (".env.local", .file (Node.encode "X=\n")),
  (".env.local.example", .file (Node.encode "X=\n")),
  ("web", .folder [(".env.local", .file (Node.encode "X=1\n"))])]

/-- The value of a workspace is reported as an override although the root's file has no value that
is not empty. -/
theorem status_measures_empty :
    (readFile emptyRootTree [".env.local"] = .ok (some "X=\n") ∧
      (valuesOf (.ok (some "X=\n"))).filled? "X" = none) ∧
    ∃ report after,
      (status treeStore {} {} [⟨"web", ["web"], ["web", ".env.local.example"],
        ["web", ".env.local"]⟩]).runFrom ⟨emptyRootTree, {}⟩ = (.ok report, after) ∧
      report.results.map Comparison.overrides = ([[("X", "1")]] : List (Table Text Text)) := by
  refine ⟨⟨by decide +kernel, by decide⟩, ?_⟩
  have hoverrides : (fun report : CheckReport => report.results.map Comparison.overrides) <$>
      ((status treeStore {} {} [⟨"web", ["web"], ["web", ".env.local.example"],
        ["web", ".env.local"]⟩]).runFrom ⟨emptyRootTree, {}⟩).1 =
        .ok ([[("X", "1")]] : List (Table Text Text)) := by decide +kernel
  exact Attempt.exists_of_map_fst hoverrides

end Empty

end Statuses
end EnvFiles
