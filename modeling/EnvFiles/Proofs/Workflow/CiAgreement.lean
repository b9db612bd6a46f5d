import EnvFiles.Proofs.Resolution.Claimant
import EnvFiles.Proofs.Workflow.Postinstall
import EnvFiles.Workflow.CiCheck

/-!
# Where the check of a continuous-integration run and the local check agree

Both checks classify the definitions of an effective schema, the one by the variables of the
process and the other by the values file of the workspace. Where the process has values for the
same names as the file, they put every active definition in the same place, apart from those whose
directive kind is skipped, which the first check lists by themselves. No name is listed twice and
none is left out.
-/

namespace EnvFiles

/-- A section of a check against the environment shows what a comparison shows for the kinds of
directives that are not skipped. Together its lists hold the names of the active definitions, once
each, and every list keeps the order of the schema. -/
structure CiSection.Mirrors (part : CiSection) (skipKinds : List Text) (schema : List Definition)
    (result : Comparison) : Prop where
  workspace : part.workspace = result.workspace.name
  present : part.present = (result.valid.filter fun definition =>
    definition.directive.kind ∉ skipKinds).map Definition.name
  missingRequired : part.missingRequired = ((result.missingOf .required).filter fun definition =>
    definition.directive.kind ∉ skipKinds).map Definition.name
  missingOptional : part.missingOptional = ((result.missingOf .optional).filter fun definition =>
    definition.directive.kind ∉ skipKinds).map Definition.name
  skipped : part.skipped = (schema.filter fun definition => definition.requirement ≠ .deprecated ∧
    definition.directive.kind ∈ skipKinds).map Definition.name
  perm : (part.present ++ part.missingRequired ++ part.missingOptional ++ part.skipped).Perm
    ((schema.filter fun definition => definition.requirement ≠ .deprecated).map Definition.name)
  nodup : (part.present ++ part.missingRequired ++ part.missingOptional ++ part.skipped).Nodup
  inOrder : ∀ names ∈ [part.present, part.missingRequired, part.missingOptional, part.skipped],
    names.Sublist (schema.map Definition.name)

section Sections

variable {schema : List Definition} {environ values : Table Text Text}

/-- The lists of a section hold the names of the active definitions. -/
theorem perm_ciSection (schema : List Definition) (environ : Table Text Text)
    (skipKinds : List Text) (workspace : Text) :
    let part := ciSection schema environ skipKinds workspace
    (part.present ++ part.missingRequired ++ part.missingOptional ++ part.skipped).Perm
      ((schema.filter fun definition => definition.requirement ≠ .deprecated).map
        Definition.name) := by
  let active := schema.filter fun definition => definition.requirement ≠ .deprecated
  let checked := active.filter fun definition => !skipKinds.contains definition.directive.kind
  let missing := checked.filter fun definition => !environ.fills definition.name
  have hlevels : (missing.filter Definition.isRequired ++
      missing.filter fun definition => !definition.isRequired).Perm missing :=
    List.filter_append_perm _ missing
  have hchecked : ((checked.filter fun definition => environ.fills definition.name) ++
      missing).Perm checked := List.filter_append_perm _ checked
  have hactive : (checked ++ active.filter fun definition =>
      skipKinds.contains definition.directive.kind).Perm active :=
    List.perm_append_comm.trans (List.filter_append_perm _ active)
  intro part
  have hparts : (checked.filter fun definition => environ.fills definition.name) ++
      (missing.filter Definition.isRequired ++
        missing.filter fun definition => !definition.isRequired) ++
      (active.filter fun definition => skipKinds.contains definition.directive.kind) |>.Perm
        active :=
    ((hlevels.append_left _).trans hchecked).append_right _ |>.trans hactive
  have hnames := hparts.map Definition.name
  simp only [List.map_append, ← List.append_assoc] at hnames
  exact hnames

/-- Every list of a section keeps the order of the schema. -/
theorem sublist_ciSection (schema : List Definition) (environ : Table Text Text)
    (skipKinds : List Text) (workspace : Text) :
    let part := ciSection schema environ skipKinds workspace
    ∀ names ∈ [part.present, part.missingRequired, part.missingOptional, part.skipped],
      names.Sublist (schema.map Definition.name) := by
  have hchosen {items : List Definition} (h : items.Sublist schema) (keep : Definition → Bool) :
      (items.filter keep).Sublist schema := List.filter_sublist.trans h
  have hactive := hchosen (List.Sublist.refl schema) fun definition =>
    definition.requirement ≠ .deprecated
  have hchecked := hchosen hactive fun definition =>
    !skipKinds.contains definition.directive.kind
  have hmissing := hchosen hchecked fun definition => !environ.fills definition.name
  intro part names hnames
  simp only [List.mem_cons, List.not_mem_nil, or_false] at hnames
  rcases hnames with rfl | rfl | rfl | rfl
  · exact (hchosen hchecked _).map _
  · exact (hchosen hmissing _).map _
  · exact (hchosen hmissing _).map _
  · exact (hchosen hactive _).map _

/-- Where the environment fills the names of a schema that the values fill, a section shows what
the comparison shows. -/
theorem mirrors_ciSection (hnodup : (schema.map Definition.name).Nodup)
    (h : ∀ definition ∈ schema, environ.fills definition.name = values.fills definition.name)
    (skipKinds : List Text) (workspace : Workspace) (sharedValues : Option (Table Text Text))
    (sharedNames : List Text) :
    (ciSection schema environ skipKinds workspace.name).Mirrors skipKinds schema
      (compare schema values workspace sharedValues sharedNames) where
  workspace := rfl
  present := by
    simp only [ciSection, compare, List.filter_filter]
    refine congrArg _ (List.filter_congr fun definition hmem => ?_)
    rw [h definition hmem]
    simp [Bool.and_comm, Bool.and_left_comm, Bool.and_assoc]
  missingRequired := by
    simp only [ciSection, compare, Comparison.missingOf, List.filter_filter]
    refine congrArg _ (List.filter_congr fun definition hmem => ?_)
    rw [h definition hmem]
    cases hlevel : definition.requirement <;>
      simp [Definition.isRequired, hlevel, Bool.and_comm]
  missingOptional := by
    simp only [ciSection, compare, Comparison.missingOf, List.filter_filter]
    refine congrArg _ (List.filter_congr fun definition hmem => ?_)
    rw [h definition hmem]
    cases hlevel : definition.requirement <;>
      simp [Definition.isRequired, hlevel, Bool.and_comm]
  skipped := by
    simp only [ciSection, List.filter_filter]
    refine congrArg _ (List.filter_congr fun definition _ => ?_)
    simp [Bool.and_comm]
  perm := perm_ciSection schema environ skipKinds workspace.name
  nodup := (perm_ciSection schema environ skipKinds workspace.name).nodup_iff.mpr
    ((List.filter_sublist.map Definition.name).nodup hnodup)
  inOrder := sublist_ciSection schema environ skipKinds workspace.name

end Sections

section Meaning

variable (patterns : List DirectivePattern) (files : Files) (rootExample : Path)
  (environ : Table Text Text) (skipKinds : List Text)

/-- How the variables of workspaces stand in an environment. -/
def ciSectionsIn : List Workspace → Except Failure (List CiSection)
  | [] => return []
  | workspace :: rest => do
    let schema ← schemaIn patterns files rootExample workspace
    return ciSection schema environ skipKinds workspace.name :: (← ciSectionsIn rest)

variable {patterns files rootExample environ skipKinds}

/-- Sections are there when the effective schemas are. -/
theorem exists_ciSectionsIn_iff {workspaces : List Workspace} :
    (∃ parts, ciSectionsIn patterns files rootExample environ skipKinds workspaces = .ok parts) ↔
      ∀ workspace ∈ workspaces, ∃ schema,
        schemaIn patterns files rootExample workspace = .ok schema := by
  induction workspaces with
  | nil => exact ⟨fun _ _ hmem => absurd hmem List.not_mem_nil, fun _ => ⟨[], rfl⟩⟩
  | cons workspace rest ih =>
    rw [List.forall_mem_cons, ← ih]
    constructor
    · rintro ⟨parts, hparts⟩
      obtain ⟨schema, hschema, hrest⟩ := exists_of_bind_eq_ok hparts
      obtain ⟨others, hothers, -⟩ := exists_of_bind_eq_ok hrest
      exact ⟨⟨schema, hschema⟩, others, hothers⟩
    · rintro ⟨⟨schema, hschema⟩, others, hothers⟩
      refine ⟨ciSection schema environ skipKinds workspace.name :: others, ?_⟩
      rw [ciSectionsIn, hschema, hothers]
      rfl

/-- The sections and the comparisons of the same workspaces belong together one by one. -/
theorem forall₂_ciSectionsIn {workspaces : List Workspace} {parts : List CiSection}
    {results : List Comparison} {sharedValues : Option (Table Text Text)}
    {sharedNames : List Text}
    (hparts : ciSectionsIn patterns files rootExample environ skipKinds workspaces = .ok parts)
    (hresults : comparisonsIn patterns files rootExample sharedValues sharedNames workspaces =
      .ok results) :
    List.Forall₂ (fun result part => ∃ schema,
      schemaIn patterns files rootExample result.workspace = .ok schema ∧
        ((∀ definition ∈ schema, environ.fills definition.name =
          (valuesOf (files result.workspace.valuesPath)).fills definition.name) →
            part.Mirrors skipKinds schema result)) results parts := by
  induction workspaces generalizing parts results with
  | nil =>
    obtain rfl := Except.ok.inj hparts
    obtain rfl := Except.ok.inj hresults
    exact .nil
  | cons workspace rest ih =>
    obtain ⟨schema, hschema, hothers⟩ := exists_of_bind_eq_ok hparts
    obtain ⟨otherParts, hotherParts, hdone⟩ := exists_of_bind_eq_ok hothers
    obtain rfl := Except.ok.inj hdone
    obtain ⟨result, hresult, hothers⟩ := exists_of_bind_eq_ok hresults
    obtain ⟨otherResults, hotherResults, hdone⟩ := exists_of_bind_eq_ok hothers
    obtain rfl := Except.ok.inj hdone
    have hreadable := (exists_comparisonsIn_iff.mp ⟨_, hresults⟩) workspace (List.mem_cons_self ..)
    rw [comparisonIn_eq_ok hschema hreadable.1] at hresult
    obtain rfl := Except.ok.inj hresult
    refine .cons ⟨schema, hschema, fun hagree => ?_⟩ (ih hotherParts hotherResults)
    exact mirrors_ciSection (soundSchema_schemaIn hschema).nodup_names hagree ..

end Meaning

section Runs

variable {σ : Type} {store : Store σ} (view : StoreView store) (registry : Registry)
  (options : RunOptions) (environ : Table Text Text)

/-- Comparing workspaces with an environment only reads. -/
theorem computes_ciSections (workspaces : List Workspace) :
    (ciSections store registry options environ workspaces).Computes view fun files =>
      ciSectionsIn registry.patterns files options.rootExample environ
        options.config.ci.skipDirectives workspaces := by
  induction workspaces with
  | nil => exact .pure _
  | cons workspace rest ih =>
    exact (computes_workspaceSchema view registry.patterns _ workspace).bind
      fun _ => ih.bind fun _ => .pure _

/-- A check against an environment that does not ask for skipping comes to sections. -/
theorem runFrom_ciCheck (workspaces : List Workspace) {world : World σ}
    (hvalid : view.valid world.store) (hskip : shouldSkip options.config environ = false) :
    ((ciCheck store registry options environ workspaces).runFrom world).1 =
      (fun sections => ⟨false, detectedPlatform options.config environ, sections⟩) <$>
        ciSectionsIn registry.patterns (view.files world.store) options.rootExample environ
          options.config.ci.skipDirectives workspaces := by
  have hrun : Run.Computes view
      (do
        return { platform := detectedPlatform options.config environ
                 sections := ← ciSections store registry options environ workspaces })
      fun files => do
        return (⟨false, detectedPlatform options.config environ,
          ← ciSectionsIn registry.patterns files options.rootExample environ
            options.config.ci.skipDirectives workspaces⟩ : CiReport) :=
    (computes_ciSections view registry options environ workspaces).bind fun _ => .pure _
  rw [ciCheck, hskip, if_neg Bool.false_ne_true, (hrun world hvalid).1, map_eq_pure_bind]

/-- In an environment that does not ask for skipping, the local check returns exactly if the check
against the environment does and every values file can be read. Then both go through the workspaces
in order, and where the environment fills the names of an effective schema that the values file
fills, in particular where it has the same values for them, the section of the workspace shows what
the comparison shows. -/
theorem ciCheck_agrees (workspaces : List Workspace) (world : World σ)
    (hvalid : view.valid world.store) (hskip : shouldSkip options.config environ = false) :
    ((∃ checked last, (check store registry options workspaces).runFrom world =
          (.ok checked, last)) ↔
        (∃ report after, (ciCheck store registry options environ workspaces).runFrom world =
          (.ok report, after)) ∧
        ∀ workspace ∈ workspaces, ∃ text,
          view.files world.store workspace.valuesPath = .ok text) ∧
      ∀ checked report last after,
        (check store registry options workspaces).runFrom world = (.ok checked, last) →
        (ciCheck store registry options environ workspaces).runFrom world = (.ok report, after) →
          report.skipped = false ∧ checked.results.map Comparison.workspace = workspaces ∧
          List.Forall₂ (fun result part => ∃ schema,
            schemaIn registry.patterns (view.files world.store) options.rootExample
                result.workspace = .ok schema ∧
              ((∀ definition ∈ schema, environ.fills definition.name =
                (valuesOf (view.files world.store result.workspace.valuesPath)).fills
                  definition.name) →
                part.Mirrors options.config.ci.skipDirectives schema result))
            checked.results report.sections := by
  have hchecking := runFrom_check view registry options workspaces hvalid
  have hci := runFrom_ciCheck view registry options environ workspaces hvalid hskip
  refine ⟨?_, fun checked report last after hchecked hreport => ?_⟩
  · rw [Attempt.exists_runFrom_iff, Attempt.exists_runFrom_iff, hchecking, hci,
      exists_map_eq_ok_iff, exists_map_eq_ok_iff, exists_comparisonsIn_iff,
      exists_ciSectionsIn_iff, ← forall₂_and]
    refine forall₂_congr fun workspace _ => ?_
    rw [exists_schemaIn_iff]
    exact and_comm
  · rw [hchecked, map_eq_pure_bind] at hchecking
    rw [hreport, map_eq_pure_bind] at hci
    obtain ⟨results, hresults, hdone⟩ := exists_of_bind_eq_ok hchecking.symm
    obtain rfl := Except.ok.inj hdone
    obtain ⟨parts, hparts, hdone⟩ := exists_of_bind_eq_ok hci.symm
    obtain rfl := Except.ok.inj hdone
    exact ⟨rfl, workspaces_comparisonsIn hresults, forall₂_ciSectionsIn hparts hresults⟩

/-- A workspace whose schema holds a deprecated variable, plain ones, one to be asked for and two of
plugins. -/
def mixedWorkspace : Workspace :=
  ⟨"web", ["web"], ["web", ".env.local.example"], ["web", ".env.local"]⟩

/-- Its files: one required variable is empty, and the plugins' variables have no values. -/
def mixedWorld : World (Table Path Text) where
  store := [
    ([".env.local.example"], "# [deprecated]\nOLD=\n# [required]\nA=\n# [prompt]\nP=\nB=\n"),
    (["web", ".env.local.example"], "# [required] [two]\nS=\n# [one]\nV=\nC=\n"),
    (["web", ".env.local"], "OLD=1\nA=\nB=2\nP=3\nX=4\n")]

/-- The environment of a run: the values of the file and the mark of a platform. -/
def mixedEnviron : Table Text Text :=
  [("CI", "true"), ("OLD", "1"), ("A", ""), ("B", "2"), ("P", "3")]

/-- A configuration that skips variables to be asked for and those of one plugin. -/
def mixedOptions : RunOptions := { config := { ci := { skipDirectives := ["prompt", "vault"] } } }

/-- Of the active variables one has a value, two required ones and an optional one have none, and
two are skipped, one with and one without a value. -/
theorem ciCheck_agrees_mixed :
    ∃ checked report last after result schema,
      ((check memoryStore overlappingRegistry mixedOptions [mixedWorkspace]).runFrom mixedWorld =
          (.ok checked, last) ∧
        (ciCheck memoryStore overlappingRegistry mixedOptions mixedEnviron
          [mixedWorkspace]).runFrom mixedWorld = (.ok report, after)) ∧
      shouldSkip mixedOptions.config mixedEnviron = false ∧ checked.results = [result] ∧
      report.sections = [⟨"web", ["B"], ["A", "S"], ["C"], ["P", "V"]⟩] ∧
      CiSection.Mirrors ⟨"web", ["B"], ["A", "S"], ["C"], ["P", "V"]⟩ ["prompt", "vault"] schema
        result := by
  have hskip : shouldSkip mixedOptions.config mixedEnviron = false := by decide
  have hsections : CiReport.sections <$> ((ciCheck memoryStore overlappingRegistry mixedOptions
      mixedEnviron [mixedWorkspace]).runFrom mixedWorld).1 =
        .ok [⟨"web", ["B"], ["A", "S"], ["C"], ["P", "V"]⟩] := by decide +kernel
  have hnames : List.map Definition.name <$> schemaIn overlappingRegistry.patterns
      (memoryView.files mixedWorld.store) mixedOptions.rootExample mixedWorkspace =
        .ok ["OLD", "A", "P", "B", "S", "V", "C"] := by decide +kernel
  have hfills : ∀ name ∈ (["OLD", "A", "P", "B", "S", "V", "C"] : List Text),
      mixedEnviron.fills name =
        (valuesOf (memoryView.files mixedWorld.store mixedWorkspace.valuesPath)).fills name := by
    decide +kernel
  obtain ⟨hreturns, hagrees⟩ := ciCheck_agrees memoryView overlappingRegistry mixedOptions
    mixedEnviron [mixedWorkspace] mixedWorld trivial hskip
  rw [map_eq_pure_bind] at hsections hnames
  obtain ⟨report, hreport, hdone⟩ := exists_of_bind_eq_ok hsections
  obtain ⟨schema, hschema, hlisted⟩ := exists_of_bind_eq_ok hnames
  have hrun := Attempt.runFrom_eq_of_fst hreport
  obtain ⟨checked, last, hchecked⟩ := hreturns.mpr ⟨⟨report, _, hrun⟩, by simp [memoryView]⟩
  obtain ⟨-, hworkspaces, hmirrors⟩ := hagrees checked report _ _ hchecked hrun
  rw [Except.ok.inj hdone] at hmirrors
  obtain ⟨result, others, ⟨found, hfound, hmirror⟩, hothers, hresults⟩ :=
    List.forall₂_cons_right_iff.mp hmirrors
  obtain rfl := List.forall₂_nil_right_iff.mp hothers
  have hworkspace : result.workspace = mixedWorkspace := by
    rw [hresults] at hworkspaces
    exact List.head_eq_of_cons_eq hworkspaces
  rw [hworkspace, hschema] at hfound
  obtain rfl := Except.ok.inj hfound
  refine ⟨checked, report, last, _, result, schema, ⟨hchecked, hrun⟩, hskip, hresults,
    Except.ok.inj hdone, hmirror fun definition hmem => ?_⟩
  rw [hworkspace]
  exact hfills _ (Except.ok.inj hlisted ▸ List.mem_map_of_mem hmem)

end Runs

end EnvFiles
