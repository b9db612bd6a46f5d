import EnvFiles.Proofs.Resolution.Unattended
import EnvFiles.Proofs.Values.RoundTrip
import EnvFiles.Proofs.Workflow.Kept
import EnvFiles.Proofs.Workflow.Rounds

/-!
# What a pass makes of a values file

Without plugins and questions only the store can make a run fail. A pass over a workspace puts
its updates over the values of the file: a name has a value afterwards if a scan of the schema
fills it. A file that is settled is not written.
-/

namespace EnvFiles

/-- The names, and those with a value, after updates were put over values. -/
structure Overlays (values updates after : Table Text Text) : Prop where
  has : ∀ name, after.has name = (values.has name || updates.has name)
  fills : ∀ name, after.fills name =
    if updates.has name then updates.fills name else values.fills name

section Tables

variable {values updates : Table Text Text}

/-- The updates that change a value, by name. -/
theorem get?_changesTo (hnodup : updates.keys.Nodup) (values : Table Text Text) (name : Text) :
    (changesTo values updates).get? name =
      if values.get? name = updates.get? name then none else updates.get? name := by
  have hsame : changesTo values updates =
      updates.filter fun entry => values.get? entry.1 != updates.get? entry.1 := by
    refine List.filter_congr fun entry hentry => ?_
    rw [Table.get?_of_mem hnodup hentry]
  rw [hsame, Table.get?_filter updates fun name => values.get? name != updates.get? name]
  by_cases heq : values.get? name = updates.get? name <;> simp [heq]

/-- Where only the changes are written, the updates are put over the values. -/
theorem overlays_of_changesTo {after : Table Text Text} (hnodup : updates.keys.Nodup)
    (hkept : ∀ name, (changesTo values updates).get? name = none →
      after.get? name = values.get? name)
    (hchanged : ∀ name value, (changesTo values updates).get? name = some value →
      ∃ written, after.get? name = some written ∧ written.isEmpty = value.isEmpty) :
    Overlays values updates after := by
  have hget (name : Text) : (after.get? name).map List.isEmpty =
      ((updates.get? name).or (values.get? name)).map List.isEmpty := by
    cases hchange : (changesTo values updates).get? name with
    | none =>
      rw [hkept name hchange]
      rw [get?_changesTo hnodup] at hchange
      split at hchange
      · rename_i heq
        rw [heq, Option.or_self]
      · rw [hchange, Option.none_or]
    | some value =>
      obtain ⟨written, hwritten, hempty⟩ := hchanged name value hchange
      rw [get?_changesTo hnodup] at hchange
      split at hchange
      · cases hchange
      · rw [hchange, hwritten]
        exact congrArg some hempty
  refine ⟨fun name => ?_, fun name => ?_⟩
  · have hsome := congrArg Option.isSome (hget name)
    simp only [Option.isSome_map, Option.isSome_or] at hsome
    rw [Table.has, Table.has, Table.has, hsome, Bool.or_comm]
  · have hempty := hget name
    rw [Table.fills_eq, Table.fills_eq, Table.fills_eq, Table.has]
    cases hafter : after.get? name <;> cases hupdate : updates.get? name <;>
      cases hvalue : values.get? name <;> simp_all

/-- An updated value is empty in the file exactly if it was to be empty. -/
theorem isEmpty_written {text name value : Text} (hvalue : ¬ IsBlankOnly value) :
    (Text.trimEnd (lastGap text name ++ value)).isEmpty = value.isEmpty := by
  rw [← isEmpty_trimEnd hvalue, Text.trimEnd_append]
  by_cases hempty : Text.trimEnd value = []
  · rw [if_pos hempty, trimEnd_lastGap, hempty]
  · rw [if_neg hempty, List.isEmpty_eq_false_iff.mpr hempty, List.isEmpty_eq_false_iff]
    exact List.append_ne_nil_of_right_ne_nil _ hempty

/-- What reads back after a tidy file was written with the changes only: it is tidy, and the
updates are put over its values. -/
theorem overlays_of_readsBack {text back : Text} {schema : List Definition}
    (htidy : TidyText text) (hupdates : PlainUpdates updates) (husable : UsableValues updates)
    (hschema : PlainDescriptions schema)
    (hback : ReadsBack (rewriteValues (readValues text)
      (changesTo (readValues text).values updates) schema) back) :
    TidyText back ∧ Overlays (readValues text).values updates (readValues back).values := by
  have hplain : PlainUpdates (changesTo (readValues text).values updates) := hupdates.filter _
  have hwritten := tidyText_rewriteValues htidy hplain hschema
  have hoverlays : Overlays (readValues text).values updates (readValues (rewriteValues
      (readValues text) (changesTo (readValues text).values updates) schema)).values := by
    refine overlays_of_changesTo hupdates.nodup_keys
      (fun name hchange => get?_rewriteValues_of_none htidy.hasPlainEnds hplain hschema hchange)
      fun name value hchange =>
        ⟨_, get?_rewriteValues_of_some htidy hplain hschema hchange, isEmpty_written ?_⟩
    exact (husable _ (List.mem_filter.mp (Table.mem_of_get? hchange)).1).not_isBlankOnly
  rcases hback with hback | hback
  · rw [hback]
    exact ⟨hwritten, hoverlays⟩
  · rw [hback, readValues_values_congr (Text.lines_unifyNewlines _)]
    exact ⟨hwritten.unifyNewlines, hoverlays⟩

/-- Where nothing is to be changed, the values are those with the updates put over them. -/
theorem overlays_self (hnodup : updates.keys.Nodup) (h : changesTo values updates = []) :
    Overlays values updates values := by
  refine overlays_of_changesTo hnodup (fun _ _ => rfl) fun name value hchange => ?_
  rw [h] at hchange
  cases hchange

/-- What the updates complete has a value exactly if a scan fills it. -/
theorem Completes.fills_of_overlays {definitions : List Definition} {after : Table Text Text}
    (h : Completes definitions values updates) (hoverlays : Overlays values updates after) :
    after.fills = fillAll definitions values.fills :=
  funext fun name => (hoverlays.fills name).trans (h.fills name)

/-- What the updates complete has every active variable that is not left out. -/
theorem Completes.has_of_overlays {definitions : List Definition} {after : Table Text Text}
    (h : Completes definitions values updates) (hoverlays : Overlays values updates after) :
    ∀ definition ∈ definitions, definition.isActive = true →
      (unattended [] definition).skipped = false → after.has definition.name = true := by
  intro definition hmem hactive hkept
  rw [hoverlays.has, Bool.or_eq_true]
  cases hfills : values.fills definition.name with
  | true => exact Or.inl (Table.has_of_fills hfills)
  | false =>
    exact Or.inr (h.has_of_missing definition
      (mem_missingFrom.mpr ⟨hmem, hactive, hfills⟩) hkept)

end Tables

/-- The values that a path holds. A path that cannot be read holds none. -/
def valuesOf : Content → Table Text Text
  | .ok text => (readValues (text.getD [])).values
  | .error _ => []

/-- A path that is tidy as far as it can be read. -/
def TidyContent (content : Content) : Prop :=
  ∀ text, content = .ok text → TidyText (text.getD [])

/-- What a path holds can be values. -/
theorem usableValues_valuesOf (content : Content) : UsableValues (valuesOf content) := by
  cases content with
  | error failure => exact fun _ hentry => absurd hentry List.not_mem_nil
  | ok text => exact usableValues_readValues _

/-- A pass over what is missing in a file only has updates for names without a value there. -/
theorem PassOutcome.Supplies.fillsOnly {outcome : PassOutcome} {definitions : List Definition}
    {content : Content}
    (h : outcome.Supplies ((missingFrom definitions (valuesOf content)).map Definition.name))
    (hsound : ∀ definition ∈ definitions, definition.Sound) :
    FillsOnly content outcome.updates where
  plain := h.plainUpdates fun definition hmissing =>
    hsound definition (mem_missingFrom.mp hmissing).1
  lacked text htext entry hentry := by
    obtain ⟨definition, hmissing, hname⟩ :=
      List.mem_map.mp (h.subset_names (List.mem_map_of_mem hentry))
    have hlacks := (mem_missingFrom.mp hmissing).2.2
    rwa [hname, htext, valuesOf] at hlacks

variable {σ : Type} {store : Store σ}

/-- A failure that comes from the store, on reading or writing one of the paths. -/
def StoreView.Fails (view : StoreView store) (paths : List Path) (failure : Failure) : Prop :=
  ∃ path ∈ paths, ∃ state, view.valid state ∧ (view.files state path = .error failure ∨
    ∃ text, (store.write path text state).answer = .error failure)

/-- A failure to update a file: it cannot be read, or something changes and it cannot be written. -/
def StoreView.FailsOn (view : StoreView store) (path : Path) (updates : Table Text Text)
    (world : World σ) (failure : Failure) : Prop :=
  view.files world.store path = .error failure ∨
    (changesTo (valuesOf (view.files world.store path)) updates ≠ [] ∧
      ∃ state text, view.valid state ∧ (store.write path text state).answer = .error failure)

/-- What a path reads as after updates were put over what it held. -/
structure ContentUpdated (updates : Table Text Text) (before after : Content) : Prop where
  readable : ∃ text, after = .ok text
  tidy : TidyContent after
  overlays : Overlays (valuesOf before) updates (valuesOf after)

/-- A world in which updates were put over what a path held, and other files stayed. -/
structure StoreView.Updated (view : StoreView store) (path : Path) (updates : Table Text Text)
    (before after : World σ) : Prop extends view.Changed path before after where
  content : ContentUpdated updates (view.files before.store path) (view.files after.store path)

section Updating

variable {view : StoreView store} {path : Path}

/-- A failure to update a file comes from the store. -/
theorem StoreView.FailsOn.fails {updates : Table Text Text} {world : World σ} {failure : Failure}
    (h : view.FailsOn path updates world failure) (hvalid : view.valid world.store)
    {paths : List Path} (hpath : path ∈ paths) : view.Fails paths failure := by
  rcases h with hunreadable | ⟨-, state, text, hstate, hanswer⟩
  · exact ⟨path, hpath, world.store, hvalid, Or.inl hunreadable⟩
  · exact ⟨path, hpath, state, hstate, Or.inr ⟨text, hanswer⟩⟩

/-- A failure on one of some paths is a failure on one of more paths. -/
theorem StoreView.Fails.mono {paths more : List Path} {failure : Failure}
    (h : view.Fails paths failure) (hsubset : paths ⊆ more) : view.Fails more failure := by
  obtain ⟨path, hpath, hfails⟩ := h
  exact ⟨path, hsubset hpath, hfails⟩

/-- A file that can be read and does not change cannot fail to be updated. -/
theorem StoreView.not_failsOn {updates : Table Text Text} {world : World σ} {failure : Failure}
    (hreadable : ∃ content, view.files world.store path = .ok content)
    (hchanges : changesTo (valuesOf (view.files world.store path)) updates = []) :
    ¬ view.FailsOn path updates world failure := by
  rintro (hunreadable | ⟨hne, -⟩)
  · obtain ⟨content, hcontent⟩ := hreadable
    rw [hcontent] at hunreadable
    cases hunreadable
  · exact hne hchanges

/-- Where nothing is to be changed, reading is as good as an update. -/
theorem StoreView.Same.updated {before after : World σ} (h : view.Same before after)
    (hreadable : ∃ content, view.files before.store path = .ok content)
    (htidy : TidyContent (view.files before.store path)) {updates : Table Text Text}
    (hnodup : updates.keys.Nodup)
    (hchanges : changesTo (valuesOf (view.files before.store path)) updates = []) :
    view.Updated path updates before after := by
  refine ⟨⟨h.valid, fun other _ _ => congrFun h.files other⟩, ?_⟩
  rw [h.files]
  exact ⟨hreadable, htidy, overlays_self hnodup hchanges⟩

/-- Reading before an update. -/
theorem StoreView.Updated.of_same {first second third : World σ} {updates : Table Text Text}
    (h : view.Same first second) (h' : view.Updated path updates second third) :
    view.Updated path updates first third where
  valid := h'.valid
  others other hother hne := (h'.others other hother hne).trans (congrFun h.files other)
  content := h.files ▸ h'.content

/-- Reading after an update. -/
theorem StoreView.Updated.before_same {first second third : World σ} {updates : Table Text Text}
    (h : view.Updated path updates first second) (h' : view.Same second third) :
    view.Updated path updates first third where
  valid := h'.valid
  others other hother hne := (congrFun h'.files other).trans (h.others other hother hne)
  content := by
    rw [h'.files]
    exact h.content

/-- An update of a tidy file puts the updates over its values. It writes only if something
changes, and only the store can make it fail. -/
theorem endsIn_applyUpdates_tidy {world : World σ} (hvalid : view.valid world.store)
    (hcovers : view.covers path)
    (htidy : TidyContent (view.files world.store path)) {updates : Table Text Text}
    (hupdates : PlainUpdates updates) (husable : UsableValues updates)
    {schema : List Definition} (hschema : PlainDescriptions schema) :
    (applyUpdates store path updates schema).EndsIn world
      (fun changes after => view.Updated path updates world after ∧
        changes = changesTo (valuesOf (view.files world.store path)) updates ∧
          (changes = [] → view.Same world after))
      fun failure _ => view.FailsOn path updates world failure := by
  refine endsIn_applyUpdates hvalid hcovers (fun failure after hfailure _ => Or.inl hfailure)
    (fun content after hcontent hchanges hsame => ?_)
    (fun content after hcontent hne hafter => ?_)
    fun content failure text state after hcontent hne hstate hfailure _ =>
      Or.inr ⟨by rwa [hcontent], state, text, hstate, hfailure⟩
  · have hnone : changesTo (valuesOf (view.files world.store path)) updates = [] := by
      rwa [hcontent]
    exact ⟨hsame.updated ⟨content, hcontent⟩ htidy hupdates.nodup_keys hnone, hnone.symm,
      fun _ => hsame⟩
  · obtain ⟨back, hback, hreads⟩ :=
      hafter.files_of_sameFile path hcovers (view.sameFile_equivalence.refl path)
    obtain ⟨hbackTidy, hoverlays⟩ :=
      overlays_of_readsBack (htidy content hcontent) hupdates husable hschema hreads
    refine ⟨⟨⟨hafter.valid, hafter.files_of_not_sameFile⟩, ?_⟩, by rw [hcontent, valuesOf],
      fun hnil => absurd hnil hne⟩
    rw [hback, hcontent]
    refine ⟨⟨some back, rfl⟩, fun text htext => ?_, hoverlays⟩
    obtain rfl := Except.ok.inj htext
    exact hbackTidy

/-- What is missing in a comparison. -/
theorem missing_compare (schema : List Definition) (values : Table Text Text)
    (workspace : Workspace) (sharedValues : Option (Table Text Text)) (sharedNames : List Text) :
    (compare schema values workspace sharedValues sharedNames).missing =
      missingFrom schema values := by
  simp only [compare, missingFrom, Definition.isActive, List.filter_filter]
  exact List.filter_congr fun definition _ => Bool.and_comm ..

/-- A pass over the variables of a workspace reads its files and resolves what is missing among the
definitions that are not left out. -/
theorem endsIn_reconcileWorkspace_of {registry : Registry} {options : RunOptions}
    {world : World σ} (hvalid : view.valid world.store) {workspace : Workspace}
    {schema : List Definition}
    (hschema : schemaIn registry.patterns (view.files world.store) options.rootExample workspace =
      .ok schema)
    (sharedValues : Option (Table Text Text)) (sharedNames leftOut : List Text)
    {done : Reconciliation → World σ → Prop} {failed : Failure → World σ → Prop}
    (hunreadable : ∀ failure after,
      view.files world.store workspace.valuesPath = .error failure → failed failure after)
    (hpass : ∀ middle, view.Same world middle →
      (∃ content, view.files world.store workspace.valuesPath = .ok content) →
      (DeskStep.ofPass (valuesOf (view.files world.store workspace.valuesPath))
        (resolveMissing registry (options.scope workspace) {} (missingFrom
          (schema.filter fun definition => !leftOut.contains definition.name)
          (valuesOf (view.files world.store workspace.valuesPath))))).EndsIn middle.desk
        (fun outcome desk => done ⟨compare schema
          (valuesOf (view.files world.store workspace.valuesPath)) workspace sharedValues
          sharedNames, outcome⟩ { middle with desk })
        fun failure desk => failed failure { middle with desk }) :
    (reconcileWorkspace store registry options workspace sharedValues sharedNames
      leftOut).EndsIn world done failed := by
  refine (computes_workspaceSchema view registry.patterns _ workspace).endsIn_bind hvalid hschema
    fun first hfirst => ?_
  rw [Attempt.endsIn_bind]
  refine (computes_readValuesFile view workspace.valuesPath).endsIn hfirst.valid
    (fun file second hfile hsecond => ?_) fun failure _ hfailure _ => ?_
  · have hsame := hfirst.trans hsecond
    rw [hfirst.files] at hfile
    obtain ⟨content, hcontent, hread⟩ := exists_of_bind_eq_ok hfile
    obtain rfl := Except.ok.inj hread
    simp only [Attempt.endsIn_bind, Attempt.endsIn_pure, Run.ofPass, Run.endsIn_atDesk,
      missing_compare]
    have hheld : (readValues (content.getD [])).values =
        valuesOf (view.files world.store workspace.valuesPath) := by rw [hcontent, valuesOf]
    have hmissing (values : Table Text Text) :
        (missingFrom schema values).filter (fun definition => !leftOut.contains definition.name) =
          missingFrom (schema.filter fun definition => !leftOut.contains definition.name)
            values := by
      rw [missingFrom, missingFrom, List.filter_filter, List.filter_filter]
      exact List.filter_congr fun definition _ => Bool.and_comm ..
    rw [hheld, hmissing]
    exact hpass second hsame ⟨content, hcontent⟩
  · rw [hfirst.files] at hfailure
    exact hunreadable failure _ (eq_error_of_valuesIn hfailure)

/-- A pass over the variables of a workspace leaves the store. What it comes to is determined by the
schema and by what the values file holds. -/
theorem endsIn_reconcileWorkspace_determined {registry : Registry} {options : RunOptions}
    (hplugins : registry.plugins = []) (hinteractive : options.interactive = false)
    {world : World σ} (hvalid : view.valid world.store) {workspace : Workspace}
    {schema : List Definition}
    (hschema : schemaIn registry.patterns (view.files world.store) options.rootExample workspace =
      .ok schema)
    (sharedValues : Option (Table Text Text)) (sharedNames leftOut : List Text) :
    let values := valuesOf (view.files world.store workspace.valuesPath)
    (reconcileWorkspace store registry options workspace sharedValues sharedNames
      leftOut).EndsIn world
      (fun reconciliation after => view.Same world after ∧
        (∃ content, view.files world.store workspace.valuesPath = .ok content) ∧
          reconciliation = ⟨compare schema values workspace sharedValues sharedNames,
            (unattendedPass values {} (missingFrom
              (schema.filter fun definition => !leftOut.contains definition.name) values)).2⟩)
      fun failure _ => view.files world.store workspace.valuesPath = .error failure := by
  refine endsIn_reconcileWorkspace_of hvalid hschema sharedValues sharedNames leftOut
    (fun _ _ hunreadable => hunreadable) fun middle hsame hreadable => ?_
  have hscope : (options.scope workspace).interactive = false := hinteractive
  refine (Attempt.endsIn_onPart ..).mpr ((endsIn_resolveMissing_unattended hplugins hscope
    _ {} _).mono (fun outcome pass houtcome => ?_) fun _ _ h => h.elim)
  exact ⟨⟨hsame.valid, hsame.files, houtcome.2.trans hsame.replies, hsame.unwritten⟩,
    hreadable, congrArg _ houtcome.1⟩

/-- A pass over the variables of a workspace leaves the store, and comes to the updates of a scan
of the definitions that are not left out. -/
theorem endsIn_reconcileWorkspace_unattended {registry : Registry} {options : RunOptions}
    (hplugins : registry.plugins = []) (hinteractive : options.interactive = false)
    {world : World σ} (hvalid : view.valid world.store) {workspace : Workspace}
    {schema : List Definition}
    (hschema : schemaIn registry.patterns (view.files world.store) options.rootExample workspace =
      .ok schema)
    (sharedValues : Option (Table Text Text)) (sharedNames leftOut : List Text) :
    (reconcileWorkspace store registry options workspace sharedValues sharedNames
      leftOut).EndsIn world
      (fun reconciliation after => view.Same world after ∧
        (∃ content, view.files world.store workspace.valuesPath = .ok content) ∧
          reconciliation.outcome.updates =
            passUpdates (schema.filter fun definition => !leftOut.contains definition.name)
              (valuesOf (view.files world.store workspace.valuesPath)))
      fun failure _ => view.files world.store workspace.valuesPath = .error failure :=
  (endsIn_reconcileWorkspace_determined hplugins hinteractive hvalid hschema sharedValues
    sharedNames leftOut).mono
    (fun reconciliation _ h => ⟨h.1, h.2.1, by rw [h.2.2, passUpdates]⟩) fun _ _ h => h

end Updating

section Orderly

/-- The example files of a run. -/
def examplePaths (options : RunOptions) (workspaces : List Workspace) : List Path :=
  options.rootExample :: workspaces.map Workspace.examplePath

/-- A run without plugins and questions in an orderly tree: the example files can be read, and
none of them is among the given values files. The values files are tidy as far as they can be
read, and no two workspaces have one in common. -/
structure StoreView.Orderly (view : StoreView store) (registry : Registry) (options : RunOptions)
    (workspaces : List Workspace) (targets : List Path) (world : World σ) : Prop where
  plugins_eq_nil : registry.plugins = []
  interactive_eq_false : options.interactive = false
  valid : view.valid world.store
  covers : ∀ path ∈ targets, view.covers path
  covers_example : ∀ path ∈ examplePaths options workspaces, view.covers path
  pairwise_not_sameFile : workspaces.Pairwise fun first second =>
    ¬ view.sameFile first.valuesPath second.valuesPath
  not_sameFile_example : ∀ path ∈ targets, ∀ other ∈ examplePaths options workspaces,
    ¬ view.sameFile path other
  exists_schema : ∀ workspace ∈ workspaces, ∃ schema,
    schemaIn registry.patterns (view.files world.store) options.rootExample workspace = .ok schema
  not_isBlankOnly_of_mem_literals : ∀ workspace ∈ workspaces, ∀ schema,
    schemaIn registry.patterns (view.files world.store) options.rootExample workspace = .ok schema →
      ∀ definition ∈ schema, ∀ literal ∈ definition.directive.literals, ¬ IsBlankOnly literal
  tidy : ∀ path ∈ targets, ∀ text, view.files world.store path = .ok (some text) → TidyText text

variable {view : StoreView store} {registry : Registry} {options : RunOptions}
  {workspaces : List Workspace} {targets : List Path}

/-- Every definition of an effective schema is tame. -/
theorem StoreView.Orderly.tame {world : World σ}
    (h : view.Orderly registry options workspaces targets world) {workspace : Workspace}
    (hmem : workspace ∈ workspaces) {schema : List Definition}
    (hschema : schemaIn registry.patterns (view.files world.store) options.rootExample workspace =
      .ok schema) :
    ∀ definition ∈ schema, definition.Tame := fun definition hdefinition =>
  { toSound := (soundSchema_schemaIn hschema).sound_of_mem definition hdefinition
    not_isBlankOnly_of_mem_literals :=
      h.not_isBlankOnly_of_mem_literals workspace hmem schema hschema definition hdefinition }

/-- A values file is tidy at the start. -/
theorem StoreView.Orderly.tidyContent {world : World σ}
    (h : view.Orderly registry options workspaces targets world) {path : Path}
    (hpath : path ∈ targets) : TidyContent (view.files world.store path) := by
  intro content hcontent
  cases content with
  | none => exact tidyText_nil
  | some text => exact h.tidy path hpath text hcontent

/-- Workspaces of an orderly tree have files of their own. -/
theorem StoreView.Orderly.apart {world : World σ}
    (h : view.Orderly registry options workspaces targets world)
    (hsubset : workspaces.map Workspace.valuesPath ⊆ targets) :
    view.Apart (examplePaths options workspaces) Workspace.valuesPath workspaces where
  covers _ hmem := h.covers _ (hsubset (List.mem_map_of_mem hmem))
  covers_fixed := h.covers_example
  not_sameFile_fixed _ hmem := h.not_sameFile_example _ (hsubset (List.mem_map_of_mem hmem))
  pairwise := h.pairwise_not_sameFile

/-- The effective schema only depends on the example files. -/
theorem StoreView.Steady.schemaIn_eq {start world : World σ}
    (h : view.Steady (examplePaths options workspaces) start world) {workspace : Workspace}
    (hmem : workspace ∈ workspaces) :
    schemaIn registry.patterns (view.files world.store) options.rootExample workspace =
      schemaIn registry.patterns (view.files start.store) options.rootExample workspace := by
  have hroot := h.files options.rootExample (List.mem_cons_self ..)
  have hown := h.files workspace.examplePath
    (List.mem_cons_of_mem _ (List.mem_map_of_mem (f := Workspace.examplePath) hmem))
  simp only [schemaIn, exampleIn, hroot, hown]

end Orderly

end EnvFiles
