import EnvFiles.Proofs.Workflow.Distribution

/-!
# The passes over the members alone

Such a pass resolves the variables that a member does not share. Whatever is replied, each of them
has a value afterwards, or stands in the file with an empty one that its definition can come to, or
is reported as skipped. The pass touches no shared name that the member does not own, so it leaves
what the shared pass distributed. A sync that returned did the shared pass and then these passes.
-/

namespace EnvFiles

variable {σ : Type} {store : Store σ}

/-- A report that goes on from an earlier one. -/
structure SyncReport.Extends (report next : SyncReport) : Prop where
  required : report.skippedRequired <+: next.skippedRequired
  optional : report.skippedOptional <+: next.skippedOptional

/-- The skipped names of the requirement of a definition. -/
def SyncReport.skippedLike (report : SyncReport) (definition : Definition) : List Text :=
  if definition.isRequired then report.skippedRequired else report.skippedOptional

/-- How a variable stands after a pass over it: it has a value, or an empty one that its definition
can come to, or it was reported as skipped. -/
def SyncReport.Serves (report : SyncReport) (values : Table Text Text)
    (definition : Definition) : Prop :=
  values.fills definition.name = true ∨
    (definition.mayBeEmpty = true ∧ values.has definition.name = true) ∨
      definition.name ∈ report.skippedLike definition

/-- The names of a file that the passes over members alone may touch: all but the shared ones that
the member of the file does not own. -/
def StoreView.touchedAlone (view : StoreView store) (sharedNames : List Text)
    (members : List Member) (path : Path) (name : Text) : Prop :=
  ∃ member ∈ members, view.sameFile member.valuesPath path ∧
    (name ∈ sharedNames → member.owns name = true)

section Reports

variable {report next last : SyncReport}

/-- A report goes on from itself. -/
theorem SyncReport.Extends.refl (report : SyncReport) : report.Extends report :=
  ⟨List.prefix_refl _, List.prefix_refl _⟩

/-- A report that goes on twice goes on. -/
theorem SyncReport.Extends.trans (h : report.Extends next) (h' : next.Extends last) :
    report.Extends last :=
  ⟨h.required.trans h'.required, h.optional.trans h'.optional⟩

/-- What was skipped stays skipped. -/
theorem SyncReport.Extends.skippedLike (h : report.Extends next) (definition : Definition) :
    report.skippedLike definition ⊆ next.skippedLike definition := by
  unfold SyncReport.skippedLike
  split
  · exact h.required.subset
  · exact h.optional.subset

/-- A variable stays served when values are kept and the report goes on. -/
theorem SyncReport.Serves.mono {values after : Table Text Text} {definition : Definition}
    (h : report.Serves values definition) (hkept : ValuesKept values after)
    (hextends : report.Extends next) : next.Serves after definition := by
  rcases h with hfills | ⟨hempty, hhas⟩ | hskipped
  · exact Or.inl (hkept.fills_of_fills hfills)
  · exact Or.inr (Or.inl ⟨hempty, hkept.has_of_has _ hhas⟩)
  · exact Or.inr (Or.inr (hextends.skippedLike definition hskipped))

/-- The name of a variable that a pass skipped is among those of its requirement. -/
theorem PassOutcome.Accounts.mem_skipped {outcome : PassOutcome} {definitions : List Definition}
    (h : outcome.Accounts definitions) {definition : Definition} (hmem : definition ∈ definitions)
    (hlacks : outcome.updates.has definition.name = false) :
    definition.name ∈
      if definition.isRequired then outcome.skippedRequired else outcome.skippedOptional := by
  split
  · rename_i hrequired
    rw [h.skippedRequired_eq]
    exact List.mem_map_of_mem (List.mem_filter.mpr ⟨hmem, by simp [hrequired, hlacks]⟩)
  · rename_i hrequired
    rw [h.skippedOptional_eq]
    exact List.mem_map_of_mem (List.mem_filter.mpr ⟨hmem, by simp [hrequired, hlacks]⟩)

/-- A pass over a member alone has no update for a shared name that the member does not own. -/
theorem owns_of_has_updates {root : Schema} {member : Member} {schema : List Definition}
    {values : Table Text Text} {outcome : PassOutcome}
    (haccounts : outcome.Accounts (missingFrom (member.ownDefinitions root.names schema) values))
    {name : Text} (hname : outcome.updates.has name = true) (hshared : name ∈ root.names) :
    member.owns name = true := by
  cases howns : member.owns name with
  | true => rfl
  | false =>
    have hnone : name ∉ (missingFrom (member.ownDefinitions root.names schema) values).map
        Definition.name := by
      intro hmissing
      refine Member.notMem_ownDefinitions schema hshared howns ?_
      exact (List.filter_sublist.map Definition.name).subset hmissing
    rw [haccounts.has_eq_false hnone] at hname
    cases hname

/-- After a pass over what was missing, with its updates put over the values, every active variable
is served. -/
theorem serves_of_accounts {definitions : List Definition} {values after : Table Text Text}
    {outcome : PassOutcome} (haccounts : outcome.Accounts (missingFrom definitions values))
    (hoverlays : Overlays values outcome.updates after)
    (hrequired : next.skippedRequired = report.skippedRequired ++ outcome.skippedRequired)
    (hoptional : next.skippedOptional = report.skippedOptional ++ outcome.skippedOptional)
    {definition : Definition} (hmem : definition ∈ definitions)
    (hactive : definition.isActive = true) : next.Serves after definition := by
  have hfills := hoverlays.fills definition.name
  cases hvalues : values.fills definition.name with
  | true =>
    have hnone : outcome.updates.has definition.name = false := by
      refine haccounts.has_eq_false fun hname => ?_
      obtain ⟨other, hother, heq⟩ := List.mem_map.mp hname
      rw [← heq, (mem_missingFrom.mp hother).2.2] at hvalues
      cases hvalues
    rw [hnone, if_neg Bool.false_ne_true, hvalues] at hfills
    exact Or.inl hfills
  | false =>
    have hmissing := mem_missingFrom.mpr ⟨hmem, hactive, hvalues⟩
    cases hhas : outcome.updates.has definition.name with
    | false =>
      have hskipped := haccounts.mem_skipped hmissing hhas
      refine Or.inr (Or.inr ?_)
      rw [SyncReport.skippedLike, hrequired, hoptional]
      split at hskipped
      · rw [if_pos ‹_›]
        exact List.mem_append_right _ hskipped
      · rw [if_neg ‹_›]
        exact List.mem_append_right _ hskipped
    | true =>
      rw [hhas, if_pos rfl] at hfills
      obtain ⟨value, hget⟩ := Table.has_iff.mp hhas
      rw [Table.fills_eq outcome.updates, hget, Option.getD_some] at hfills
      by_cases hempty : value = []
      · subst hempty
        refine Or.inr (Or.inl ⟨haccounts.mayBeEmpty definition hmissing hget, ?_⟩)
        rw [hoverlays.has, hhas, Bool.or_true]
      · refine Or.inl (hfills.trans ?_)
        rw [List.isEmpty_eq_false_iff.mpr hempty]
        rfl

end Reports

section Schemas

variable {patterns : List DirectivePattern} {files : Files} {rootExample : Path} {root : Schema}
  {workspaces : List Workspace} {members : List Member}

/-- A member owns what its workspace declares itself. -/
theorem ownNamesIn_of_mem_membersIn
    (h : membersIn patterns files rootExample workspaces = .ok members) :
    ∀ member ∈ members, ownNamesIn patterns files rootExample member.workspace =
      .ok member.own := by
  induction workspaces generalizing members with
  | nil =>
    obtain rfl := Except.ok.inj h
    exact fun _ hmem => absurd hmem List.not_mem_nil
  | cons workspace rest ih =>
    obtain ⟨own, hown, hrest⟩ := exists_of_bind_eq_ok h
    obtain ⟨more, hmore, hcons⟩ := exists_of_bind_eq_ok hrest
    obtain rfl := Except.ok.inj hcons
    exact List.forall_mem_cons.mpr ⟨hown, ih hmore⟩

/-- The effective schema of a member, in which every definition that it does not own is that of the
root. -/
theorem exists_schemaIn_of_mem (hroot : exampleIn patterns files rootExample = .ok root)
    (hmembers : membersIn patterns files rootExample workspaces = .ok members) {member : Member}
    (hmem : member ∈ members) :
    ∃ schema, schemaIn patterns files rootExample member.workspace = .ok schema ∧
      ∀ definition ∈ schema, member.owns definition.name = false →
        definition ∈ root.definitions := by
  have hown := ownNamesIn_of_mem_membersIn hmembers member hmem
  rw [schemaIn, hroot]
  by_cases hexample : member.workspace.examplePath = rootExample
  · exact ⟨root.definitions, if_pos hexample, fun _ hdefinition _ => hdefinition⟩
  · rw [ownNamesIn, if_neg hexample] at hown
    cases hspecific : exampleIn patterns files member.workspace.examplePath with
    | error failure =>
      rw [hspecific] at hown
      cases hown
    | ok specific =>
      rw [hspecific] at hown
      obtain hnames : specific.names = member.own := Except.ok.inj hown
      refine ⟨mergeDefinitions root.definitions specific.definitions, if_neg hexample,
        fun definition hdefinition howns => ?_⟩
      rcases mem_or_mem_of_mem_mergeDefinitions hdefinition with hshared | hdeclared
      · exact hshared
      · have hname : definition.name ∈ member.own :=
          hnames ▸ List.mem_map_of_mem hdeclared
        rw [Member.owns, List.contains_iff_mem.mpr hname] at howns
        cases howns

end Schemas

/-- What the pass over a member alone leaves: its file can be read, and each active variable that is
resolved for it alone is served. -/
structure StoreView.Passed (view : StoreView store) (sharedNames : List Text) (member : Member)
    (schema : List Definition) (report : SyncReport) (world : World σ) : Prop where
  readable : ∃ text, view.files world.store member.valuesPath = .ok text
  serves : ∀ definition ∈ member.ownDefinitions sharedNames schema, definition.isActive = true →
    report.Serves (valuesOf (view.files world.store member.valuesPath)) definition

section Passes

variable {view : StoreView store} {registry : Registry} {options : RunOptions}
  {workspaces : List Workspace} {root : Schema} {members : List Member} {start world : World σ}

/-- A pass stays as it left a member when values are kept and the report goes on. -/
theorem StoreView.Passed.mono {sharedNames : List Text} {member : Member}
    {schema : List Definition} {report next : SyncReport} {after : World σ}
    (h : view.Passed sharedNames member schema report world)
    (hpath : view.covers member.valuesPath)
    (htidy : TidyContent (view.files world.store member.valuesPath))
    (hkeeps : view.Keeps world after) (hextends : report.Extends next) :
    view.Passed sharedNames member schema next after where
  readable := hkeeps.readable hpath h.readable
  serves definition hmem hactive :=
    (h.serves definition hmem hactive).mono (hkeeps.valuesKept hpath htidy) hextends

variable (hprepared : view.Prepared registry options workspaces start)
  (hmembers : members.map Member.workspace = workspaces)

include hprepared hmembers

/-- The definitions that are resolved for a member alone are tame and have distinct names. -/
theorem tame_and_nodup_ownDefinitions {member : Member} (hmem : member ∈ members)
    {schema : List Definition}
    (hschema : schemaIn registry.patterns (view.files start.store) options.rootExample
      member.workspace = .ok schema) (sharedNames : List Text) :
    (∀ definition ∈ member.ownDefinitions sharedNames schema, definition.Tame) ∧
      ((member.ownDefinitions sharedNames schema).map Definition.name).Nodup := by
  have hworkspace : member.workspace ∈ workspaces := hmembers ▸ List.mem_map_of_mem hmem
  refine ⟨fun definition hdefinition => ?_, ?_⟩
  · exact hprepared.tame_schemaIn hworkspace hschema definition
      (List.mem_filter.mp hdefinition).1
  · exact (soundSchema_schemaIn hschema).nodup_names.sublist
      (List.filter_sublist.map Definition.name)

/-- Resolving the variables of a member alone leaves the files and accounts for those that have no
value in its own. -/
theorem endsIn_reconcileWorkspace_accounts (hongoing : view.Ongoing options workspaces start world)
    {member : Member} (hmem : member ∈ members) {schema : List Definition}
    (hschema : schemaIn registry.patterns (view.files start.store) options.rootExample
      member.workspace = .ok schema)
    (sharedValues : Option (Table Text Text)) (sharedNames : List Text) :
    (reconcileWorkspace store registry options member.workspace sharedValues sharedNames
      (sharedNames.filter fun name => !member.owns name)).EndsIn world
      (fun reconciliation after => (view.Ongoing options workspaces start after ∧
        view.files after.store = view.files world.store) ∧
        reconciliation.outcome.Accounts (missingFrom (member.ownDefinitions sharedNames schema)
          (valuesOf (view.files world.store member.valuesPath))))
      fun _ _ => True := by
  have hworkspace : member.workspace ∈ workspaces := hmembers ▸ List.mem_map_of_mem hmem
  obtain ⟨htame, hnodup⟩ := tame_and_nodup_ownDefinitions hprepared hmembers hmem hschema
    sharedNames
  refine endsIn_reconcileWorkspace_of hongoing.valid
    ((hongoing.toSteady.schemaIn_eq hworkspace).trans hschema) _ _ _ (fun _ _ _ => trivial)
      fun middle hmiddle _ => ?_
  refine (accounts_ofPass hprepared.plugins_eq_nil (fun definition hmissing => htame definition
    (mem_missingFrom.mp hmissing).1) (hnodup.sublist (List.filter_sublist.map _))
      (usableValues_valuesOf _) (fun definition hmissing => (mem_missingFrom.mp hmissing).2.2)
        (hmiddle.replies ▸ hongoing.replies)).mono (fun outcome desk houtcome => ?_)
          fun _ _ _ => trivial
  exact ⟨⟨hongoing.of_files hmiddle.valid hmiddle.files houtcome.2, hmiddle.files⟩, houtcome.1⟩

/-- A pass over a member alone serves its variables and touches no shared name that it does not
own. -/
theorem endsIn_syncMember_serves (hongoing : view.Ongoing options workspaces start world)
    {member : Member} (hmem : member ∈ members) {schema : List Definition}
    (hschema : schemaIn registry.patterns (view.files start.store) options.rootExample
      member.workspace = .ok schema)
    (sharedValues : Table Text Text) (report : SyncReport) :
    (syncMember store registry options sharedValues root.names report member).EndsIn world
      (fun next after => (view.Ongoing options workspaces start after ∧
        view.Touches (view.touchedAlone root.names members) world after ∧ report.Extends next) ∧
        view.Passed root.names member schema next after)
      fun _ _ => True := by
  have hpath := valuesPath_mem_syncTargets options hmembers hmem
  have hworkspace : member.workspace ∈ workspaces := hmembers ▸ List.mem_map_of_mem hmem
  obtain ⟨htame, -⟩ := tame_and_nodup_ownDefinitions hprepared hmembers hmem hschema root.names
  unfold syncMember
  rw [Attempt.endsIn_bind]
  refine (endsIn_reconcileWorkspace_accounts hprepared hmembers hongoing hmem hschema _ _).mono
    (fun reconciliation first hfirst => ?_) fun _ _ _ => trivial
  obtain ⟨⟨hresolved, hfiles⟩, haccounts⟩ := hfirst
  refine (computes_workspaceSchema view registry.patterns _ member.workspace).endsIn_bind
    hresolved.valid ((hresolved.toSteady.schemaIn_eq hworkspace).trans hschema)
      fun second hsecond => ?_
  have hsecondFiles := hsecond.files.trans hfiles
  have hread : view.Ongoing options workspaces start second :=
    hresolved.of_files hsecond.valid hsecond.files (hsecond.replies ▸ hresolved.replies)
  rw [Attempt.endsIn_bind]
  refine (endsIn_applyUpdates_ongoing hprepared hread hpath
    (hsecondFiles ▸ haccounts.fillsOnly fun definition hdefinition =>
      (htame definition hdefinition).toSound) haccounts.usable
        (soundSchema_schemaIn hschema).plainDescriptions).mono (fun applied third hthird => ?_)
          fun _ _ _ => trivial
  obtain ⟨⟨hwritten, htouches⟩, hcontent⟩ := hthird
  rw [Attempt.endsIn_bind]
  refine (computes_readValuesFile view member.valuesPath).endsIn hwritten.valid
    (fun file last _ hlast => ?_) fun _ _ _ _ => trivial
  have hbefore : view.Touches (view.touchedAlone root.names members) world second :=
    view.touches_of_files hsecond.valid hsecondFiles
  have hwrite : view.Touches (view.touchedAlone root.names members) second third :=
    htouches.mono fun path name hname => ⟨member, hmem, hname.1,
      owns_of_has_updates haccounts hname.2⟩
  have hafter : view.Touches (view.touchedAlone root.names members) third last :=
    view.touches_of_files hlast.valid hlast.files
  refine ⟨⟨hwritten.of_files hlast.valid hlast.files (hlast.replies ▸ hwritten.replies),
    (hbefore.trans hwrite).trans hafter, List.prefix_append _ _, List.prefix_append _ _⟩, ?_,
    fun definition hdefinition hactive => ?_⟩
  · rw [hlast.files]
    exact hcontent.readable
  · rw [hlast.files]
    rw [hsecondFiles] at hcontent
    exact serves_of_accounts haccounts hcontent.overlays rfl rfl hdefinition hactive

/-- The passes over the members alone serve the variables of all of them and touch no shared name
that the member of a file does not own. -/
theorem endsIn_syncMembers_serves (hongoing : view.Ongoing options workspaces start world)
    (hschema : ∀ member ∈ members, ∃ schema, schemaIn registry.patterns (view.files start.store)
      options.rootExample member.workspace = .ok schema)
    (sharedValues : Table Text Text) (report : SyncReport) :
    (syncMembers store registry options sharedValues root.names report members).EndsIn world
      (fun last after => (view.Ongoing options workspaces start after ∧
        view.Touches (view.touchedAlone root.names members) world after ∧ report.Extends last) ∧
        ∀ member ∈ members, ∀ schema, schemaIn registry.patterns (view.files start.store)
          options.rootExample member.workspace = .ok schema →
            view.Passed root.names member schema last after)
      fun _ _ => True := by
  rw [syncMembers_eq_foldlM]
  refine Attempt.endsIn_foldlM (fun member hmem result before hbefore => ?_)
    ⟨hongoing, view.touches_of_files hongoing.valid rfl, .refl report⟩
  obtain ⟨hbefore, htouches, hextends⟩ := hbefore
  obtain ⟨schema, hschema⟩ := hschema member hmem
  refine (endsIn_syncMember_serves hprepared hmembers hbefore hmem hschema sharedValues
    result).mono (fun next after hafter => ?_) fun _ _ _ => trivial
  obtain ⟨⟨hafter, hstep, hnext⟩, hpassed⟩ := hafter
  refine ⟨⟨hafter, htouches.trans hstep, hextends.trans hnext⟩, fun other hother => ?_,
    fun other hmem' hpassed' definitions hdefinitions => ?_⟩
  · obtain rfl := Except.ok.inj (hschema.symm.trans hother)
    exact hpassed
  · have hpath := valuesPath_mem_syncTargets options hmembers hmem'
    exact (hpassed' definitions hdefinitions).mono (hprepared.covers _ hpath)
      (hbefore.tidy _ hpath) hstep.toKeeps hnext

end Passes

/-- The stages of a sync that returned: what the example files declared, the report of the shared
pass, and the runs of the passes. -/
structure StoreView.Stages (view : StoreView store) (registry : Registry) (options : RunOptions)
    (workspaces : List Workspace) (root : Schema) (members : List Member)
    (shared report : SyncReport) (start after : World σ) : Prop where
  root_eq : exampleIn registry.patterns (view.files start.store) options.rootExample = .ok root
  members_eq : membersIn registry.patterns (view.files start.store) options.rootExample workspaces =
    .ok members
  passes : ∃ first sharedValues before middle, workspaces.head? = some first ∧
    view.Same start before ∧
      (syncShared store registry options first members root).runFrom before =
          (.ok shared, middle) ∧
        (syncMembers store registry options sharedValues root.names shared members).runFrom
          middle = (.ok report, after)

section Stages

variable {view : StoreView store} {registry : Registry} {options : RunOptions}
  {workspaces : List Workspace} {start after : World σ} {report : SyncReport}

/-- Without plugins no hook is called around a sync that returned. -/
theorem eq_of_callHooks (hplugins : registry.plugins = [])
    {hook : Hooks → Option (Except Text Unit)} {event : Text → Event} {done : Unit}
    (h : (Run.atDesk (registry.callHooks hook event) : Run σ Unit).runFrom start =
      (.ok done, after)) : after = start := by
  have hends : (Run.atDesk (registry.callHooks hook event) : Run σ Unit).EndsIn start
      (fun _ after => after = start) fun _ _ => False :=
    (endsIn_callHooks_of_nil hplugins hook event).mpr rfl
  exact hends.of_runFrom_ok h

/-- The canonical values of the root's names in a population. -/
def canonicalIn (files : Files) (root : Schema) (population : List Workspace) : Table Text Text :=
  canonicalValues root.names (population.map fun workspace => valuesOf (files workspace.valuesPath))

/-- A sync of workspaces that returned read what the example files declare and what the population
holds, and then did the shared pass and the passes over the members alone. -/
theorem exists_passes (hplugins : registry.plugins = []) (hvalid : view.valid start.store)
    (hworkspaces : workspaces ≠ []) {population : List Workspace}
    (hrun : (syncIn store registry options workspaces population).runFrom start =
      (.ok report, after)) :
    ∃ root members shared first before middle,
      (exampleIn registry.patterns (view.files start.store) options.rootExample = .ok root ∧
        membersIn registry.patterns (view.files start.store) options.rootExample workspaces =
          .ok members) ∧
      workspaces.head? = some first ∧ view.Same start before ∧
        (syncShared store registry options first members root).runFrom before =
            (.ok shared, middle) ∧
          (syncMembers store registry options
            (canonicalIn (view.files start.store) root population) root.names shared
              members).runFrom middle = (.ok report, after) := by
  cases workspaces with
  | nil => exact absurd rfl hworkspaces
  | cons first rest =>
    unfold syncIn at hrun
    obtain ⟨_, second, hbefore, hrun⟩ := Attempt.exists_of_runFrom_bind hrun
    obtain rfl := (eq_of_callHooks hplugins hbefore).symm
    obtain ⟨root, third, hroot, hrun⟩ := Attempt.exists_of_runFrom_bind hrun
    obtain ⟨hroot, hthird⟩ :=
      (computes_readExampleFile view registry.patterns _).of_runFrom_ok hvalid hroot
    obtain ⟨held, fourth, hheld, hrun⟩ := Attempt.exists_of_runFrom_bind hrun
    obtain ⟨hheld, hfourth⟩ := (computes_readAllValues view _).of_runFrom_ok hthird.valid hheld
    obtain ⟨members, fifth, hmembers, hrun⟩ := Attempt.exists_of_runFrom_bind hrun
    obtain ⟨hmembers, hfifth⟩ :=
      (computes_readMembers view registry.patterns _ _).of_runFrom_ok hfourth.valid hmembers
    obtain ⟨shared, middle, hshared, hrun⟩ := Attempt.exists_of_runFrom_bind hrun
    obtain ⟨last, sixth, hlast, hrun⟩ := Attempt.exists_of_runFrom_bind hrun
    obtain ⟨_, seventh, hafter, hrun⟩ := Attempt.exists_of_runFrom_bind hrun
    obtain rfl := (eq_of_callHooks hplugins hafter).symm
    cases hrun
    rw [hfourth.files, hthird.files] at hmembers
    rw [hthird.files] at hheld
    have hcanonical : canonicalValues root.names held =
        canonicalIn (view.files start.store) root population := by
      rw [(eq_of_allValuesIn hheld).1, List.map_map]
      rfl
    rw [hcanonical] at hlast
    exact ⟨root, members, shared, first, fifth, middle, ⟨hroot, hmembers⟩, rfl,
      (hthird.trans hfourth).trans hfifth, hshared, hlast⟩

/-- A sync of workspaces that returned went through its stages. -/
theorem exists_stages (hplugins : registry.plugins = []) (hvalid : view.valid start.store)
    (hworkspaces : workspaces ≠ []) {population : List Workspace}
    (hrun : (syncIn store registry options workspaces population).runFrom start =
      (.ok report, after)) :
    ∃ root members shared,
      view.Stages registry options workspaces root members shared report start after := by
  obtain ⟨root, members, shared, first, before, middle, ⟨hroot, hmembers⟩, hfirst, hsame, hshared,
    hlast⟩ := exists_passes hplugins hvalid hworkspaces hrun
  exact ⟨root, members, shared, hroot, hmembers, first, _, before, middle, hfirst, hsame, hshared,
    hlast⟩

variable {root : Schema} {members : List Member} {shared : SyncReport}

/-- What the stages of a sync did: the shared pass distributed values and told of the rest, and the
passes over the members alone, which touch nothing of that, served all other variables. -/
structure StoreView.Served (view : StoreView store) (registry : Registry) (options : RunOptions)
    (workspaces : List Workspace) (root : Schema) (members : List Member)
    (values : Table Text Text) (shared report : SyncReport) (start middle after : World σ) :
    Prop where
  shares : view.Shares options root members values shared start middle
  ongoing : view.Ongoing options workspaces start middle
  touches : view.Touches (view.touchedAlone root.names members) middle after
  ongoing_after : view.Ongoing options workspaces start after
  extends_report : shared.Extends report
  passed : ∀ member ∈ members, ∀ schema, schemaIn registry.patterns (view.files start.store)
    options.rootExample member.workspace = .ok schema →
      view.Passed root.names member schema report after

/-- The stages of a sync of a prepared tree. -/
theorem StoreView.Stages.served
    (h : view.Stages registry options workspaces root members shared report start after)
    (hprepared : view.Prepared registry options workspaces start) :
    ∃ values middle,
      view.Served registry options workspaces root members values shared report start middle
        after := by
  obtain ⟨first, sharedValues, before, middle, -, hsame, hshared, hmembers⟩ := h.passes
  have hworkspaces := workspaces_membersIn h.members_eq
  have hongoing : view.Ongoing options workspaces start before :=
    hprepared.ongoing.of_files hsame.valid hsame.files (hsame.replies ▸ hprepared.replies)
  obtain ⟨hmiddle, values, hshares⟩ := (endsIn_syncShared_shares hprepared hworkspaces hongoing
    h.root_eq first).of_runFrom_ok hshared
  obtain ⟨⟨hafter, htouches, hextends⟩, hpassed⟩ := (endsIn_syncMembers_serves hprepared
    hworkspaces hmiddle (fun member hmem => (exists_schemaIn_of_mem h.root_eq h.members_eq
      hmem).imp fun _ hschema => hschema.1) sharedValues shared).of_runFrom_ok hmembers
  have hread : view.Touches (fun _ name => values.has name = true) start before :=
    view.touches_of_files hsame.valid hsame.files
  refine ⟨values, middle, ⟨hread.trans hshares.toTouches, hshares.root_fills, hshares.fills,
    hshares.tells, ?_⟩, hmiddle, htouches, hafter, hextends, hpassed⟩
  rw [← hsame.files]
  exact hshares.lacks

end Stages

end EnvFiles
