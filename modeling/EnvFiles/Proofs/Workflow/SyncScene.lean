import EnvFiles.Proofs.Workflow.SyncPasses

/-!
# What a sync leaves

Without plugins and questions, and where nothing is copied, a sync leaves a tree that is
`StoreView.Synced`: the shared values are where they belong, no member has a value of an active
shared name that it does not own and that is not distributed, and every file is settled for the
variables of its member. The shared pass makes a tree of which the first part holds
(`StoreView.Filled`), and the passes over the members alone keep it and settle the files. The
root's values file may be that of a member.
-/

namespace EnvFiles

variable {σ : Type} {store : Store σ}

/-- A sync without plugins and questions in an orderly tree in which nothing is copied, with what
the example files declare. -/
structure StoreView.Scene (view : StoreView store) (registry : Registry) (options : RunOptions)
    (workspaces : List Workspace) (root : Schema) (members : List Member)
    (schema : Workspace → List Definition) (start : World σ) : Prop
    extends view.Orderly registry options workspaces (syncTargets options workspaces) start where
  root_eq : exampleIn registry.patterns (view.files start.store) options.rootExample = .ok root
  members_eq : membersIn registry.patterns (view.files start.store) options.rootExample workspaces =
    .ok members
  schema_eq : ∀ workspace ∈ workspaces, schemaIn registry.patterns (view.files start.store)
    options.rootExample workspace = .ok (schema workspace)
  root_literals : ∀ definition ∈ root.definitions,
    ∀ literal ∈ definition.directive.literals, ¬ IsBlankOnly literal
  root_copied : ∀ definition ∈ root.definitions, definition.copied? = none
  schema_copied : ∀ workspace ∈ workspaces, ∀ definition ∈ schema workspace,
    definition.copied? = none

/-- A tree in which the shared values are where they belong. -/
structure StoreView.Filled (view : StoreView store) (options : RunOptions)
    (workspaces : List Workspace) (root : Schema) (members : List Member) (start : World σ)
    (distributed : Text → Bool) (world : World σ) : Prop where
  steady : view.Steady (examplePaths options workspaces) start world
  tidy : ∀ member ∈ members, TidyContent (view.files world.store member.valuesPath)
  fills : ∀ member ∈ members, ∀ name, member.owns name = false → distributed name = true →
    (valuesOf (view.files world.store member.valuesPath)).fills name = true
  lacks : ∀ member ∈ members, ∀ name, member.owns name = false → distributed name = false →
    declaresActive root.definitions name = true →
      (valuesOf (view.files world.store member.valuesPath)).fills name = false
  root_readable : root.definitions ≠ [] →
    (∃ text, view.files world.store options.rootValues = .ok text) ∧
      TidyContent (view.files world.store options.rootValues)
  root_fills : ∀ name, distributed name = true →
    (valuesOf (view.files world.store options.rootValues)).fills name = true

/-- A tree that a sync leaves: moreover every file is settled for the variables of its member. -/
structure StoreView.Synced (view : StoreView store) (options : RunOptions)
    (workspaces : List Workspace) (root : Schema) (members : List Member)
    (schema : Workspace → List Definition) (start : World σ) (distributed : Text → Bool)
    (world : World σ) : Prop
    extends view.Filled options workspaces root members start distributed world where
  readable : ∀ member ∈ members, ∃ text, view.files world.store member.valuesPath = .ok text
  settled : ∀ member ∈ members,
    Settled (member.ownDefinitions root.names (schema member.workspace))
      (valuesOf (view.files world.store member.valuesPath))

section Scenes

variable {view : StoreView store} {registry : Registry} {options : RunOptions}
  {workspaces : List Workspace} {root : Schema} {members : List Member}
  {schema : Workspace → List Definition} {start world : World σ}

/-- The workspace of a member is one of the workspaces. -/
theorem StoreView.Scene.workspace_mem
    (h : view.Scene registry options workspaces root members schema start) {member : Member}
    (hmem : member ∈ members) : member.workspace ∈ workspaces := by
  rw [← workspaces_membersIn h.members_eq]
  exact List.mem_map_of_mem hmem

/-- Members have files of their own. -/
theorem StoreView.Scene.apart_members
    (h : view.Scene registry options workspaces root members schema start) :
    view.Apart (examplePaths options workspaces) Member.valuesPath members := by
  have hapart := h.toOrderly.apart (List.subset_cons_self ..)
  rw [← workspaces_membersIn h.members_eq] at hapart
  rw [← workspaces_membersIn h.members_eq]
  exact hapart.of_map

/-- The effective schema of a member in a world whose example files are as at the start. -/
theorem StoreView.Scene.schemaIn_member
    (h : view.Scene registry options workspaces root members schema start)
    (hsteady : view.Steady (examplePaths options workspaces) start world) {member : Member}
    (hmem : member ∈ members) :
    schemaIn registry.patterns (view.files world.store) options.rootExample member.workspace =
      .ok (schema member.workspace) :=
  (hsteady.schemaIn_eq (h.workspace_mem hmem)).trans (h.schema_eq _ (h.workspace_mem hmem))

/-- The shared definitions are tame. -/
theorem StoreView.Scene.root_tame
    (h : view.Scene registry options workspaces root members schema start) :
    ∀ definition ∈ root.definitions, definition.Tame := fun definition hmem =>
  { toSound := (soundSchema_exampleIn h.root_eq).sound_of_mem definition hmem
    not_isBlankOnly_of_mem_literals := h.root_literals definition hmem }

/-- The definitions of a member are tame. -/
theorem StoreView.Scene.tame_member
    (h : view.Scene registry options workspaces root members schema start) {member : Member}
    (hmem : member ∈ members) : ∀ definition ∈ schema member.workspace, definition.Tame :=
  h.toOrderly.tame (h.workspace_mem hmem) (h.schema_eq _ (h.workspace_mem hmem))

/-- The definitions that are resolved for a member alone are tame. -/
theorem StoreView.Scene.tame_ownDefinitions
    (h : view.Scene registry options workspaces root members schema start) {member : Member}
    (hmem : member ∈ members) :
    ∀ definition ∈ member.ownDefinitions root.names (schema member.workspace), definition.Tame :=
  fun definition hdefinition => h.tame_member hmem definition (List.mem_filter.mp hdefinition).1

/-- The root's values file. -/
theorem StoreView.Scene.covers_root
    (h : view.Scene registry options workspaces root members schema start) :
    view.covers options.rootValues := h.covers _ (List.mem_cons_self ..)

/-- After a round over the members the root's file is as before, or that of a member. -/
theorem StoreView.Scene.root_cases
    (h : view.Scene registry options workspaces root members schema start) {before after : World σ}
    (hvalid : view.valid before.store) (hvalid' : view.valid after.store)
    (hothers : ∀ other, view.covers other →
      (∀ member ∈ members, ¬ view.sameFile member.valuesPath other) →
        view.files after.store other = view.files before.store other) :
    view.files after.store options.rootValues = view.files before.store options.rootValues ∨
      ∃ member ∈ members,
        view.files before.store options.rootValues =
            view.files before.store member.valuesPath ∧
          view.files after.store options.rootValues =
            view.files after.store member.valuesPath := by
  by_cases hsame : ∃ member ∈ members, view.sameFile member.valuesPath options.rootValues
  · obtain ⟨member, hmem, hsame⟩ := hsame
    have hcovers := h.apart_members.covers member hmem
    exact Or.inr ⟨member, hmem,
      (view.files_congr _ _ _ hvalid hcovers h.covers_root hsame).symm,
      (view.files_congr _ _ _ hvalid' hcovers h.covers_root hsame).symm⟩
  · refine Or.inl (hothers _ h.covers_root fun member hmem hsame' => hsame ⟨member, hmem, hsame'⟩)

/-- The path of a member may be written by a sync. -/
theorem StoreView.Scene.valuesPath_mem
    (h : view.Scene registry options workspaces root members schema start) {member : Member}
    (hmem : member ∈ members) : member.valuesPath ∈ syncTargets options workspaces :=
  List.mem_cons_of_mem _ (List.mem_map_of_mem (f := Workspace.valuesPath) (h.workspace_mem hmem))

/-- A name that a scan of a member's own definitions does not touch. -/
theorem Member.notMem_ownDefinitions {member : Member} {name : Text} (definitions : List Definition)
    (hshared : name ∈ root.names) (howns : member.owns name = false) :
    name ∉ (member.ownDefinitions root.names definitions).map Definition.name := by
  intro hmem
  obtain ⟨definition, hdefinition, rfl⟩ := List.mem_map.mp hmem
  have hleft := (List.mem_filter.mp hdefinition).2
  have hmember : definition.name ∈ root.names.filter fun name => !member.owns name :=
    List.mem_filter.mpr ⟨hshared, by rw [howns]; rfl⟩
  simp [hmember] at hleft

/-- An active shared name is a shared name. -/
theorem mem_names_of_declaresActive {name : Text}
    (h : declaresActive root.definitions name = true) : name ∈ root.names := by
  obtain ⟨definition, hmem, hactive⟩ := List.any_eq_true.mp h
  rw [Bool.and_eq_true, beq_iff_eq] at hactive
  exact hactive.2 ▸ List.mem_map_of_mem hmem

/-- What the pass over a member alone makes of its file. -/
def Member.Passed (member : Member) (sharedNames : List Text) (definitions : List Definition)
    (before after : Content) : Prop :=
  ∃ updates, Completes (member.ownDefinitions sharedNames definitions) (valuesOf before) updates ∧
    ContentUpdated updates before after

section Passed

variable {member : Member} {sharedNames : List Text} {definitions : List Definition}
  {before after : Content}

/-- The names that have a value after a pass are those that a scan fills. -/
theorem Member.Passed.fills (h : member.Passed sharedNames definitions before after) :
    (valuesOf after).fills =
      fillAll (member.ownDefinitions sharedNames definitions) (valuesOf before).fills := by
  obtain ⟨updates, hcompletes, hupdated⟩ := h
  exact hcompletes.fills_of_overlays hupdated.overlays

/-- A file is readable and tidy after a pass. -/
theorem Member.Passed.readable (h : member.Passed sharedNames definitions before after) :
    (∃ text, after = .ok text) ∧ TidyContent after := by
  obtain ⟨updates, -, hupdated⟩ := h
  exact ⟨hupdated.readable, hupdated.tidy⟩

/-- Where nothing is copied, a file is settled after a pass. -/
theorem Member.Passed.settled (h : member.Passed sharedNames definitions before after)
    (hcopied : ∀ definition ∈ definitions, definition.copied? = none) :
    Settled (member.ownDefinitions sharedNames definitions) (valuesOf after) := by
  refine ⟨?_, ?_⟩
  · rw [h.fills]
    exact fillAll_fillAll (fun definition hmem => hcopied definition (List.mem_filter.mp hmem).1) _
  · obtain ⟨updates, hcompletes, hupdated⟩ := h
    exact hcompletes.has_of_overlays hupdated.overlays

end Passed

/-- Where the shared values are where they belong, they stay there in passes over the members alone,
and every file is settled. -/
theorem StoreView.Filled.synced {distributed : Text → Bool} {after : World σ}
    (h : view.Filled options workspaces root members start distributed world)
    (hscene : view.Scene registry options workspaces root members schema start)
    (hsteady : view.Steady (examplePaths options workspaces) start after)
    (hpassed : ∀ member ∈ members, member.Passed root.names (schema member.workspace)
      (view.files world.store member.valuesPath) (view.files after.store member.valuesPath))
    (hothers : ∀ other, view.covers other →
      (∀ member ∈ members, ¬ view.sameFile member.valuesPath other) →
        view.files after.store other = view.files world.store other) :
    view.Synced options workspaces root members schema start distributed after := by
  refine ⟨⟨hsteady, fun member hmem => (hpassed member hmem).readable.2,
    fun member hmem name howns hdistributed => ?_,
    fun member hmem name howns hdistributed hactive => ?_, fun hroot => ?_,
    fun name hdistributed => ?_⟩, fun member hmem => (hpassed member hmem).readable.1,
    fun member hmem => (hpassed member hmem).settled (hscene.schema_copied _
      (hscene.workspace_mem hmem))⟩
  · rw [(hpassed member hmem).fills]
    exact fillAll_of_filled _ (h.fills member hmem name howns hdistributed)
  · rw [(hpassed member hmem).fills, fillAll_of_notMem _
      (Member.notMem_ownDefinitions _ (mem_names_of_declaresActive hactive) howns)]
    exact h.lacks member hmem name howns hdistributed hactive
  · rcases hscene.root_cases h.steady.valid hsteady.valid hothers with
      hsame | ⟨member, hmem, -, hsame⟩
    · rw [hsame]
      exact h.root_readable hroot
    · rw [hsame]
      exact (hpassed member hmem).readable
  · rcases hscene.root_cases h.steady.valid hsteady.valid hothers with
      hsame | ⟨member, hmem, hbefore, hsame⟩
    · rw [hsame]
      exact h.root_fills name hdistributed
    · rw [hsame, (hpassed member hmem).fills]
      apply fillAll_of_filled
      rw [← hbefore]
      exact h.root_fills name hdistributed

/-- The passes over the members alone leave the shared values where they belong, and settle every
file. -/
theorem endsIn_syncMembers_filled
    (hscene : view.Scene registry options workspaces root members schema start)
    {distributed : Text → Bool}
    (hfilled : view.Filled options workspaces root members start distributed world)
    (sharedValues : Table Text Text) (report : SyncReport) :
    (syncMembers store registry options sharedValues root.names report members).EndsIn world
      (fun _ after =>
        view.Synced options workspaces root members schema start distributed after)
      fun failure _ => view.Fails (syncTargets options workspaces) failure := by
  have hapart := hscene.apart_members
  rw [syncMembers_eq_foldlM]
  refine (endsIn_round (fun _ => TidyContent)
    (fun member => member.Passed root.names (schema member.workspace)) hapart
    (fun member hmem result before hsteady htidy => ?_) hfilled.steady hfilled.tidy report).mono
      (fun _ after hafter => hfilled.synced hscene hafter.1.1 hafter.1.2 hafter.2)
      fun _ _ hfailure => hfailure
  exact (endsIn_syncMember_unattended hscene.plugins_eq_nil hscene.interactive_eq_false
    hsteady.valid (hapart.covers member hmem) (hscene.schemaIn_member hsteady hmem)
    (hscene.tame_member hmem) htidy sharedValues root.names result).mono
      (fun _ after hafter => ⟨hafter.1.toChanged, _, completes_passUpdates
        (hscene.tame_ownDefinitions hmem) (usableValues_valuesOf _), hafter.1.content⟩)
      fun failure _ hfailure => hfailure.fails hsteady.valid (hscene.valuesPath_mem hmem)

/-- The names that the shared pass distributes, given what the members hold. -/
def distributedIn (files : Files) (root : Schema) (members : List Member) : Text → Bool :=
  distributes root.definitions (firstValues (holdingsIn files members))

/-- A value that a member does not own is distributed if an active variable has its name. -/
theorem distributedIn_of_fills {files : Files} {member : Member} (hmem : member ∈ members)
    {name : Text} (howns : member.owns name = false)
    (hactive : declaresActive root.definitions name = true)
    (hfills : (valuesOf (files member.valuesPath)).fills name = true) :
    distributedIn files root members name = true := by
  rw [distributedIn, distributes, hactive, Bool.true_and]
  apply fillAll_of_filled
  rw [fills_firstValues_holdingsIn, List.any_eq_true]
  exact ⟨member, hmem, by rw [howns, hfills]; rfl⟩

section Distributing

variable (hscene : view.Scene registry options workspaces root members schema start)
  {values : Table Text Text} (hfilled : OnlyFilled values)
  (hvalues : ∀ name, values.fills name = distributedIn (view.files start.store) root members name)
  (hroot : view.Updated options.rootValues
    (lackedBy (valuesOf (view.files start.store options.rootValues)) values) start world)

include hfilled hvalues hroot

/-- The root's file has the values that it had, and the shared ones. -/
theorem fills_rootValues (name : Text) :
    (valuesOf (view.files world.store options.rootValues)).fills name =
      ((valuesOf (view.files start.store options.rootValues)).fills name ||
        distributedIn (view.files start.store) root members name) := by
  rw [← hvalues]
  exact fills_of_lackedBy hfilled hroot.content.overlays name

include hscene

/-- A member has no value but those that it had and, if its file is that of the root, the shared
ones. -/
theorem fills_member {member : Member} (hmem : member ∈ members) :
    TidyContent (view.files world.store member.valuesPath) ∧
      ∀ name, (valuesOf (view.files world.store member.valuesPath)).fills name = true →
        (valuesOf (view.files start.store member.valuesPath)).fills name = true ∨
          distributedIn (view.files start.store) root members name = true := by
  have hcovers := hscene.apart_members.covers member hmem
  by_cases hsame : view.sameFile options.rootValues member.valuesPath
  · rw [← view.files_congr world.store _ _ hroot.valid hscene.covers_root hcovers hsame,
      ← view.files_congr start.store _ _ hscene.valid hscene.covers_root hcovers hsame]
    refine ⟨hroot.content.tidy, fun name hname => ?_⟩
    rwa [fills_rootValues hfilled hvalues hroot, Bool.or_eq_true] at hname
  · rw [hroot.others _ hcovers hsame]
    exact ⟨hscene.toOrderly.tidyContent (hscene.valuesPath_mem hmem), fun _ => Or.inl⟩

/-- Where every member was given the shared values that it lacked, they are where they belong. -/
theorem filled_of_updated {after : World σ}
    (hsteady : view.Steady (examplePaths options workspaces) start after)
    (hmade : ∀ member ∈ members, ContentUpdated
      (lackedBy (valuesOf (view.files world.store member.valuesPath)) (member.valuesFor values))
      (view.files world.store member.valuesPath) (view.files after.store member.valuesPath))
    (hothers : ∀ other, view.covers other →
      (∀ member ∈ members, ¬ view.sameFile member.valuesPath other) →
        view.files after.store other = view.files world.store other) :
    view.Filled options workspaces root members start
      (distributedIn (view.files start.store) root members) after := by
  have hfills : ∀ member ∈ members, ∀ name,
      (valuesOf (view.files after.store member.valuesPath)).fills name =
        ((valuesOf (view.files world.store member.valuesPath)).fills name ||
          (!member.owns name && distributedIn (view.files start.store) root members name)) := by
    intro member hmem name
    rw [fills_of_lackedBy (hfilled.valuesFor member) (hmade member hmem).overlays,
      fills_valuesFor, hvalues]
  refine ⟨hsteady, fun member hmem => (hmade member hmem).tidy,
    fun member hmem name howns hdistributed => ?_,
    fun member hmem name howns hdistributed hactive => ?_, fun _ => ?_,
    fun name hdistributed => ?_⟩
  · rw [hfills member hmem, howns, hdistributed, Bool.not_false, Bool.and_true, Bool.or_true]
  · rw [hfills member hmem, hdistributed, Bool.and_false, Bool.or_false]
    by_contra hname
    rcases (fills_member hscene hfilled hvalues hroot hmem).2 name (Bool.of_not_eq_false hname)
      with hstart | hthere
    · rw [distributedIn_of_fills hmem howns hactive hstart] at hdistributed
      cases hdistributed
    · rw [hthere] at hdistributed
      cases hdistributed
  · rcases hscene.root_cases hroot.valid hsteady.valid hothers with
      hsame | ⟨member, hmem, -, hsame⟩
    · rw [hsame]
      exact ⟨hroot.content.readable, hroot.content.tidy⟩
    · rw [hsame]
      exact ⟨(hmade member hmem).readable, (hmade member hmem).tidy⟩
  · rcases hscene.root_cases hroot.valid hsteady.valid hothers with
      hsame | ⟨member, hmem, hbefore, hsame⟩
    · rw [hsame, fills_rootValues hfilled hvalues hroot, hdistributed, Bool.or_true]
    · rw [hsame, hfills member hmem, ← hbefore, fills_rootValues hfilled hvalues hroot,
        hdistributed, Bool.or_true, Bool.true_or]

/-- After the root's file was given the shared values, distributing them to the members puts them
where they belong. -/
theorem endsIn_fillMembers_filled (hplain : PlainUpdates values) (husable : UsableValues values) :
    (fillMembers store registry options values members).EndsIn world
      (fun _ after => view.Filled options workspaces root members start
        (distributedIn (view.files start.store) root members) after)
      fun failure _ => view.Fails (syncTargets options workspaces) failure := by
  have hapart := hscene.apart_members
  have hsteady : view.Steady (examplePaths options workspaces) start world :=
    hroot.toChanged.steady ⟨hscene.valid, fun _ _ => rfl⟩ hscene.covers_example
      (hscene.not_sameFile_example _ (List.mem_cons_self ..))
  rw [fillMembers_eq_foldlM]
  refine (endsIn_round (fun _ => TidyContent) (fun member before after =>
    ContentUpdated (lackedBy (valuesOf before) (member.valuesFor values)) before after) hapart
    (fun member hmem _ before hsteady htidy => ?_) hsteady
    (fun member hmem => (fills_member hscene hfilled hvalues hroot hmem).1) ()).mono
      (fun _ after hafter => filled_of_updated hscene hfilled hvalues hroot hafter.1.1 hafter.1.2
        hafter.2) fun _ _ hfailure => hfailure
  exact (endsIn_fillMember_tidy hsteady.valid (hapart.covers member hmem) htidy hplain husable
    (hscene.schemaIn_member hsteady hmem)).mono
      (fun _ after hafter => ⟨hafter.1.toChanged, hafter.1.content⟩)
      fun failure _ hfailure => hfailure.fails hsteady.valid (hscene.valuesPath_mem hmem)

end Distributing

/-- Where nothing is shared, the shared values are where they belong. -/
theorem filled_of_empty (hscene : view.Scene registry options workspaces root members schema start)
    (hempty : root.definitions = []) (hsame : view.Same start world) :
    view.Filled options workspaces root members start
      (distributedIn (view.files start.store) root members) world := by
  have hnone : ∀ name, declaresActive root.definitions name = false := fun name => by
    rw [hempty]
    rfl
  have hundistributed : ∀ name,
      distributedIn (view.files start.store) root members name = false := fun name => by
    rw [distributedIn, distributes, hnone, Bool.false_and]
  refine ⟨hsame.steady ⟨hscene.valid, fun _ _ => rfl⟩, fun member hmem => ?_,
    fun member _ name _ hdistributed => ?_, fun member _ name _ _ hactive => ?_,
    fun hroot => absurd hempty hroot, fun name hdistributed => ?_⟩
  · rw [hsame.files]
    exact hscene.toOrderly.tidyContent (hscene.valuesPath_mem hmem)
  · rw [hundistributed] at hdistributed
    cases hdistributed
  · rw [hnone] at hactive
    cases hactive
  · rw [hundistributed] at hdistributed
    cases hdistributed

/-- The shared pass over the tree at the start puts the shared values where they belong. -/
theorem endsIn_syncShared_filled
    (hscene : view.Scene registry options workspaces root members schema start)
    (hsame : view.Same start world) (first : Workspace) :
    (syncShared store registry options first members root).EndsIn world
      (fun _ after => view.Filled options workspaces root members start
        (distributedIn (view.files start.store) root members) after)
      fun failure _ => view.Fails (syncTargets options workspaces) failure := by
  have hrootPath : options.rootValues ∈ syncTargets options workspaces := List.mem_cons_self ..
  unfold syncShared
  by_cases hempty : root.definitions = []
  · rw [if_pos (by simpa using hempty)]
    exact filled_of_empty hscene hempty hsame
  · rw [if_neg (by simpa using hempty), Attempt.endsIn_bind]
    refine (endsIn_resolveShared_unattended hscene.plugins_eq_nil hscene.interactive_eq_false
      hsame.valid first members hscene.root_tame).mono (fun pass second hsecond => ?_)
      fun failure _ hfailure => ?_
    · obtain ⟨hread, -, hexisting, hscans⟩ := hsecond
      obtain ⟨hplain, husable⟩ := hscans.plainUpdates
        fun definition hmem => (hscene.root_tame definition hmem).toSound
      obtain ⟨hfilled, hfills⟩ := hscans.fills_values
      have hsame' := hsame.trans hread
      rw [hsame.files] at hexisting
      have hvalues : ∀ name, (pass.values root.names).fills name =
          distributedIn (view.files start.store) root members name := fun name => by
        rw [distributedIn, ← hexisting]
        exact hfills name
      rw [Attempt.endsIn_bind]
      refine (endsIn_fillFile_tidy hsame'.valid hscene.covers_root (hsame'.files ▸
        hscene.toOrderly.tidyContent hrootPath) hplain husable fun definition hmem =>
          (hscene.root_tame definition hmem).isOneLine_description).mono
            (fun _ third hthird => ?_)
            fun failure _ hfailure => hfailure.fails hsame'.valid hrootPath
      have hroot := hthird.1.of_same hsame'
      rw [hsame'.files] at hroot
      rw [Attempt.endsIn_bind]
      exact endsIn_fillMembers_filled hscene hfilled hvalues hroot hplain husable
    · obtain ⟨member, hmem, hunreadable⟩ := hfailure
      exact ⟨_, hscene.valuesPath_mem hmem, world.store, hsame.valid, Or.inl hunreadable⟩

section Runs

/-- The names that workspaces own only depend on the example files. -/
theorem StoreView.Steady.membersIn_eq
    (h : view.Steady (examplePaths options workspaces) start world) {part : List Workspace}
    (hsubset : part ⊆ workspaces) :
    membersIn registry.patterns (view.files world.store) options.rootExample part =
      membersIn registry.patterns (view.files start.store) options.rootExample part := by
  induction part with
  | nil => rfl
  | cons workspace rest ih =>
    obtain ⟨hmem, hrest⟩ := List.cons_subset.mp hsubset
    have hown := h.files workspace.examplePath
      (List.mem_cons_of_mem _ (List.mem_map_of_mem (f := Workspace.examplePath) hmem))
    simp only [membersIn, ownNamesIn, exampleIn, hown, ih hrest]

/-- Without plugins no hook is called around a sync. -/
theorem endsIn_callHooks_of_nil (hplugins : registry.plugins = [])
    (hook : Hooks → Option (Except Text Unit)) (event : Text → Event)
    {done : Unit → World σ → Prop} {failed : Failure → World σ → Prop} :
    (Run.atDesk (registry.callHooks hook event)).EndsIn world done failed ↔ done () world := by
  rw [Run.endsIn_atDesk, Registry.callHooks, hplugins]
  rfl

/-- A sync reads what the example files declare and what the population holds, and then does the
shared pass and the passes over the members alone. -/
theorem StoreView.Scene.endsIn_syncIn {first : Workspace} {rest : List Workspace}
    (hscene : view.Scene registry options (first :: rest) root members schema start)
    (hsteady : view.Steady (examplePaths options (first :: rest)) start world)
    (population : List Workspace) {done : SyncReport → World σ → Prop}
    {failed : Failure → World σ → Prop}
    (hunreadable : ∀ failure after, (∃ path ∈ population.map Workspace.valuesPath,
      view.files world.store path = .error failure) → failed failure after)
    (hpasses : ∀ sharedValues before, view.Same world before →
      (∀ path ∈ population.map Workspace.valuesPath,
        ∃ content, view.files world.store path = .ok content) →
      (syncShared store registry options first members root).EndsIn before
        (fun report middle => (syncMembers store registry options sharedValues root.names report
          members).EndsIn middle done failed) failed) :
    (syncIn store registry options (first :: rest) population).EndsIn world done failed := by
  have hexample : exampleIn registry.patterns (view.files world.store) options.rootExample =
      .ok root := by
    rw [← hscene.root_eq, exampleIn, exampleIn, hsteady.files _ (List.mem_cons_self ..)]
  have hmembers : membersIn registry.patterns (view.files world.store) options.rootExample
      (first :: rest) = .ok members :=
    (hsteady.membersIn_eq (List.Subset.refl _)).trans hscene.members_eq
  unfold syncIn
  rw [Attempt.endsIn_bind, Registry.beforeSync, endsIn_callHooks_of_nil hscene.plugins_eq_nil]
  refine (computes_readExampleFile view registry.patterns _).endsIn_bind hsteady.valid hexample
    fun second hsecond => ?_
  rw [Attempt.endsIn_bind]
  refine (computes_readAllValues view _).endsIn hsecond.valid (fun held third hheld hthird => ?_)
    fun failure after hfailure _ => ?_
  · have hsame := hsecond.trans hthird
    refine (computes_readMembers view registry.patterns _ _).endsIn_bind hsame.valid
      (hsame.files ▸ hmembers) fun fourth hfourth => ?_
    rw [hsecond.files] at hheld
    have hrest := hpasses (canonicalValues root.names held) fourth (hsame.trans hfourth)
      (eq_of_allValuesIn hheld).2
    rw [Attempt.endsIn_bind]
    refine hrest.mono (fun report fifth hfifth => ?_) fun _ _ hfailure => hfailure
    rw [Attempt.endsIn_bind]
    refine hfifth.mono (fun result after hafter => ?_) fun _ _ hfailure => hfailure
    rw [Attempt.endsIn_bind, Registry.afterSync, endsIn_callHooks_of_nil hscene.plugins_eq_nil]
    exact hafter
  · rw [hsecond.files] at hfailure
    exact hunreadable failure after (exists_of_allValuesIn_eq_error hfailure)

/-- A sync of a tree as it wants it leaves a synced tree. It read the values files of the
population. -/
theorem endsIn_syncIn_synced {first : Workspace} {rest : List Workspace}
    (hscene : view.Scene registry options (first :: rest) root members schema start)
    (population : List Workspace) :
    (syncIn store registry options (first :: rest) population).EndsIn start
      (fun _ after => view.Synced options (first :: rest) root members schema start
          (distributedIn (view.files start.store) root members) after ∧
        ∀ path ∈ population.map Workspace.valuesPath,
          ∃ content, view.files start.store path = .ok content)
      fun failure _ => view.Fails (syncTargets options (first :: rest) ++
        population.map Workspace.valuesPath) failure := by
  refine hscene.endsIn_syncIn ⟨hscene.valid, fun _ _ => rfl⟩ population
    (fun failure _ hunreadable => ?_) fun sharedValues before hsame hreadable => ?_
  · obtain ⟨path, hpath, hunreadable⟩ := hunreadable
    exact ⟨path, List.mem_append_right _ hpath, start.store, hscene.valid, Or.inl hunreadable⟩
  · refine (endsIn_syncShared_filled hscene hsame first).mono (fun report _ hfilled => ?_)
      fun _ _ hfailure => hfailure.mono (List.subset_append_left ..)
    exact (endsIn_syncMembers_filled hscene hfilled sharedValues report).mono
      (fun _ _ hsynced => ⟨hsynced, hreadable⟩)
      fun _ _ hfailure => hfailure.mono (List.subset_append_left ..)

end Runs

end Scenes

end EnvFiles
