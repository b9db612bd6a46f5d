import EnvFiles.Proofs.Comparison
import EnvFiles.Proofs.Store.Memory
import EnvFiles.Proofs.Workflow.Kept
import EnvFiles.Proofs.Workflow.Sharing

/-!
# A sync keeps every value

The steps of a sync keep the values of all files, one after another: the shared pass fills what
the root's file and the members lack, and the pass over each member resolves what is missing in
its own file. Whatever plugins and replies do, and wherever the run stops, the only files written
are the values files of the root and of the workspaces, and these hold what they held before.
-/

namespace EnvFiles

variable {σ : Type} {store : Store σ}

section Steps

variable {view : StoreView store} {targets : List Path} {registry : Registry}
  {options : RunOptions}

/-- Hooks around a sync leave the replies. -/
theorem endsIn_callHooks {hook : Hooks → Option (Except Text Unit)} {event : Text → Event}
    {desk : Desk} (hreplies : PlainReplies desk.replies) :
    (registry.callHooks hook event).EndsIn desk
      (fun _ after => PlainReplies after.replies ∧ True) fun _ _ => True := by
  have hplugins : (registry.callHooks hook event).EndsIn desk
      (fun _ after => PlainReplies after.replies) fun _ after => PlainReplies after.replies := by
    refine Attempt.endsIn_forM (fun plugin _ desk hreplies => ?_) hreplies
    cases hook plugin.hooks with
    | none => exact hreplies
    | some answer =>
      simp only [Attempt.endsIn_bind, endsIn_record]
      exact endsIn_ofPlugin (fun _ _ => hreplies) fun _ _ => hreplies
  exact hplugins.mono (fun _ _ h => ⟨h, trivial⟩) fun _ _ _ => trivial

/-- A pass at the desk supplies values on one line. -/
theorem endsIn_ofPass (hregistry : registry.PlainSupplies) {scope : Scope}
    {definitions : List Definition} (hsound : ∀ definition ∈ definitions, definition.Sound)
    {values : Table Text Text} (hvalues : PlainValues values) {desk : Desk}
    (hreplies : PlainReplies desk.replies) :
    (DeskStep.ofPass values (resolveMissing registry scope {} definitions)).EndsIn desk
      (fun outcome after => PlainReplies after.replies ∧
        outcome.Supplies (definitions.map Definition.name)) fun _ _ => True := by
  have hnothing : PassOutcome.Supplies {} (definitions.map Definition.name) :=
    ⟨List.nodup_nil, List.nil_subset _, fun _ hmem => absurd hmem List.not_mem_nil⟩
  refine (Attempt.endsIn_onPart ..).mpr ((endsIn_resolveMissing hregistry hsound
    (fun definition hmem => List.mem_map_of_mem hmem) hnothing ⟨hvalues, hreplies⟩).mono
      (fun outcome pass h => ⟨h.2.replies, h.1⟩) fun _ _ h => h)

/-- Resolving the variables of a workspace leaves the store, and supplies values for names that the
values file has no value for. -/
theorem endsIn_reconcileWorkspace (hregistry : registry.PlainSupplies) {world : World σ}
    (hvalid : view.valid world.store) (hreplies : PlainReplies world.desk.replies)
    (workspace : Workspace) (sharedValues : Option (Table Text Text))
    (sharedNames leftOut : List Text) :
    (reconcileWorkspace store registry options workspace sharedValues sharedNames
      leftOut).EndsIn world
      (fun reconciliation after => (view.valid after.store ∧
        view.files after.store = view.files world.store) ∧ PlainReplies after.desk.replies ∧
          FillsOnly (view.files world.store workspace.valuesPath) reconciliation.outcome.updates)
      fun _ after => view.valid after.store ∧ view.files after.store = view.files world.store := by
  unfold reconcileWorkspace
  rw [Attempt.endsIn_bind]
  refine (computes_workspaceSchema view registry.patterns _ workspace).endsIn hvalid
    (fun schema first hschema hfirst => ?_) fun _ _ _ hfirst => ⟨hfirst.valid, hfirst.files⟩
  rw [Attempt.endsIn_bind]
  refine (computes_readValuesFile view workspace.valuesPath).endsIn hfirst.valid
    (fun file second hfile hsecond => ?_)
    fun _ _ _ hsecond => ⟨hsecond.valid, hsecond.files.trans hfirst.files⟩
  have hsame := hfirst.trans hsecond
  have hsound := soundSchema_schemaIn hschema
  obtain ⟨content, hcontent, hread⟩ := exists_of_bind_eq_ok hfile
  obtain rfl := Except.ok.inj hread
  simp only [Attempt.endsIn_bind, Attempt.endsIn_pure, Run.ofPass, Run.endsIn_atDesk]
  generalize hmissing : List.filter _ _ = missing
  have hmem : ∀ definition ∈ missing, definition ∈ schema ∧
      (readValues (content.getD [])).values.fills definition.name = false := by
    intro definition hdefinition
    rw [← hmissing] at hdefinition
    obtain ⟨hdeclared, -, hlacks⟩ := mem_missing_compare.mp (List.mem_filter.mp hdefinition).1
    exact ⟨hdeclared, hlacks⟩
  refine (endsIn_ofPass hregistry
    (fun definition hdefinition => hsound.sound_of_mem _ (hmem definition hdefinition).1)
    (plainValues_readValues (content.getD [])) (hsame.replies ▸ hreplies)).mono
    (fun outcome desk h => ?_) fun _ _ _ => ⟨hsame.valid, hsame.files⟩
  refine ⟨⟨hsame.valid, hsame.files⟩, h.1, ⟨h.2.nodup_keys, fun entry hentry => ?_, h.2.plain⟩,
    fun text htext entry hentry => ?_⟩
  · obtain ⟨definition, hdefinition, hname⟩ :=
      List.mem_map.mp (h.2.subset_names (List.mem_map_of_mem hentry))
    rw [← hname]
    exact (hsound.sound_of_mem _ (hmem definition hdefinition).1).isName_name
  · obtain ⟨definition, hdefinition, hname⟩ :=
      List.mem_map.mp (h.2.subset_names (List.mem_map_of_mem hentry))
    rw [hfirst.files, htext] at hcontent
    obtain rfl := Except.ok.inj hcontent
    rw [← hname]
    exact (hmem definition hdefinition).2

/-- The shared pass knows and supplies values on one line. -/
theorem keepsValues_resolveShared (hregistry : registry.PlainSupplies)
    (hcovers : ∀ path ∈ targets, view.covers path) (first : Workspace) (members : List Member)
    {rootSchema : List Definition} (hsound : SoundSchema rootSchema) :
    (resolveShared store registry options first members rootSchema).KeepsValues view targets
      fun pass => PlainValues pass.existing ∧ PlainValues pass.outcome.updates := by
  refine (Run.KeepsValues.of_computes hcovers (computes_readAllValues view _)
    fun _ _ h => plainValues_allValuesIn h).bind fun held hheld => ?_
  have hexisting : PlainValues (firstValues (members.zip held)) :=
    forall_mem_firstValues fun holding hholding => hheld _ (List.of_mem_zip hholding).2
  refine (Run.KeepsValues.atDesk fun desk hreplies => endsIn_ofPass hregistry
    (fun definition hdefinition => hsound.sound_of_mem _ (mem_missing_compare.mp hdefinition).1)
    hexisting hreplies).bind fun outcome houtcome => ?_
  exact .pure ⟨hexisting, houtcome.plain⟩

/-- Distributing shared values keeps the values of the members. -/
theorem keepsValues_fillMembers (hcovers : ∀ path ∈ targets, view.covers path)
    {values : Table Text Text} (hvalues : PlainUpdates values) {members : List Member}
    (hpaths : ∀ member ∈ members, member.workspace.valuesPath ∈ targets) :
    (fillMembers store registry options values members).KeepsValues view targets
      fun _ => True := by
  induction members with
  | nil => exact .pure trivial
  | cons member rest ih =>
    refine (Run.KeepsValues.of_computes hcovers (computes_workspaceSchema view _ _ _)
      fun _ _ h => (soundSchema_schemaIn h).plainDescriptions).bind fun schema hschema => ?_
    refine (keepsValues_fillFile hcovers (hpaths member (List.mem_cons_self ..))
      (hvalues.filter _) hschema).bind fun _ _ => ?_
    exact ih fun other hother => hpaths other (List.mem_cons_of_mem _ hother)

/-- The shared pass keeps the values of the root's file and of the members. -/
theorem keepsValues_syncShared (hregistry : registry.PlainSupplies)
    (hcovers : ∀ path ∈ targets, view.covers path) (hroot : options.rootValues ∈ targets)
    (first : Workspace) {members : List Member}
    (hpaths : ∀ member ∈ members, member.workspace.valuesPath ∈ targets) {rootSchema : Schema}
    (hsound : SoundSchema rootSchema.definitions) :
    (syncShared store registry options first members rootSchema).KeepsValues view targets
      fun _ => True := by
  rw [syncShared]
  split
  · exact .pure trivial
  · refine (keepsValues_resolveShared hregistry hcovers first members hsound).bind
      fun pass hpass => ?_
    have hnames : ∀ name ∈ rootSchema.names, isName name = true := by
      intro name hname
      obtain ⟨definition, hdefinition, rfl⟩ := List.mem_map.mp hname
      exact (hsound.sound_of_mem definition hdefinition).isName_name
    have hvalues := SharedPass.plainUpdates_values hnames hpass.1 hpass.2
    refine (keepsValues_fillFile hcovers hroot hvalues hsound.plainDescriptions).bind
      fun _ _ => ?_
    exact (keepsValues_fillMembers hcovers hvalues hpaths).bind fun _ _ => .pure trivial

/-- Syncing a member keeps its values. -/
theorem keepsValues_syncMember (hregistry : registry.PlainSupplies)
    (hcovers : ∀ path ∈ targets, view.covers path) {member : Member}
    (hpath : member.workspace.valuesPath ∈ targets) (sharedValues : Table Text Text)
    (sharedNames : List Text) (report : SyncReport) :
    (syncMember store registry options sharedValues sharedNames report member).KeepsValues view
      targets fun _ => True := by
  intro world hfit
  unfold syncMember
  rw [Attempt.endsIn_bind]
  have hsame (after : World σ)
      (h : view.valid after.store ∧ view.files after.store = view.files world.store) :
      view.Keeps world after := ⟨h.1, fun path _ => by rw [h.2]; exact .refl _⟩
  refine (endsIn_reconcileWorkspace hregistry hfit.valid hfit.replies _ _ _ _).mono
    (fun reconciliation first hfirst => ?_) fun _ after hafter => hsame after hafter
  obtain ⟨hstore, hreplies, hupdates⟩ := hfirst
  have hkeeps := hsame first hstore
  rw [Attempt.endsIn_bind]
  refine (computes_workspaceSchema view registry.patterns _ _).endsIn hstore.1
    (fun schema second hschema hsecond => ?_)
    fun _ _ _ hafter => hkeeps.trans hafter.unchanged.keeps
  have hkeeps' := hkeeps.trans hsecond.unchanged.keeps
  have hfit' := hfit.of_keeps hcovers hkeeps' (hsecond.replies ▸ hreplies)
  rw [← hstore.2, ← hsecond.files] at hupdates
  rw [Attempt.endsIn_bind]
  refine (keeps_applyUpdates hfit' hcovers hpath hupdates
    (soundSchema_schemaIn hschema).plainDescriptions).mono (fun applied third hthird => ?_)
    fun _ _ hafter => hkeeps'.trans hafter
  rw [Attempt.endsIn_bind]
  refine (computes_readValuesFile view _).endsIn hthird.2.valid (fun file fourth _ hfourth => ?_)
    fun _ _ _ hafter => (hkeeps'.trans hthird.1).trans hafter.unchanged.keeps
  have hkeeps'' := (hkeeps'.trans hthird.1).trans hfourth.unchanged.keeps
  exact ⟨⟨hkeeps'', hfit.of_keeps hcovers hkeeps'' (hfourth.replies ▸ hthird.2.replies)⟩, trivial⟩

/-- Syncing members keeps their values. -/
theorem keepsValues_syncMembers (hregistry : registry.PlainSupplies)
    (hcovers : ∀ path ∈ targets, view.covers path) {members : List Member}
    (hpaths : ∀ member ∈ members, member.workspace.valuesPath ∈ targets)
    (sharedValues : Table Text Text) (sharedNames : List Text) (report : SyncReport) :
    (syncMembers store registry options sharedValues sharedNames report members).KeepsValues view
      targets fun _ => True := by
  induction members generalizing report with
  | nil => exact .pure trivial
  | cons member rest ih =>
    refine (keepsValues_syncMember hregistry hcovers (hpaths member (List.mem_cons_self ..))
      sharedValues sharedNames report).bind fun report _ => ?_
    exact ih (fun other hother => hpaths other (List.mem_cons_of_mem _ hother)) report

/-- A sync keeps the values of the root's file and of the workspaces. -/
theorem keepsValues_syncIn (hregistry : registry.PlainSupplies)
    {workspaces : List Workspace} (population : List Workspace)
    (hcovers : ∀ path ∈ syncTargets options workspaces, view.covers path) :
    (syncIn store registry options workspaces population).KeepsValues view
      (syncTargets options workspaces) fun _ => True := by
  cases workspaces with
  | nil => exact .pure trivial
  | cons first rest =>
    refine (Run.KeepsValues.atDesk fun _ => endsIn_callHooks).bind fun _ _ => ?_
    refine (Run.KeepsValues.of_computes hcovers (computes_readExampleFile view _ _)
      fun _ _ h => soundSchema_exampleIn h).bind fun rootSchema hsound => ?_
    have hheld : (readAllValues store (population.map Workspace.valuesPath)).KeepsValues view
        (syncTargets options (first :: rest)) fun _ => True :=
      .of_computes hcovers (computes_readAllValues view _) fun _ _ _ => trivial
    refine hheld.bind fun held _ => ?_
    refine (Run.KeepsValues.of_computes hcovers (computes_readMembers view _ _ _)
      fun _ _ h => workspaces_membersIn h).bind fun members hmembers => ?_
    have hpaths : ∀ member ∈ members,
        member.workspace.valuesPath ∈ syncTargets options (first :: rest) := by
      intro member hmember
      have hworkspace := List.mem_map_of_mem (f := Member.workspace) hmember
      rw [hmembers] at hworkspace
      exact List.mem_cons_of_mem _ (List.mem_map_of_mem hworkspace)
    refine (keepsValues_syncShared hregistry hcovers (List.mem_cons_self ..) first hpaths
      hsound).bind fun report _ => ?_
    refine (keepsValues_syncMembers hregistry hcovers hpaths _ _ report).bind fun report _ => ?_
    exact (Run.KeepsValues.atDesk fun _ => endsIn_callHooks).bind fun _ _ => .pure trivial

end Steps

/-- A sync never loses a value. For every store in which reading a file back gives what was last
written and a write that fails changes nothing, and whether the sync returns or fails at any point:
it writes no file but the values files of the root and of the given workspaces, and each of them
holds afterwards every name that it held before, with the same value if that was not empty. The
values files have plain line ends, and no plugin, hook or reply supplies a value with a line end
in it. -/
theorem sync_keepsValues (view : StoreView store) (registry : Registry) (options : RunOptions)
    (workspaces : List Workspace) (population : Option (List Workspace)) (rehearsal : Bool)
    (world : World σ) (hvalid : view.valid world.store)
    (hcovers : ∀ path ∈ syncTargets options workspaces, view.covers path)
    (hends : ∀ path ∈ syncTargets options workspaces, ∀ text,
      view.files world.store path = .ok (some text) → Text.hasPlainEnds text = true)
    (hregistry : registry.PlainSupplies) (hreplies : PlainReplies world.desk.replies) :
    let after := ((sync store registry options workspaces population rehearsal).runFrom world).2
    store.Reached (syncTargets options workspaces) world.store after.store ∧
      ∀ path ∈ syncTargets options workspaces, ∀ content,
        view.files world.store path = .ok content →
          ∃ content', view.files after.store path = .ok content' ∧
            let held := (readValues (content.getD [])).values
            let held' := (readValues (content'.getD [])).values
            ∀ name, (held.has name = true → held'.has name = true) ∧
              (held.fills name = true → held'.get? name = held.get? name) := by
  have hfit : view.Fit (syncTargets options workspaces) world := by
    refine ⟨hvalid, fun path hpath content hcontent => ?_, hreplies⟩
    cases content with
    | none => rfl
    | some text => exact hends path hpath text hcontent
  have hwrites := writesOnly_sync store registry options workspaces population rehearsal world
  have hkeeps : view.Keeps world
      ((sync store registry options workspaces population rehearsal).runFrom world).2 := by
    cases rehearsal with
    | true =>
      have hnothing := writesOnly_rehearsedSync store registry options workspaces population world
      obtain ⟨hvalid', hfiles⟩ := view.files_of_reached hvalid hnothing
      exact ⟨hvalid', fun path _ => by rw [hfiles]; exact .refl _⟩
    | false =>
      have hends := keepsValues_syncIn hregistry (population.getD workspaces) hcovers world hfit
      exact (hends.mono (fun _ _ h => h.1.1) fun _ _ h => h).after
  refine ⟨hwrites, fun path hpath content hcontent => ?_⟩
  have hkept := hkeeps.files path (hcovers path hpath)
  rw [hcontent] at hkept
  obtain ⟨content', hcontent', hvalues⟩ := hkept
  obtain ⟨-, hvalues⟩ := hvalues (hfit.hasPlainEnds path hpath content hcontent)
  exact ⟨content', hcontent', fun name => ⟨hvalues.has_of_has name, hvalues.get?_of_fills name⟩⟩

section Stopped

/-- A workspace of the store below. -/
def stoppedWorkspace : Workspace :=
  ⟨"web", ["web"], ["web", ".env.local.example"], ["web", ".env.local"]⟩

/-- A registry whose only hook gives up after everything was written. -/
def stoppedRegistry : Registry where
  plugins := [{ name := "audit", hooks := { afterSync := some fun _ => .error "stop" } }]

/-- A root that declares two variables, and a workspace with a value of its own for one. -/
def stoppedWorld : World (Table Path Text) where
  store := [([".env.local.example"], "X=5\nY=6\n"),
    (stoppedWorkspace.valuesPath, "X=1\nY=\n")]

/-- A sync that fails at its end keeps the value of the workspace and fills what it lacks. -/
theorem sync_keepsValues_stopped :
    let result := (sync memoryStore stoppedRegistry {} [stoppedWorkspace]).runFrom stoppedWorld
    (stoppedRegistry.PlainSupplies ∧ result.1 = .error (.pluginFailed "stop")) ∧
      memoryStore.Reached (syncTargets {} [stoppedWorkspace]) stoppedWorld.store result.2.store ∧
        ∃ content, memoryView.files result.2.store stoppedWorkspace.valuesPath = .ok content ∧
          (readValues (content.getD [])).values.get? "X" = some ("1" : Text) := by
  have hregistry : stoppedRegistry.PlainSupplies := by
    refine ⟨fun source hsource => absurd hsource List.not_mem_nil,
      fun plugin hplugin hook hhook => ?_, fun plugin hplugin hook hhook => ?_⟩ <;>
    · rw [List.mem_singleton.mp hplugin] at hhook
      cases hhook
  have hends : ∀ path ∈ syncTargets {} [stoppedWorkspace], ∀ text,
      memoryView.files stoppedWorld.store path = .ok (some text) →
        Text.hasPlainEnds text = true := by
    intro path hpath text htext
    have hplain : ∀ entry ∈ stoppedWorld.store, Text.hasPlainEnds entry.2 = true := by
      decide +kernel
    exact hplain _ (Table.mem_of_get? (Except.ok.inj htext))
  have hpath : stoppedWorkspace.valuesPath ∈ syncTargets {} [stoppedWorkspace] :=
    List.mem_cons_of_mem _ (List.mem_singleton_self _)
  obtain ⟨hreached, hkept⟩ := sync_keepsValues memoryView stoppedRegistry {} [stoppedWorkspace]
    none false stoppedWorld trivial (fun _ _ => trivial) hends hregistry
    fun _ hreply => absurd hreply List.not_mem_nil
  obtain ⟨content, hcontent, hvalues⟩ := hkept _ hpath (some "X=1\nY=\n") (by decide +kernel)
  refine ⟨⟨hregistry, by decide +kernel⟩, hreached, content, hcontent, ?_⟩
  exact ((hvalues "X").2 (by decide +kernel)).trans (by decide +kernel)

end Stopped
end EnvFiles
