import EnvFiles.Proofs.Workflow.Handed

/-!
# How a value reaches the files

Each step of a sync gives one file updates for names without a value there, and leaves the paths to
other files. So one path can be followed through a run: the distribution makes it show the value
that is handed out for a name, and the passes over the members alone leave it as it is, as long as
no member with the same file owns the name. The step lemmas ask nothing of the other files.
-/

namespace EnvFiles

variable {σ : Type} {store : Store σ}

/-- A world in which one file was given updates for names without a value there. -/
structure StoreView.Given (view : StoreView store) (path : Path) (updates : Table Text Text)
    (before after : World σ) : Prop extends view.Changed path before after where
  readable : ∃ text, view.files after.store path = .ok text
  fillsOnly : FillsOnly (view.files before.store path) updates
  content : TidyContent (view.files before.store path) →
    ContentGiven updates (view.files before.store path) (view.files after.store path)

section Following

variable {view : StoreView store} {path target : Path} {updates : Table Text Text}
  {first second third : World σ}

/-- Reading before an update. -/
theorem StoreView.Given.of_same (h : view.Same first second)
    (h' : view.Given path updates second third) : view.Given path updates first third where
  valid := h'.valid
  others other hother hne := (h'.others other hother hne).trans (congrFun h.files other)
  readable := h'.readable
  fillsOnly := h.files ▸ h'.fillsOnly
  content := h.files ▸ h'.content

/-- Reading after an update. -/
theorem StoreView.Given.before_same (h : view.Given path updates first second)
    (h' : view.Same second third) : view.Given path updates first third where
  valid := h'.valid
  others other hother hne := (congrFun h'.files other).trans (h.others other hother hne)
  readable := by
    rw [h'.files]
    exact h.readable
  fillsOnly := h.fillsOnly
  content := by
    rw [h'.files]
    exact h.content

/-- What an update of one file does to a tidy path: it reads as the file does, or as before. -/
theorem StoreView.Given.cases (h : view.Given path updates first second)
    (hvalid : view.valid first.store) (hpath : view.covers path) (htarget : view.covers target)
    (htidy : TidyContent (view.files first.store target)) :
    (view.sameFile path target ∧
        view.files first.store target = view.files first.store path ∧
          FillsOnly (view.files first.store target) updates ∧
            ContentGiven updates (view.files first.store target)
              (view.files second.store target)) ∨
      (¬ view.sameFile path target ∧
        view.files second.store target = view.files first.store target) := by
  refine (h.toChanged.files_or hvalid hpath htarget).imp_left fun ⟨hsame, hbefore, hafter⟩ => ?_
  rw [hbefore] at htidy ⊢
  rw [hafter]
  exact ⟨hsame, rfl, h.fillsOnly, h.content htidy⟩

/-- A path with a value keeps it. -/
theorem StoreView.Given.holds (h : view.Given path updates first second)
    (hvalid : view.valid first.store) (hpath : view.covers path) (htarget : view.covers target)
    {name value : Text} (hholds : Holds name value (view.files first.store target)) :
    Holds name value (view.files second.store target) := by
  rcases h.cases hvalid hpath htarget hholds.tidy with ⟨-, -, hupdates, hcontent⟩ | ⟨-, hother⟩
  · exact hcontent.holds hupdates hholds
  · rwa [hother]

/-- A path that can be read can still be read. -/
theorem StoreView.Given.readable_of_readable (h : view.Given path updates first second)
    (hvalid : view.valid first.store) (hpath : view.covers path) (htarget : view.covers target)
    (hreadable : ∃ text, view.files first.store target = .ok text) :
    ∃ text, view.files second.store target = .ok text := by
  rcases h.toChanged.files_or hvalid hpath htarget with ⟨-, -, hafter⟩ | ⟨-, hother⟩
  · rw [hafter]
    exact h.readable
  · rwa [hother]

end Following

section Steps

variable {view : StoreView store} {registry : Registry} {options : RunOptions} {world : World σ}
  {path : Path} {values : Table Text Text} {schema : List Definition} {member : Member}

/-- An update that only concerns names without a value gives them what it says. -/
theorem endsIn_applyUpdates_given (hvalid : view.valid world.store) (hcovers : view.covers path)
    {updates : Table Text Text} (hupdates : FillsOnly (view.files world.store path) updates)
    (hschema : PlainDescriptions schema) :
    (applyUpdates store path updates schema).EndsIn world
      (fun _ after => view.Given path updates world after) fun _ _ => True := by
  refine endsIn_applyUpdates hvalid hcovers (fun _ _ _ _ => trivial)
    (fun content after hcontent hchanges hsame => ?_)
    (fun content after hcontent _ hafter => ?_) fun _ _ _ _ _ _ _ _ _ _ => trivial
  · refine ⟨⟨hsame.valid, fun other _ _ => congrFun hsame.files other⟩, ?_, hupdates,
      fun htidy => ?_⟩
    · rw [hsame.files]
      exact ⟨content, hcontent⟩
    · rw [hsame.files]
      refine contentGiven_of_changesTo hupdates.plain.nodup_keys htidy (fun _ _ => rfl)
        fun name value hchange => ?_
      rw [hcontent, valuesOf, hchanges] at hchange
      cases hchange
  · obtain ⟨back, hback, hreads⟩ :=
      hafter.files_of_sameFile path hcovers (view.sameFile_equivalence.refl path)
    refine ⟨⟨hafter.valid, hafter.files_of_not_sameFile⟩, ⟨some back, hback⟩, hupdates,
      fun htidy => ?_⟩
    rw [hback, hcontent]
    exact contentGiven_of_readsBack (htidy content hcontent) hupdates.plain hschema hreads

/-- Filling a file gives it what it lacks. -/
theorem endsIn_fillFile_given (hvalid : view.valid world.store) (hcovers : view.covers path)
    (hvalues : PlainUpdates values) (hschema : PlainDescriptions schema) :
    (fillFile store path values schema).EndsIn world
      (fun _ after => view.Given path
        (lackedBy (valuesOf (view.files world.store path)) values) world after)
      fun _ _ => True := by
  unfold fillFile
  rw [Attempt.endsIn_bind]
  refine (computes_readValuesFile view path).endsIn hvalid (fun file middle hfile hsame => ?_)
    fun _ _ _ _ => trivial
  rw [values_of_valuesIn hfile]
  refine (Attempt.endsIn_map _ _).mpr ((endsIn_applyUpdates_given hsame.valid hcovers
    (hsame.files ▸ fillsOnly_lackedBy hvalues _) hschema).mono (fun _ after hafter => ?_)
      fun _ _ _ => trivial)
  exact hafter.of_same hsame

/-- Filling the file of a member gives it the values that it lacks and does not own. -/
theorem endsIn_fillMember_given (hvalid : view.valid world.store)
    (hcovers : view.covers member.valuesPath) (hvalues : PlainUpdates values) :
    (fillMember store registry options values () member).EndsIn world
      (fun _ after => view.Given member.valuesPath
        (lackedBy (valuesOf (view.files world.store member.valuesPath)) (member.valuesFor values))
          world after)
      fun _ _ => True := by
  unfold fillMember
  rw [Attempt.endsIn_bind]
  refine (computes_workspaceSchema view registry.patterns _ member.workspace).endsIn hvalid
    (fun schema middle hschema hsame => ?_) fun _ _ _ _ => trivial
  refine (endsIn_fillFile_given hsame.valid hcovers (hvalues.filter _)
    (soundSchema_schemaIn hschema).plainDescriptions).mono (fun _ after hafter => ?_)
      fun _ _ _ => trivial
  rw [hsame.files] at hafter
  exact hafter.of_same hsame

/-- A pass over a member alone gives its file values of names that are not shared or that it owns.
The result in the report compares the file as it is left. -/
theorem endsIn_syncMember_given (hplugins : registry.plugins = [])
    (hinteractive : options.interactive = false) (hvalid : view.valid world.store)
    (hcovers : view.covers member.valuesPath) (root : Schema) (sharedValues : Table Text Text)
    (report : SyncReport) :
    (syncMember store registry options sharedValues root.names report member).EndsIn world
      (fun next after =>
        (∃ updates, view.Given member.valuesPath updates world after ∧
          ∀ name ∈ root.names, member.owns name = false → updates.get? name = none) ∧
        ∃ schema, next.results = report.results ++
          [compare schema (valuesOf (view.files after.store member.valuesPath)) member.workspace
            (some sharedValues) root.names])
      fun _ _ => True := by
  unfold syncMember
  cases hschema : schemaIn registry.patterns (view.files world.store) options.rootExample
    member.workspace with
  | error failure =>
    rw [Attempt.endsIn_bind]
    unfold reconcileWorkspace
    rw [Attempt.endsIn_bind]
    refine (computes_workspaceSchema view registry.patterns _ member.workspace).endsIn hvalid
      (fun schema _ hother _ => ?_) fun _ _ _ _ => trivial
    rw [hschema] at hother
    cases hother
  | ok schema =>
    have hsound := soundSchema_schemaIn hschema
    rw [Attempt.endsIn_bind]
    refine (endsIn_reconcileWorkspace_unattended hplugins hinteractive hvalid hschema _ _ _).mono
      (fun reconciliation first hfirst => ?_) fun _ _ _ => trivial
    obtain ⟨hsame, -, hupdates⟩ := hfirst
    change _ = passUpdates (member.ownDefinitions root.names schema)
      (valuesOf (view.files world.store member.valuesPath)) at hupdates
    rw [hupdates]
    have hownSound : ∀ definition ∈ member.ownDefinitions root.names schema, definition.Sound :=
      fun definition hdefinition =>
        hsound.sound_of_mem definition (List.mem_filter.mp hdefinition).1
    refine (computes_workspaceSchema view registry.patterns _ member.workspace).endsIn_bind
      hsame.valid (hsame.files ▸ hschema) fun second hsecond => ?_
    have hsame' := hsame.trans hsecond
    rw [Attempt.endsIn_bind]
    refine (endsIn_applyUpdates_given hsame'.valid hcovers
      (hsame'.files ▸ fillsOnly_passUpdates hownSound _) hsound.plainDescriptions).mono
        (fun applied third hthird => ?_) fun _ _ _ => trivial
    rw [Attempt.endsIn_bind]
    refine (computes_readValuesFile view member.valuesPath).endsIn hthird.valid
      (fun file last hfile hlast => ?_) fun _ _ _ _ => trivial
    refine ⟨⟨_, (hthird.of_same hsame').before_same hlast, fun name hshared howns => ?_⟩, schema,
      ?_⟩
    · refine Table.get?_eq_none_iff.mpr fun hkey => ?_
      have hmissing := (supplies_passUpdates hownSound fun entry hentry =>
        (usableValues_valuesOf _ entry hentry).isOneLine).subset_names hkey
      exact Member.notMem_ownDefinitions schema hshared howns
        ((List.filter_sublist.map Definition.name).subset hmissing)
    · rw [hlast.files, ← values_of_valuesIn hfile]
      rfl

end Steps

section Runs

variable {view : StoreView store} {registry : Registry} {options : RunOptions} {world : World σ}
  {members : List Member} {target : Path} {name : Text}

/-- A path waits for a value as long as no file of it is given one, and shows it afterwards. -/
theorem endsIn_fillMembers_received (hvalid : view.valid world.store)
    (hcovers : ∀ member ∈ members, view.covers member.valuesPath) (htarget : view.covers target)
    {values : Table Text Text} (hvalues : PlainUpdates values)
    (howns : ∀ member ∈ members, view.sameFile member.valuesPath target →
      member.owns name = false)
    (hawaits : Awaits (values.get? name) name (view.files world.store target)) :
    (fillMembers store registry options values members).EndsIn world
      (fun _ after => (view.valid after.store ∧
        Awaits (values.get? name) name (view.files after.store target)) ∧
        ∀ member ∈ members, view.sameFile member.valuesPath target →
          Received (values.get? name) name (view.files after.store target))
      fun _ _ => True := by
  rw [fillMembers_eq_foldlM]
  refine Attempt.endsIn_foldlM (fun member hmem _ before hbefore => ?_) ⟨hvalid, hawaits⟩
  obtain ⟨hvalid', hawaits'⟩ := hbefore
  refine (endsIn_fillMember_given hvalid' (hcovers member hmem) hvalues).mono
    (fun _ after hafter => ?_) fun _ _ _ => trivial
  rcases hafter.cases hvalid' (hcovers member hmem) htarget hawaits'.tidy with
    ⟨hsame, hbefore, -, hcontent⟩ | ⟨hother, hunchanged⟩
  · have hfor : (member.valuesFor values).get? name = values.get? name := by
      rw [get?_valuesFor, howns member hmem hsame, if_neg Bool.false_ne_true]
    rw [← hbefore] at hcontent
    have hreceived := hfor ▸ hcontent.received (hfor.symm ▸ hawaits')
    exact ⟨⟨hafter.valid, hreceived.awaits⟩, fun _ => hreceived, fun _ _ _ _ => hreceived⟩
  · rw [hunchanged]
    exact ⟨⟨hafter.valid, hawaits'⟩, fun hsame => absurd hsame hother, fun _ _ h => h⟩

/-- Distributing values leaves every value that is there. -/
theorem endsIn_fillMembers_holds (hvalid : view.valid world.store)
    (hcovers : ∀ member ∈ members, view.covers member.valuesPath) (htarget : view.covers target)
    {values : Table Text Text} (hvalues : PlainUpdates values) {value : Text}
    (hholds : Holds name value (view.files world.store target)) :
    (fillMembers store registry options values members).EndsIn world
      (fun _ after => view.valid after.store ∧ Holds name value (view.files after.store target))
      fun _ _ => True := by
  rw [fillMembers_eq_foldlM]
  refine Attempt.endsIn_foldlM_kept (fun member hmem _ before hbefore => ?_) ⟨hvalid, hholds⟩
  exact (endsIn_fillMember_given hbefore.1 (hcovers member hmem) hvalues).mono
    (fun _ after hafter => ⟨hafter.valid,
      hafter.holds hbefore.1 (hcovers member hmem) htarget hbefore.2⟩) fun _ _ _ => trivial

/-- The shared pass gives the root's file and then the members what it hands out. It reports no
results. -/
theorem endsIn_syncShared_of (hplugins : registry.plugins = [])
    (hinteractive : options.interactive = false) (hvalid : view.valid world.store)
    (hcovers : view.covers options.rootValues) (first : Workspace) {root : Schema}
    (hsound : SoundSchema root.definitions) {done : World σ → Prop}
    (hnothing : root.definitions = [] → done world)
    (hpass : ∀ values middle, PlainUpdates values →
      (∀ name, values.get? name = handedOut? (view.files world.store) root members name) →
        view.Given options.rootValues
          (lackedBy (valuesOf (view.files world.store options.rootValues)) values) world middle →
          (fillMembers store registry options values members).EndsIn middle (fun _ => done)
            fun _ _ => True) :
    (syncShared store registry options first members root).EndsIn world
      (fun report after => report.results = [] ∧ done after) fun _ _ => True := by
  unfold syncShared
  by_cases hempty : root.definitions = []
  · rw [if_pos (by simpa using hempty)]
    exact ⟨rfl, hnothing hempty⟩
  · rw [if_neg (by simpa using hempty), Attempt.endsIn_bind]
    refine (endsIn_resolveShared_scan hplugins hinteractive hvalid first members).mono
      (fun pass second hsecond => ?_) fun _ _ _ => trivial
    obtain ⟨⟨hsame, -⟩, hexisting, hcompares, hupdates⟩ := hsecond
    have husable : PlainValues pass.existing := fun entry hentry =>
      (usableValues_firstValues_holdingsIn _ members entry (hexisting ▸ hentry)).isOneLine
    have hplain : PlainUpdates (pass.values root.names) := by
      refine SharedPass.plainUpdates_values (fun name hname => ?_) husable ?_
      · obtain ⟨definition, hmem, rfl⟩ := List.mem_map.mp hname
        exact (hsound.sound_of_mem definition hmem).isName_name
      · rw [hupdates]
        exact (supplies_passUpdates hsound.sound_of_mem husable).plain
    rw [Attempt.endsIn_bind]
    refine (endsIn_fillFile_given hsame.valid hcovers hplain hsound.plainDescriptions).mono
      (fun _ third hthird => ?_) fun _ _ _ => trivial
    rw [hsame.files] at hthird
    rw [Attempt.endsIn_bind]
    exact (hpass _ third hplain (hcompares.get?_values hexisting hupdates)
      (hthird.of_same hsame)).mono (fun _ _ hafter => ⟨rfl, hafter⟩) fun _ _ h => h

/-- A path that waits for the value handed out for a name, and to which a member's file leads, shows
it after the shared pass. -/
theorem endsIn_syncShared_received (hplugins : registry.plugins = [])
    (hinteractive : options.interactive = false) (hvalid : view.valid world.store)
    (hcovers : ∀ path ∈ options.rootValues :: members.map Member.valuesPath, view.covers path)
    (first : Workspace) {root : Schema} (hsound : SoundSchema root.definitions)
    (htarget : view.covers target)
    (howns : ∀ member ∈ members, view.sameFile member.valuesPath target →
      member.owns name = false)
    (hmember : ∃ member ∈ members, view.sameFile member.valuesPath target)
    (hawaits : Awaits (handedOut? (view.files world.store) root members name) name
      (view.files world.store target)) :
    (syncShared store registry options first members root).EndsIn world
      (fun report after => report.results = [] ∧ view.valid after.store ∧
        Received (handedOut? (view.files world.store) root members name) name
          (view.files after.store target))
      fun _ _ => True := by
  obtain ⟨hroot, hmembers⟩ := List.forall_mem_cons.mp hcovers
  rw [List.forall_mem_map] at hmembers
  refine endsIn_syncShared_of hplugins hinteractive hvalid hroot first hsound (fun hempty => ?_)
    fun values middle hvalues hget hmiddle => ?_
  · have hnone : handedOut? (view.files world.store) root members name = none := by
      rw [handedOut?, hempty]
      rfl
    rw [hnone] at hawaits ⊢
    exact ⟨hvalid, hawaits.received_of_none⟩
  · rw [← hget] at hawaits ⊢
    have hawaits' : Awaits (values.get? name) name (view.files middle.store target) := by
      rcases hmiddle.cases hvalid hroot htarget hawaits.tidy with
        ⟨-, hbefore, -, hcontent⟩ | ⟨-, hunchanged⟩
      · rw [← hbefore] at hcontent
        exact (hcontent.received hawaits).awaits
      · rwa [hunchanged]
    refine (endsIn_fillMembers_received hmiddle.valid hmembers htarget hvalues howns
      hawaits').mono (fun _ after hafter => ?_) fun _ _ _ => trivial
    obtain ⟨member, hmem, hsame⟩ := hmember
    exact ⟨hafter.1.1, hafter.2 member hmem hsame⟩

/-- The root's file keeps its value of a name in the shared pass, or holds what is handed out
afterwards. -/
theorem endsIn_syncShared_holds (hplugins : registry.plugins = [])
    (hinteractive : options.interactive = false) (hvalid : view.valid world.store)
    (hcovers : ∀ path ∈ options.rootValues :: members.map Member.valuesPath, view.covers path)
    (first : Workspace) {root : Schema} (hsound : SoundSchema root.definitions)
    (htidy : TidyContent (view.files world.store options.rootValues))
    (hgap : gapOf (view.files world.store options.rootValues) name = []) {value : Text}
    (hvalue : handedOut? (view.files world.store) root members name = some value)
    (hne : Text.trimEnd value ≠ []) :
    (syncShared store registry options first members root).EndsIn world
      (fun report after => report.results = [] ∧ view.valid after.store ∧
        Holds name (((valuesOf (view.files world.store options.rootValues)).filled? name).getD
          (Text.trimEnd value)) (view.files after.store options.rootValues))
      fun _ _ => True := by
  obtain ⟨hroot, hmembers⟩ := List.forall_mem_cons.mp hcovers
  rw [List.forall_mem_map] at hmembers
  refine endsIn_syncShared_of hplugins hinteractive hvalid hroot first hsound (fun hempty => ?_)
    fun values middle hvalues hget hmiddle => ?_
  · rw [handedOut?, hempty] at hvalue
    cases hvalue
  · refine endsIn_fillMembers_holds hmiddle.valid hmembers hroot hvalues ?_
    cases hfilled : (valuesOf (view.files world.store options.rootValues)).filled? name with
    | some held => exact hmiddle.holds hvalid hroot hroot ⟨htidy, hfilled⟩
    | none =>
      have hawaits : Awaits (values.get? name) name
          (view.files world.store options.rootValues) :=
        ⟨htidy, Or.inr ⟨by rw [Table.fills, hfilled]; rfl, hgap⟩⟩
      have hreceived := (hmiddle.content htidy).received hawaits
      rw [hget, hvalue] at hreceived
      exact hreceived.holds hne

/-- The passes over the members alone leave what a path shows, and the results of members with that
path compare what it shows. -/
theorem endsIn_syncMembers_received (hplugins : registry.plugins = [])
    (hinteractive : options.interactive = false) (hvalid : view.valid world.store)
    (hcovers : ∀ member ∈ members, view.covers member.valuesPath) (htarget : view.covers target)
    {root : Schema} (hname : name ∈ root.names)
    (howns : ∀ member ∈ members, view.sameFile member.valuesPath target →
      member.owns name = false)
    (sharedValues : Table Text Text) (report : SyncReport) {value? : Option Text}
    (hreceived : Received value? name (view.files world.store target)) :
    (syncMembers store registry options sharedValues root.names report members).EndsIn world
      (fun last after =>
        (view.valid after.store ∧ Received value? name (view.files after.store target)) ∧
        ∃ results, last.results = report.results ++ results ∧
          results.map Comparison.workspace = members.map Member.workspace ∧
          ∀ result ∈ results, result.workspace.valuesPath = target →
            ∃ schema values, Shows value? name values ∧
              result = compare schema values result.workspace (some sharedValues) root.names)
      fun _ _ => True := by
  induction members generalizing report world with
  | nil => exact ⟨⟨hvalid, hreceived⟩, [], (List.append_nil _).symm, rfl,
      fun _ hmem => absurd hmem List.not_mem_nil⟩
  | cons member rest ih =>
    obtain ⟨hcovered, hcoversRest⟩ := List.forall_mem_cons.mp hcovers
    rw [syncMembers, Attempt.endsIn_bind]
    refine (endsIn_syncMember_given hplugins hinteractive hvalid hcovered root sharedValues
      report).mono (fun next middle hmiddle => ?_) fun _ _ _ => trivial
    obtain ⟨⟨updates, hgiven, hnone⟩, schema, hnext⟩ := hmiddle
    have hreceived' : Received value? name (view.files middle.store target) := by
      rcases hgiven.cases hvalid hcovered htarget hreceived.tidy with
        ⟨hsame, -, -, hcontent⟩ | ⟨-, hunchanged⟩
      · exact hcontent.received_of_none (hnone name hname
          (howns member (List.mem_cons_self ..) hsame)) hreceived
      · rwa [hunchanged]
    refine (ih hgiven.valid hcoversRest (fun other hother => howns other
      (List.mem_cons_of_mem _ hother)) next hreceived').mono (fun last after hafter => ?_)
        fun _ _ h => h
    obtain ⟨hkept, results, hlast, hworkspaces, hshows⟩ := hafter
    refine ⟨hkept, compare schema (valuesOf (view.files middle.store member.valuesPath))
      member.workspace (some sharedValues) root.names :: results, ?_, ?_,
      List.forall_mem_cons.mpr ⟨fun hpath => ?_, hshows⟩⟩
    · rw [hlast, hnext, List.append_assoc]
      rfl
    · rw [List.map_cons, List.map_cons, hworkspaces]
      rfl
    · change member.valuesPath = target at hpath
      rw [hpath]
      exact ⟨schema, _, hreceived'.shows, rfl⟩

/-- The passes over the members alone leave every value that is there. -/
theorem endsIn_syncMembers_holds (hplugins : registry.plugins = [])
    (hinteractive : options.interactive = false) (hvalid : view.valid world.store)
    (hcovers : ∀ member ∈ members, view.covers member.valuesPath) (htarget : view.covers target)
    (root : Schema) (sharedValues : Table Text Text) (report : SyncReport) {value : Text}
    (hholds : Holds name value (view.files world.store target)) :
    (syncMembers store registry options sharedValues root.names report members).EndsIn world
      (fun _ after => view.valid after.store ∧ Holds name value (view.files after.store target))
      fun _ _ => True := by
  rw [syncMembers_eq_foldlM]
  refine Attempt.endsIn_foldlM_kept (fun member hmem result before hbefore => ?_) ⟨hvalid, hholds⟩
  refine (endsIn_syncMember_given hplugins hinteractive hbefore.1 (hcovers member hmem) root
    sharedValues result).mono (fun next after hafter => ?_) fun _ _ _ => trivial
  obtain ⟨⟨updates, hgiven, -⟩, -⟩ := hafter
  exact ⟨hgiven.valid, hgiven.holds hbefore.1 (hcovers member hmem) htarget hbefore.2⟩

/-- After the passes over the members alone the files of all of them can be read. -/
theorem endsIn_syncMembers_readable (hplugins : registry.plugins = [])
    (hinteractive : options.interactive = false) (hvalid : view.valid world.store)
    (hcovers : ∀ member ∈ members, view.covers member.valuesPath)
    (root : Schema) (sharedValues : Table Text Text) (report : SyncReport) :
    (syncMembers store registry options sharedValues root.names report members).EndsIn world
      (fun _ after => view.valid after.store ∧
        ∀ member ∈ members, ∃ text, view.files after.store member.valuesPath = .ok text)
      fun _ _ => True := by
  rw [syncMembers_eq_foldlM]
  refine Attempt.endsIn_foldlM (fun member hmem result before hbefore => ?_) hvalid
  refine (endsIn_syncMember_given hplugins hinteractive hbefore (hcovers member hmem) root
    sharedValues result).mono (fun next after hafter => ?_) fun _ _ _ => trivial
  obtain ⟨⟨updates, hgiven, -⟩, -⟩ := hafter
  exact ⟨hgiven.valid, hgiven.readable, fun other hother hreadable =>
    hgiven.readable_of_readable hbefore (hcovers member hmem) (hcovers other hother) hreadable⟩

/-- A shared pass over some variables reads the root's file. -/
theorem endsIn_syncShared_readable (hplugins : registry.plugins = [])
    (hinteractive : options.interactive = false) (hvalid : view.valid world.store)
    (first : Workspace) {root : Schema} (hname : name ∈ root.names) :
    (syncShared store registry options first members root).EndsIn world
      (fun _ _ => ∃ text, view.files world.store options.rootValues = .ok text)
      fun _ _ => True := by
  have hsome : root.definitions ≠ [] := by
    rintro hempty
    rw [Schema.names, hempty] at hname
    exact absurd hname List.not_mem_nil
  unfold syncShared
  rw [if_neg (by simpa using hsome), Attempt.endsIn_bind]
  refine (endsIn_resolveShared_scan hplugins hinteractive hvalid first members).mono
    (fun pass second hsecond => ?_) fun _ _ _ => trivial
  have hsame := hsecond.1.1
  unfold fillFile
  rw [Attempt.endsIn_bind, Attempt.endsIn_bind]
  refine (computes_readValuesFile view _).endsIn hsame.valid (fun file _ hfile _ => ?_)
    fun _ _ _ _ => trivial
  obtain ⟨text, htext, -⟩ := exists_of_bind_eq_ok hfile
  rw [hsame.files] at htext
  exact Attempt.endsIn_of_forall _ (fun _ _ => Attempt.endsIn_of_forall _
    (fun _ _ => ⟨text, htext⟩) fun _ _ => trivial) fun _ _ => trivial

end Runs

end EnvFiles
