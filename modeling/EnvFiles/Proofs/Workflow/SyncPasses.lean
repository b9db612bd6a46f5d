import EnvFiles.Proofs.Workflow.Settling
import EnvFiles.Proofs.Workflow.Sharing

/-!
# The passes of a sync without plugins and questions

A sync fills the root's file and the files of the members with shared values, and then goes over
each member alone. Each step puts known updates over one file: the shared values that the file
lacks, or what a scan of the member's own definitions comes to.
-/

namespace EnvFiles

variable {σ : Type} {store : Store σ}

/-- The file of a member. -/
def Member.valuesPath (member : Member) : Path := member.workspace.valuesPath

/-- The definitions that are resolved for a member alone: all but the shared ones that it does not
own. -/
def Member.ownDefinitions (member : Member) (sharedNames : List Text)
    (schema : List Definition) : List Definition :=
  schema.filter fun definition =>
    !(sharedNames.filter fun name => !member.owns name).contains definition.name

/-- The shared values that reach a member. -/
def Member.valuesFor (member : Member) (values : Table Text Text) : Table Text Text :=
  values.filter fun entry => !member.owns entry.1

/-- The members with the values that they hold. -/
def holdingsIn (files : Files) (members : List Member) : List (Member × Table Text Text) :=
  members.map fun member => (member, valuesOf (files member.valuesPath))

/-- Members put beside the values of their files. -/
theorem zip_eq_holdingsIn (files : Files) (members : List Member) :
    members.zip ((members.map fun member => member.workspace.valuesPath).map fun path =>
      valuesOf (files path)) = holdingsIn files members := by
  rw [List.map_map, holdingsIn, ← List.zip_map', List.map_id']
  rfl

section Tables

/-- The names that a path holds are distinct. -/
theorem nodup_keys_valuesOf (content : Content) : (valuesOf content).keys.Nodup := by
  cases content with
  | error failure => exact List.nodup_nil
  | ok text =>
    rw [valuesOf, readValues_values]
    exact Table.nodup_keys_ofEntries _

/-- A name has a first value exactly if a member that does not own it holds one. -/
theorem fills_firstValues_holdingsIn (files : Files) (members : List Member) (name : Text) :
    (firstValues (holdingsIn files members)).fills name =
      members.any fun member =>
        !member.owns name && (valuesOf (files member.valuesPath)).fills name := by
  have hnodup : ∀ holding ∈ holdingsIn files members, holding.2.keys.Nodup := by
    intro holding hmem
    obtain ⟨member, -, rfl⟩ := List.mem_map.mp hmem
    exact nodup_keys_valuesOf _
  rw [fills_firstValues hnodup, holdingsIn, List.any_map]
  rfl

/-- The values of a file that can be read. -/
theorem values_of_valuesIn {files : Files} {path : Path} {file : ValuesFile}
    (h : valuesIn files path = .ok file) : file.values = valuesOf (files path) := by
  obtain ⟨text, htext, hread⟩ := exists_of_bind_eq_ok h
  obtain rfl := Except.ok.inj hread
  rw [htext, valuesOf]

/-- The values of several files, when all of them can be read. -/
theorem eq_of_allValuesIn {files : Files} {paths : List Path} {tables : List (Table Text Text)}
    (h : allValuesIn files paths = .ok tables) :
    tables = paths.map (fun path => valuesOf (files path)) ∧
      ∀ path ∈ paths, ∃ text, files path = .ok text := by
  induction paths generalizing tables with
  | nil =>
    obtain rfl := Except.ok.inj h
    exact ⟨rfl, fun _ hmem => absurd hmem List.not_mem_nil⟩
  | cons path rest ih =>
    obtain ⟨file, hfile, hrest⟩ := exists_of_bind_eq_ok h
    obtain ⟨more, hmore, hcons⟩ := exists_of_bind_eq_ok hrest
    obtain ⟨text, htext, hread⟩ := exists_of_bind_eq_ok hfile
    obtain rfl := Except.ok.inj hread
    obtain rfl := Except.ok.inj hcons
    obtain ⟨rfl, hreadable⟩ := ih hmore
    exact ⟨by rw [List.map_cons, htext, valuesOf],
      List.forall_mem_cons.mpr ⟨⟨text, htext⟩, hreadable⟩⟩

/-- Several files cannot be read when one of them cannot. -/
theorem exists_of_allValuesIn_eq_error {files : Files} {paths : List Path} {failure : Failure}
    (h : allValuesIn files paths = .error failure) :
    ∃ path ∈ paths, files path = .error failure := by
  induction paths with
  | nil => cases h
  | cons path rest ih =>
    cases hfile : valuesIn files path with
    | error other =>
      rw [allValuesIn, hfile] at h
      obtain rfl := Except.error.inj h
      exact ⟨path, List.mem_cons_self .., eq_error_of_valuesIn hfile⟩
    | ok file =>
      cases hmore : allValuesIn files rest with
      | error other =>
        rw [allValuesIn, hfile, hmore] at h
        obtain rfl := Except.error.inj h
        obtain ⟨path, hmem, hpath⟩ := ih hmore
        exact ⟨path, List.mem_cons_of_mem _ hmem, hpath⟩
      | ok more =>
        rw [allValuesIn, hfile, hmore] at h
        cases h

/-- The update of a name among what a file lacks. -/
theorem get?_lackedBy (values entries : Table Text Text) (name : Text) :
    (lackedBy values entries).get? name =
      if values.fills name then none else entries.get? name := by
  have hget : (lackedBy values entries).get? name =
      if !values.fills name then entries.get? name else none :=
    Table.get?_filter entries (fun name => !values.fills name) name
  rw [hget]
  cases values.fills name <;> rfl

/-- The values that a file has after it was given those that it lacked. -/
theorem fills_of_lackedBy {values entries after : Table Text Text} (hfilled : OnlyFilled entries)
    (h : Overlays values (lackedBy values entries) after) (name : Text) :
    after.fills name = (values.fills name || entries.fills name) := by
  have hget := get?_lackedBy values entries name
  have hhas := hfilled name
  rw [h.fills, Table.has, Table.fills_eq (lackedBy values entries), hget]
  rw [Table.has, Table.fills_eq] at hhas
  cases hvalue : values.fills name with
  | true => rfl
  | false =>
    rw [Table.fills_eq entries]
    cases hentry : entries.get? name with
    | none => rfl
    | some value => rfl

/-- A file that has all the values lacks none. -/
theorem lackedBy_eq_nil {values entries : Table Text Text} (hfilled : OnlyFilled entries)
    (h : ∀ name, entries.fills name = true → values.fills name = true) :
    lackedBy values entries = [] := by
  refine List.filter_eq_nil_iff.mpr fun entry hentry => ?_
  have hhas : entries.has entry.1 = true := by
    rw [Table.has, Option.isSome_iff_ne_none, ne_eq, Table.get?_eq_none_iff, not_not]
    exact List.mem_map_of_mem hentry
  rw [h entry.1 ((hfilled entry.1).symm.trans hhas)]
  decide

/-- The value of a name for a member. -/
theorem get?_valuesFor (member : Member) (values : Table Text Text) (name : Text) :
    (member.valuesFor values).get? name = if member.owns name then none else values.get? name := by
  have hget : (member.valuesFor values).get? name =
      if !member.owns name then values.get? name else none :=
    Table.get?_filter values (fun name => !member.owns name) name
  rw [hget]
  cases member.owns name <;> rfl

/-- The values for a member are those that it does not own. -/
theorem fills_valuesFor (member : Member) (values : Table Text Text) (name : Text) :
    (member.valuesFor values).fills name = (!member.owns name && values.fills name) := by
  rw [Table.fills_eq, get?_valuesFor, Table.fills_eq]
  cases member.owns name <;> rfl

/-- None of the values for a member is empty. -/
theorem OnlyFilled.valuesFor {values : Table Text Text} (h : OnlyFilled values) (member : Member) :
    OnlyFilled (member.valuesFor values) := by
  intro name
  rw [fills_valuesFor, Table.has, get?_valuesFor, ← h name, Table.has]
  cases member.owns name <;> rfl

end Tables

section Steps

variable {view : StoreView store} {registry : Registry} {options : RunOptions} {world : World σ}

/-- A shared pass over a comparison compares. -/
theorem compares_compare (definitions : List Definition) (existing : Table Text Text)
    (workspace : Workspace) (outcome : PassOutcome) :
    SharedPass.Compares ⟨existing, compare definitions existing workspace, outcome⟩
      definitions where
  missing := missing_compare ..
  valid := by
    simp only [compare, List.filter_filter, Definition.isActive]
    exact List.filter_congr fun definition _ => Bool.and_comm ..

/-- The first values that members hold can be values. -/
theorem usableValues_firstValues_holdingsIn (files : Files) (members : List Member) :
    UsableValues (firstValues (holdingsIn files members)) := by
  refine forall_mem_firstValues fun holding hmem => ?_
  obtain ⟨member, -, rfl⟩ := List.mem_map.mp hmem
  exact usableValues_valuesOf _

/-- The shared pass reads what the members hold, and resolves what is missing among their first
values. -/
theorem endsIn_resolveShared_of (hvalid : view.valid world.store) (first : Workspace)
    (members : List Member) {definitions : List Definition}
    {done : SharedPass → World σ → Prop} {failed : Failure → World σ → Prop}
    (hunreadable : ∀ failure after, (∃ member ∈ members,
      view.files world.store member.valuesPath = .error failure) → failed failure after)
    (hpass : ∀ middle, view.Same world middle →
      (∀ member ∈ members, ∃ text, view.files world.store member.valuesPath = .ok text) →
      let existing := firstValues (holdingsIn (view.files world.store) members)
      (DeskStep.ofPass existing (resolveMissing registry (options.scope first true) {}
        (missingFrom definitions existing))).EndsIn middle.desk
        (fun outcome desk => done ⟨existing, compare definitions existing first, outcome⟩
          { middle with desk })
        fun failure desk => failed failure { middle with desk }) :
    (resolveShared store registry options first members definitions).EndsIn world done failed := by
  unfold resolveShared
  rw [Attempt.endsIn_bind]
  refine (computes_readAllValues view _).endsIn hvalid (fun held middle hheld hsame => ?_)
    fun failure after hfailure _ => hunreadable failure after ?_
  · obtain ⟨rfl, hreadable⟩ := eq_of_allValuesIn hheld
    rw [List.forall_mem_map] at hreadable
    rw [zip_eq_holdingsIn]
    simp only [Attempt.endsIn_bind, Attempt.endsIn_pure, Run.ofPass, Run.endsIn_atDesk,
      missing_compare]
    exact hpass middle hsame hreadable
  · obtain ⟨path, hpath, hunreadable⟩ := exists_of_allValuesIn_eq_error hfailure
    obtain ⟨member, hmem, rfl⟩ := List.mem_map.mp hpath
    exact ⟨member, hmem, hunreadable⟩

/-- The shared pass starts from the first values of the members and comes to the updates of a scan
of the shared definitions. -/
theorem endsIn_resolveShared_scan (hplugins : registry.plugins = [])
    (hinteractive : options.interactive = false) (hvalid : view.valid world.store)
    (first : Workspace) (members : List Member) {definitions : List Definition} :
    (resolveShared store registry options first members definitions).EndsIn world
      (fun pass after => (view.Same world after ∧
        ∀ member ∈ members, ∃ text, view.files world.store member.valuesPath = .ok text) ∧
          pass.existing = firstValues (holdingsIn (view.files world.store) members) ∧
            pass.Compares definitions ∧
              pass.outcome.updates = passUpdates definitions pass.existing)
      fun failure _ => ∃ member ∈ members,
        view.files world.store member.valuesPath = .error failure := by
  refine endsIn_resolveShared_of hvalid first members (fun _ _ hunreadable => hunreadable)
    fun middle hsame hreadable => ?_
  have hscope : (options.scope first true).interactive = false := hinteractive
  refine (Attempt.endsIn_onPart ..).mpr ((endsIn_resolveMissing_unattended hplugins hscope
    _ {} _).mono (fun outcome pass houtcome => ?_) fun _ _ h => h.elim)
  refine ⟨⟨⟨hsame.valid, hsame.files, houtcome.2.trans hsame.replies, hsame.unwritten⟩, hreadable⟩,
    rfl, compares_compare .., ?_⟩
  rw [houtcome.1]
  rfl

/-- The shared pass of a sync of tame definitions completes the first values of the members. -/
theorem endsIn_resolveShared_unattended (hplugins : registry.plugins = [])
    (hinteractive : options.interactive = false) (hvalid : view.valid world.store)
    (first : Workspace) (members : List Member) {definitions : List Definition}
    (htame : ∀ definition ∈ definitions, definition.Tame) :
    (resolveShared store registry options first members definitions).EndsIn world
      (fun pass after => view.Same world after ∧
        (∀ member ∈ members, ∃ text, view.files world.store member.valuesPath = .ok text) ∧
          pass.existing = firstValues (holdingsIn (view.files world.store) members) ∧
            pass.Scans definitions)
      fun failure _ => ∃ member ∈ members,
        view.files world.store member.valuesPath = .error failure := by
  refine (endsIn_resolveShared_scan hplugins hinteractive hvalid first members).mono
    (fun pass after hpass => ?_) fun _ _ hfailure => hfailure
  obtain ⟨⟨hsame, hreadable⟩, hexisting, hcompares, hupdates⟩ := hpass
  have husable : UsableValues pass.existing :=
    hexisting ▸ usableValues_firstValues_holdingsIn (view.files world.store) members
  exact ⟨hsame, hreadable, hexisting, hcompares.missing, hcompares.valid,
    hupdates ▸ completes_passUpdates htame husable, husable⟩

/-- Filling a tidy file puts the values that it lacks over its own. -/
theorem endsIn_fillFile_tidy (hvalid : view.valid world.store) {path : Path}
    (hcovers : view.covers path) (htidy : TidyContent (view.files world.store path))
    {values : Table Text Text} (hvalues : PlainUpdates values) (husable : UsableValues values)
    {schema : List Definition} (hschema : PlainDescriptions schema) :
    let lacked := lackedBy (valuesOf (view.files world.store path)) values
    (fillFile store path values schema).EndsIn world
      (fun _ after => view.Updated path lacked world after ∧
        (lacked = [] → view.Same world after))
      fun failure _ => view.FailsOn path lacked world failure := by
  intro lacked
  unfold fillFile
  rw [Attempt.endsIn_bind]
  refine (computes_readValuesFile view path).endsIn hvalid (fun file middle hfile hsame => ?_)
    fun failure _ hfailure _ => Or.inl (eq_error_of_valuesIn hfailure)
  have hheld := values_of_valuesIn hfile
  have hplain : PlainUpdates lacked := hvalues.filter _
  have husableLacked : UsableValues lacked := fun entry hentry =>
    husable entry (List.mem_filter.mp hentry).1
  rw [hheld]
  refine (Attempt.endsIn_map _ _).mpr ((endsIn_applyUpdates_tidy hsame.valid hcovers
    (by rwa [hsame.files]) hplain husableLacked hschema).mono (fun changes after hafter => ?_)
      fun failure _ hfailure => ?_)
  · obtain ⟨hupdated, hchanges, hunwritten⟩ := hafter
    refine ⟨hupdated.of_same hsame, fun hnone => hsame.trans (hunwritten ?_)⟩
    rw [hchanges, hnone]
    rfl
  · rwa [StoreView.FailsOn, hsame.files] at hfailure

/-- A step of `fillMembers`. -/
def fillMember (store : Store σ) (registry : Registry) (options : RunOptions)
    (values : Table Text Text) (_ : Unit) (member : Member) : Run σ Unit := do
  let schema ← workspaceSchema store registry.patterns options.rootExample member.workspace
  fillFile store member.valuesPath (member.valuesFor values) schema

/-- Filling the files of members is a round. -/
theorem fillMembers_eq_foldlM (values : Table Text Text) (members : List Member) :
    fillMembers store registry options values members =
      members.foldlM (fillMember store registry options values) () := by
  induction members with
  | nil => rfl
  | cons member rest ih =>
    rw [fillMembers, List.foldlM_cons, fillMember, bind_assoc, ih]
    rfl

/-- Syncing the members is a round. -/
theorem syncMembers_eq_foldlM (sharedValues : Table Text Text) (sharedNames : List Text)
    (report : SyncReport) (members : List Member) :
    syncMembers store registry options sharedValues sharedNames report members =
      members.foldlM (syncMember store registry options sharedValues sharedNames) report := by
  induction members generalizing report with
  | nil => rfl
  | cons member rest ih =>
    rw [syncMembers, List.foldlM_cons]
    exact bind_congr fun report => ih report

/-- Filling the file of a member puts the values that it lacks over its own. -/
theorem endsIn_fillMember_tidy (hvalid : view.valid world.store) {member : Member}
    (hcovers : view.covers member.valuesPath)
    (htidy : TidyContent (view.files world.store member.valuesPath))
    {values : Table Text Text} (hvalues : PlainUpdates values) (husable : UsableValues values)
    {schema : List Definition}
    (hschema : schemaIn registry.patterns (view.files world.store) options.rootExample
      member.workspace = .ok schema) :
    let lacked := lackedBy (valuesOf (view.files world.store member.valuesPath))
      (member.valuesFor values)
    (fillMember store registry options values () member).EndsIn world
      (fun _ after => view.Updated member.valuesPath lacked world after ∧
        (lacked = [] → view.Same world after))
      fun failure _ => view.FailsOn member.valuesPath lacked world failure := by
  intro lacked
  refine (computes_workspaceSchema view registry.patterns _ member.workspace).endsIn_bind hvalid
    hschema fun middle hsame => ?_
  refine (endsIn_fillFile_tidy hsame.valid hcovers (by rwa [hsame.files]) (hvalues.filter _)
    (fun entry hentry => husable entry (List.mem_filter.mp hentry).1)
    (soundSchema_schemaIn hschema).plainDescriptions).mono (fun _ after hafter => ?_)
    fun failure _ hfailure => ?_
  · obtain ⟨hupdated, hunwritten⟩ := hafter
    rw [hsame.files] at hupdated hunwritten
    exact ⟨hupdated.of_same hsame, fun hnone => hsame.trans (hunwritten hnone)⟩
  · rwa [StoreView.FailsOn, hsame.files] at hfailure

/-- A pass over a member alone puts its updates over the member's file. It adds nothing and writes
nothing if nothing changes. -/
theorem endsIn_syncMember_unattended (hplugins : registry.plugins = [])
    (hinteractive : options.interactive = false) (hvalid : view.valid world.store)
    {member : Member} (hcovers : view.covers member.valuesPath) {schema : List Definition}
    (hschema : schemaIn registry.patterns (view.files world.store) options.rootExample
      member.workspace = .ok schema) (htame : ∀ definition ∈ schema, definition.Tame)
    (htidy : TidyContent (view.files world.store member.valuesPath))
    (sharedValues : Table Text Text) (sharedNames : List Text) (report : SyncReport) :
    let values := valuesOf (view.files world.store member.valuesPath)
    let updates := passUpdates (member.ownDefinitions sharedNames schema) values
    (syncMember store registry options sharedValues sharedNames report member).EndsIn world
      (fun result after => view.Updated member.valuesPath updates world after ∧
        (changesTo values updates = [] → result.added = report.added ∧ view.Same world after))
      fun failure _ => view.FailsOn member.valuesPath updates world failure := by
  intro values updates
  have hcompletes : Completes (member.ownDefinitions sharedNames schema) values updates :=
    completes_passUpdates (fun definition hmem => htame definition (List.mem_filter.mp hmem).1)
      (usableValues_valuesOf _)
  unfold syncMember
  rw [Attempt.endsIn_bind]
  refine (endsIn_reconcileWorkspace_unattended hplugins hinteractive hvalid hschema _ _ _).mono
    (fun reconciliation first hfirst => ?_) fun _ _ hfailure => Or.inl hfailure
  obtain ⟨hsame, -, hupdates⟩ := hfirst
  change reconciliation.outcome.updates = updates at hupdates
  rw [hupdates]
  refine (computes_workspaceSchema view registry.patterns _ member.workspace).endsIn_bind
    hsame.valid (hsame.files ▸ hschema) fun second hsecond => ?_
  have hsame' := hsame.trans hsecond
  rw [Attempt.endsIn_bind]
  refine (endsIn_applyUpdates_tidy hsame'.valid hcovers (by rwa [hsame'.files])
    hcompletes.plain hcompletes.usable
    (soundSchema_schemaIn hschema).plainDescriptions).mono (fun changes third hthird => ?_)
    fun failure _ hfailure => ?_
  · obtain ⟨hupdated, hchanges, hunwritten⟩ := hthird
    obtain ⟨text, htext⟩ := hupdated.content.readable
    have hfile : valuesIn (view.files third.store) member.valuesPath =
        .ok (readValues (text.getD [])) := by
      rw [valuesIn, htext]
      rfl
    refine (computes_readValuesFile view member.valuesPath).endsIn_bind hupdated.valid hfile
      fun fourth hfourth => ⟨(hupdated.of_same hsame').before_same hfourth, fun hnone => ?_⟩
    rw [hsame'.files] at hchanges
    rw [hchanges] at hunwritten ⊢
    rw [hnone] at hunwritten ⊢
    exact ⟨rfl, (hsame'.trans (hunwritten rfl)).trans hfourth⟩
  · rwa [StoreView.FailsOn, hsame'.files] at hfailure

end Steps

end EnvFiles
