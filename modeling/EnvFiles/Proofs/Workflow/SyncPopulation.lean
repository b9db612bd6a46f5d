import EnvFiles.Proofs.Workflow.SyncDescribed
import EnvFiles.Store.Logged
import EnvFiles.Store.OnTree

/-!
# What a sync takes from the population

The population gives the canonical values, and those come into the overrides of the results alone.
Leaving the overrides out, a pass over a member is the pass with no canonical values at all, and so
are all passes one after another. Only the reading of the population is left as a difference; in a
store that reading leaves as it is it leaves nothing but notices. So two populations that can be
read make no difference to what is asked, written and reported, overrides aside. Hooks after the
sync are shown the overrides, so there must be none.
-/

namespace EnvFiles

variable {σ : Type} {store : Store σ}

/-- The report without what its results say of overrides. -/
def SyncReport.withoutOverrides (report : SyncReport) : SyncReport :=
  { report with results := report.results.map Comparison.withoutOverrides }

/-- A store that reading leaves as it is. -/
def Store.IsStill (store : Store σ) : Prop := ∀ path state, (store.read path state).after = state

/-- A path that the store can read. -/
def Store.CanRead (store : Store σ) (state : σ) (path : Path) : Prop :=
  ∃ content, (store.read path state).answer = .ok content

section Still

/-- Reading leaves a file tree as it is. -/
theorem isStill_treeStore : treeStore.IsStill := fun _ _ => rfl

/-- Reading leaves a tree in memory as it is. -/
theorem isStill_memoryStore : memoryStore.IsStill := fun _ _ => rfl

/-- Noting reads does not change that. -/
theorem Store.IsStill.logged (h : store.IsStill) (logger : Text) :
    (store.logged logger).IsStill := h

/-- Neither does a rehearsal. -/
theorem Store.IsStill.rehearsed (h : store.IsStill) : store.rehearsed.IsStill := by
  intro path state
  simp only [Store.rehearsed]
  split
  · rfl
  · simp only [Rehearsal.ofBase, h path state.base]

/-- As long as nothing is written such a store stays as it is. -/
theorem Store.IsStill.eq_of_reached (h : store.IsStill) {first second : σ}
    (hreached : store.Reached [] first second) : second = first := by
  induction hreached with
  | start => rfl
  | read path _ ih => rw [h, ih]
  | write text hpath _ _ => exact absurd hpath List.not_mem_nil

/-- Such a store shadows itself. -/
theorem shadows_self (store : Store σ) : store.Shadows Eq (fun _ _ => False) store where
  read path state other h := by
    subst h
    exact ⟨rfl, rfl⟩
  write path text state other h := by
    subst h
    exact Or.inl ⟨rfl, rfl⟩

/-- Values files that can be read are read, and nothing but notices is left behind. -/
theorem Store.IsStill.exists_readAllValues (h : store.IsStill) {paths : List Path}
    {world : World σ} (hpaths : ∀ path ∈ paths, store.CanRead world.store path) :
    ∃ held after, (readAllValues store paths).runFrom world = (.ok held, after) ∧
      after.store = world.store ∧ after.desk.Alike world.desk := by
  induction paths generalizing world with
  | nil => exact ⟨[], world, rfl, rfl, .refl _⟩
  | cons path rest ih =>
    obtain ⟨⟨content, hcontent⟩, hrest⟩ := List.forall_mem_cons.mp hpaths
    obtain ⟨middle, hread, hstore, hdesk⟩ : ∃ middle, (readValuesFile store path).runFrom world =
        (.ok (readValues (content.getD [])), middle) ∧ middle.store = world.store ∧
          middle.desk.Alike world.desk := by
      have hcalled : (Run.read store path).runFrom world =
          ((store.read path world.store).answer, ⟨(store.read path world.store).after,
            { world.desk with
              log := world.desk.log ++ (store.read path world.store).notices }⟩) := rfl
      rw [readValuesFile, Attempt.runFrom_bind, hcalled, hcontent, h path world.store]
      exact ⟨_, rfl, rfl, rfl, rfl, rfl⟩
    obtain ⟨held, after, hrun, hstore', hdesk'⟩ := ih (hstore.symm ▸ hrest)
    refine ⟨(readValues (content.getD [])).values :: held, after, ?_, hstore'.trans hstore,
      hdesk'.trans hdesk⟩
    rw [readAllValues, Attempt.runFrom_bind, hread]
    dsimp only
    rw [Attempt.runFrom_bind, hrun]
    rfl

end Still

section Passes

variable (store) (registry : Registry) (options : RunOptions) (sharedValues : Table Text Text)
  (sharedNames : List Text)

/-- Without canonical values there are no overrides. -/
theorem compare_nil (schema : List Definition) (values : Table Text Text) (workspace : Workspace) :
    compare schema values workspace (some []) sharedNames = compare schema values workspace := by
  have hnone : override? (some []) sharedNames values = override? none [] values := by
    funext definition
    cases hvalue : values.get? definition.name <;> simp [override?, hvalue, Table.get?]
  simp only [compare, hnone]

/-- What is resolved for a workspace does not hang on the canonical values. -/
theorem outcome_reconcileWorkspace (workspace : Workspace) (leftOut : List Text) :
    Reconciliation.outcome <$> reconcileWorkspace store registry options workspace
        (some sharedValues) sharedNames leftOut =
      Reconciliation.outcome <$> reconcileWorkspace store registry options workspace (some [])
        sharedNames leftOut := by
  simp only [reconcileWorkspace, map_bind]
  rfl

/-- Write what was resolved for a member, and add how it stands then to the report. -/
def finishMember (store : Store σ) (registry : Registry) (options : RunOptions)
    (sharedValues : Table Text Text) (sharedNames : List Text) (report : SyncReport)
    (workspace : Workspace) (outcome : PassOutcome) : Run σ SyncReport := do
  let schema ← workspaceSchema store registry.patterns options.rootExample workspace
  let applied ← applyUpdates store workspace.valuesPath outcome.updates schema
  let file ← readValuesFile store workspace.valuesPath
  let result := compare schema file.values workspace (some sharedValues) sharedNames
  let report := report.addPass outcome
  return { report with
    added := report.added + applied.length
    results := report.results ++ [result] }

/-- A pass over a member resolves its variables and finishes with what was resolved. -/
theorem syncMember_eq (report : SyncReport) (member : Member) :
    syncMember store registry options sharedValues sharedNames report member =
      (Reconciliation.outcome <$> reconcileWorkspace store registry options member.workspace
        (some sharedValues) sharedNames (sharedNames.filter fun name => !member.owns name)) >>=
      finishMember store registry options sharedValues sharedNames report member.workspace := by
  rw [bind_map_left]
  rfl

/-- Leaving the overrides out, a member is finished as without canonical values. -/
theorem withoutOverrides_finishMember (report : SyncReport) (workspace : Workspace)
    (outcome : PassOutcome) :
    SyncReport.withoutOverrides <$> finishMember store registry options sharedValues sharedNames
        report workspace outcome =
      finishMember store registry options [] sharedNames report.withoutOverrides workspace
        outcome := by
  simp only [finishMember, map_bind, map_pure]
  refine bind_congr fun schema => bind_congr fun applied => bind_congr fun file => ?_
  rw [SyncReport.withoutOverrides, SyncReport.addPass, List.map_append, List.map_singleton,
    compare_withoutOverrides, compare_nil]
  rfl

/-- So is the whole pass over a member. -/
theorem withoutOverrides_syncMember (report : SyncReport) (member : Member) :
    SyncReport.withoutOverrides <$> syncMember store registry options sharedValues sharedNames
        report member =
      syncMember store registry options [] sharedNames report.withoutOverrides member := by
  rw [syncMember_eq, syncMember_eq, map_bind, outcome_reconcileWorkspace]
  exact bind_congr fun outcome => withoutOverrides_finishMember ..

/-- And so are the passes over all members. -/
theorem withoutOverrides_syncMembers (report : SyncReport) (members : List Member) :
    SyncReport.withoutOverrides <$> syncMembers store registry options sharedValues sharedNames
        report members =
      syncMembers store registry options [] sharedNames report.withoutOverrides members := by
  induction members generalizing report with
  | nil => rfl
  | cons member rest ih =>
    rw [syncMembers, syncMembers, map_bind, ← withoutOverrides_syncMember, bind_map_left]
    exact bind_congr ih

end Passes

section Runs

variable (store) (registry : Registry) (options : RunOptions)

/-- Hooks that no plugin has are not called. -/
theorem callHooks_of_none {hook : Hooks → Option (Except Text Unit)} (event : Text → Event)
    (h : ∀ plugin ∈ registry.plugins, hook plugin.hooks = none) :
    registry.callHooks hook event = pure () := by
  apply Attempt.forM_eq_pure
  intro plugin hplugin
  rw [h plugin hplugin]

/-- What a sync does before it reads the population. -/
def syncOpening (store : Store σ) (registry : Registry) (options : RunOptions)
    (workspaces : List Workspace) : Run σ Schema := do
  Run.atDesk (registry.beforeSync workspaces)
  readExampleFile store registry.patterns options.rootExample

/-- What a sync does once the population was read, leaving the overrides out. -/
def syncWithin (store : Store σ) (registry : Registry) (options : RunOptions)
    (workspaces : List Workspace) (first : Workspace) (root : Schema) : Run σ SyncReport := do
  let members ← readMembers store registry.patterns options.rootExample workspaces
  let report ← syncShared store registry options first members root
  syncMembers store registry options [] root.names report.withoutOverrides members

/-- Leaving the overrides out, a sync only reads the population. -/
theorem withoutOverrides_syncIn
    (hhooks : ∀ plugin ∈ registry.plugins, plugin.hooks.afterSync = none) (first : Workspace)
    (rest population : List Workspace) :
    SyncReport.withoutOverrides <$> syncIn store registry options (first :: rest) population =
      (do
        let root ← syncOpening store registry options (first :: rest)
        let _ ← readAllValues store (population.map Workspace.valuesPath)
        syncWithin store registry options (first :: rest) first root) := by
  have hafter (results : List Comparison) :
      (Run.atDesk (registry.afterSync results) : Run σ Unit) = pure () := by
    rw [Registry.afterSync, callHooks_of_none registry]
    · rfl
    · intro plugin hplugin
      rw [hhooks plugin hplugin]
      rfl
  simp only [syncIn, hafter, map_bind, pure_bind, bind_pure, syncOpening, syncWithin,
    withoutOverrides_syncMembers, bind_assoc]

/-- What follows keeps in step with itself where the notices differ. -/
theorem inStep_syncWithin (workspaces : List Workspace) (first : Workspace) (root : Schema) :
    Attempt.InStep (runCoupling Eq fun _ _ => False)
      (syncWithin store registry options workspaces first root)
      (syncWithin store registry options workspaces first root) :=
  ((shadows_self store).inStep_readMembers _ _ _).bind fun members =>
    ((shadows_self store).inStep_syncShared registry options first members root).bind
      fun _ => (shadows_self store).inStep_syncMembers registry options _ _ _ members

/-- Reading the population leaves nothing but notices. -/
theorem agree_syncIn (hstore : store.IsStill)
    (hhooks : ∀ plugin ∈ registry.plugins, plugin.hooks.afterSync = none)
    (workspaces : List Workspace) {population population' : List Workspace} (world : World σ)
    (hreadable : ∀ workspace ∈ population, store.CanRead world.store workspace.valuesPath)
    (hreadable' : ∀ workspace ∈ population', store.CanRead world.store workspace.valuesPath) :
    let first := (syncIn store registry options workspaces population).runFrom world
    let second := (syncIn store registry options workspaces population').runFrom world
    SyncReport.withoutOverrides <$> first.1 = SyncReport.withoutOverrides <$> second.1 ∧
      first.2.store = second.2.store ∧ first.2.desk.Alike second.2.desk := by
  intro first second
  have hagree : (runCoupling Eq fun _ _ => False).Agree
      ((SyncReport.withoutOverrides <$>
        syncIn store registry options workspaces population).runFrom world)
      ((SyncReport.withoutOverrides <$>
        syncIn store registry options workspaces population').runFrom world) := by
    cases workspaces with
    | nil => exact Or.inl ⟨rfl, rfl, .refl _⟩
    | cons leader rest =>
      rw [withoutOverrides_syncIn store registry options hhooks,
        withoutOverrides_syncIn store registry options hhooks, Attempt.runFrom_bind,
        Attempt.runFrom_bind]
      have hopening : (syncOpening store registry options (leader :: rest)).WritesOnly store [] :=
        (Run.WritesOnly.atDesk _).bind fun _ => writesOnly_readExampleFile store _ _ _
      have hreached := hopening world
      rcases hopened : (syncOpening store registry options (leader :: rest)).runFrom world with
        ⟨failure | root, opened⟩
      · exact Or.inl ⟨rfl, rfl, .refl _⟩
      · rw [hopened] at hreached
        rw [← hstore.eq_of_reached hreached] at hreadable hreadable'
        obtain ⟨held, read, hread, hsame, halike⟩ :=
          hstore.exists_readAllValues (List.forall_mem_map.mpr hreadable)
        obtain ⟨held', read', hread', hsame', halike'⟩ :=
          hstore.exists_readAllValues (List.forall_mem_map.mpr hreadable')
        dsimp only
        rw [Attempt.runFrom_bind, Attempt.runFrom_bind, hread, hread']
        apply (inStep_syncWithin store registry options (leader :: rest) leader root).agree
        exact ⟨hsame.trans hsame'.symm, halike.trans halike'.symm⟩
  rw [Attempt.runFrom_map, Attempt.runFrom_map] at hagree
  rcases hagree with hends | ⟨failure, -, hrefused, -⟩
  · exact hends
  · exact hrefused.elim

end Runs

/-- The population of a sync affects the overrides of its results alone. In a store that reading
leaves as it is, whatever the workspaces, the options, the replies and the plugins, as long as none
has a hook after the sync: with two populations whose values files can be read the sync comes to the
same failure or to reports that differ at most in the overrides, leaves the same store and asks the
same, whether it is rehearsed or not. -/
theorem sync_population (hstore : store.IsStill) (registry : Registry)
    (hhooks : ∀ plugin ∈ registry.plugins, plugin.hooks.afterSync = none) (options : RunOptions)
    (workspaces : List Workspace) (population population' : Option (List Workspace))
    (rehearsal : Bool) (start : World σ)
    (hreadable : ∀ workspace ∈ population.getD workspaces,
      store.CanRead start.store workspace.valuesPath)
    (hreadable' : ∀ workspace ∈ population'.getD workspaces,
      store.CanRead start.store workspace.valuesPath) :
    let first := (sync store registry options workspaces population rehearsal).runFrom start
    let second := (sync store registry options workspaces population' rehearsal).runFrom start
    SyncReport.withoutOverrides <$> first.1 = SyncReport.withoutOverrides <$> second.1 ∧
      first.2.store = second.2.store ∧ first.2.desk.Alike second.2.desk := by
  cases rehearsal with
  | false =>
    exact agree_syncIn store registry options hstore hhooks workspaces start hreadable hreadable'
  | true =>
    -- Nothing is pending when the population is read, so it is read from the store behind.
    have hread : ∀ workspace ∈ population.getD workspaces, store.rehearsed.CanRead
        (Rehearsal.mk start.store []) workspace.valuesPath := hreadable
    have hread' : ∀ workspace ∈ population'.getD workspaces, store.rehearsed.CanRead
        (Rehearsal.mk start.store []) workspace.valuesPath := hreadable'
    obtain ⟨hends, hstores, hdesks⟩ := agree_syncIn store.rehearsed registry options
      hstore.rehearsed hhooks workspaces ⟨⟨start.store, []⟩, start.desk⟩ hread hread'
    have hpending (pending : Table Path Text) (outcome : Except Failure SyncReport) :
        SyncReport.withoutOverrides <$> ((fun report => { report with pending }) <$> outcome) =
          (fun report => { report with pending }) <$> (SyncReport.withoutOverrides <$> outcome) := by
      cases outcome <;> rfl
    intro first second
    simp only [first, second, runFrom_rehearsedSync, hpending]
    rw [hends, hstores]
    exact ⟨rfl, rfl, hdesks⟩

section Populated

/-- The overrides of the results of a sync with a population. -/
def overridesWith (population : List Workspace) : Except Failure (List (List Text)) :=
  (fun report => report.results.map fun result => result.overrides.keys) <$>
    ((sync memoryStore {} {} describedWorkspaces (some population)).runFrom describedWorld).1

/-- With two populations that hold different values of the shared variable, a sync finds the
override in different workspaces, and does and reports the same otherwise. -/
theorem sync_population_differing :
    let first := (sync memoryStore {} {} describedWorkspaces
      (some (describedWorkspaces.take 1))).runFrom describedWorld
    let second := (sync memoryStore {} {} describedWorkspaces
      (some (describedWorkspaces.drop 2))).runFrom describedWorld
    (overridesWith (describedWorkspaces.take 1) = .ok [[], [], ["X"]] ∧
      overridesWith (describedWorkspaces.drop 2) = .ok [["X"], ["X"], []]) ∧
    SyncReport.withoutOverrides <$> first.1 = SyncReport.withoutOverrides <$> second.1 ∧
      first.2.store = second.2.store ∧ first.2.desk.Alike second.2.desk := by
  have hreadable (path : Path) : memoryStore.CanRead describedWorld.store path := ⟨_, rfl⟩
  refine ⟨⟨by decide +kernel, by decide +kernel⟩, ?_⟩
  exact sync_population isStill_memoryStore {} (fun plugin hplugin => absurd hplugin (by simp)) {}
    describedWorkspaces (some (describedWorkspaces.take 1)) (some (describedWorkspaces.drop 2))
    false describedWorld (fun _ _ => hreadable _) (fun _ _ => hreadable _)

end Populated
end EnvFiles
