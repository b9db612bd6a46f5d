import EnvFiles.Proofs.Store.Memory
import EnvFiles.Proofs.Workflow.SyncScene

/-!
# Syncing twice

In a synced tree a sync finds nothing to write. It still counts as added the shared variables that
every member owns, because it looks for their values in the files of the members only, where none
of them counts.
-/

namespace EnvFiles

variable {σ : Type} {store : Store σ}

/-- The active shared variables that come to a value and that every member owns, if there is a
member at all. -/
def ownedByAll (members : List Member) (definitions : List Definition) : List Definition :=
  definitions.filter fun definition => definition.isActive && !members.isEmpty &&
    (members.all fun member => member.owns definition.name) && (unattended [] definition).fills

section Scenes

variable {view : StoreView store} {registry : Registry} {options : RunOptions}
  {workspaces : List Workspace} {root : Schema} {members : List Member}
  {schema : Workspace → List Definition} {start world : World σ}

/-- Whether a shared name is filled by a scan hangs on whether it was and on its definition. -/
theorem StoreView.Scene.fillAll_root
    (hscene : view.Scene registry options workspaces root members schema start)
    {definition : Definition} (hmem : definition ∈ root.definitions) (filled : Text → Bool) :
    fillAll root.definitions filled definition.name =
      (filled definition.name || (definition.isActive && (unattended [] definition).fills)) :=
  fillAll_of_mem hscene.root_copied (soundSchema_exampleIn hscene.root_eq).nodup_names hmem filled

/-- Reading leaves a synced tree. -/
theorem StoreView.Synced.of_same {distributed : Text → Bool} {after : World σ}
    (h : view.Synced options workspaces root members schema start distributed world)
    (hsame : view.Same world after) :
    view.Synced options workspaces root members schema start distributed after := by
  obtain ⟨⟨hsteady, htidy, hfills, hlacks, hroot, hrootFills⟩, hreadable, hsettled⟩ := h
  rw [← hsame.files] at htidy hfills hlacks hroot hrootFills hreadable hsettled
  exact ⟨⟨hsame.steady hsteady, htidy, hfills, hlacks, hroot, hrootFills⟩, hreadable, hsettled⟩

section Again

variable (hscene : view.Scene registry options workspaces root members schema start)
  (h : view.Synced options workspaces root members schema start
    (distributedIn (view.files start.store) root members) world)

include hscene h

/-- What a second sync distributes was distributed already. -/
theorem distributedIn_of_synced {name : Text}
    (hagain : distributedIn (view.files world.store) root members name = true) :
    distributedIn (view.files start.store) root members name = true := by
  rw [distributedIn, distributes, Bool.and_eq_true] at hagain
  obtain ⟨hactive, hfills⟩ := hagain
  obtain ⟨definition, hmem, hdefinition⟩ := List.any_eq_true.mp hactive
  rw [Bool.and_eq_true, beq_iff_eq] at hdefinition
  obtain ⟨-, rfl⟩ := hdefinition
  rw [hscene.fillAll_root hmem, Bool.or_eq_true] at hfills
  rcases hfills with hheld | hsupplied
  · rw [fills_firstValues_holdingsIn, List.any_eq_true] at hheld
    obtain ⟨member, hmember, hheld⟩ := hheld
    rw [Bool.and_eq_true, Bool.not_eq_true'] at hheld
    by_contra hdistributed
    have hlacks := h.lacks member hmember _ hheld.1 (Bool.of_not_eq_true hdistributed)
      hactive
    rw [hheld.2] at hlacks
    cases hlacks
  · rw [distributedIn, distributes, hactive, hscene.fillAll_root hmem, hsupplied, Bool.or_true]
    rfl

/-- What a second sync finds are the shared variables that every member owns. -/
theorem found_of_synced (hmembers : members ≠ []) {pass : SharedPass}
    (hscans : pass.Scans root.definitions)
    (hexisting : pass.existing = firstValues (holdingsIn (view.files world.store) members)) :
    pass.found = ownedByAll members root.definitions := by
  rw [SharedPass.found, hscans.missing, missingFrom, List.filter_filter, ownedByAll]
  refine List.filter_congr fun definition hmem => ?_
  rw [List.isEmpty_eq_false_iff.mpr hmembers, Bool.not_false, Bool.and_true]
  cases hactive : definition.isActive with
  | false => simp
  | true =>
    have hdeclares : declaresActive root.definitions definition.name = true :=
      List.any_eq_true.mpr ⟨definition, hmem, by simp [hactive]⟩
    have hheld := fills_firstValues_holdingsIn (view.files world.store) members definition.name
    rw [← hexisting] at hheld
    cases hfills : pass.existing.fills definition.name with
    | true =>
      rw [hfills] at hheld
      obtain ⟨member, hmember, howns⟩ := List.any_eq_true.mp hheld.symm
      rw [Bool.and_eq_true, Bool.not_eq_true'] at howns
      have hall : (members.all fun member => member.owns definition.name) = false := by
        rw [List.all_eq_false]
        exact ⟨member, hmember, by rw [howns.1]; decide⟩
      simp [hall]
    | false =>
      rw [hscans.fills_updates hfills, hscene.fillAll_root hmem, hfills, hactive]
      cases hsupplied : (unattended [] definition).fills with
      | false => simp
      | true =>
        have hall : (members.all fun member => member.owns definition.name) = true := by
          rw [List.all_eq_true]
          intro member hmember
          by_contra howns
          have hdistributed : distributedIn (view.files start.store) root members
              definition.name = true := by
            rw [distributedIn, distributes, hdeclares, hscene.fillAll_root hmem, hactive,
              hsupplied, Bool.and_self, Bool.or_true]
            rfl
          have hname := h.fills member hmember _ (Bool.of_not_eq_true howns) hdistributed
          rw [hfills] at hheld
          have hnone := List.any_eq_false.mp hheld.symm member hmember
          rw [Bool.of_not_eq_true howns, hname] at hnone
          exact hnone rfl
        simp [hall]

/-- Distributing values that are distributed already writes nothing. -/
theorem endsIn_fillMembers_synced {values : Table Text Text} (hplain : PlainUpdates values)
    (husable : UsableValues values) (hfilled : OnlyFilled values)
    (hthere : ∀ name, values.fills name = true →
      distributedIn (view.files start.store) root members name = true) :
    (fillMembers store registry options values members).EndsIn world
      (fun _ after => view.Same world after) fun _ _ => False := by
  rw [fillMembers_eq_foldlM]
  refine (endsIn_idleRound (fun _ => ()) h.steady.valid
    (fun member hmem _ before hbefore => ?_) ()).mono (fun _ after hafter => hafter.1)
    fun _ _ hfailure => hfailure
  have hlacks : lackedBy (valuesOf (view.files before.store member.valuesPath))
      (member.valuesFor values) = [] := by
    rw [hbefore.files]
    refine lackedBy_eq_nil (hfilled.valuesFor member) fun name hname => ?_
    rw [fills_valuesFor, Bool.and_eq_true, Bool.not_eq_true'] at hname
    exact h.fills member hmem name hname.1 (hthere name hname.2)
  refine (endsIn_fillMember_tidy hbefore.valid (hscene.apart_members.covers member hmem)
    (hbefore.files ▸ h.tidy member hmem) hplain husable
    (hscene.schemaIn_member (hbefore.steady h.steady) hmem)).mono
      (fun _ after hafter => ⟨hafter.2 hlacks, rfl⟩) fun failure _ hfailure => ?_
  refine view.not_failsOn ?_ ?_ hfailure
  · rw [hbefore.files]
    exact h.readable member hmem
  · rw [hlacks]
    rfl

/-- A second shared pass writes nothing, and counts the shared variables that every member owns. -/
theorem endsIn_syncShared_synced (hmembers : members ≠ []) (first : Workspace) :
    (syncShared store registry options first members root).EndsIn world
      (fun report after => view.Same world after ∧
        report.added = (ownedByAll members root.definitions).length) fun _ _ => False := by
  have hvalid := h.steady.valid
  unfold syncShared
  by_cases hempty : root.definitions = []
  · rw [hempty]
    exact ⟨.refl hvalid, rfl⟩
  · obtain ⟨hrootReadable, hrootTidy⟩ := h.root_readable hempty
    rw [if_neg (by simpa using hempty), Attempt.endsIn_bind]
    refine (endsIn_resolveShared_unattended hscene.plugins_eq_nil hscene.interactive_eq_false
      hvalid first members hscene.root_tame).mono (fun pass second hsecond => ?_)
      fun failure _ hfailure => ?_
    · obtain ⟨hsame, -, hexisting, hscans⟩ := hsecond
      obtain ⟨hplain, husable⟩ : PlainUpdates (pass.values root.names) ∧
          UsableValues (pass.values root.names) := hscans.plainUpdates
        fun definition hmem => (hscene.root_tame definition hmem).toSound
      obtain ⟨hfilled, hfills⟩ := hscans.fills_values
      have hthere : ∀ name, (pass.values root.names).fills name = true →
          distributedIn (view.files start.store) root members name = true := by
        intro name hname
        apply distributedIn_of_synced hscene h
        rw [distributedIn, ← hexisting]
        exact (hfills name).symm.trans hname
      have hlacked : lackedBy (valuesOf (view.files second.store options.rootValues))
          (pass.values root.names) = [] := by
        rw [hsame.files]
        exact lackedBy_eq_nil hfilled fun name hname => h.root_fills name (hthere name hname)
      rw [Attempt.endsIn_bind]
      refine (endsIn_fillFile_tidy hsame.valid hscene.covers_root (hsame.files ▸ hrootTidy) hplain
        husable fun definition hmem =>
          (hscene.root_tame definition hmem).isOneLine_description).mono
            (fun _ third hthird => ?_) fun failure _ hfailure => ?_
      · have hsame' := hsame.trans (hthird.2 hlacked)
        rw [Attempt.endsIn_bind]
        refine (endsIn_fillMembers_synced hscene (h.of_same hsame') hplain husable hfilled
          hthere).mono (fun _ after hafter => ⟨hsame'.trans hafter, ?_⟩) fun _ _ h => h
        exact congrArg List.length (found_of_synced hscene h hmembers hscans hexisting)
      · refine view.not_failsOn ?_ ?_ hfailure
        · rw [hsame.files]
          exact hrootReadable
        · rw [hlacked]
          rfl
    · obtain ⟨member, hmem, hunreadable⟩ := hfailure
      obtain ⟨text, htext⟩ := h.readable member hmem
      rw [htext] at hunreadable
      cases hunreadable

/-- Second passes over the members alone add nothing and write nothing. -/
theorem endsIn_syncMembers_synced (sharedValues : Table Text Text) (report : SyncReport) :
    (syncMembers store registry options sharedValues root.names report members).EndsIn world
      (fun result after => view.Same world after ∧ result.added = report.added)
      fun _ _ => False := by
  rw [syncMembers_eq_foldlM]
  refine endsIn_idleRound SyncReport.added h.steady.valid
    (fun member hmem result before hbefore => ?_) report
  have hnone : changesTo (valuesOf (view.files before.store member.valuesPath))
      (passUpdates (member.ownDefinitions root.names (schema member.workspace))
        (valuesOf (view.files before.store member.valuesPath))) = [] := by
    rw [hbefore.files]
    exact (h.settled member hmem).changesTo_eq_nil (completes_passUpdates
      (hscene.tame_ownDefinitions hmem) (usableValues_valuesOf _))
  refine (endsIn_syncMember_unattended hscene.plugins_eq_nil hscene.interactive_eq_false
    hbefore.valid (hscene.apart_members.covers member hmem)
    (hscene.schemaIn_member (hbefore.steady h.steady) hmem) (hscene.tame_member hmem)
    (hbefore.files ▸ h.tidy member hmem) sharedValues root.names result).mono
      (fun _ after hafter => (hafter.2 hnone).symm) fun failure _ hfailure => ?_
  refine view.not_failsOn ?_ hnone hfailure
  rw [hbefore.files]
  exact h.readable member hmem

end Again

/-- A sync of a synced tree in which the values files of the population can be read writes nothing,
and counts the shared variables that every member owns. -/
theorem endsIn_syncIn_again {first : Workspace} {rest : List Workspace}
    (hscene : view.Scene registry options (first :: rest) root members schema start)
    (h : view.Synced options (first :: rest) root members schema start
      (distributedIn (view.files start.store) root members) world)
    {population : List Workspace} (hreadable : ∀ path ∈ population.map Workspace.valuesPath,
      ∃ content, view.files world.store path = .ok content) :
    (syncIn store registry options (first :: rest) population).EndsIn world
      (fun report after => view.Same world after ∧
        report.added = (ownedByAll members root.definitions).length) fun _ _ => False := by
  have hmembers : members ≠ [] := by
    rintro rfl
    exact absurd (workspaces_membersIn hscene.members_eq) (List.cons_ne_nil first rest).symm
  refine hscene.endsIn_syncIn h.steady population (fun failure _ hunreadable => ?_)
    fun sharedValues before hsame _ => ?_
  · obtain ⟨path, hpath, hunreadable⟩ := hunreadable
    obtain ⟨content, hcontent⟩ := hreadable path hpath
    rw [hcontent] at hunreadable
    cases hunreadable
  · have h' := h.of_same hsame
    refine (endsIn_syncShared_synced hscene h' hmembers first).mono
      (fun report middle hmiddle => ?_) fun _ _ hfailure => hfailure
    refine (endsIn_syncMembers_synced hscene (h'.of_same hmiddle.1) sharedValues report).mono
      (fun result last hlast => ?_) fun _ _ hfailure => hfailure
    exact ⟨(hsame.trans hmiddle.1).trans hlast.1, hlast.2.trans hmiddle.2⟩

end Scenes

/-- A sync that was run twice. Without plugins and questions, in a tree whose example files can be
read and copy nothing and whose values files are tidy and distinct: after a sync of the workspaces
returned, a second one returns and writes no file. What it counts as added are exactly the active
root variables that come to a value and that every workspace declares in an example file of its
own, so it counts nothing exactly if there is no such variable. Only the store itself can make the
first sync fail. -/
theorem sync_again (view : StoreView store) (registry : Registry) (options : RunOptions)
    (workspaces : List Workspace) (population : Option (List Workspace)) (root : Schema)
    (members : List Member) (schema : Workspace → List Definition) (world : World σ)
    (hscene : view.Scene registry options workspaces root members schema world)
    (hpopulation : ∀ workspace ∈ population.getD workspaces, view.covers workspace.valuesPath) :
    let run := sync store registry options workspaces population
    (∀ report first, run.runFrom world = (.ok report, first) →
      ∃ again second, run.runFrom first = (.ok again, second) ∧
        store.Reached [] first.store second.store ∧
          again.added = (ownedByAll members root.definitions).length) ∧
      ∀ failure first, run.runFrom world = (.error failure, first) →
        view.Fails (syncTargets options workspaces ++
          (population.getD workspaces).map Workspace.valuesPath) failure := by
  intro run
  generalize hothers : population.getD workspaces = others at hpopulation ⊢
  cases workspaces with
  | nil =>
    obtain rfl := Except.ok.inj hscene.members_eq
    have hnone : ownedByAll [] root.definitions = [] :=
      List.filter_eq_nil_iff.mpr fun definition _ => by simp
    refine ⟨fun report first _ => ⟨{}, first, rfl, .start, by rw [hnone]; rfl⟩,
      fun failure first hrun => ?_⟩
    cases (congrArg Prod.fst hrun : (Except.ok {} : Except Failure SyncReport) = .error failure)
  | cons first rest =>
    have hrun : run = syncIn store registry options (first :: rest) others := by rw [← hothers]; rfl
    have hfirst := endsIn_syncIn_synced hscene others
    rw [← hrun] at hfirst
    refine ⟨fun report after hreport => ?_,
      fun failure after hfailure => hfirst.of_runFrom_error hfailure⟩
    obtain ⟨hsynced, hreadable⟩ := hfirst.of_runFrom_ok hreport
    have hwrites : run.WritesOnly store (syncTargets options (first :: rest)) :=
      writesOnly_sync store registry options (first :: rest) population false
    have hreached := hwrites world
    rw [hreport] at hreached
    -- What the population holds may lie outside the tree that was synced; it is still readable.
    have hagain := endsIn_syncIn_again hscene hsynced fun path hpath => by
      obtain ⟨other, hother, rfl⟩ := List.mem_map.mp hpath
      exact (view.readable_of_reached hscene.covers hscene.valid hreached
        (hpopulation other hother) (hreadable _ hpath)).2
    rw [← hrun] at hagain
    obtain ⟨again, second, hsecond, hsame, hadded⟩ := hagain.returns
    exact ⟨again, second, hsecond, hsame.unwritten, hadded⟩

section Owned

/-- A workspace of the store below. -/
def ownedWorkspace : Workspace :=
  ⟨"web", ["web"], ["web", ".env.local.example"], ["web", ".env.local"]⟩

/-- A root and its only workspace that both declare one variable. -/
def ownedWorld : World (Table Path Text) where
  store := [([".env.local.example"], "X=1\n"), (["web", ".env.local.example"], "X=2\n")]

/-- A sync of the workspace above. -/
def ownedSync : Run (Table Path Text) SyncReport := sync memoryStore {} {} [ownedWorkspace]

/-- The tree above is as a sync wants it, and the workspace owns the only variable. -/
theorem scene_ownedWorld : ∃ root members schema,
    memoryView.Scene {} {} [ownedWorkspace] root members schema ownedWorld ∧
      (ownedByAll members root.definitions).length = 1 := by
  have hread : (exampleIn [] (memoryView.files ownedWorld.store) (RunOptions.rootExample {}) >>=
      fun root => membersIn [] (memoryView.files ownedWorld.store) (RunOptions.rootExample {})
        [ownedWorkspace] >>= fun members => schemaIn [] (memoryView.files ownedWorld.store)
          (RunOptions.rootExample {}) ownedWorkspace >>= fun schema => Except.ok
            ((root.definitions ++ schema).all fun definition =>
                definition.directive.literals.isEmpty && definition.copied?.isNone,
              (ownedByAll members root.definitions).length)) = Except.ok (true, 1) := by
    decide +kernel
  obtain ⟨root, hroot, hrest⟩ := exists_of_bind_eq_ok hread
  obtain ⟨members, hmembers, hrest⟩ := exists_of_bind_eq_ok hrest
  obtain ⟨schema, hschema, hmeaning⟩ := exists_of_bind_eq_ok hrest
  obtain ⟨hall, hlength⟩ := Prod.mk.inj (Except.ok.inj hmeaning)
  obtain ⟨hshared, hown⟩ : (∀ definition ∈ root.definitions,
      definition.directive.literals = [] ∧ definition.copied? = none) ∧
        ∀ definition ∈ schema,
          definition.directive.literals = [] ∧ definition.copied? = none := by
    simpa using hall
  have honly : ∀ workspace ∈ [ownedWorkspace], schemaIn [] (memoryView.files ownedWorld.store)
      (RunOptions.rootExample {}) workspace = .ok schema := fun workspace hmem =>
    List.mem_singleton.mp hmem ▸ hschema
  refine ⟨root, members, fun _ => schema, ?_, hlength⟩
  refine ⟨⟨rfl, rfl, trivial, fun _ _ => trivial, fun _ _ => trivial, List.pairwise_singleton ..,
    ?_, fun workspace hmem => ⟨schema, honly workspace hmem⟩,
    fun workspace hmem other hother definition hdefinition literal hliteral => ?_,
    fun path hpath text htext => ?_⟩, hroot, hmembers, honly,
    fun definition hdefinition literal hliteral => ?_,
    fun definition hdefinition => (hshared definition hdefinition).2,
    fun _ _ definition hdefinition => (hown definition hdefinition).2⟩
  · change ∀ path ∈ syncTargets {} [ownedWorkspace], ∀ other ∈ examplePaths {} [ownedWorkspace],
      path ≠ other
    decide
  · obtain rfl := Except.ok.inj ((honly workspace hmem).symm.trans hother)
    rw [(hown definition hdefinition).1] at hliteral
    exact absurd hliteral List.not_mem_nil
  · have hnone : ∀ path ∈ syncTargets {} [ownedWorkspace],
        memoryView.files ownedWorld.store path = .ok none := by decide
    rw [hnone path hpath] at htext
    cases htext
  · rw [(hshared definition hdefinition).1] at hliteral
    exact absurd hliteral List.not_mem_nil

/-- A second sync of the tree above writes nothing, but counts the variable as added. -/
theorem sync_again_owned :
    ∃ again second, ownedSync.runFrom (ownedSync.runFrom ownedWorld).2 = (.ok again, second) ∧
      memoryStore.Reached [] (ownedSync.runFrom ownedWorld).2.store second.store ∧
        again.added = 1 := by
  obtain ⟨root, members, schema, hscene, hlength⟩ := scene_ownedWorld
  obtain ⟨hagain, -⟩ :=
    sync_again memoryView {} {} [ownedWorkspace] none root members schema ownedWorld hscene
      fun _ _ => trivial
  rw [hlength] at hagain
  change ∀ report first, ownedSync.runFrom ownedWorld = (.ok report, first) → _ at hagain
  have hreport : ((ownedSync.runFrom ownedWorld).1 >>= fun report => Except.ok report.added) =
      .ok 2 := by decide +kernel
  obtain ⟨report, hrun, -⟩ := exists_of_bind_eq_ok hreport
  exact hagain report _ (Attempt.runFrom_eq_of_fst hrun)

/-- So in that tree a second sync does add something. -/
theorem sync_again_adds :
    (∃ root members schema,
      memoryView.Scene {} {} [ownedWorkspace] root members schema ownedWorld) ∧
        SyncReport.added <$> (ownedSync.runFrom (ownedSync.runFrom ownedWorld).2).1 = .ok 1 := by
  obtain ⟨root, members, schema, hscene, -⟩ := scene_ownedWorld
  exact ⟨⟨root, members, schema, hscene⟩, by decide +kernel⟩

end Owned

end EnvFiles
