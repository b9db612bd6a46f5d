import EnvFiles.Proofs.Workflow.Touching

/-!
# What the shared pass distributes and reports

Whatever is replied, the shared pass has a value for an active variable of the root or reports its
name once, in the list of its requirement. The values go to the root's file and to the members that
do not own their names, and no other name of a file is touched.
-/

namespace EnvFiles

variable {σ : Type} {store : Store σ}

/-- A report that has the name of a definition once among the skipped ones of its requirement if it
was skipped, and otherwise not at all. -/
structure SyncReport.Tells (report : SyncReport) (definition : Definition) (skipped : Bool) :
    Prop where
  count_required : report.skippedRequired.count definition.name =
    if definition.isRequired && skipped then 1 else 0
  count_optional : report.skippedOptional.count definition.name =
    if !definition.isRequired && skipped then 1 else 0

/-- A shared pass without plugins: it compared the definitions with the values that were there, and
accounts for those that were missing. -/
structure SharedPass.Accounts (pass : SharedPass) (definitions : List Definition) : Prop
    extends pass.Compares definitions where
  usable : UsableValues pass.existing
  accounts : pass.outcome.Accounts (missingFrom definitions pass.existing)

section Counting

variable {definitions : List Definition} {definition : Definition}

/-- Where names are distinct, the name of a definition is counted once or not at all. -/
theorem count_map_name_filter (hnodup : (definitions.map Definition.name).Nodup)
    (hmem : definition ∈ definitions) (good : Definition → Bool) :
    ((definitions.filter good).map Definition.name).count definition.name =
      if good definition then 1 else 0 := by
  by_cases hgood : good definition = true
  · rw [if_pos hgood]
    exact List.count_eq_one_of_mem (hnodup.sublist (List.filter_sublist.map _))
      (List.mem_map_of_mem (List.mem_filter.mpr ⟨hmem, hgood⟩))
  · rw [if_neg hgood, List.count_eq_zero]
    intro hname
    obtain ⟨other, hother, heq⟩ := List.mem_map.mp hname
    obtain ⟨hother, hgood'⟩ := List.mem_filter.mp hother
    exact hgood (List.inj_on_of_nodup_map hnodup hother hmem heq ▸ hgood')

/-- The report of a shared pass tells of every active variable without a value. -/
theorem SharedPass.Accounts.tells {pass : SharedPass} (h : pass.Accounts definitions)
    (hnodup : (definitions.map Definition.name).Nodup) (hmem : definition ∈ definitions)
    (hactive : definition.isActive = true) :
    pass.report.Tells definition
      !(pass.existing.fills definition.name || pass.outcome.updates.fills definition.name) := by
  have hhas : pass.outcome.updates.fills definition.name = true →
      pass.outcome.updates.has definition.name = true := Table.has_of_fills
  refine ⟨?_, ?_⟩
  · simp only [SharedPass.report, SyncReport.addPass, SharedPass.foundEmpty, h.missing,
      h.accounts.skippedRequired_eq, missingFrom, List.filter_filter, List.nil_append,
      List.count_append, count_map_name_filter hnodup hmem, hactive]
    revert hhas
    cases definition.isRequired <;> cases pass.existing.fills definition.name <;>
      cases pass.outcome.updates.fills definition.name <;>
        cases pass.outcome.updates.has definition.name <;> simp
  · simp only [SharedPass.report, SyncReport.addPass, SharedPass.foundEmpty, h.missing,
      h.accounts.skippedOptional_eq, missingFrom, List.filter_filter, List.nil_append,
      List.count_append, count_map_name_filter hnodup hmem, hactive]
    revert hhas
    cases definition.isRequired <;> cases pass.existing.fills definition.name <;>
      cases pass.outcome.updates.fills definition.name <;>
        cases pass.outcome.updates.has definition.name <;> simp

/-- A shared pass has a value to distribute for an active variable exactly if one was there or it
came to one. -/
theorem SharedPass.Accounts.has_values {pass : SharedPass} {root : Schema}
    (h : pass.Accounts root.definitions) (hmem : definition ∈ root.definitions)
    (hactive : definition.isActive = true) :
    (pass.values root.names).has definition.name =
      (pass.existing.fills definition.name || pass.outcome.updates.fills definition.name) := by
  obtain ⟨hfilled, hfills⟩ := h.fills_values
  have hdeclares : declaresActive root.definitions definition.name = true :=
    List.any_eq_true.mpr ⟨definition, hmem, by simp [hactive]⟩
  change OnlyFilled (pass.values root.names) at hfilled
  rw [hfilled]
  exact (hfills definition.name).trans (by rw [hdeclares, Bool.true_and])

end Counting

/-- What the shared pass does: no name is touched but those with a value to distribute, these have
a value in the root's file and in the files of the members that do not own them, and the report
tells of the other active variables. No such member had a value for one of those. -/
structure StoreView.Shares (view : StoreView store) (options : RunOptions) (root : Schema)
    (members : List Member) (values : Table Text Text) (report : SyncReport)
    (before after : World σ) : Prop
    extends view.Touches (fun _ name => values.has name = true) before after where
  root_fills : ∀ name, values.has name = true →
    (valuesOf (view.files after.store options.rootValues)).fills name = true
  fills : ∀ member ∈ members, ∀ name, member.owns name = false → values.has name = true →
    (valuesOf (view.files after.store member.valuesPath)).fills name = true
  tells : ∀ definition ∈ root.definitions, definition.isActive = true →
    report.Tells definition !values.has definition.name
  lacks : ∀ definition ∈ root.definitions, definition.isActive = true →
    values.has definition.name = false → ∀ member ∈ members,
      member.owns definition.name = false →
        (valuesOf (view.files before.store member.valuesPath)).fills definition.name = false

/-- Without shared variables there is nothing to distribute and nothing to report. -/
theorem StoreView.shares_nil {view : StoreView store} {options : RunOptions} {root : Schema}
    {members : List Member} {world : World σ} (hvalid : view.valid world.store)
    (hroot : root.definitions = []) : view.Shares options root members [] {} world world where
  toTouches := view.touches_of_files hvalid rfl
  root_fills name hname := by cases hname
  fills _ _ name _ hname := by cases hname
  tells definition hmem := by
    rw [hroot] at hmem
    cases hmem
  lacks definition hmem := by
    rw [hroot] at hmem
    cases hmem

section Sharing

variable {view : StoreView store} {registry : Registry} {options : RunOptions}
  {workspaces : List Workspace} {root : Schema} {members : List Member} {start world : World σ}

/-- Without plugins the shared pass leaves the store and accounts for what is missing. -/
theorem endsIn_resolveShared_accounts (hplugins : registry.plugins = [])
    (hvalid : view.valid world.store) (hreplies : PlainReplies world.desk.replies)
    (first : Workspace) (members : List Member) {definitions : List Definition}
    (htame : ∀ definition ∈ definitions, definition.Tame)
    (hnodup : (definitions.map Definition.name).Nodup) :
    (resolveShared store registry options first members definitions).EndsIn world
      (fun pass after => (view.valid after.store ∧
          view.files after.store = view.files world.store) ∧ PlainReplies after.desk.replies ∧
        pass.existing = firstValues (holdingsIn (view.files world.store) members) ∧
          pass.Accounts definitions)
      fun _ _ => True := by
  refine endsIn_resolveShared_of hvalid first members (fun _ _ _ => trivial)
    fun middle hsame _ => ?_
  have husable := usableValues_firstValues_holdingsIn (view.files world.store) members
  refine (accounts_ofPass hplugins (fun definition hmem => htame definition
    (mem_missingFrom.mp hmem).1) (hnodup.sublist (List.filter_sublist.map _)) husable
      (fun definition hmem => (mem_missingFrom.mp hmem).2.2)
      (hsame.replies ▸ hreplies)).mono (fun outcome desk houtcome => ?_) fun _ _ _ => trivial
  exact ⟨⟨hsame.valid, hsame.files⟩, houtcome.2, rfl, compares_compare .., husable, houtcome.1⟩

/-- A member is given exactly the values that it does not own. -/
theorem has_valuesFor {values : Table Text Text} (hfilled : OnlyFilled values) (member : Member)
    (name : Text) :
    (member.valuesFor values).has name = (!member.owns name && values.has name) := by
  rw [hfilled.valuesFor member name, fills_valuesFor, hfilled name]

/-- The file of a member may be written by a sync. -/
theorem valuesPath_mem_syncTargets (options : RunOptions)
    (hmembers : members.map Member.workspace = workspaces) {member : Member}
    (hmem : member ∈ members) : member.valuesPath ∈ syncTargets options workspaces := by
  rw [← hmembers]
  exact List.mem_cons_of_mem _ (List.mem_map_of_mem (List.mem_map_of_mem hmem))

variable (hprepared : view.Prepared registry options workspaces start)
  (hmembers : members.map Member.workspace = workspaces)
  (hongoing : view.Ongoing options workspaces start world)

include hprepared hmembers hongoing

/-- Distributing values gives every member those that it does not own. -/
theorem endsIn_fillMembers_ongoing {values : Table Text Text} (hvalues : PlainUpdates values)
    (husable : UsableValues values) (hfilled : OnlyFilled values) :
    (fillMembers store registry options values members).EndsIn world
      (fun _ after => (view.Ongoing options workspaces start after ∧
        view.Touches (fun _ name => values.has name = true) world after) ∧
        ∀ member ∈ members, ∀ name, member.owns name = false → values.has name = true →
          (valuesOf (view.files after.store member.valuesPath)).fills name = true)
      fun _ _ => True := by
  rw [fillMembers_eq_foldlM]
  refine Attempt.endsIn_foldlM (fun member hmem _ before hbefore => ?_)
    ⟨hongoing, view.touches_of_files hongoing.valid rfl⟩
  obtain ⟨hongoing', htouches⟩ := hbefore
  have hpath := valuesPath_mem_syncTargets options hmembers hmem
  have hvalues' : PlainUpdates (member.valuesFor values) := hvalues.filter _
  have husable' : UsableValues (member.valuesFor values) := fun entry hentry =>
    husable entry (List.mem_filter.mp hentry).1
  unfold fillMember
  rw [Attempt.endsIn_bind]
  refine (computes_workspaceSchema view registry.patterns _ member.workspace).endsIn hongoing'.valid
    (fun schema middle hschema hsame => ?_) fun _ _ _ _ => trivial
  have hread : view.Touches (fun _ name => values.has name = true) before middle :=
    view.touches_of_files hsame.valid hsame.files
  refine (endsIn_fillFile_ongoing hprepared (hongoing'.of_files hsame.valid hsame.files
    (hsame.replies ▸ hongoing'.replies)) hpath hvalues' husable' (hfilled.valuesFor member)
      (soundSchema_schemaIn hschema).plainDescriptions).mono (fun _ after hafter => ?_)
        fun _ _ _ => trivial
  obtain ⟨⟨hlast, hfill⟩, hmade⟩ := hafter
  have hstep : view.Touches (fun _ name => values.has name = true) before after :=
    hread.trans (hfill.mono fun _ name hname => by
      rw [has_valuesFor hfilled, Bool.and_eq_true] at hname
      exact hname.2)
  refine ⟨⟨hlast, htouches.trans hstep⟩, fun name howns hname => hmade name ?_,
    fun other hother hothers name howns hname => ?_⟩
  · rw [has_valuesFor hfilled, howns, hname]
    rfl
  · have hpath' := valuesPath_mem_syncTargets options hmembers hother
    exact (hstep.toKeeps.valuesKept (hprepared.covers _ hpath')
      (hongoing'.tidy _ hpath')).fills_of_fills (hothers name howns hname)

/-- The shared pass distributes the values that it has, and tells of the variables without one. -/
theorem endsIn_syncShared_shares
    (hroot : exampleIn registry.patterns (view.files start.store) options.rootExample = .ok root)
    (first : Workspace) :
    (syncShared store registry options first members root).EndsIn world
      (fun report after => view.Ongoing options workspaces start after ∧
        ∃ values, view.Shares options root members values report world after)
      fun _ _ => True := by
  have hsound := soundSchema_exampleIn hroot
  have htame := hprepared.tame_exampleIn (List.mem_cons_self ..) hroot
  have hrootPath : options.rootValues ∈ syncTargets options workspaces := List.mem_cons_self ..
  unfold syncShared
  by_cases hempty : root.definitions = []
  · rw [if_pos (by simpa using hempty)]
    exact ⟨hongoing, [], view.shares_nil hongoing.valid hempty⟩
  · rw [if_neg (by simpa using hempty), Attempt.endsIn_bind]
    refine (endsIn_resolveShared_accounts hprepared.plugins_eq_nil hongoing.valid hongoing.replies
      first members htame hsound.nodup_names).mono (fun pass second hsecond => ?_)
        fun _ _ _ => trivial
    obtain ⟨⟨hvalid, hfiles⟩, hreplies, hexisting, hpass⟩ := hsecond
    obtain ⟨hfilled, -⟩ := hpass.fills_values
    obtain ⟨hplain, husable⟩ := SharedPass.plainUpdates_of_usable hsound.sound_of_mem hpass.usable
      hpass.accounts.usable
    change OnlyFilled (pass.values root.names) at hfilled
    rw [Attempt.endsIn_bind]
    refine (endsIn_fillFile_ongoing hprepared (hongoing.of_files hvalid hfiles hreplies) hrootPath
      hplain husable hfilled hsound.plainDescriptions).mono (fun _ third hthird => ?_)
        fun _ _ _ => trivial
    obtain ⟨⟨hongoing', htouches⟩, hrootFills⟩ := hthird
    rw [Attempt.endsIn_bind]
    refine (endsIn_fillMembers_ongoing hprepared hmembers hongoing' hplain husable hfilled).mono
      (fun _ after hafter => ?_) fun _ _ _ => trivial
    obtain ⟨⟨hongoing'', htouches'⟩, hmade⟩ := hafter
    have hread : view.Touches (fun _ name => (pass.values root.names).has name = true) world
        second := view.touches_of_files hvalid hfiles
    refine ⟨hongoing'', pass.values root.names, (hread.trans htouches).trans htouches',
      fun name hname => ?_, hmade, fun definition hmem hactive => ?_,
      fun definition hmem hactive hlacks member hmember howns => ?_⟩
    · exact (htouches'.toKeeps.valuesKept (hprepared.covers _ hrootPath)
        (hongoing'.tidy _ hrootPath)).fills_of_fills (hrootFills name hname)
    · rw [hpass.has_values hmem hactive]
      exact hpass.tells hsound.nodup_names hmem hactive
    · rw [hpass.has_values hmem hactive, Bool.or_eq_false_iff, hexisting,
        fills_firstValues_holdingsIn, List.any_eq_false] at hlacks
      have hmemberLacks := hlacks.1 member hmember
      rw [howns] at hmemberLacks
      simpa using hmemberLacks

end Sharing
end EnvFiles
