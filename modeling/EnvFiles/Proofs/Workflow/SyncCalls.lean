import EnvFiles.Proofs.Store.Memory
import EnvFiles.Proofs.Workflow.Calls

/-!
# How often a sync calls the resolver

A shared name is resolved in the shared pass, once and only if no workspace that shares it holds
a value, and again for every workspace that redeclares it. The passes over the members leave the
other shared names out. Each pass calls the resolver for definitions with distinct names, so
a sync calls it for a workspace by itself, and for a name, at most as often as the workspace is
listed. Nothing is assumed of plugins, replies and writes, and a sync that fails keeps to all this
as well as one that returns. Which paths a view covers matters for the definitions of redeclared
names only.
-/

namespace EnvFiles

variable {σ : Type} {store : Store σ}

/-- Whether a workspace redeclares a name: its example file, when that is not the one of the root,
declares it. -/
def redeclares (patterns : List DirectivePattern) (files : Files) (rootExample : Path)
    (workspace : Workspace) (name : Text) : Bool :=
  match ownNamesIn patterns files rootExample workspace with
  | .ok own => own.contains name
  | .error _ => false

namespace Call

/-- A call for a name outside the workspaces that redeclare it: the one of the shared pass, or one
for a workspace that does not. -/
def isOutside (redeclared : Workspace → Text → Bool) (name : Text) (call : Call) : Bool :=
  call.definition.name == name && (call.shared || !redeclared call.workspace name)

/-- A call for a name and for a workspace by itself. -/
def isAlone (workspace : Workspace) (name : Text) (call : Call) : Bool :=
  call.definition.name == name && !call.shared && call.workspace == workspace

end Call

/-- A file that a sync leaves as it is, because none of the files that it may write is this one. -/
structure StoreView.Untouched (view : StoreView store) (options : RunOptions)
    (workspaces : List Workspace) (path : Path) : Prop where
  covers : view.covers path
  covers_target : ∀ target ∈ syncTargets options workspaces, view.covers target
  not_sameFile : ∀ target ∈ syncTargets options workspaces, ¬ view.sameFile target path

/-- What the calls of a sync keep to, in terms of the files that it starts with. -/
structure StoreView.CallsOnce (view : StoreView store) (registry : Registry) (options : RunOptions)
    (workspaces : List Workspace) (start : σ) (calls : List Call) : Prop where
  shared : ∀ call ∈ calls, call.shared = true → ∃ root,
    exampleIn registry.patterns (view.files start) options.rootExample = .ok root ∧
      call.definition ∈ root.definitions
  outside : ∀ root,
    exampleIn registry.patterns (view.files start) options.rootExample = .ok root →
      ∀ definition ∈ root.definitions,
        calls.countP (Call.isOutside
          (redeclares registry.patterns (view.files start) options.rootExample)
            definition.name) ≤ 1
  settled : ∀ root,
    exampleIn registry.patterns (view.files start) options.rootExample = .ok root →
      ∀ definition ∈ root.definitions,
        (definition.isActive = false ∨ ∃ workspace ∈ workspaces,
          redeclares registry.patterns (view.files start) options.rootExample workspace
              definition.name = false ∧
            (valuesOf (view.files start workspace.valuesPath)).fills definition.name = true) →
          calls.countP (Call.isOutside
            (redeclares registry.patterns (view.files start) options.rootExample)
              definition.name) = 0
  alone : ∀ workspace name,
    calls.countP (Call.isAlone workspace name) ≤ workspaces.count workspace
  redeclared : ∀ call ∈ calls, call.shared = false →
    redeclares registry.patterns (view.files start) options.rootExample call.workspace
        call.definition.name = true →
      view.Untouched options workspaces call.workspace.examplePath → ∃ specific,
        exampleIn registry.patterns (view.files start) call.workspace.examplePath = .ok specific ∧
          call.definition ∈ specific.definitions

/-- The calls of a sync that came to its passes: those of the shared pass, and then those for each
member by itself. -/
structure PassCalls (store : Store σ) (registry : Registry) (options : RunOptions) (files : Files)
    (workspaces : List Workspace) (start : σ) (root : Schema) (members : List Member)
    (shared : List Call) (own : List (List Call)) : Prop where
  root_eq : exampleIn registry.patterns files options.rootExample = .ok root
  members_eq : membersIn registry.patterns files options.rootExample workspaces = .ok members
  shared : ∃ first, (options.scope first true).CallsFirst
    (missingFrom root.definitions (firstValues (holdingsIn files members))) shared
  own : List.Forall₂ (MemberCalls store registry options root.names
    (syncTargets options workspaces) start) members own

section Counting

/-- Among calls for distinct names at most one is for a given name. -/
theorem countP_le_one_of_nodup {calls : List Call}
    (hnodup : (calls.map fun call => call.definition.name).Nodup) {counted : Call → Bool}
    {name : Text} (hname : ∀ call, counted call = true → call.definition.name = name) :
    calls.countP counted ≤ 1 := by
  calc calls.countP counted
      ≤ calls.countP fun call => call.definition.name == name :=
        List.countP_mono_left fun call _ hcall => beq_iff_eq.mpr (hname call hcall)
    _ = (calls.map fun call => call.definition.name).count name := by
        rw [List.count, List.countP_map, Function.comp_def]
    _ ≤ 1 := List.nodup_iff_count_le_one.mp hnodup name

variable {registry : Registry} {options : RunOptions} {sharedNames : List Text}
  {targets : List Path} {start : σ} {members : List Member} {own : List (List Call)}

/-- Each call of the passes over members is for one of them. -/
theorem exists_memberCalls_of_mem
    (h : List.Forall₂ (MemberCalls store registry options sharedNames targets start) members own)
    {call : Call} (hcall : call ∈ own.flatten) :
    ∃ member ∈ members, ∃ calls,
      MemberCalls store registry options sharedNames targets start member calls ∧
        call ∈ calls := by
  induction h with
  | nil => exact absurd hcall List.not_mem_nil
  | @cons member calls rest others hcalls _ ih =>
    rcases List.mem_append.mp hcall with hhere | hthere
    · exact ⟨member, List.mem_cons_self .., calls, hcalls, hhere⟩
    · obtain ⟨other, hmem, hother⟩ := ih hthere
      exact ⟨other, List.mem_cons_of_mem _ hmem, hother⟩

/-- The passes over members call the resolver for a workspace and a name at most as often as
members have this workspace. -/
theorem countP_isAlone_flatten_le
    (h : List.Forall₂ (MemberCalls store registry options sharedNames targets start) members own)
    (workspace : Workspace) (name : Text) :
    own.flatten.countP (Call.isAlone workspace name) ≤
      (members.map Member.workspace).count workspace := by
  induction h with
  | nil => exact Nat.le_refl 0
  | @cons member calls rest others hcalls _ ih =>
    obtain ⟨world, -, hown⟩ := hcalls
    rw [List.flatten_cons, List.countP_append, List.map_cons, List.count_cons, Nat.add_comm]
    refine Nat.add_le_add ih ?_
    split
    · have hname (call : Call) (hcall : call.isAlone workspace name = true) :
          call.definition.name = name := by
        simp only [Call.isAlone, Bool.and_eq_true, beq_iff_eq] at hcall
        exact hcall.1.1
      exact countP_le_one_of_nodup hown.nodup hname
    · rename_i hne
      refine Nat.le_of_eq (List.countP_eq_zero.mpr fun call hcall halone => hne ?_)
      simp only [Call.isAlone, Bool.and_eq_true, beq_iff_eq] at halone
      rw [beq_iff_eq, ← (hown.own call hcall).2]
      exact halone.2

end Counting

section Kept

variable {view : StoreView store} {registry : Registry} {options : RunOptions}
  {files : Files} {workspaces : List Workspace} {start : σ} {root : Schema}
  {members : List Member} {shared : List Call} {own : List (List Call)}

/-- A member owns what its workspace redeclares. -/
theorem redeclares_of_mem {patterns : List DirectivePattern} {rootExample : Path}
    (h : membersIn patterns files rootExample workspaces = .ok members) {member : Member}
    (hmem : member ∈ members) (name : Text) :
    redeclares patterns files rootExample member.workspace name = member.owns name := by
  rw [redeclares, ownNamesIn_of_mem_membersIn h member hmem, Member.owns]

/-- A workspace that redeclares a name has an example file of its own that declares it. -/
theorem exists_example_of_redeclares {patterns : List DirectivePattern} {rootExample : Path}
    {workspace : Workspace} {name : Text}
    (h : redeclares patterns files rootExample workspace name = true) :
    workspace.examplePath ≠ rootExample ∧ ∃ specific,
      exampleIn patterns files workspace.examplePath = .ok specific ∧ name ∈ specific.names := by
  rw [redeclares, ownNamesIn] at h
  split at h
  · rename_i own hown
    split at hown
    · obtain rfl := Except.ok.inj hown
      cases h
    · rename_i hne
      cases hspecific : exampleIn patterns files workspace.examplePath with
      | error failure =>
        rw [hspecific] at hown
        cases hown
      | ok specific =>
        rw [hspecific] at hown
        obtain rfl := Except.ok.inj hown
        exact ⟨hne, specific, rfl, List.contains_iff_mem.mp h⟩
  · cases h

namespace PassCalls

variable (h : PassCalls store registry options files workspaces start root members shared own)

include h

/-- What the shared pass calls the resolver for: shared definitions with distinct names, and none
for which a member holds a value. -/
theorem shared_spec :
    (∀ call ∈ shared, call.shared = true ∧ call.definition ∈ missingFrom root.definitions
      (firstValues (holdingsIn files members))) ∧
    (shared.map fun call => call.definition.name).Nodup := by
  obtain ⟨first, called, hcalled, rfl⟩ := h.shared
  refine ⟨fun call hcall => ?_, ?_⟩
  · obtain ⟨definition, hmem, rfl⟩ := List.mem_map.mp hcall
    exact ⟨rfl, hcalled.subset hmem⟩
  · rw [List.map_map]
    have hsublist : called.Sublist root.definitions :=
      hcalled.sublist.trans List.filter_sublist
    exact (hsublist.map Definition.name).nodup (soundSchema_exampleIn h.root_eq).nodup_names

/-- The calls for members by themselves: none is for a shared name that its workspace does not
redeclare. -/
theorem own_spec :
    ∀ call ∈ own.flatten, call.shared = false ∧ (call.definition.name ∈ root.names →
      redeclares registry.patterns files options.rootExample call.workspace
        call.definition.name = true) := by
  intro call hcall
  obtain ⟨member, hmem, calls, ⟨world, -, hown⟩, hcalls⟩ := exists_memberCalls_of_mem h.own hcall
  obtain ⟨halone, hworkspace⟩ := hown.own call hcalls
  refine ⟨halone, fun hname => ?_⟩
  have hleft := hown.leftIn call hcalls
  rw [hworkspace, redeclares_of_mem h.members_eq hmem]
  rw [List.mem_filter, not_and, Bool.not_eq_true, Bool.not_eq_false'] at hleft
  exact hleft hname

/-- Outside the workspaces that redeclare it, a shared name is resolved by the shared pass only. -/
theorem countP_isOutside {name : Text} (hname : name ∈ root.names) :
    (shared ++ own.flatten).countP (Call.isOutside
        (redeclares registry.patterns files options.rootExample) name) =
      shared.countP fun call => call.definition.name == name := by
  have hown : own.flatten.countP (Call.isOutside
      (redeclares registry.patterns files options.rootExample) name) = 0 := by
    refine List.countP_eq_zero.mpr fun call hcall houtside => ?_
    obtain ⟨halone, hredeclares⟩ := h.own_spec call hcall
    simp only [Call.isOutside, halone, Bool.false_or, Bool.and_eq_true, beq_iff_eq,
      Bool.not_eq_true'] at houtside
    obtain ⟨rfl, hnot⟩ := houtside
    rw [hredeclares hname] at hnot
    cases hnot
  rw [List.countP_append, hown, Nat.add_zero]
  refine List.countP_congr fun call hcall => ?_
  rw [Call.isOutside, (h.shared_spec.1 call hcall).1, Bool.true_or, Bool.and_true]

/-- The shared pass does not resolve what is deprecated or has a value. -/
theorem countP_shared_eq_zero {definition : Definition} (hmem : definition ∈ root.definitions)
    (hsettled : definition.isActive = false ∨ ∃ workspace ∈ workspaces,
      redeclares registry.patterns files options.rootExample workspace definition.name = false ∧
        (valuesOf (files workspace.valuesPath)).fills definition.name = true) :
    shared.countP (fun call => call.definition.name == definition.name) = 0 := by
  refine List.countP_eq_zero.mpr fun call hcall hname => ?_
  obtain ⟨hdeclared, hactive, hlacks⟩ := mem_missingFrom.mp (h.shared_spec.1 call hcall).2
  have hsame : call.definition = definition :=
    List.inj_on_of_nodup_map (soundSchema_exampleIn h.root_eq).nodup_names hdeclared hmem
      (beq_iff_eq.mp hname)
  rw [hsame] at hactive hlacks
  rcases hsettled with hdeprecated | ⟨workspace, hworkspace, hnot, hfills⟩
  · rw [hdeprecated] at hactive
    cases hactive
  · rw [← workspaces_membersIn h.members_eq] at hworkspace
    obtain ⟨member, hmember, rfl⟩ := List.mem_map.mp hworkspace
    rw [redeclares_of_mem h.members_eq hmember] at hnot
    rw [fills_firstValues_holdingsIn, List.any_eq_false] at hlacks
    refine hlacks member hmember ?_
    rw [hnot, Bool.not_false, Bool.true_and]
    exact hfills

end PassCalls

/-- For a name that its workspace redeclares, a pass over the workspace takes the definition of the
workspace's own example file, as long as no write of the sync reaches this file. -/
theorem MemberCalls.exists_specific {sharedNames : List Text} {member : Member}
    {calls : List Call}
    (h : MemberCalls store registry options sharedNames (syncTargets options workspaces) start
      member calls)
    (hvalid : view.valid start) {call : Call} (hcall : call ∈ calls)
    (hredeclares : redeclares registry.patterns (view.files start) options.rootExample
      member.workspace call.definition.name = true)
    (huntouched : view.Untouched options workspaces member.workspace.examplePath) :
    ∃ specific, exampleIn registry.patterns (view.files start) member.workspace.examplePath =
      .ok specific ∧ call.definition ∈ specific.definitions := by
  obtain ⟨world, hreached, hown⟩ := h
  obtain ⟨schema, hschema, hmem⟩ := hown.declared call hcall
  obtain ⟨hne, specific, hspecific, hname⟩ := exists_example_of_redeclares hredeclares
  have hcontent : view.files world.store member.workspace.examplePath =
      view.files start member.workspace.examplePath :=
    view.files_of_reached_of_not_sameFile huntouched.covers_target hvalid hreached
      huntouched.covers huntouched.not_sameFile
  obtain ⟨hread, -⟩ := (computes_workspaceSchema view registry.patterns options.rootExample
    member.workspace).of_runFrom_ok (view.valid_of_reached huntouched.covers_target hvalid hreached)
      (Attempt.runFrom_eq_of_fst hschema)
  obtain ⟨root, hroot, hmerged⟩ := exists_of_bind_eq_ok hread
  rw [if_neg hne, exampleIn, hcontent, ← exampleIn, hspecific] at hmerged
  obtain rfl := Except.ok.inj hmerged
  rcases (mem_mergeDefinitions_iff (soundSchema_exampleIn hroot).nodup_names
    (soundSchema_exampleIn hspecific).nodup_names).mp hmem with hdeclared | ⟨-, hnot⟩
  · exact ⟨specific, hspecific, hdeclared⟩
  · exact absurd hname hnot

/-- The calls of the passes of a sync keep to it. -/
theorem PassCalls.callsOnce
    (h : PassCalls store registry options (view.files start) workspaces start root members shared
      own) (hvalid : view.valid start) :
    view.CallsOnce registry options workspaces start (shared ++ own.flatten) where
  shared call hcall hshared := by
    rcases List.mem_append.mp hcall with hhere | hthere
    · exact ⟨root, h.root_eq, (mem_missingFrom.mp (h.shared_spec.1 call hhere).2).1⟩
    · rw [(h.own_spec call hthere).1] at hshared
      cases hshared
  outside other hother definition hmem := by
    obtain rfl := Except.ok.inj (h.root_eq.symm.trans hother)
    rw [h.countP_isOutside (List.mem_map_of_mem hmem)]
    exact countP_le_one_of_nodup h.shared_spec.2 fun _ => beq_iff_eq.mp
  settled other hother definition hmem hsettled := by
    obtain rfl := Except.ok.inj (h.root_eq.symm.trans hother)
    rw [h.countP_isOutside (List.mem_map_of_mem hmem)]
    exact h.countP_shared_eq_zero hmem hsettled
  alone workspace name := by
    have hnone : shared.countP (Call.isAlone workspace name) = 0 := by
      refine List.countP_eq_zero.mpr fun call hcall halone => ?_
      simp [Call.isAlone, (h.shared_spec.1 call hcall).1] at halone
    rw [List.countP_append, hnone, Nat.zero_add, ← workspaces_membersIn h.members_eq]
    exact countP_isAlone_flatten_le h.own workspace name
  redeclared call hcall halone hredeclares huntouched := by
    rcases List.mem_append.mp hcall with hhere | hthere
    · rw [(h.shared_spec.1 call hhere).1] at halone
      cases halone
    · obtain ⟨member, -, calls, hcalls, hmem⟩ := exists_memberCalls_of_mem h.own hthere
      obtain ⟨world, hreached, hown⟩ := hcalls
      obtain ⟨-, hworkspace⟩ := hown.own call hmem
      rw [hworkspace] at hredeclares huntouched ⊢
      exact MemberCalls.exists_specific ⟨world, hreached, hown⟩ hvalid hmem hredeclares huntouched

/-- No calls keep to everything. -/
theorem callsOnce_nil (view : StoreView store) (registry : Registry) (options : RunOptions)
    (workspaces : List Workspace) (start : σ) :
    view.CallsOnce registry options workspaces start [] where
  shared := by simp
  outside := by simp
  settled := by simp
  alone := by simp
  redeclared := by simp

end Kept

section Runs

open Attempt

/-- The passes of a sync that only read before add calls that keep to it. -/
theorem adds_passes (view : StoreView store) (registry : Registry) (options : RunOptions)
    (first : Workspace) {workspaces : List Workspace} {root : Schema} {members : List Member}
    (sharedValues : Table Text Text) {start : σ} (hvalid : view.valid start)
    (hroot : exampleIn registry.patterns (view.files start) options.rootExample = .ok root)
    (hmembers : membersIn registry.patterns (view.files start) options.rootExample workspaces =
      .ok members)
    {world : World σ} (hreached : store.Reached [] start world.store) :
    Run.Adds (do
        let report ← syncShared store registry options first members root
        let report ← syncMembers store registry options sharedValues root.names report members
        Run.atDesk (registry.afterSync report.results)
        return report) world
      (view.CallsOnce registry options workspaces start) := by
  have hpaths : ∀ member ∈ members,
      member.workspace.valuesPath ∈ syncTargets options workspaces :=
    fun _ hmem => valuesPath_mem_syncTargets options (workspaces_membersIn hmembers) hmem
  obtain ⟨hthere, hfiles⟩ := view.files_of_reached hvalid hreached
  have hshared := adds_syncShared registry options view hthere first members root
  rw [hfiles] at hshared
  have hkept {shared : List Call} {own : List (List Call)}
      (hcalls : (options.scope first true).CallsFirst (missingFrom root.definitions
        (firstValues (holdingsIn (view.files start) members))) shared)
      (hown : List.Forall₂ (MemberCalls store registry options root.names
        (syncTargets options workspaces) start) members own) :
      view.CallsOnce registry options workspaces start (shared ++ own.flatten) :=
    PassCalls.callsOnce ⟨hroot, hmembers, ⟨first, hcalls⟩, hown⟩ hvalid
  have hnext (report : SyncReport) (after : World σ)
      (hrun : (syncShared store registry options first members root).runFrom world =
        (.ok report, after)) :
      Run.Adds (do
        let report ← syncMembers store registry options sharedValues root.names report members
        Run.atDesk (registry.afterSync report.results)
        return report) after fun calls => ∃ own, List.Forall₂ (MemberCalls store registry options
          root.names (syncTargets options workspaces) start) members own ∧ calls = own.flatten := by
    have hwrites := writesOnly_syncShared store registry options first root
      (List.mem_cons_self ..) hpaths world
    rw [hrun] at hwrites
    refine (adds_syncMembers registry options sharedValues root.names report hpaths
      ((hreached.mono (List.nil_subset _)).trans hwrites)).bind_quiet fun report => ?_
    exact (Run.quiet_atDesk (quiet_callHooks registry _ fun _ => rfl)).bind fun _ => .pure _
  refine hshared.bind hnext (fun shared hcalls => ?_) ?_
  · -- A shared pass that fails is followed by no call for a member.
    have hall := hkept hcalls (forall₂_memberCalls_nil registry options root.names members)
    rwa [List.flatten_eq_nil_iff.mpr (by simp), List.append_nil] at hall
  · rintro shared _ hcalls ⟨own, hown, rfl⟩
    exact hkept hcalls hown

/-- A sync in a store adds calls that keep to it. -/
theorem adds_syncIn (view : StoreView store) (registry : Registry) (options : RunOptions)
    (workspaces population : List Workspace) (world : World σ)
    (hvalid : view.valid world.store) :
    (syncIn store registry options workspaces population).Adds world
      (view.CallsOnce registry options workspaces world.store) := by
  have hnone := callsOnce_nil view registry options workspaces world.store
  have hquiet := allows_sameCalls store
  cases workspaces with
  | nil => exact Quiet.adds (.pure _) world hnone
  | cons first rest =>
    refine (Run.quiet_atDesk (quiet_callHooks registry _ fun _ => rfl)).adds_bind hnone
      fun _ begun hbegun => ?_
    have hstore : begun.store = world.store :=
      (congrArg (fun outcome => outcome.2.store) hbegun).symm
    rw [← hstore] at hvalid hnone ⊢
    refine Quiet.adds_bind (hquiet.readExampleFile _ _) hnone fun root second hroot => ?_
    obtain ⟨hroot, hsecond⟩ := (computes_readExampleFile view _ _).of_runFrom_ok hvalid hroot
    refine Quiet.adds_bind (hquiet.readAllValues _) hnone fun held third hheld => ?_
    obtain ⟨-, hthird⟩ := (computes_readAllValues view _).of_runFrom_ok hsecond.valid hheld
    refine Quiet.adds_bind (hquiet.readMembers _ _ _) hnone fun members fourth hmembers => ?_
    obtain ⟨hmembers, hfourth⟩ :=
      (computes_readMembers view _ _ _).of_runFrom_ok hthird.valid hmembers
    have hread := hsecond.trans hthird
    rw [hread.files] at hmembers
    exact adds_passes view registry options first _ hvalid hroot hmembers
      (hread.trans hfourth).unwritten

/-- What keeps to a rehearsal keeps to the store behind it. -/
theorem StoreView.CallsOnce.of_rehearsed {view : StoreView store} {registry : Registry}
    {options : RunOptions} {workspaces : List Workspace} {start : σ} {calls : List Call}
    (h : view.rehearsed.CallsOnce registry options workspaces ⟨start, []⟩ calls) :
    view.CallsOnce registry options workspaces start calls where
  shared := h.shared
  outside := h.outside
  settled := h.settled
  alone := h.alone
  redeclared call hcall halone hredeclares huntouched := by
    refine h.redeclared call hcall halone hredeclares
      ⟨trivial, fun _ _ => trivial, fun target htarget hsame => ?_⟩
    refine huntouched.not_sameFile target htarget ?_
    rw [show target = call.workspace.examplePath from hsame]
    exact view.sameFile_equivalence.refl _

/-- A sync resolves each shared variable at most once. Which workspaces redeclare a name, and which
values they hold, is read from the files that the sync starts with. Whatever plugins and replies
do, wherever the sync stops, and also when it is rehearsed: outside the workspaces that redeclare
it, a shared name is resolved at most once, with the definition of the root, and not at all if it
is deprecated or a given workspace that does not redeclare it holds a value. For a workspace by
itself any name is resolved at most as often as the workspace is listed; a name that it redeclares
comes with the definition of its own example file, as long as the sync writes no values file that
is this file. -/
theorem sync_callsOnce (view : StoreView store) (registry : Registry) (options : RunOptions)
    (workspaces : List Workspace) (population : Option (List Workspace)) (rehearsal : Bool)
    (world : World σ) (hvalid : view.valid world.store) :
    (sync store registry options workspaces population rehearsal).Adds world
      (view.CallsOnce registry options workspaces world.store) := by
  cases rehearsal with
  | false => exact adds_syncIn view registry options workspaces _ world hvalid
  | true =>
    obtain ⟨calls, hcalls, htrace⟩ := adds_syncIn view.rehearsed registry options workspaces
      (population.getD workspaces) ⟨⟨world.store, []⟩, world.desk⟩ hvalid
    refine Adds.bind_quiet ⟨calls, hcalls.of_rehearsed, ?_⟩ fun _ => .pure _
    rw [Run.rehearse, runFrom_ofFunction]
    exact htrace

end Runs

section Called

/-- A workspace with files in its own folder. -/
def calledWorkspace (name : Text) : Workspace :=
  ⟨name, [name], [name, ".env.local.example"], [name, ".env.local"]⟩

/-- Two shared variables that are asked for, one that a workspace holds, and a deprecated one; the
first workspace redeclares one of them and adds its own. -/
def calledWorld : World (Table Path Text) where
  store := [([".env.local.example"], "# [prompt]\nA=\n# [prompt]\nB=\nC=\n# [deprecated]\nD=\n"),
    (["web", ".env.local.example"], "# [prompt]\nB=\nE=1\n"), (["api", ".env.local"], "C=2\n")]
  desk := { replies := ["a", "b", "c"] }

/-- A sync of two workspaces that may ask. -/
def calledSync : Run (Table Path Text) SyncReport :=
  sync memoryStore {} { interactive := true } [calledWorkspace "web", calledWorkspace "api"]

/-- The calls of this sync: the shared pass in the name of the first workspace, and this workspace
by itself. -/
theorem sync_callsOnce_redeclared :
    memoryView.valid calledWorld.store ∧
      (callsIn (calledSync.runFrom calledWorld).2.desk.trace).map
          (fun call => (call.shared, call.workspace.name, call.definition.name)) =
        ([(true, "web", "A"), (true, "web", "B"), (false, "web", "B"), (false, "web", "E")] :
          List (Bool × Text × Text)) ∧
      memoryView.CallsOnce {} { interactive := true }
        [calledWorkspace "web", calledWorkspace "api"] calledWorld.store
          (callsIn (calledSync.runFrom calledWorld).2.desk.trace) := by
  obtain ⟨calls, hcalls, htrace⟩ := sync_callsOnce memoryView {} { interactive := true }
    [calledWorkspace "web", calledWorkspace "api"] none false calledWorld trivial
  refine ⟨trivial, by decide +kernel, ?_⟩
  rw [calledSync, htrace]
  exact hcalls

/-- A variable of a workspace alone. -/
def askedTwiceWorld : World (Table Path Text) where
  store := [(["web", ".env.local.example"], "# [prompt]\nX=\n")]
  desk := { replies := ["", ""] }

/-- A sync of this workspace that lists it twice. -/
def askedTwiceSync : Run (Table Path Text) SyncReport :=
  sync memoryStore {} { interactive := true } [calledWorkspace "web", calledWorkspace "web"]

/-- A workspace whose values file is the example file of the other one, which redeclares a shared
name behind a form feed. -/
def overwritingWorkspace : Workspace :=
  { calledWorkspace "api" with valuesPath := ["web", ".env.local.example"] }

/-- The files of these two. -/
def overwritingWorld : World (Table Path Text) where
  store := [([".env.local.example"], "X=5\n"), (["api", ".env.local.example"], "Y=2\n"),
    (["web", ".env.local.example"], "Y=\x0cX=1\n")]

/-- A sync of these two. -/
def overwritingSync : Run (Table Path Text) SyncReport :=
  sync memoryStore {} {} [overwritingWorkspace, calledWorkspace "web"]

/-- A variable that no root declares is resolved twice for one workspace when this is listed twice.
A redeclared name is resolved with the definition of the root, and not with that of the workspace,
after a values file was written in which the workspace declared it. -/
theorem sync_calls_again :
    (exampleIn [] (memoryView.files askedTwiceWorld.store) (RunOptions.rootExample {}) =
        .ok { sourcePath := "/.env.local.example" } ∧
      (callsIn (askedTwiceSync.runFrom askedTwiceWorld).2.desk.trace).countP
        (Call.isAlone (calledWorkspace "web") "X") = 2) ∧
    (redeclares [] (memoryView.files overwritingWorld.store) (RunOptions.rootExample {})
        (calledWorkspace "web") "X" = true ∧
      (callsIn (overwritingSync.runFrom overwritingWorld).2.desk.trace).filter
          (Call.isAlone (calledWorkspace "web") "X") =
        [⟨false, calledWorkspace "web", { name := "X", exampleValue := "5" }⟩] ∧
      Schema.definitions <$> exampleIn [] (memoryView.files overwritingWorld.store)
          (calledWorkspace "web").examplePath =
        .ok [{ name := "Y" }, { name := "X", exampleValue := "1" }]) :=
  ⟨⟨by decide +kernel, by decide +kernel⟩, by decide +kernel, by decide +kernel, by decide +kernel⟩

end Called

end EnvFiles
