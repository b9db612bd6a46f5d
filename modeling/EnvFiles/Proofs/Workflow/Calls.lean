import EnvFiles.Proofs.Resolution.Calls
import EnvFiles.Proofs.Workflow.Advancing
import EnvFiles.Proofs.Workflow.OwnPasses
import EnvFiles.Proofs.Workflow.Writes

/-!
# Which calls of the resolver a sync makes

Reading and writing files is quiet, so all calls of a sync come from its passes. The shared pass
calls the resolver for the shared definitions that are missing among the first values of the
members. The pass over a member calls it for definitions of the effective schema that the pass
reads, which have distinct names, and for none that is shared and not the member's own. Where a
pass stops, its calls stop, and no later pass makes any.
-/

namespace EnvFiles

open Attempt

variable {σ α : Type}

/-- A run that adds no call. -/
abbrev Run.Quiet (run : Run σ α) : Prop := Attempt.Quiet (fun world => world.desk.trace) run

/-- From the given world a run adds calls of a kind. -/
abbrev Run.Adds (run : Run σ α) (world : World σ) (kind : List Call → Prop) : Prop :=
  Attempt.Adds (fun world => world.desk.trace) run world kind

/-- A step at the desk of a run. -/
theorem Run.quiet_atDesk {step : DeskStep α} (h : step.Quiet) :
    (Run.atDesk step : Run σ α).Quiet := h.onPart (fun _ => rfl) fun _ _ => rfl

/-- Reads and writes add no call. -/
theorem allows_sameCalls (store : Store σ) :
    (sameCalls fun world : World σ => world.desk.trace).Allows store fun _ => True where
  read _ _ := rfl
  write _ _ _ _ := rfl

section Passes

variable {store : Store σ} (registry : Registry) (options : RunOptions)

/-- A pass at the desk of a run. -/
theorem Run.adds_ofPass {values : Table Text Text} {pass : Resolving α} {world : World σ}
    {kind : List Call → Prop} (h : pass.Adds ⟨values, world.desk⟩ kind) :
    (Run.ofPass values pass : Run σ α).Adds world kind := by
  have hdesk : Attempt.Adds Desk.trace (DeskStep.ofPass values pass) world.desk kind := by
    unfold DeskStep.ofPass
    exact h.onPart rfl fun _ _ => rfl
  unfold Run.ofPass Run.atDesk
  exact hdesk.onPart rfl fun _ _ => rfl

/-- Whatever store it is read from, an effective schema is sound. -/
theorem soundSchema_of_runFrom_workspaceSchema {patterns : List DirectivePattern}
    {rootExample : Path} {workspace : Workspace} {world : World σ} {schema : List Definition}
    (h : ((workspaceSchema store patterns rootExample workspace).runFrom world).1 = .ok schema) :
    SoundSchema schema := by
  have hread (path : Path) (world : World σ) : (readExampleFile store patterns path).EndsIn world
      (fun schema _ => SoundSchema schema.definitions) fun _ _ => True := by
    rw [readExampleFile, endsIn_bind]
    refine endsIn_of_forall _ (fun content after => ?_) fun _ _ => trivial
    cases content with
    | none => exact soundSchema_nil
    | some text =>
      change (MonadExcept.ofExcept (readExample patterns text path.written) :
        Run σ Schema).EndsIn after _ _
      rw [EndsIn, runFrom_ofExcept]
      cases hread : readExample patterns text path.written with
      | error failure => trivial
      | ok schema => exact soundSchema_readExample hread
  have hschema : (workspaceSchema store patterns rootExample workspace).EndsIn world
      (fun schema _ => SoundSchema schema) fun _ _ => True := by
    rw [workspaceSchema, endsIn_bind]
    refine (hread rootExample world).mono (fun shared after hshared => ?_) fun _ _ h => h
    split
    · exact hshared
    · rw [endsIn_bind]
      exact (hread workspace.examplePath after).mono
        (fun specific _ hspecific => soundSchema_mergeDefinitions hshared hspecific)
        fun _ _ h => h
  exact hschema.of_runFrom_ok (runFrom_eq_of_fst h)

/-- Calls of a pass over a workspace by itself: for definitions with distinct names, in the
effective schema that the pass reads, and for none whose name is left out. -/
structure OwnCalls (store : Store σ) (registry : Registry) (options : RunOptions)
    (workspace : Workspace) (leftOut : List Text) (world : World σ) (calls : List Call) : Prop where
  own : ∀ call ∈ calls, call.shared = false ∧ call.workspace = workspace
  nodup : (calls.map fun call => call.definition.name).Nodup
  leftIn : ∀ call ∈ calls, call.definition.name ∉ leftOut
  declared : ∀ call ∈ calls, ∃ schema, ((workspaceSchema store registry.patterns
    options.rootExample workspace).runFrom world).1 = .ok schema ∧ call.definition ∈ schema

/-- No calls. -/
theorem ownCalls_nil (workspace : Workspace) (leftOut : List Text) (world : World σ) :
    OwnCalls store registry options workspace leftOut world [] where
  own := by simp
  nodup := List.nodup_nil
  leftIn := by simp
  declared := by simp

/-- The calls of a pass over a workspace. -/
theorem adds_reconcileWorkspace (workspace : Workspace) (sharedValues : Option (Table Text Text))
    (sharedNames leftOut : List Text) (world : World σ) :
    (reconcileWorkspace store registry options workspace sharedValues sharedNames leftOut).Adds
      world (OwnCalls store registry options workspace leftOut world) := by
  have hnone : OwnCalls store registry options workspace leftOut world [] :=
    ownCalls_nil registry options workspace leftOut world
  have hquiet := allows_sameCalls store
  refine Quiet.adds_bind (hquiet.workspaceSchema _ _ _) hnone fun schema after hschema => ?_
  refine Quiet.adds_bind (hquiet.readValuesFile _) hnone fun file later _ => ?_
  refine Adds.bind_quiet (Run.adds_ofPass ?_) fun _ => .pure _
  obtain ⟨calls, ⟨called, hcalled, rfl⟩, htrace⟩ :=
    adds_resolveMissing registry (options.scope workspace) {}
      ((compare schema file.values workspace sharedValues sharedNames).missing.filter
        fun definition => !leftOut.contains definition.name) ⟨file.values, later.desk⟩
  refine ⟨_, ?_, htrace⟩
  have hread := congrArg Prod.fst hschema
  have hkept {definition : Definition} (h : definition ∈ called) :
      definition ∈ schema ∧ definition.name ∉ leftOut := by
    have hmem := hcalled.subset h
    rw [List.mem_filter, missing_compare, mem_missingFrom] at hmem
    exact ⟨hmem.1.1, by simpa using hmem.2⟩
  have hsublist : called.Sublist schema := by
    refine hcalled.sublist.trans (List.filter_sublist.trans ?_)
    rw [missing_compare]
    exact List.filter_sublist
  refine ⟨?_, ?_, ?_, ?_⟩
  · intro call hcall
    obtain ⟨definition, -, rfl⟩ := List.mem_map.mp hcall
    exact ⟨rfl, rfl⟩
  · rw [List.map_map]
    exact (hsublist.map Definition.name).nodup
      (soundSchema_of_runFrom_workspaceSchema hread).nodup_names
  · intro call hcall
    obtain ⟨definition, hmem, rfl⟩ := List.mem_map.mp hcall
    exact (hkept hmem).2
  · intro call hcall
    obtain ⟨definition, hmem, rfl⟩ := List.mem_map.mp hcall
    exact ⟨schema, hread, (hkept hmem).1⟩

/-- The calls of the shared pass. -/
theorem adds_resolveShared (view : StoreView store) {world : World σ}
    (hvalid : view.valid world.store) (first : Workspace) (members : List Member)
    (definitions : List Definition) :
    (resolveShared store registry options first members definitions).Adds world
      ((options.scope first true).CallsFirst (missingFrom definitions
        (firstValues (holdingsIn (view.files world.store) members)))) := by
  refine Quiet.adds_bind ((allows_sameCalls store).readAllValues _) ⟨[], List.nil_prefix, rfl⟩
    fun held after hheld => ?_
  obtain ⟨hvalues, -⟩ := (computes_readAllValues view _).of_runFrom_ok hvalid hheld
  obtain ⟨rfl, -⟩ := eq_of_allValuesIn hvalues
  rw [zip_eq_holdingsIn]
  refine Adds.bind_quiet (Run.adds_ofPass ?_) fun _ => .pure _
  rw [missing_compare]
  exact adds_resolveMissing registry _ {} _ _

/-- The calls of a shared pass that distributes what it finds. -/
theorem adds_syncShared (view : StoreView store) {world : World σ}
    (hvalid : view.valid world.store) (first : Workspace) (members : List Member)
    (root : Schema) :
    (syncShared store registry options first members root).Adds world
      ((options.scope first true).CallsFirst (missingFrom root.definitions
        (firstValues (holdingsIn (view.files world.store) members)))) := by
  have hquiet := allows_sameCalls store
  rw [syncShared]
  split
  · exact Quiet.adds (.pure _) world ⟨[], List.nil_prefix, rfl⟩
  · exact (adds_resolveShared registry options view hvalid first members _).bind_quiet fun pass =>
      (hquiet.fillFile trivial _ _).bind fun _ =>
        (hquiet.fillMembers registry options _ fun _ _ => trivial).bind fun _ => .pure _

/-- Calls for a member by itself, in some state of the store that is reached by reads and by writes
to the given paths. -/
def MemberCalls (store : Store σ) (registry : Registry) (options : RunOptions)
    (sharedNames : List Text) (targets : List Path) (start : σ) (member : Member)
    (calls : List Call) : Prop :=
  ∃ world : World σ, store.Reached targets start world.store ∧
    OwnCalls store registry options member.workspace
      (sharedNames.filter fun name => !member.owns name) world calls

variable {targets : List Path} {start : σ}

/-- The calls of the pass over a member. -/
theorem adds_syncMember (sharedValues : Table Text Text) (sharedNames : List Text)
    (report : SyncReport) (member : Member) {world : World σ}
    (hreached : store.Reached targets start world.store) :
    (syncMember store registry options sharedValues sharedNames report member).Adds world
      (MemberCalls store registry options sharedNames targets start member) := by
  have hquiet := allows_sameCalls store
  have hrest (reconciliation : Reconciliation) : Run.Quiet (do
      let schema ← workspaceSchema store registry.patterns options.rootExample member.workspace
      let applied ← applyUpdates store member.workspace.valuesPath
        reconciliation.outcome.updates schema
      let file ← readValuesFile store member.workspace.valuesPath
      let result := compare schema file.values member.workspace (some sharedValues) sharedNames
      let report := report.addPass reconciliation.outcome
      return { report with
        added := report.added + applied.length
        results := report.results ++ [result] }) :=
    (hquiet.workspaceSchema _ _ _).bind fun _ => (hquiet.applyUpdates trivial _ _).bind fun _ =>
      (hquiet.readValuesFile _).bind fun _ => .pure _
  obtain ⟨calls, hcalls, htrace⟩ := (adds_reconcileWorkspace registry options member.workspace
    (some sharedValues) sharedNames (sharedNames.filter fun name => !member.owns name)
      world).bind_quiet hrest
  exact ⟨calls, ⟨world, hreached, hcalls⟩, htrace⟩

/-- No calls for some members. -/
theorem forall₂_memberCalls_nil (sharedNames : List Text) (members : List Member) :
    List.Forall₂ (MemberCalls store registry options sharedNames targets start) members
      (members.map fun _ => []) := by
  induction members with
  | nil => exact .nil
  | cons member rest ih =>
    exact .cons ⟨⟨start, {}⟩, .start, ownCalls_nil registry options _ _ _⟩ ih

/-- The calls of the passes over members are those for each of them, in order. -/
theorem adds_syncMembers (sharedValues : Table Text Text) (sharedNames : List Text)
    (report : SyncReport) {members : List Member}
    (hpaths : ∀ member ∈ members, member.workspace.valuesPath ∈ targets) {world : World σ}
    (hreached : store.Reached targets start world.store) :
    (syncMembers store registry options sharedValues sharedNames report members).Adds world
      fun calls => ∃ parts, List.Forall₂
        (MemberCalls store registry options sharedNames targets start) members parts ∧
          calls = parts.flatten := by
  induction members generalizing report world with
  | nil => exact Quiet.adds (.pure report) world ⟨[], .nil, rfl⟩
  | cons member rest ih =>
    obtain ⟨hpath, hrest⟩ := List.forall_mem_cons.mp hpaths
    have hwrites := writesOnly_syncMember store registry options sharedValues sharedNames report
      hpath world
    refine (adds_syncMember registry options sharedValues sharedNames report member hreached).bind
      (fun next after hrun => ih next hrest ?_) (fun calls hcalls => ?_) ?_
    · rw [hrun] at hwrites
      exact hreached.trans hwrites
    · exact ⟨calls :: rest.map fun _ => [],
        .cons hcalls (forall₂_memberCalls_nil registry options sharedNames rest), by simp⟩
    · rintro calls _ hcalls ⟨parts, hparts, rfl⟩
      exact ⟨calls :: parts, .cons hcalls hparts, rfl⟩

end Passes

end EnvFiles
