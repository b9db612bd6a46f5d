import EnvFiles.Proofs.Resolution.Alike
import EnvFiles.Workflow.Sync

/-!
# A sync on one store as on another

One store shadows another when related states read the same and stay related under the same
writes, except that the second store may refuse a write which the first one takes. A sync uses a
store by reads and writes only. So on a store and on its shadow it asks the same questions and
comes to the same outcome, until a write is refused.
-/

namespace EnvFiles

open Attempt

variable {σ τ α : Type}

/-- A store whose states read as the related states of another one, and stay related under the
writes that the other one does not refuse. -/
structure Store.Shadows (related : σ → τ → Prop) (refused : Failure → τ → Prop)
    (first : Store σ) (second : Store τ) : Prop where
  read : ∀ path state other, related state other →
    (first.read path state).answer = (second.read path other).answer ∧
      related (first.read path state).after (second.read path other).after
  write : ∀ path text state other, related state other →
    ((first.write path text state).answer = (second.write path text other).answer ∧
      related (first.write path text state).after (second.write path text other).after) ∨
    ∃ failure, (second.write path text other).answer = .error failure ∧
      refused failure (second.write path text other).after

/-- Two runs on stores with related states, the second of which may have a write refused. -/
def runCoupling (related : σ → τ → Prop) (refused : Failure → τ → Prop) :
    Coupling (World σ) (World τ) where
  related first second := related first.store second.store ∧ first.desk.Alike second.desk
  onward before after := before.desk.asked <+: after.desk.asked
  stopped failure first second :=
    refused failure second.store ∧ second.desk.asked <+: first.desk.asked
  onward_refl _ := List.prefix_rfl
  onward_trans := List.IsPrefix.trans
  stopped_onward h honward := ⟨h.1, h.2.trans honward⟩

namespace Store.Shadows

variable {related : σ → τ → Prop} {refused : Failure → τ → Prop} {first : Store σ}
  {second : Store τ} (h : first.Shadows related refused second)
  (registry : Registry) (options : RunOptions) (patterns : List DirectivePattern)

/-- A step at the desk. -/
theorem inStep_atDesk {step : DeskStep α} (hstep : InStep deskCoupling step step) :
    InStep (runCoupling related refused) (Run.atDesk step) (Run.atDesk step) :=
  hstep.onPart (fun _ _ hrelated => hrelated.2)
    (fun _ _ _ _ hrelated hdesk => ⟨hrelated.1, hdesk⟩) (fun _ _ _ _ _ _ h => h.elim)
    fun _ _ honward => honward

include h

/-- A file reads the same. -/
theorem inStep_read (path : Path) :
    InStep (runCoupling related refused) (Run.read first path) (Run.read second path) where
  onward _ := List.prefix_rfl
  agree world other hrelated :=
    have hread := h.read path world.store other.store hrelated.1
    Or.inl ⟨hread.1, hread.2, hrelated.2.replies, hrelated.2.asked, hrelated.2.trace⟩

/-- A file is written to both stores, or the second one refuses it. -/
theorem inStep_write (path : Path) (text : Text) :
    InStep (runCoupling related refused) (Run.write first path text)
      (Run.write second path text) where
  onward _ := List.prefix_rfl
  agree world other hrelated := by
    obtain ⟨hstore, hreplies, hasked, htrace⟩ := hrelated
    rcases h.write path text world.store other.store hstore with
      ⟨heq, hafter⟩ | ⟨failure, hfailure, hrefused⟩
    · exact Or.inl ⟨heq, hafter, hreplies, hasked, htrace⟩
    · exact Or.inr ⟨failure, hfailure, hrefused, (congrArg _ hasked).mpr List.prefix_rfl⟩

/-- An example file reads the same. -/
theorem inStep_readExampleFile (path : Path) :
    InStep (runCoupling related refused) (readExampleFile first patterns path)
      (readExampleFile second patterns path) := by
  refine (h.inStep_read path).bind fun content => ?_
  cases content with
  | none => exact .pure _
  | some text => exact .ofExcept _

/-- A values file reads the same. -/
theorem inStep_readValuesFile (path : Path) :
    InStep (runCoupling related refused) (readValuesFile first path)
      (readValuesFile second path) := (h.inStep_read path).bind fun _ => .pure _

/-- A workspace has the same effective schema. -/
theorem inStep_workspaceSchema (rootExample : Path) (workspace : Workspace) :
    InStep (runCoupling related refused) (workspaceSchema first patterns rootExample workspace)
      (workspaceSchema second patterns rootExample workspace) := by
  refine (h.inStep_readExampleFile patterns rootExample).bind fun shared => ?_
  split
  · exact .pure _
  · exact (h.inStep_readExampleFile patterns _).bind fun _ => .pure _

/-- A values file is updated alike. -/
theorem inStep_applyUpdates (path : Path) (updates : Table Text Text)
    (schema : List Definition) :
    InStep (runCoupling related refused) (applyUpdates first path updates schema)
      (applyUpdates second path updates schema) := by
  refine (h.inStep_readValuesFile path).bind fun file => ?_
  dsimp only
  split
  · exact .pure _
  · exact (h.inStep_write path _).bind fun _ => .pure _

/-- The variables of a workspace are resolved alike. -/
theorem inStep_reconcileWorkspace (workspace : Workspace)
    (sharedValues : Option (Table Text Text)) (sharedNames leftOut : List Text) :
    InStep (runCoupling related refused)
      (reconcileWorkspace first registry options workspace sharedValues sharedNames leftOut)
      (reconcileWorkspace second registry options workspace sharedValues sharedNames leftOut) :=
  (h.inStep_workspaceSchema registry.patterns _ _).bind fun _ =>
    (h.inStep_readValuesFile _).bind fun _ =>
      (inStep_atDesk (inStep_ofPass (inStep_resolveMissing registry _ _ _) _)).bind
        fun _ => .pure _

/-- A workspace is reconciled alike. -/
theorem inStep_reconcileAndWrite (writing : Bool) (workspace : Workspace) :
    InStep (runCoupling related refused)
      (reconcileAndWrite first registry options writing workspace)
      (reconcileAndWrite second registry options writing workspace) := by
  refine (h.inStep_reconcileWorkspace registry options workspace none [] []).bind
    fun reconciliation => ?_
  split
  · exact .pure _
  · exact (h.inStep_workspaceSchema registry.patterns _ _).bind fun _ =>
      (h.inStep_applyUpdates _ _ _).bind fun _ => .pure _

/-- Workspaces are reconciled alike. -/
theorem inStep_reconcileFrom (writing : Bool) (report : ReconcileReport)
    (workspaces : List Workspace) :
    InStep (runCoupling related refused)
      (reconcileFrom first registry options writing report workspaces)
      (reconcileFrom second registry options writing report workspaces) := by
  induction workspaces generalizing report with
  | nil => exact .pure _
  | cons workspace rest ih =>
    exact (h.inStep_reconcileAndWrite registry options writing workspace).bind fun _ => ih _

/-- Several values files read the same. -/
theorem inStep_readAllValues (paths : List Path) :
    InStep (runCoupling related refused) (readAllValues first paths)
      (readAllValues second paths) := by
  induction paths with
  | nil => exact .pure _
  | cons path rest ih => exact (h.inStep_readValuesFile path).bind fun _ => ih.bind fun _ => .pure _

/-- Workspaces own the same names. -/
theorem inStep_readMembers (rootExample : Path) (workspaces : List Workspace) :
    InStep (runCoupling related refused) (readMembers first patterns rootExample workspaces)
      (readMembers second patterns rootExample workspaces) := by
  induction workspaces with
  | nil => exact .pure _
  | cons workspace rest ih =>
    rw [readMembers, readMembers]
    split
    · exact (InStep.pure []).bind fun _ => ih.bind fun _ => .pure _
    · exact ((h.inStep_readExampleFile patterns _).map _).bind fun _ => ih.bind fun _ => .pure _

/-- A file is filled alike. -/
theorem inStep_fillFile (path : Path) (values : Table Text Text) (schema : List Definition) :
    InStep (runCoupling related refused) (fillFile first path values schema)
      (fillFile second path values schema) :=
  (h.inStep_readValuesFile path).bind fun _ => (h.inStep_applyUpdates path _ schema).map _

/-- Shared values are distributed alike. -/
theorem inStep_fillMembers (values : Table Text Text) (members : List Member) :
    InStep (runCoupling related refused) (fillMembers first registry options values members)
      (fillMembers second registry options values members) := by
  induction members with
  | nil => exact .pure _
  | cons member rest ih =>
    exact (h.inStep_workspaceSchema registry.patterns _ _).bind fun _ =>
      (h.inStep_fillFile _ _ _).bind fun _ => ih

/-- Shared variables are resolved and distributed alike. -/
theorem inStep_syncShared (leader : Workspace) (members : List Member) (rootSchema : Schema) :
    InStep (runCoupling related refused)
      (syncShared first registry options leader members rootSchema)
      (syncShared second registry options leader members rootSchema) := by
  rw [syncShared, syncShared]
  split
  · exact .pure _
  · have hresolve : InStep (runCoupling related refused)
        (resolveShared first registry options leader members rootSchema.definitions)
        (resolveShared second registry options leader members rootSchema.definitions) :=
      (h.inStep_readAllValues _).bind fun _ =>
        (inStep_atDesk (inStep_ofPass (inStep_resolveMissing registry _ _ _) _)).bind
          fun _ => .pure _
    exact hresolve.bind fun _ => (h.inStep_fillFile _ _ _).bind fun _ =>
      (h.inStep_fillMembers registry options _ members).bind fun _ => .pure _

/-- The variables of one member are resolved and written alike. -/
theorem inStep_syncMember (sharedValues : Table Text Text) (sharedNames : List Text)
    (report : SyncReport) (member : Member) :
    InStep (runCoupling related refused)
      (syncMember first registry options sharedValues sharedNames report member)
      (syncMember second registry options sharedValues sharedNames report member) :=
  (h.inStep_reconcileWorkspace registry options _ _ _ _).bind fun _ =>
    (h.inStep_workspaceSchema registry.patterns _ _).bind fun _ =>
      (h.inStep_applyUpdates _ _ _).bind fun _ =>
        (h.inStep_readValuesFile _).bind fun _ => .pure _

/-- The variables of the members are resolved and written alike. -/
theorem inStep_syncMembers (sharedValues : Table Text Text) (sharedNames : List Text)
    (report : SyncReport) (members : List Member) :
    InStep (runCoupling related refused)
      (syncMembers first registry options sharedValues sharedNames report members)
      (syncMembers second registry options sharedValues sharedNames report members) := by
  induction members generalizing report with
  | nil => exact .pure _
  | cons member rest ih =>
    exact (h.inStep_syncMember registry options sharedValues sharedNames report member).bind
      fun _ => ih _

/-- Workspaces are synced alike. -/
theorem inStep_syncIn (workspaces population : List Workspace) :
    InStep (runCoupling related refused) (syncIn first registry options workspaces population)
      (syncIn second registry options workspaces population) := by
  cases workspaces with
  | nil => exact .pure _
  | cons leader rest =>
    refine (inStep_atDesk (inStep_callHooks registry _ _)).bind fun _ =>
      (h.inStep_readExampleFile _ _).bind fun rootSchema =>
        (h.inStep_readAllValues _).bind fun held =>
          (h.inStep_readMembers _ _ _).bind fun members => ?_
    exact (h.inStep_syncShared registry options leader members rootSchema).bind fun _ =>
      (h.inStep_syncMembers registry options _ _ _ members).bind fun _ =>
        (inStep_atDesk (inStep_callHooks registry _ _)).bind fun _ => .pure _

end Store.Shadows
end EnvFiles
