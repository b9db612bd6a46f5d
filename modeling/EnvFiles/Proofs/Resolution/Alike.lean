import EnvFiles.Proofs.InStep
import EnvFiles.Resolution.Pass
import Mathlib.Data.List.Infix

/-!
# Passes do not look at the log

Plugins see the trace and the values known so far, questions take the replies, and nothing looks
at the notices. So a pass at two desks that differ in their notices only takes the same course at
both. Whatever it does, the questions asked before stay asked.
-/

namespace EnvFiles

open Attempt

/-- Desks that differ in their notices only. -/
structure Desk.Alike (first second : Desk) : Prop where
  replies : first.replies = second.replies
  asked : first.asked = second.asked
  trace : first.trace = second.trace

/-- Every desk is like itself. -/
theorem Desk.Alike.refl (desk : Desk) : desk.Alike desk := ⟨rfl, rfl, rfl⟩

/-- Likeness goes both ways. -/
theorem Desk.Alike.symm {first second : Desk} (h : first.Alike second) : second.Alike first :=
  ⟨h.replies.symm, h.asked.symm, h.trace.symm⟩

/-- Likeness goes from desk to desk. -/
theorem Desk.Alike.trans {first second third : Desk} (h : first.Alike second)
    (h' : second.Alike third) : first.Alike third :=
  ⟨h.replies.trans h'.replies, h.asked.trans h'.asked, h.trace.trans h'.trace⟩

/-- Two steps at desks that differ in their notices only. -/
def deskCoupling : Coupling Desk Desk where
  related := Desk.Alike
  onward before after := before.asked <+: after.asked
  stopped _ _ _ := False
  onward_refl _ := List.prefix_rfl
  onward_trans := List.IsPrefix.trans
  stopped_onward h _ := h

/-- Two passes that know the same values. -/
def passCoupling : Coupling Pass Pass where
  related first second := first.values = second.values ∧ first.desk.Alike second.desk
  onward before after := before.desk.asked <+: after.desk.asked
  stopped _ _ _ := False
  onward_refl _ := List.prefix_rfl
  onward_trans := List.IsPrefix.trans
  stopped_onward h _ := h

variable {α : Type}

section Desk

/-- An event is recorded at both desks. -/
theorem inStep_record (event : Event) :
    InStep deskCoupling (DeskStep.record event) (DeskStep.record event) :=
  .modify (fun _ => List.prefix_rfl) fun _ _ h =>
    ⟨h.replies, h.asked, congrArg (· ++ [event]) h.trace⟩

/-- A notice is noted. -/
theorem inStep_note (notice : Notice) :
    InStep deskCoupling (DeskStep.note notice) (DeskStep.note notice) :=
  .modify (fun _ => List.prefix_rfl) fun _ _ h => ⟨h.replies, h.asked, h.trace⟩

/-- A plugin's answer is the same at both desks. -/
theorem inStep_ofPlugin (answer : Except Text α) :
    InStep deskCoupling (DeskStep.ofPlugin answer) (DeskStep.ofPlugin answer) := by
  cases answer with
  | error message => exact .ofExcept (.error (.pluginFailed message))
  | ok value => exact .pure value

/-- A dialogue takes the same replies at both desks. -/
theorem inStep_converse (dialogue : List Text → Dialogue) :
    InStep deskCoupling (DeskStep.converse dialogue) (DeskStep.converse dialogue) where
  onward desk := List.prefix_append _ _
  agree first second h := by
    rw [DeskStep.converse, runFrom_ofFunction, runFrom_ofFunction]
    rw [h.replies, h.asked]
    exact Or.inl ⟨rfl, rfl, rfl, h.trace⟩

/-- A built-in source does the same at both desks. -/
theorem inStep_resolveBuiltin (scope : Scope) (values : Table Text Text)
    (definition : Definition) :
    InStep deskCoupling (resolveBuiltin scope values definition)
      (resolveBuiltin scope values definition) := by
  unfold resolveBuiltin
  split
  case h_6 => split <;> first | exact inStep_converse _ | exact .pure _
  case h_7 => split <;> first | exact inStep_converse _ | exact .pure _
  case h_5 => split <;> exact .pure _
  all_goals exact .pure _

/-- Hooks are called at both desks. -/
theorem inStep_callHooks (registry : Registry) (hook : Hooks → Option (Except Text Unit))
    (event : Text → Event) :
    InStep deskCoupling (registry.callHooks hook event) (registry.callHooks hook event) := by
  refine .forM fun plugin _ => ?_
  split
  · exact .pure ()
  · exact (inStep_record _).bind fun _ => inStep_ofPlugin _

end Desk

section Pass

variable (registry : Registry) (scope : Scope)

/-- A step at the desk of a pass. -/
theorem inStep_atDesk {task : DeskStep α} (h : InStep deskCoupling task task) :
    InStep passCoupling (Resolving.atDesk task) (Resolving.atDesk task) :=
  h.onPart (fun _ _ hrelated => hrelated.2)
    (fun _ _ _ _ hrelated hdesk => ⟨hrelated.1, hdesk⟩) (fun _ _ _ _ _ _ h => h) fun _ _ h => h

/-- A step that looks at the values known so far and the trace only. -/
theorem inStep_get_bind {next : Pass → Resolving α}
    (hnext : ∀ pass other, passCoupling.related pass other →
      InStep passCoupling (next pass) (next other)) :
    InStep passCoupling (get >>= next) (get >>= next) := by
  refine InStep.get_bind (fun pass => ⟨pass, ?_⟩) hnext
  exact ⟨rfl, .refl pass.desk⟩

/-- What a plugin sees is the same in both passes. -/
theorem inStep_circumstances :
    InStep passCoupling (Resolving.circumstances scope) (Resolving.circumstances scope) :=
  inStep_get_bind fun pass other h => by
    rw [h.1, h.2.trace]
    exact .pure _

/-- The hooks around a variable are called in both passes. -/
theorem inStep_callVariableHooks
    (hook : Hooks → Option (Circumstances → Except Text (Table Text Text)))
    (event : Text → Event) :
    InStep passCoupling (registry.callVariableHooks scope hook event)
      (registry.callVariableHooks scope hook event) := by
  refine .forM fun plugin _ => ?_
  split
  · exact .pure ()
  · refine (inStep_atDesk (inStep_record _)).bind fun _ => ?_
    refine (inStep_circumstances scope).bind fun seen => ?_
    refine (inStep_atDesk (inStep_ofPlugin _)).bind fun values => ?_
    exact .modify (fun _ => List.prefix_rfl) fun _ _ h => ⟨rfl, h.2⟩

/-- A source supplies the same in both passes. -/
theorem inStep_supply (source : ValueSource) (position : Nat) (definition : Definition) :
    InStep passCoupling (source.supply position scope definition)
      (source.supply position scope definition) := by
  have havailable :
      InStep passCoupling (source.checkAvailable position scope)
        (source.checkAvailable position scope) := by
    unfold ValueSource.checkAvailable
    split
    · exact .pure true
    · exact (inStep_atDesk (inStep_record _)).bind fun _ =>
        (inStep_circumstances scope).bind fun seen => inStep_atDesk (inStep_ofPlugin _)
  refine havailable.bind fun available => ?_
  split
  · exact (inStep_atDesk (inStep_record _)).bind fun _ =>
      (inStep_circumstances scope).bind fun seen => inStep_atDesk (inStep_ofPlugin _)
  · exact (inStep_atDesk (inStep_note _)).bind fun _ => .pure _

/-- A variable is dispatched to the same source in both passes. -/
theorem inStep_dispatch (definition : Definition) :
    InStep passCoupling (dispatch registry scope definition)
      (dispatch registry scope definition) := by
  unfold dispatch
  split
  · exact inStep_supply scope _ _ definition
  · refine inStep_get_bind fun pass other h => ?_
    rw [h.1]
    exact inStep_atDesk (inStep_resolveBuiltin scope other.values definition)

/-- A variable is resolved to the same in both passes. -/
theorem inStep_resolve (definition : Definition) :
    InStep passCoupling (resolve registry scope definition)
      (resolve registry scope definition) := by
  refine (inStep_atDesk (inStep_record _)).bind fun _ =>
    inStep_get_bind fun pass other h => ?_
  rw [h.1]
  split
  · exact .pure _
  · exact (inStep_callVariableHooks registry scope _ _).bind fun _ =>
      (inStep_dispatch registry scope definition).bind fun resolved =>
        (inStep_callVariableHooks registry scope _ _).bind fun _ => .pure resolved

/-- Definitions are resolved to the same in both passes. -/
theorem inStep_resolveMissing (outcome : PassOutcome) (definitions : List Definition) :
    InStep passCoupling (resolveMissing registry scope outcome definitions)
      (resolveMissing registry scope outcome definitions) := by
  induction definitions generalizing outcome with
  | nil => exact .pure outcome
  | cons definition rest ih =>
    refine (inStep_resolve registry scope definition).bind fun resolved => ?_
    have hlearn : InStep passCoupling (Resolving.learn definition resolved)
        (Resolving.learn definition resolved) := by
      unfold Resolving.learn
      split
      · exact .pure ()
      · exact .modify (fun _ => List.prefix_rfl) fun _ _ h => ⟨by rw [h.1], h.2⟩
    exact hlearn.bind fun _ => ih _

/-- A pass from the same values takes the same course at desks that differ in their notices. -/
theorem inStep_ofPass {pass : Resolving α} (h : InStep passCoupling pass pass)
    (values : Table Text Text) :
    InStep deskCoupling (DeskStep.ofPass values pass) (DeskStep.ofPass values pass) :=
  h.onPart (fun _ _ hdesk => ⟨rfl, hdesk⟩) (fun _ _ _ _ _ hpass => hpass.2)
    (fun _ _ _ _ _ _ h => h) fun _ _ h => h

end Pass
end EnvFiles
