import EnvFiles.Proofs.Attempt
import EnvFiles.Resolution.Pass
import Mathlib.Data.List.Infix

/-!
# Calls of the resolver

The trace of a desk shows each call of the resolver. A step is quiet when it adds none, whatever
it does besides and wherever it stops; what plugins, dialogues and built-in sources do is quiet.
Resolving a variable adds its one call first, so a pass calls the resolver for its definitions in
order, once each, up to the one that stops it.
-/

namespace EnvFiles

/-- A call of the resolver: for the shared pass or a workspace by itself, and for a definition. -/
structure Call where
  shared : Bool
  workspace : Workspace
  definition : Definition
  deriving DecidableEq

/-- The call that an event shows. -/
def Event.call? : Event → Option Call
  | .consulted shared workspace definition => some ⟨shared, workspace, definition⟩
  | _ => none

/-- The calls in a trace. -/
def callsIn (trace : List Event) : List Call := trace.filterMap Event.call?

/-- The call for a definition in a scope. -/
def Scope.call (scope : Scope) (definition : Definition) : Call :=
  ⟨scope.shared, scope.workspace, definition⟩

/-- The calls in a scope for the first ones of some definitions, in order. -/
def Scope.CallsFirst (scope : Scope) (definitions : List Definition) (calls : List Call) : Prop :=
  ∃ called, called <+: definitions ∧ calls = called.map scope.call

/-- One more event. -/
theorem callsIn_concat (trace : List Event) (event : Event) :
    callsIn (trace ++ [event]) = callsIn trace ++ event.call?.toList := by
  rw [callsIn, List.filterMap_append]
  cases hcall : event.call? <;> simp [callsIn, hcall]

namespace Attempt

variable {σ τ α β : Type} {traceOf : σ → List Event}

/-- States whose traces show the same calls. -/
def sameCalls (traceOf : σ → List Event) : Advance σ where
  made before after := callsIn (traceOf after) = callsIn (traceOf before)
  refl _ := rfl
  trans h h' := h'.trans h

/-- An attempt that adds no call to the trace in its state, whether it returns or fails. -/
abbrev Quiet (traceOf : σ → List Event) (attempt : Attempt σ α) : Prop :=
  attempt.Advances (sameCalls traceOf)

/-- An attempt on the part of the state that holds the trace. -/
theorem Quiet.onPart {partTrace : τ → List Event} {get : σ → τ} {set : τ → σ → σ}
    {attempt : Attempt τ α} (h : attempt.Quiet partTrace)
    (hget : ∀ state, traceOf state = partTrace (get state))
    (hset : ∀ part state, traceOf (set part state) = partTrace part) :
    (attempt.onPart get set).Quiet traceOf := by
  intro before
  change callsIn (traceOf _) = callsIn (traceOf before)
  rw [Attempt.onPart, runFrom_ofFunction, hset, hget]
  exact h (get before)

/-- From the given state the attempt adds calls of a kind, whether it returns or fails. -/
def Adds (traceOf : σ → List Event) (attempt : Attempt σ α) (before : σ)
    (kind : List Call → Prop) : Prop :=
  ∃ calls, kind calls ∧
    callsIn (traceOf (attempt.runFrom before).2) = callsIn (traceOf before) ++ calls

variable {before : σ} {kind kindNext kindAll : List Call → Prop}

/-- A quiet attempt adds no call. -/
theorem Quiet.adds {attempt : Attempt σ α} (h : attempt.Quiet traceOf) (before : σ)
    (hnone : kind []) : attempt.Adds traceOf before kind :=
  ⟨[], hnone, (h before).trans (List.append_nil _).symm⟩

/-- Calls of one kind and calls of another one after them. A failure of the first attempt leaves
its own calls. -/
theorem Adds.bind {attempt : Attempt σ α} {next : α → Attempt σ β}
    (h : attempt.Adds traceOf before kind)
    (hnext : ∀ result after, attempt.runFrom before = (.ok result, after) →
      (next result).Adds traceOf after kindNext)
    (hstopped : ∀ calls, kind calls → kindAll calls)
    (hall : ∀ calls more, kind calls → kindNext more → kindAll (calls ++ more)) :
    (attempt >>= next).Adds traceOf before kindAll := by
  obtain ⟨calls, hcalls, htrace⟩ := h
  rw [Adds, runFrom_bind]
  rcases hrun : attempt.runFrom before with ⟨failure | result, after⟩
  · rw [hrun] at htrace
    exact ⟨calls, hstopped calls hcalls, htrace⟩
  · rw [hrun] at htrace
    obtain ⟨more, hmore, hafter⟩ := hnext result after hrun
    refine ⟨calls ++ more, hall calls more hcalls hmore, ?_⟩
    rw [hafter, htrace, List.append_assoc]

/-- Calls behind a quiet attempt. -/
theorem Quiet.adds_bind {attempt : Attempt σ α} {next : α → Attempt σ β}
    (h : attempt.Quiet traceOf) (hnone : kind [])
    (hnext : ∀ result after, attempt.runFrom before = (.ok result, after) →
      (next result).Adds traceOf after kind) :
    (attempt >>= next).Adds traceOf before kind := by
  have hquiet : attempt.Adds traceOf before (· = []) := h.adds before rfl
  refine hquiet.bind hnext ?_ ?_
  · rintro _ rfl
    exact hnone
  · rintro _ more rfl hmore
    exact hmore

/-- Calls before a quiet attempt. -/
theorem Adds.bind_quiet {attempt : Attempt σ α} {next : α → Attempt σ β}
    (h : attempt.Adds traceOf before kind) (hnext : ∀ result, (next result).Quiet traceOf) :
    (attempt >>= next).Adds traceOf before kind := by
  refine h.bind (fun result after _ => (hnext result).adds after (rfl : [] = [])) ?_ ?_
  · exact fun _ hcalls => hcalls
  · rintro calls _ hcalls rfl
    rwa [List.append_nil]

/-- Calls on the part of the state that holds the trace. -/
theorem Adds.onPart {partTrace : τ → List Event} {get : σ → τ} {set : τ → σ → σ}
    {attempt : Attempt τ α} (h : attempt.Adds partTrace (get before) kind)
    (hget : traceOf before = partTrace (get before))
    (hset : ∀ part state, traceOf (set part state) = partTrace part) :
    (attempt.onPart get set).Adds traceOf before kind := by
  obtain ⟨calls, hcalls, htrace⟩ := h
  refine ⟨calls, hcalls, ?_⟩
  rw [Attempt.onPart, runFrom_ofFunction, hset, hget]
  exact htrace

end Attempt

/-- A step at the desk that adds no call. -/
abbrev DeskStep.Quiet {α : Type} (step : DeskStep α) : Prop := Attempt.Quiet Desk.trace step

/-- A step of a pass that adds no call. -/
abbrev Resolving.Quiet {α : Type} (step : Resolving α) : Prop :=
  Attempt.Quiet (fun pass => pass.desk.trace) step

/-- From the given state a step of a pass adds calls of a kind. -/
abbrev Resolving.Adds {α : Type} (step : Resolving α) (pass : Pass) (kind : List Call → Prop) :
    Prop := Attempt.Adds (fun pass => pass.desk.trace) step pass kind

open Attempt

section Desk

/-- Recording something else than a call. -/
theorem quiet_record {event : Event} (h : event.call? = none) :
    (DeskStep.record event).Quiet := by
  intro desk
  change callsIn (desk.trace ++ [event]) = _
  rw [callsIn_concat, h, Option.toList_none, List.append_nil]

/-- Noting something. -/
theorem quiet_note (notice : Notice) : (DeskStep.note notice).Quiet := fun _ => rfl

/-- What a plugin answered. -/
theorem quiet_ofPlugin {α : Type} (answer : Except Text α) : (DeskStep.ofPlugin answer).Quiet := by
  cases answer <;> exact fun _ => rfl

/-- A dialogue. -/
theorem quiet_converse (dialogue : List Text → Dialogue) :
    (DeskStep.converse dialogue).Quiet := fun _ => rfl

/-- A built-in source holds a dialogue or does nothing. -/
theorem advances_resolveBuiltin {advance : Advance Desk}
    (hconverse : ∀ dialogue, (DeskStep.converse dialogue).Advances advance) (scope : Scope)
    (values : Table Text Text) (definition : Definition) :
    (resolveBuiltin scope values definition).Advances advance := by
  unfold resolveBuiltin
  split
  case h_5 => split <;> exact .pure _
  case h_6 => split <;> first | exact hconverse _ | exact .pure _
  case h_7 => split <;> first | exact hconverse _ | exact .pure _
  all_goals exact .pure _

/-- A built-in source. -/
theorem quiet_resolveBuiltin (scope : Scope) (values : Table Text Text)
    (definition : Definition) : (resolveBuiltin scope values definition).Quiet :=
  advances_resolveBuiltin quiet_converse scope values definition

/-- The hooks around a sync. -/
theorem quiet_callHooks (registry : Registry) (hook : Hooks → Option (Except Text Unit))
    {event : Text → Event} (hevent : ∀ plugin, (event plugin).call? = none) :
    (registry.callHooks hook event).Quiet := by
  refine .forM fun plugin _ => ?_
  split
  · exact .pure ()
  · exact (quiet_record (hevent plugin.name)).bind fun _ => quiet_ofPlugin _

end Desk

section Pass

variable (registry : Registry) (scope : Scope) (definition : Definition)

/-- A step at the desk of a pass. -/
theorem quiet_atDesk {α : Type} {step : DeskStep α} (h : step.Quiet) :
    (Resolving.atDesk step).Quiet := h.onPart (fun _ => rfl) fun _ _ => rfl

/-- The hooks around a variable. -/
theorem quiet_callVariableHooks
    (hook : Hooks → Option (Circumstances → Except Text (Table Text Text)))
    {event : Text → Event} (hevent : ∀ plugin, (event plugin).call? = none) :
    (registry.callVariableHooks scope hook event).Quiet := by
  refine .forM fun plugin _ => ?_
  split
  · exact .pure ()
  · refine (quiet_atDesk (quiet_record (hevent plugin.name))).bind fun _ => ?_
    refine Advances.bind (fun _ => rfl) fun circumstances => ?_
    exact (quiet_atDesk (quiet_ofPlugin _)).bind fun _ _ => rfl

/-- A plugin's source. -/
theorem quiet_supply (source : ValueSource) (position : Nat) :
    (source.supply position scope definition).Quiet := by
  have havailable : (source.checkAvailable position scope).Quiet := by
    unfold ValueSource.checkAvailable
    split
    · exact .pure true
    · refine (quiet_atDesk (quiet_record rfl)).bind fun _ => ?_
      exact Advances.bind (fun _ => rfl) fun _ => quiet_atDesk (quiet_ofPlugin _)
  refine havailable.bind fun available => ?_
  split
  · refine (quiet_atDesk (quiet_record rfl)).bind fun _ => ?_
    exact Advances.bind (fun _ => rfl) fun _ => quiet_atDesk (quiet_ofPlugin _)
  · exact (quiet_atDesk (quiet_note _)).bind fun _ => .pure _

/-- The source that a directive leads to. -/
theorem quiet_dispatch : (dispatch registry scope definition).Quiet := by
  unfold dispatch
  split
  · exact quiet_supply scope definition _ _
  · exact Advances.bind (fun _ => rfl) fun pass => quiet_atDesk (quiet_resolveBuiltin _ _ _)

/-- Resolving a variable adds its call, and nothing after it adds another one. -/
theorem adds_resolve (pass : Pass) :
    Resolving.Adds (resolve registry scope definition) pass (· = [scope.call definition]) := by
  have hrecord : Resolving.Adds (Resolving.atDesk
      (DeskStep.record (.consulted scope.shared scope.workspace definition))) pass
        (· = [scope.call definition]) := ⟨_, rfl, callsIn_concat ..⟩
  refine hrecord.bind_quiet fun _ => Advances.bind (fun _ => rfl) fun state => ?_
  split
  · exact .pure _
  · refine (quiet_callVariableHooks registry scope _ fun _ => rfl).bind fun _ => ?_
    refine (quiet_dispatch registry scope definition).bind fun resolved => ?_
    exact (quiet_callVariableHooks registry scope _ fun _ => rfl).bind fun _ => .pure _

/-- A pass calls the resolver for its definitions in order, up to the one that stops it. -/
theorem adds_resolveMissing (outcome : PassOutcome) (definitions : List Definition) (pass : Pass) :
    Resolving.Adds (resolveMissing registry scope outcome definitions) pass
      (scope.CallsFirst definitions) := by
  induction definitions generalizing outcome pass with
  | nil => exact Quiet.adds (.pure outcome) pass ⟨[], List.prefix_rfl, rfl⟩
  | cons definition rest ih =>
    have hrest (resolved : Resolved) (after : Pass) : Resolving.Adds (do
        Resolving.learn definition resolved
        resolveMissing registry scope (outcome.add definition resolved) rest) after
          (scope.CallsFirst rest) := by
      have hlearn : (Resolving.learn definition resolved).Quiet := by
        unfold Resolving.learn
        split <;> exact fun _ => rfl
      exact hlearn.adds_bind ⟨[], List.nil_prefix, rfl⟩ fun _ later _ => ih _ later
    rw [resolveMissing]
    apply (adds_resolve registry scope definition pass).bind fun resolved after _ =>
      hrest resolved after
    · rintro _ rfl
      exact ⟨[definition], List.prefix_append [definition] rest, rfl⟩
    · rintro _ _ rfl ⟨called, hcalled, rfl⟩
      exact ⟨definition :: called, List.cons_prefix_cons.mpr ⟨rfl, hcalled⟩, rfl⟩

end Pass

end EnvFiles
