import EnvFiles.Proofs.Resolution.Calls
import EnvFiles.Proofs.Resolution.Claimant
import EnvFiles.Proofs.Resolution.Supply

/-!
# What plugins see of a pass

Plugins see a variable that has a value at its turn not at all. For every other one they see a
bracket: the hooks before it, the check and the call of the first source that claims its
directive, and the hooks after it with what it came to. A source is called only if it has no check
or the check says that it can be used. A pass shows one turn after the other. Where it stops it
shows a part of a turn, and nothing is recorded of that.
-/

namespace EnvFiles

open Attempt

/-- The events of a trace that plugins are behind. The others are calls of the resolver. -/
def pluginEvents (trace : List Event) : List Event :=
  trace.filter fun event => event.call?.isNone

/-- The events of a hook of all plugins that have it, in order. -/
def hookEvents {α : Type} (plugins : List Plugin) (hook : Hooks → Option α)
    (event : Text → Event) : List Event :=
  (plugins.filter fun plugin => (hook plugin.hooks).isSome).map fun plugin => event plugin.name

/-- What asking a source whether it can be used shows, and what it answers. A source without a check
can be used. -/
inductive ValueSource.Checks (source : ValueSource) (position : Nat) (scope : Scope) (pass : Pass) :
    List Event → Except Text Bool → Prop
  | unchecked : source.isAvailable = none → source.Checks position scope pass [] (.ok true)
  | checked {check : Circumstances → Except Text Bool} : source.isAvailable = some check →
      source.Checks position scope pass [source.checkEvent position scope]
        (check ⟨scope, pass.values, pass.desk.trace ++ [source.checkEvent position scope]⟩)

/-- The source at a position is the first one of all plugins, in the order of their registration,
that claims a kind. -/
def Registry.IsClaimant (registry : Registry) (kind : Text) (position : Nat)
    (source : ValueSource) : Prop :=
  FirstSource (registry.plugins.flatMap Plugin.valueSources) (fun other => other.kind = kind) position
    source

/-- What asking for a value shows, and what it comes to. Of the sources of all plugins the first one
that claims the kind of the directive is asked. Its value is taken only if it has no check, or the
check says that it can be used. Plugins see nothing if no source claims the kind. -/
inductive Registry.Asks (registry : Registry) (scope : Scope) (definition : Definition)
    (pass : Pass) : List Event → Except Failure Resolved → Prop
  | unclaimed : (∀ source ∈ registry.plugins.flatMap Plugin.valueSources,
        source.kind ≠ definition.directive.kind) →
      registry.Asks scope definition pass []
        ((resolveBuiltin scope pass.values definition).runFrom pass.desk).1
  | failed {position : Nat} {source : ValueSource} {shown : List Event} {message : Text} :
      registry.IsClaimant definition.directive.kind position source →
      source.Checks position scope pass shown (.error message) →
      registry.Asks scope definition pass shown (.error (.pluginFailed message))
  | unavailable {position : Nat} {source : ValueSource} {shown : List Event} :
      registry.IsClaimant definition.directive.kind position source →
      source.Checks position scope pass shown (.ok false) →
      registry.Asks scope definition pass shown (.ok (source.unavailable definition))
  | called {position : Nat} {source : ValueSource} {shown : List Event} :
      registry.IsClaimant definition.directive.kind position source →
      source.Checks position scope pass shown (.ok true) →
      registry.Asks scope definition pass (shown ++ [source.callEvent position definition])
        ((source.resolve definition ⟨scope, pass.values, pass.desk.trace ++
          (shown ++ [source.callEvent position definition])⟩).mapError .pluginFailed)

/-- The events of the hooks before a definition. -/
def Registry.beforeEvents (registry : Registry) (definition : Definition) : List Event :=
  hookEvents registry.plugins Hooks.beforeResolve (.beforeResolve · definition.name)

/-- The events of the hooks after a definition, with what it came to. -/
def Registry.afterEvents (registry : Registry) (definition : Definition) (resolved : Resolved) :
    List Event :=
  hookEvents registry.plugins Hooks.afterResolve
    (.afterResolve · definition.name resolved.value resolved.source resolved.skipped)

/-- The events around a variable without a value, given those of asking for it. -/
def Registry.bracket (registry : Registry) (definition : Definition) (asking : List Event)
    (resolved : Resolved) : List Event :=
  registry.beforeEvents definition ++ (asking ++ registry.afterEvents definition resolved)

/-- The turn of a definition in a pass: whether its variable has a value by then, what asking for
one shows, and what it comes to. -/
structure Turn where
  definition : Definition
  hasValue : Bool
  asking : List Event
  resolved : Resolved

/-- What plugins see of a turn. -/
def Turn.events (registry : Registry) (turn : Turn) : List Event :=
  if turn.hasValue then []
  else registry.bracket turn.definition turn.asking turn.resolved

/-- The outcome with what a turn came to. -/
def Turn.record (outcome : PassOutcome) (turn : Turn) : PassOutcome :=
  outcome.add turn.definition turn.resolved

/-- The state of a pass after an event. -/
def Pass.record (pass : Pass) (event : Event) : Pass :=
  { pass with desk := { pass.desk with trace := pass.desk.trace ++ [event] } }

/-- The state of a pass that knows what a variable came to. -/
def Pass.learn (pass : Pass) (definition : Definition) (resolved : Resolved) : Pass :=
  if resolved.skipped then pass
  else { pass with values := pass.values.put definition.name resolved.value }

/-- The call of the resolver for a definition. -/
def Scope.consultation (scope : Scope) (definition : Definition) : Event :=
  .consulted scope.shared scope.workspace definition

section Steps

variable {registry : Registry} {scope : Scope} {definition : Definition}

/-- Values that stayed as they were, or that a hook gave back. -/
def HookGives (plugins : List Plugin)
    (hook : Hooks → Option (Circumstances → Except Text (Table Text Text)))
    (before after : Table Text Text) : Prop :=
  after = before ∨ ∃ plugin ∈ plugins, ∃ answer circumstances,
    hook plugin.hooks = some answer ∧ answer circumstances = .ok after

namespace HookGives

variable {plugin : Plugin} {rest : List Plugin}
  {hook : Hooks → Option (Circumstances → Except Text (Table Text Text))}
  {before after : Table Text Text}

/-- Behind a plugin that changes nothing. -/
theorem cons (h : HookGives rest hook before after) :
    HookGives (plugin :: rest) hook before after := by
  rcases h with h | ⟨other, hmem, hgiven⟩
  · exact Or.inl h
  · exact Or.inr ⟨other, List.mem_cons_of_mem _ hmem, hgiven⟩

/-- Behind a plugin that gives values back. -/
theorem cons_of_answer {answer : Circumstances → Except Text (Table Text Text)}
    {circumstances : Circumstances} {given : Table Text Text}
    (hanswer : hook plugin.hooks = some answer) (hgiven : answer circumstances = .ok given)
    (h : HookGives rest hook given after) : HookGives (plugin :: rest) hook before after := by
  rcases h with rfl | ⟨other, hmem, hother⟩
  · exact Or.inr ⟨plugin, List.mem_cons_self .., answer, circumstances, hanswer, hgiven⟩
  · exact Or.inr ⟨other, List.mem_cons_of_mem _ hmem, hother⟩

end HookGives

/-- The events of a hook, one plugin after the other. -/
theorem hookEvents_cons {α : Type} (plugin : Plugin) (rest : List Plugin)
    (hook : Hooks → Option α) (event : Text → Event) :
    hookEvents (plugin :: rest) hook event =
      (match hook plugin.hooks with
        | some _ => [event plugin.name]
        | none => []) ++ hookEvents rest hook event := by
  unfold hookEvents
  cases hhook : hook plugin.hooks <;> simp [hhook]

/-- The events of a hook do not hang on what it is called with. -/
theorem hookEvents_map {α β : Type} (plugins : List Plugin) (hook : Hooks → Option α)
    (function : α → β) (event : Text → Event) :
    hookEvents plugins (fun hooks => (hook hooks).map function) event =
      hookEvents plugins hook event := by
  simp only [hookEvents, Option.isSome_map]

/-- Hooks are called in order, up to the one that fails. -/
theorem endsIn_callVariableHooks_events (registry : Registry) (scope : Scope)
    (hook : Hooks → Option (Circumstances → Except Text (Table Text Text))) (event : Text → Event)
    (pass : Pass) :
    (registry.callVariableHooks scope hook event).EndsIn pass
      (fun _ after => HookGives registry.plugins hook pass.values after.values ∧
        after.desk.trace = pass.desk.trace ++ hookEvents registry.plugins hook event)
      fun _ after => HookGives registry.plugins hook pass.values after.values ∧
        ∃ shown, shown <+: hookEvents registry.plugins hook event ∧
          after.desk.trace = pass.desk.trace ++ shown := by
  unfold Registry.callVariableHooks
  generalize registry.plugins = plugins
  induction plugins generalizing pass with
  | nil => exact ⟨Or.inl rfl, (List.append_nil _).symm⟩
  | cons plugin rest ih =>
    rw [endsIn_forM_cons, hookEvents_cons]
    cases hanswer : hook plugin.hooks with
    | none =>
      exact (ih pass).mono (fun _ _ h => ⟨h.1.cons, h.2⟩) fun _ _ h => ⟨h.1.cons, h.2⟩
    | some answer =>
      simp only [endsIn_bind, endsIn_atDesk, endsIn_record, endsIn_circumstances,
        endsIn_setValues]
      refine endsIn_ofPlugin (fun values hvalues => ?_) fun message _ => ?_
      · refine (ih _).mono (fun _ after h => ?_) fun _ after h => ?_
        · exact ⟨h.1.cons_of_answer hanswer hvalues, h.2.trans (List.append_assoc ..)⟩
        · obtain ⟨hgives, shown, hshown, htrace⟩ := h
          exact ⟨hgives.cons_of_answer hanswer hvalues, _,
            (List.prefix_append_right_inj _).mpr hshown, htrace.trans (List.append_assoc ..)⟩
      · exact ⟨Or.inl rfl, _, List.prefix_append .., rfl⟩

/-- A later state of a pass with the same values and some more events. -/
structure Pass.Shows (pass : Pass) (shown : List Event) (after : Pass) : Prop where
  values_eq : after.values = pass.values
  trace_eq : after.desk.trace = pass.desk.trace ++ shown

/-- A source is checked once, if it has a check. -/
theorem endsIn_checkAvailable_events (source : ValueSource) (position : Nat) (pass : Pass) :
    (source.checkAvailable position scope).EndsIn pass
      (fun usable after => ∃ shown, source.Checks position scope pass shown (.ok usable) ∧
        pass.Shows shown after)
      fun failure after => ∃ shown message, failure = .pluginFailed message ∧
        source.Checks position scope pass shown (.error message) ∧ pass.Shows shown after := by
  unfold ValueSource.checkAvailable
  cases hcheck : source.isAvailable with
  | none => exact ⟨[], .unchecked hcheck, rfl, (List.append_nil _).symm⟩
  | some check =>
    simp only [endsIn_bind, endsIn_atDesk, endsIn_record, endsIn_circumstances]
    have hchecks : source.Checks position scope pass [source.checkEvent position scope] _ :=
      .checked hcheck
    refine endsIn_ofPlugin (fun usable husable => ?_) fun message hmessage => ?_
    · exact ⟨_, husable ▸ hchecks, rfl, rfl⟩
    · exact ⟨_, message, rfl, hmessage ▸ hchecks, rfl, rfl⟩

/-- The first source that claims a directive is asked for a value. -/
theorem endsIn_supply_events {position : Nat} {source : ValueSource}
    (hclaimant : registry.IsClaimant definition.directive.kind position source) (pass : Pass) :
    (source.supply position scope definition).EndsIn pass
      (fun resolved after => ∃ shown, registry.Asks scope definition pass shown (.ok resolved) ∧
        pass.Shows shown after)
      fun failure after => ∃ shown, registry.Asks scope definition pass shown (.error failure) ∧
        pass.Shows shown after := by
  unfold ValueSource.supply
  rw [endsIn_bind]
  refine (endsIn_checkAvailable_events source position pass).mono (fun usable middle h => ?_)
    fun failure after h => ?_
  · obtain ⟨shown, hchecks, hvalues, htrace⟩ := h
    cases usable with
    | true =>
      have hasks := Registry.Asks.called hclaimant hchecks
      have hcalled : middle.desk.trace ++ [source.callEvent position definition] =
          pass.desk.trace ++ (shown ++ [source.callEvent position definition]) := by
        rw [htrace, List.append_assoc]
      simp only [if_true, endsIn_bind, endsIn_atDesk, endsIn_record, endsIn_circumstances]
      rw [hcalled, hvalues]
      refine endsIn_ofPlugin (fun resolved hresolved => ?_) fun message hmessage => ?_
      · rw [hresolved] at hasks
        exact ⟨_, hasks, rfl, rfl⟩
      · rw [hmessage] at hasks
        exact ⟨_, hasks, rfl, rfl⟩
    | false => exact ⟨shown, .unavailable hclaimant hchecks, hvalues, htrace⟩
  · obtain ⟨shown, message, rfl, hchecks, hshows⟩ := h
    exact ⟨shown, .failed hclaimant hchecks, hshows⟩

/-- Desks with the same trace. -/
def sameTrace : Advance Desk where
  made before after := after.trace = before.trace
  refl _ := rfl
  trans h h' := h'.trans h

/-- A built-in source shows plugins nothing. -/
theorem endsIn_resolveBuiltin_trace (scope : Scope) (values : Table Text Text)
    (definition : Definition) (desk : Desk) :
    (resolveBuiltin scope values definition).EndsIn desk
      (fun _ after => after.trace = desk.trace) fun _ after => after.trace = desk.trace := by
  have hbuiltin : (resolveBuiltin scope values definition).Advances sameTrace :=
    advances_resolveBuiltin (fun _ _ => rfl) scope values definition
  exact hbuiltin.endsIn desk

/-- The first source that claims a directive is asked, and if there is none no plugin is. -/
theorem endsIn_dispatch_events (pass : Pass) :
    (dispatch registry scope definition).EndsIn pass
      (fun resolved after => ∃ shown, registry.Asks scope definition pass shown (.ok resolved) ∧
        pass.Shows shown after)
      fun failure after => ∃ shown, registry.Asks scope definition pass shown (.error failure) ∧
        pass.Shows shown after := by
  unfold dispatch
  cases hfind : registry.findSource definition.directive.kind with
  | some source => exact endsIn_supply_events (Registry.firstSource_of_findSource hfind) pass
  | none =>
    have hnone : ∀ source ∈ registry.plugins.flatMap Plugin.valueSources,
        source.kind ≠ definition.directive.kind := fun source hmem => by
      simpa using List.find?_eq_none.mp hfind source hmem
    have hasks : registry.Asks scope definition pass [] _ := .unclaimed hnone
    have hshows (desk : Desk) (htrace : desk.trace = pass.desk.trace) :
        pass.Shows [] { pass with desk } := ⟨rfl, htrace.trans (List.append_nil _).symm⟩
    simp only [endsIn_bind, endsIn_get, endsIn_atDesk]
    refine (endsIn_resolveBuiltin_trace scope pass.values definition pass.desk).and_runFrom.mono
      (fun resolved desk h => ?_) fun failure desk h => ?_
    · rw [h.2] at hasks
      exact ⟨[], hasks, hshows desk h.1⟩
    · rw [h.2] at hasks
      exact ⟨[], hasks, hshows desk h.1⟩

/-- A variable that has a value keeps it. -/
theorem endsIn_resolve_of_filled {pass : Pass} {value : Text}
    (hfilled : pass.values.filled? definition.name = some value) {done : Resolved → Pass → Prop}
    {failed : Failure → Pass → Prop} :
    (resolve registry scope definition).EndsIn pass done failed ↔
      done { value, source := "existing" } (pass.record (scope.consultation definition)) := by
  unfold resolve
  simp only [endsIn_bind, endsIn_atDesk, endsIn_record, endsIn_get, hfilled, endsIn_pure]
  rfl

/-- A variable without a value is resolved between its hooks. -/
theorem endsIn_resolve_of_lacking {pass : Pass}
    (hlacks : pass.values.filled? definition.name = none) {done : Resolved → Pass → Prop}
    {failed : Failure → Pass → Prop} :
    (resolve registry scope definition).EndsIn pass done failed ↔
      (registry.beforeResolve scope definition).EndsIn
        (pass.record (scope.consultation definition))
        (fun _ middle => (dispatch registry scope definition).EndsIn middle
          (fun resolved later => (registry.afterResolve scope definition resolved).EndsIn later
            (fun _ => done resolved) failed) failed) failed := by
  unfold resolve
  simp only [endsIn_bind, endsIn_atDesk, endsIn_record, endsIn_get, hlacks, endsIn_pure]
  rfl

/-- A state of a pass once the hooks before a definition were called. -/
def Registry.Reaches (registry : Registry) (scope : Scope) (definition : Definition)
    (start middle : Pass) : Prop :=
  (registry.beforeResolve scope definition).runFrom
    (start.record (scope.consultation definition)) = (.ok (), middle)

/-- What asking for a definition's value shows and comes to, once the hooks before its turn were
called. -/
def Registry.AsksBehindHooks (registry : Registry) (scope : Scope) (definition : Definition)
    (start : Pass) (asking : List Event) (answer : Except Failure Resolved) : Prop :=
  ∃ middle, registry.Reaches scope definition start middle ∧
    registry.Asks scope definition middle asking answer

/-- What a turn that stops shows. It stops at a hook before it, where a source is asked, or at a hook
after it. -/
inductive Registry.StopsAt (registry : Registry) (scope : Scope) (definition : Definition)
    (start : Pass) (asking : List Event) (resolved : Resolved) (failure : Failure) :
    List Event → Prop
  | before {shown : List Event} : shown <+: registry.beforeEvents definition →
      registry.StopsAt scope definition start asking resolved failure shown
  | asking : registry.AsksBehindHooks scope definition start asking (.error failure) →
      registry.StopsAt scope definition start asking resolved failure
        (registry.beforeEvents definition ++ asking)
  | after {shown : List Event} :
      registry.AsksBehindHooks scope definition start asking (.ok resolved) →
        shown <+: registry.afterEvents definition resolved →
          registry.StopsAt scope definition start asking resolved failure
            (registry.beforeEvents definition ++ (asking ++ shown))

/-- A turn that stops shows the first of the events that it could have had. -/
theorem Registry.StopsAt.prefix_bracket {start : Pass} {asking : List Event} {resolved : Resolved}
    {failure : Failure} {shown : List Event}
    (h : registry.StopsAt scope definition start asking resolved failure shown) :
    shown <+: registry.bracket definition asking resolved := by
  cases h with
  | before hshown => exact hshown.trans (List.prefix_append ..)
  | asking _ => exact (List.prefix_append_right_inj _).mpr (List.prefix_append ..)
  | after _ hshown =>
    exact (List.prefix_append_right_inj _).mpr ((List.prefix_append_right_inj _).mpr hshown)

/-- Values that stayed as they were, or that a hook around a definition gave back. -/
def Registry.GivesAround (registry : Registry) (definition : Definition)
    (before after : Table Text Text) : Prop :=
  HookGives registry.plugins (fun hooks => hooks.beforeResolve.map (· definition)) before after ∨
    ∃ resolved, HookGives registry.plugins
      (fun hooks => hooks.afterResolve.map (· definition resolved)) before after

/-- Values that hooks gave back one after the other. -/
theorem Registry.GivesAround.trans {before middle after : Table Text Text}
    (h : registry.GivesAround definition before middle)
    (h' : registry.GivesAround definition middle after) :
    registry.GivesAround definition before after := by
  rcases h' with (rfl | hgiven) | ⟨resolved, rfl | hgiven⟩
  · exact h
  · exact Or.inl (Or.inr hgiven)
  · exact h
  · exact Or.inr ⟨resolved, Or.inr hgiven⟩

/-- The hooks before a definition. -/
theorem endsIn_beforeResolve_events (definition : Definition) (pass : Pass) :
    (registry.beforeResolve scope definition).EndsIn pass
      (fun _ after => registry.GivesAround definition pass.values after.values ∧
        after.desk.trace = pass.desk.trace ++ registry.beforeEvents definition)
      fun _ after => registry.GivesAround definition pass.values after.values ∧
        ∃ shown, shown <+: registry.beforeEvents definition ∧
          after.desk.trace = pass.desk.trace ++ shown := by
  have h := endsIn_callVariableHooks_events registry scope
    (fun hooks => hooks.beforeResolve.map (· definition)) (.beforeResolve · definition.name) pass
  rw [hookEvents_map] at h
  exact h.mono (fun _ _ h => ⟨Or.inl h.1, h.2⟩) fun _ _ h => ⟨Or.inl h.1, h.2⟩

/-- The hooks after a definition. -/
theorem endsIn_afterResolve_events (definition : Definition) (resolved : Resolved) (pass : Pass) :
    (registry.afterResolve scope definition resolved).EndsIn pass
      (fun _ after => after.desk.trace = pass.desk.trace ++
        registry.afterEvents definition resolved)
      fun _ after => registry.GivesAround definition pass.values after.values ∧
        ∃ shown, shown <+: registry.afterEvents definition resolved ∧
          after.desk.trace = pass.desk.trace ++ shown := by
  have h := endsIn_callVariableHooks_events registry scope
    (fun hooks => hooks.afterResolve.map (· definition resolved))
    (.afterResolve · definition.name resolved.value resolved.source resolved.skipped) pass
  rw [hookEvents_map] at h
  exact h.mono (fun _ _ h => h.2) fun _ _ h => ⟨Or.inr ⟨resolved, h.1⟩, h.2⟩

/-- The turn of a variable without a value. -/
theorem endsIn_resolve_events {pass : Pass}
    (hlacks : pass.values.filled? definition.name = none) :
    (resolve registry scope definition).EndsIn pass
      (fun resolved after => ∃ asking,
        registry.AsksBehindHooks scope definition pass asking (.ok resolved) ∧
          after.desk.trace = pass.desk.trace ++ scope.consultation definition ::
            registry.bracket definition asking resolved)
      fun failure after => registry.GivesAround definition pass.values after.values ∧
        ∃ asking resolved shown,
          registry.StopsAt scope definition pass asking resolved failure shown ∧
            after.desk.trace = pass.desk.trace ++ scope.consultation definition :: shown := by
  rw [endsIn_resolve_of_lacking hlacks]
  have hcalled (shown : List Event) :
      (pass.record (scope.consultation definition)).desk.trace ++ shown =
        pass.desk.trace ++ scope.consultation definition :: shown :=
    (List.append_cons ..).symm
  refine (endsIn_beforeResolve_events definition _).and_runFrom.mono (fun _ middle h => ?_)
    fun failure after h => ?_
  · obtain ⟨⟨hgives, hmiddle⟩, hrun⟩ := h
    refine (endsIn_dispatch_events middle).mono (fun resolved later h => ?_)
      fun failure after h => ?_
    · obtain ⟨asking, hasks, hvalues, hlater⟩ := h
      have hbehind : registry.AsksBehindHooks scope definition pass asking (.ok resolved) :=
        ⟨middle, hrun, hasks⟩
      refine (endsIn_afterResolve_events definition resolved later).mono (fun _ after h => ?_)
        fun failure after h => ?_
      · refine ⟨asking, hbehind, ?_⟩
        rw [h, hlater, hmiddle, List.append_assoc, List.append_assoc, hcalled]
        rfl
      · obtain ⟨hgives', shown, hshown, hafter⟩ := h
        rw [hvalues] at hgives'
        refine ⟨hgives.trans hgives', asking, resolved, _, .after hbehind hshown, ?_⟩
        rw [hafter, hlater, hmiddle, List.append_assoc, List.append_assoc, hcalled]
    · obtain ⟨asking, hasks, hvalues, hafter⟩ := h
      refine ⟨?_, asking, default, _, .asking ⟨middle, hrun, hasks⟩, ?_⟩
      · rw [hvalues]
        exact hgives
      · rw [hafter, hmiddle, List.append_assoc, hcalled]
  · obtain ⟨⟨hgives, shown, hshown, hafter⟩, -⟩ := h
    exact ⟨hgives, [], default, shown, .before hshown, hafter.trans (hcalled shown)⟩

end Steps

section Turns

variable (registry : Registry) (scope : Scope)

/-- A turn that is taken from one state to another: the variable is resolved to what it comes to,
and the trace has the call of the resolver and what plugins see. -/
structure Turn.Taken (turn : Turn) (start after : Pass) : Prop where
  hasValue_eq : turn.hasValue = start.values.fills turn.definition.name
  asks : turn.hasValue = false →
    registry.AsksBehindHooks scope turn.definition start turn.asking (.ok turn.resolved)
  runFrom_eq : (resolve registry scope turn.definition).runFrom start = (.ok turn.resolved, after)
  trace_eq : after.desk.trace = start.desk.trace ++
    scope.consultation turn.definition :: turn.events registry

/-- Turns that are taken one after the other. What a variable came to is known from then on. -/
inductive TakesTurns : Pass → List Turn → Pass → Prop
  | nil (pass : Pass) : TakesTurns pass [] pass
  | cons {start middle after : Pass} {turn : Turn} {turns : List Turn} :
    turn.Taken registry scope start middle →
      TakesTurns (middle.learn turn.definition turn.resolved) turns after →
        TakesTurns start (turn :: turns) after

/-- A turn that is not finished, of a variable without a value: resolving it fails, whatever values
are known then were known before or come from hooks, and the trace has the call of the resolver and
what plugins see up to there. -/
structure Turn.Stops (turn : Turn) (shown : List Event) (start : Pass) (failure : Failure)
    (after : Pass) : Prop where
  hasValue_eq : turn.hasValue = false
  lacks : start.values.fills turn.definition.name = false
  runFrom_eq : (resolve registry scope turn.definition).runFrom start = (.error failure, after)
  gives : registry.GivesAround turn.definition start.values after.values
  stopsAt : registry.StopsAt scope turn.definition start turn.asking turn.resolved failure shown
  trace_eq : after.desk.trace = start.desk.trace ++ scope.consultation turn.definition :: shown

variable {registry scope} {definition : Definition} {start after pass : Pass} {turns : List Turn}

/-- Resolving a variable is a turn, or a turn that is not finished. -/
theorem endsIn_resolve_turn (definition : Definition) (pass : Pass) :
    (resolve registry scope definition).EndsIn pass
      (fun resolved after => ∃ turn : Turn,
        (turn.definition = definition ∧ turn.resolved = resolved) ∧
          turn.Taken registry scope pass after)
      fun failure after => ∃ (turn : Turn) (shown : List Event), turn.definition = definition ∧
        turn.Stops registry scope shown pass failure after := by
  cases hfilled : pass.values.filled? definition.name with
  | some value =>
    have hkept : (resolve registry scope definition).EndsIn pass
        (fun resolved after => resolved = { value, source := "existing" } ∧
          after = pass.record (scope.consultation definition)) fun _ _ => False :=
      (endsIn_resolve_of_filled hfilled).mpr ⟨rfl, rfl⟩
    refine hkept.and_runFrom.mono (fun resolved after h => ?_) fun _ _ h => h.1.elim
    obtain ⟨⟨-, rfl⟩, hrun⟩ := h
    refine ⟨⟨definition, true, [], resolved⟩, ⟨rfl, rfl⟩, ?_, fun h => ?_, hrun, rfl⟩
    · exact (Table.fills_of_filled? hfilled).symm
    · cases h
  | none =>
    have hlacks : pass.values.fills definition.name = false := by
      rw [Table.fills, hfilled]
      rfl
    refine (endsIn_resolve_events hfilled).and_runFrom.mono (fun resolved after h => ?_)
      fun failure after h => ?_
    · obtain ⟨⟨asking, hasks, htrace⟩, hrun⟩ := h
      exact ⟨⟨definition, false, asking, resolved⟩, ⟨rfl, rfl⟩, hlacks.symm, fun _ => hasks, hrun,
        htrace⟩
    · obtain ⟨⟨hgives, asking, resolved, shown, hshown, htrace⟩, hrun⟩ := h
      exact ⟨⟨definition, false, asking, resolved⟩, shown, rfl, rfl, hlacks, hrun, hgives, hshown,
        htrace⟩

/-- A turn that is not finished shows the first of the events that it could have had. -/
theorem Turn.Stops.prefix_events {turn : Turn} {shown : List Event} {failure : Failure}
    (h : turn.Stops registry scope shown start failure after) :
    shown <+: turn.events registry := by
  rw [Turn.events, h.hasValue_eq, if_neg Bool.false_ne_true]
  exact h.stopsAt.prefix_bracket

/-- Learning what a variable came to. -/
theorem runFrom_learn (definition : Definition) (resolved : Resolved) (pass : Pass) :
    (Resolving.learn definition resolved).runFrom pass =
      (.ok (), pass.learn definition resolved) := by
  unfold Resolving.learn Pass.learn
  split <;> rfl

/-- A pass over the definitions of turns that are taken records what they came to. -/
theorem TakesTurns.runFrom_resolveMissing (h : TakesTurns registry scope start turns after)
    (outcome : PassOutcome) :
    (resolveMissing registry scope outcome (turns.map Turn.definition)).runFrom start =
      (.ok (turns.foldl Turn.record outcome), after) := by
  induction h generalizing outcome with
  | nil => rfl
  | cons hturn _ ih =>
    rw [List.map_cons, resolveMissing, runFrom_bind, hturn.runFrom_eq]
    dsimp only
    rw [runFrom_bind, runFrom_learn]
    exact ih _

/-- A pass takes the turns of its definitions in order, up to one that is not finished. -/
theorem endsIn_resolveMissing_turns (outcome : PassOutcome) (definitions : List Definition)
    (pass : Pass) :
    (resolveMissing registry scope outcome definitions).EndsIn pass
      (fun _ after => ∃ turns, turns.map Turn.definition = definitions ∧
        TakesTurns registry scope pass turns after)
      fun failure after => ∃ (turns : List Turn) (last : Turn) (shown : List Event)
          (rest : List Definition) (middle : Pass),
        turns.map Turn.definition ++ last.definition :: rest = definitions ∧
          TakesTurns registry scope pass turns middle ∧
          last.Stops registry scope shown middle failure after := by
  induction definitions generalizing outcome pass with
  | nil => exact ⟨[], rfl, .nil pass⟩
  | cons definition rest ih =>
    rw [resolveMissing, endsIn_bind]
    refine (endsIn_resolve_turn definition pass).mono (fun resolved middle h => ?_)
      fun failure after h => ?_
    · obtain ⟨turn, ⟨rfl, rfl⟩, hturn⟩ := h
      rw [endsIn_bind, EndsIn, runFrom_learn]
      refine (ih _ _).mono (fun _ after h => ?_) fun failure after h => ?_
      · obtain ⟨turns, rfl, hturns⟩ := h
        exact ⟨turn :: turns, rfl, .cons hturn hturns⟩
      · obtain ⟨turns, last, shown, later, state, rfl, hturns, hstops⟩ := h
        exact ⟨turn :: turns, last, shown, later, state, rfl, .cons hturn hturns, hstops⟩
    · obtain ⟨turn, shown, rfl, hstops⟩ := h
      exact ⟨[], turn, shown, rest, pass, rfl, .nil pass, hstops⟩

end Turns

section Traces

variable {registry : Registry} {scope : Scope}

/-- The events of plugins in two traces, one after the other. -/
theorem pluginEvents_append (first second : List Event) :
    pluginEvents (first ++ second) = pluginEvents first ++ pluginEvents second :=
  List.filter_append ..

/-- A trace without calls of the resolver. -/
def AllOfPlugins (trace : List Event) : Prop := ∀ event ∈ trace, event.call? = none

/-- One trace after another. -/
theorem AllOfPlugins.append {first second : List Event} (h : AllOfPlugins first)
    (h' : AllOfPlugins second) : AllOfPlugins (first ++ second) := fun event hmem =>
  (List.mem_append.mp hmem).elim (h event) (h' event)

/-- The start of a trace. -/
theorem AllOfPlugins.of_isPrefix {first second : List Event} (h : AllOfPlugins second)
    (hstart : first <+: second) : AllOfPlugins first := fun event hmem =>
  h event (hstart.subset hmem)

/-- The events of a hook are not calls of the resolver. -/
theorem allOfPlugins_hookEvents {α : Type} {plugins : List Plugin} {hook : Hooks → Option α}
    {event : Text → Event} (hevent : ∀ plugin, (event plugin).call? = none) :
    AllOfPlugins (hookEvents plugins hook event) := fun shown hmem => by
  obtain ⟨plugin, -, rfl⟩ := List.mem_map.mp hmem
  exact hevent plugin.name

/-- The events of checking a source are not calls of the resolver. -/
theorem ValueSource.Checks.allOfPlugins {source : ValueSource} {position : Nat} {pass : Pass}
    {shown : List Event} {answer : Except Text Bool}
    (h : source.Checks position scope pass shown answer) : AllOfPlugins shown := by
  cases h with
  | unchecked _ => exact fun _ hmem => absurd hmem List.not_mem_nil
  | checked _ => exact fun event hmem => List.mem_singleton.mp hmem ▸ rfl

/-- The events of asking for a value are not calls of the resolver. -/
theorem Registry.Asks.allOfPlugins {definition : Definition} {pass : Pass} {shown : List Event}
    {answer : Except Failure Resolved} (h : registry.Asks scope definition pass shown answer) :
    AllOfPlugins shown := by
  cases h with
  | unclaimed _ => exact fun _ hmem => absurd hmem List.not_mem_nil
  | failed _ hchecks => exact hchecks.allOfPlugins
  | unavailable _ hchecks => exact hchecks.allOfPlugins
  | called _ hchecks =>
    exact hchecks.allOfPlugins.append fun event hmem => List.mem_singleton.mp hmem ▸ rfl

/-- A turn that is taken shows events of plugins only. -/
theorem Turn.Taken.allOfPlugins {turn : Turn} {start after : Pass}
    (h : turn.Taken registry scope start after) : AllOfPlugins (turn.events registry) := by
  unfold Turn.events
  split
  · exact fun _ hmem => absurd hmem List.not_mem_nil
  · rename_i hlacks
    obtain ⟨middle, -, hasks⟩ := h.asks (by simpa using hlacks)
    exact (allOfPlugins_hookEvents fun _ => rfl).append
      (hasks.allOfPlugins.append (allOfPlugins_hookEvents fun _ => rfl))

/-- A turn that is not finished shows events of plugins only. -/
theorem Turn.Stops.allOfPlugins {turn : Turn} {shown : List Event} {start after : Pass}
    {failure : Failure} (h : turn.Stops registry scope shown start failure after) :
    AllOfPlugins shown := by
  cases h.stopsAt with
  | before hshown => exact (allOfPlugins_hookEvents fun _ => rfl).of_isPrefix hshown
  | asking hbehind =>
    obtain ⟨middle, -, hasks⟩ := hbehind
    exact (allOfPlugins_hookEvents fun _ => rfl).append hasks.allOfPlugins
  | after hbehind hshown =>
    obtain ⟨middle, -, hasks⟩ := hbehind
    exact (allOfPlugins_hookEvents fun _ => rfl).append (hasks.allOfPlugins.append
      ((allOfPlugins_hookEvents fun _ => rfl).of_isPrefix hshown))

/-- Plugins are not behind the call of the resolver, but behind what follows it in a turn. -/
theorem AllOfPlugins.pluginEvents_consultation {definition : Definition} {shown : List Event}
    (h : AllOfPlugins shown) : pluginEvents (scope.consultation definition :: shown) = shown := by
  change pluginEvents shown = shown
  refine List.filter_eq_self.mpr fun event hevent => ?_
  rw [h event hevent]
  rfl

/-- The events of turns, one after the other. -/
theorem TakesTurns.pluginEvents_eq {start after : Pass} {turns : List Turn}
    (h : TakesTurns registry scope start turns after) :
    pluginEvents after.desk.trace =
      pluginEvents start.desk.trace ++ turns.flatMap (Turn.events registry) := by
  induction h with
  | nil => exact (List.append_nil _).symm
  | @cons _ middle _ turn _ hturn _ ih =>
    have hlearned : (middle.learn turn.definition turn.resolved).desk = middle.desk := by
      unfold Pass.learn
      split <;> rfl
    rw [ih, hlearned, hturn.trace_eq, pluginEvents_append,
      hturn.allOfPlugins.pluginEvents_consultation, List.append_assoc, List.flatMap_cons]

/-- Plugins see a well-bracketed trace of a pass: its turns in the order of the definitions. Between
its hooks a turn shows a check and a call of one source at most, the first one of all plugins that
claims the kind, and comes to what that source answers. If the pass stops they see the turns before,
and the first events that the turn at which it stopped could have had. The outcome is then that of
the turns before, and the values known are those after them or come from hooks. -/
theorem resolveMissing_brackets (registry : Registry) (scope : Scope) (outcome : PassOutcome)
    (definitions : List Definition) (pass : Pass) :
    (resolveMissing registry scope outcome definitions).EndsIn pass
      (fun result after => ∃ turns, turns.map Turn.definition = definitions ∧
        TakesTurns registry scope pass turns after ∧ result = turns.foldl Turn.record outcome ∧
        pluginEvents after.desk.trace =
          pluginEvents pass.desk.trace ++ turns.flatMap (Turn.events registry))
      fun failure after => ∃ (turns : List Turn) (last : Turn) (shown : List Event)
          (rest : List Definition) (middle : Pass),
        turns.map Turn.definition ++ last.definition :: rest = definitions ∧
        TakesTurns registry scope pass turns middle ∧
        (resolveMissing registry scope outcome (turns.map Turn.definition)).runFrom pass =
          (.ok (turns.foldl Turn.record outcome), middle) ∧
        last.Stops registry scope shown middle failure after ∧
        shown <+: last.events registry ∧
        pluginEvents after.desk.trace = pluginEvents pass.desk.trace ++
          (turns.flatMap (Turn.events registry) ++ shown) := by
  refine (endsIn_resolveMissing_turns outcome definitions pass).and_runFrom.mono
    (fun result after h => ?_) fun failure after h => ?_
  · obtain ⟨⟨turns, rfl, hturns⟩, hrun⟩ := h
    have hrecorded := hrun.symm.trans (hturns.runFrom_resolveMissing outcome)
    exact ⟨turns, rfl, hturns, Except.ok.inj (congrArg Prod.fst hrecorded),
      hturns.pluginEvents_eq⟩
  · obtain ⟨⟨turns, last, shown, rest, middle, hdefinitions, hturns, hstops⟩, -⟩ := h
    refine ⟨turns, last, shown, rest, middle, hdefinitions, hturns,
      hturns.runFrom_resolveMissing outcome, hstops, hstops.prefix_events, ?_⟩
    rw [hstops.trace_eq, pluginEvents_append, hstops.allOfPlugins.pluginEvents_consultation,
      hturns.pluginEvents_eq, List.append_assoc]

end Traces

section Vault

/-- Hooks around variables that leave the values as they are. -/
def watchingHooks : Hooks where
  beforeResolve := some fun _ circumstances => .ok circumstances.values
  afterResolve := some fun _ _ circumstances => .ok circumstances.values

/-- A source for one kind whose check says whether it can be used. -/
def checkedSource (kind value : Text) (usable : Bool) : ValueSource :=
  { constantSource kind kind value with isAvailable := some fun _ => .ok usable }

/-- Two plugins that both have a source for the vault. The first one has another source before it,
which cannot be used, and the second one another source behind it, which always fails. -/
def vaultRegistry : Registry where
  plugins := [
    { name := "a"
      sources := [.usable (checkedSource "ssm" "1" false), .usable (checkedSource "vault" "2" true)]
      hooks := watchingHooks },
    { name := "b"
      sources := [.usable (constantSource "vault" "vault" "3"),
        .usable { constantSource "broken" "broken" "4" with resolve := fun _ _ => .error "down" }]
      hooks := watchingHooks }]

/-- A variable whose directive names the kind of a source. -/
def claimedBy (kind name : Text) : Definition where
  name
  exampleValue := "example"
  directive := .plugin kind kind

/-- The scope of a pass over a workspace. -/
def vaultScope : Scope := { workspace := ⟨"web", ["web"], ["web", "e"], ["web", "v"]⟩ }

/-- A variable with a value, one of the vault, and one whose source cannot be used. -/
def vaultDefinitions : List Definition :=
  [claimedBy "vault" "A", claimedBy "vault" "B", claimedBy "ssm" "C"]

/-- Of the two sources for the vault the one at the first position is asked. A source that fails ends
the trace of a pass. -/
theorem resolveMissing_brackets_vault :
    (∃ (turns : List Turn) (after : Pass),
      TakesTurns vaultRegistry vaultScope { values := [("A", "9")] } turns after ∧
        turns.flatMap (Turn.events vaultRegistry) =
          [.beforeResolve "a" "B", .beforeResolve "b" "B",
            @Event.availability 1 "vault" "web", @Event.sourceCalled 1 "vault" "B",
            .afterResolve "a" "B" "2" "plugin" false, .afterResolve "b" "B" "2" "plugin" false,
            .beforeResolve "a" "C", .beforeResolve "b" "C", @Event.availability 0 "ssm" "web",
            .afterResolve "a" "C" "example" "placeholder" false,
            .afterResolve "b" "C" "example" "placeholder" false]) ∧
      ∃ (last : Turn) (after : Pass), last.Stops vaultRegistry vaultScope
        [.beforeResolve "a" "D", .beforeResolve "b" "D", @Event.sourceCalled 3 "broken" "D"] {}
        (.pluginFailed "down") after := by
  refine ⟨?_, ?_⟩
  · have hrun : ((resolveMissing vaultRegistry vaultScope {} vaultDefinitions).runFrom
        { values := [("A", "9")] }).1 = .ok {
          updates := [("A", "9"), ("B", "2"), ("C", "example")]
          warnings := ["Plugin source \"ssm\" is not available"] } := by decide +kernel
    obtain ⟨turns, -, hturns, -, htrace⟩ :=
      (resolveMissing_brackets vaultRegistry vaultScope {} vaultDefinitions _).of_runFrom_ok
        (runFrom_eq_of_fst hrun)
    exact ⟨turns, _, hturns, htrace.symm.trans (by decide +kernel)⟩
  · have hrun : ((resolveMissing vaultRegistry vaultScope {} [claimedBy "broken" "D"]).runFrom
        {}).1 = .error (.pluginFailed "down") := by decide +kernel
    obtain ⟨turns, last, shown, rest, middle, hdefinitions, hturns, -, hstops, -, htrace⟩ :=
      (resolveMissing_brackets vaultRegistry vaultScope {} [claimedBy "broken" "D"]
        {}).of_runFrom_error (runFrom_eq_of_fst hrun)
    obtain rfl : turns = [] := by
      have hlength := congrArg List.length hdefinitions
      simp only [List.length_append, List.length_map, List.length_cons, List.length_nil] at hlength
      exact List.eq_nil_of_length_eq_zero (by omega)
    cases hturns
    have hshown : shown = [.beforeResolve "a" "D", .beforeResolve "b" "D",
        @Event.sourceCalled 3 "broken" "D"] := htrace.symm.trans (by decide +kernel)
    exact ⟨last, _, hshown ▸ hstops⟩

end Vault
end EnvFiles
