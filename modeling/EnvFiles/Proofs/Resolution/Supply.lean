import EnvFiles.Proofs.Attempt
import EnvFiles.Proofs.Example
import EnvFiles.Proofs.Values.Rewrite
import EnvFiles.Resolution.Pass

/-!
# What a pass supplies

As long as no plugin, hook or reply supplies a value with a line end in it, every value that a
pass comes to stays on one line: the other sources take it from the schema, from the values known
so far, or from the text of a word. The updates of a pass concern the variables that it was
given, each at most once.
-/

namespace EnvFiles

/-- A table whose values stay on one line. -/
def PlainValues (values : Table Text Text) : Prop :=
  ∀ entry ∈ values, Text.isOneLine entry.2 = true

/-- Replies that stay on one line once the blanks around them are cut off. -/
def PlainReplies (replies : List Text) : Prop :=
  ∀ reply ∈ replies, Text.isOneLine (Text.trim reply) = true

/-- A registry whose sources and hooks supply no value with a line end in it. A hook that changes
the values known so far may keep those that are there. -/
structure Registry.PlainSupplies (registry : Registry) : Prop where
  isOneLine_of_resolve : ∀ source ∈ registry.valueSources, ∀ definition circumstances resolved,
    source.resolve definition circumstances = .ok resolved →
      Text.isOneLine resolved.value = true
  plain_of_beforeResolve : ∀ plugin ∈ registry.plugins, ∀ hook,
    plugin.hooks.beforeResolve = some hook → ∀ definition circumstances values,
      hook definition circumstances = .ok values →
        ∀ entry ∈ values, entry ∈ circumstances.values ∨ Text.isOneLine entry.2 = true
  plain_of_afterResolve : ∀ plugin ∈ registry.plugins, ∀ hook,
    plugin.hooks.afterResolve = some hook → ∀ definition resolved circumstances values,
      hook definition resolved circumstances = .ok values →
        ∀ entry ∈ values, entry ∈ circumstances.values ∨ Text.isOneLine entry.2 = true

/-- The state of a pass in which only values on one line are known or can be replied. -/
structure Pass.Plain (pass : Pass) : Prop where
  values : PlainValues pass.values
  replies : PlainReplies pass.desk.replies

/-- A value in a plain table stays on one line. -/
theorem PlainValues.isOneLine_of_get? {values : Table Text Text} (h : PlainValues values)
    {name value : Text} (hget : values.get? name = some value) : Text.isOneLine value = true :=
  h _ (Table.mem_of_get? hget)

/-- One more value on one line. -/
theorem PlainValues.put {values : Table Text Text} (h : PlainValues values) {name value : Text}
    (hvalue : Text.isOneLine value = true) : PlainValues (values.put name value) := by
  intro entry hentry
  rcases mem_of_mem_upsert hentry with rfl | hentry
  · exact hvalue
  · exact h entry hentry

/-- Reading a file gives values on one line. -/
theorem plainValues_readValues (text : Text) : PlainValues (readValues text).values :=
  fun _ hentry => (value_of_mem_readValues hentry).1

section Dialogues

variable {definition : Definition}

/-- What a reply settles stays on one line. -/
theorem isOneLine_of_settle? (hsound : definition.Sound) {reply : Text}
    (hreply : Text.isOneLine (Text.trim reply) = true) {resolved : Resolved}
    (h : settle? definition reply = some resolved) : Text.isOneLine resolved.value = true := by
  unfold settle? at h
  simp only at h
  split at h
  · obtain rfl := Option.some.inj h
    exact hreply
  · split at h
    · obtain rfl := Option.some.inj h
      exact hsound.isOneLine_exampleValue
    · split at h
      · obtain rfl := Option.some.inj h
        rfl
      · simp at h

/-- A dialogue takes replies away and comes to a value on one line. -/
structure Dialogue.Plain (dialogue : Dialogue) (replies : List Text) : Prop where
  left_subset : dialogue.left ⊆ replies
  isOneLine_value : ∀ resolved, dialogue.outcome = .ok resolved →
    Text.isOneLine resolved.value = true

/-- The open question comes to a value on one line. -/
theorem plain_promptDialogue (hsound : definition.Sound) {replies : List Text}
    (hreplies : PlainReplies replies) : (promptDialogue definition replies).Plain replies := by
  have hsettled {all rest : List Text} {reply : Text} {resolved : Resolved}
      (hreply : Text.isOneLine (Text.trim reply) = true)
      (hsettle : settle? definition reply = some resolved) (hrest : rest ⊆ all) :
      Dialogue.Plain ⟨.ok resolved, [promptQuestion definition], rest⟩ all := by
    refine ⟨hrest, fun other hother => ?_⟩
    obtain rfl := Except.ok.inj hother
    exact isOneLine_of_settle? hsound hreply hsettle
  fun_induction promptDialogue definition replies with
  | case1 => exact ⟨List.Subset.refl _, fun _ h => by cases h⟩
  | case2 reply resolved hsettle =>
    exact hsettled (hreplies reply (List.mem_cons_self ..)) hsettle (List.nil_subset _)
  | case3 reply hsettle => exact ⟨List.nil_subset _, fun _ h => by cases h⟩
  | case4 reply second rest resolved hsettle =>
    exact hsettled (hreplies reply (List.mem_cons_self ..)) hsettle (List.subset_cons_self ..)
  | case5 reply second rest hsettle questions hskip =>
    refine ⟨fun _ hmem => by simp [hmem], fun other hother => ?_⟩
    obtain rfl := Except.ok.inj hother
    rfl
  | case6 reply second rest hsettle questions hskip ih =>
    have hrest : rest ⊆ reply :: second :: rest := fun _ hmem => by simp [hmem]
    obtain ⟨hleft, hvalue⟩ := ih fun other hother => hreplies other (hrest hother)
    exact ⟨List.Subset.trans hleft hrest, hvalue⟩

/-- A yes/no question comes to one of its literals. -/
theorem plain_booleanDialogue {yes no : Text} (hyes : Text.isOneLine yes = true)
    (hno : Text.isOneLine no = true) (replies : List Text) :
    (booleanDialogue definition yes no replies).Plain replies := by
  cases replies with
  | nil => exact ⟨List.Subset.refl _, fun _ h => by cases h⟩
  | cons reply rest =>
    refine ⟨List.subset_cons_self .., fun resolved hresolved => ?_⟩
    obtain rfl := Except.ok.inj hresolved
    simp only [booleanReply, booleanDefault]
    split <;> split <;> assumption

end Dialogues

section Builtin

variable {definition : Definition}

/-- A kind alone names no literals but the two words for yes and no. -/
theorem literals_ofKind (kind : Text) :
    (∀ value, BuiltinSource.ofKind kind ≠ .fixed (some value)) ∧
    ∀ yes no, BuiltinSource.ofKind kind = .boolean yes no → yes = "true" ∧ no = "false" := by
  unfold BuiltinSource.ofKind
  refine ⟨fun value h => ?_, fun yes no h => ?_⟩
  · split_ifs at h
    exact absurd (BuiltinSource.fixed.inj h) (by simp)
  · split_ifs at h
    obtain ⟨rfl, rfl⟩ := BuiltinSource.boolean.inj h
    exact ⟨rfl, rfl⟩

/-- The literal of a built-in source stands in the directive. -/
theorem mem_literals_of_fixed {value : Text}
    (h : definition.directive.builtinSource = .fixed (some value)) :
    value ∈ definition.directive.literals := by
  cases hdirective : definition.directive with
  | fixed value? =>
    rw [hdirective] at h
    rw [BuiltinSource.fixed.inj h]
    exact List.mem_singleton_self _
  | plugin kind raw =>
    rw [hdirective] at h
    exact absurd h ((literals_ofKind kind).1 value)
  | _ =>
    rw [hdirective] at h
    cases h

/-- The literals of a yes/no source stand in the directive, or are the two words. -/
theorem mem_literals_of_boolean {yes no : Text}
    (h : definition.directive.builtinSource = .boolean yes no) :
    (yes ∈ definition.directive.literals ∧ no ∈ definition.directive.literals) ∨
      (yes = "true" ∧ no = "false") := by
  cases hdirective : definition.directive with
  | boolean other another =>
    rw [hdirective] at h
    obtain ⟨rfl, rfl⟩ := BuiltinSource.boolean.inj h
    exact Or.inl ⟨by simp [Directive.literals], by simp [Directive.literals]⟩
  | plugin kind raw =>
    rw [hdirective] at h
    exact Or.inr ((literals_ofKind kind).2 yes no h)
  | _ =>
    rw [hdirective] at h
    cases h

/-- The literals of a built-in source stay on one line. -/
theorem isOneLine_of_builtinSource (hsound : definition.Sound) :
    (∀ value, definition.directive.builtinSource = .fixed (some value) →
      Text.isOneLine value = true) ∧
    ∀ yes no, definition.directive.builtinSource = .boolean yes no →
      Text.isOneLine yes = true ∧ Text.isOneLine no = true := by
  have hliteral := hsound.isOneLine_of_mem_literals
  refine ⟨fun value hvalue => hliteral value (mem_literals_of_fixed hvalue),
    fun yes no hliterals => ?_⟩
  rcases mem_literals_of_boolean hliterals with ⟨hyes, hno⟩ | ⟨rfl, rfl⟩
  · exact ⟨hliteral yes hyes, hliteral no hno⟩
  · decide

/-- A dialogue at the desk leaves plain replies. -/
theorem endsIn_converse {dialogue : List Text → Dialogue} {desk : Desk}
    (hreplies : PlainReplies desk.replies) (h : (dialogue desk.replies).Plain desk.replies) :
    (DeskStep.converse dialogue).EndsIn desk
      (fun resolved after => Text.isOneLine resolved.value = true ∧ PlainReplies after.replies)
      fun _ _ => True := by
  rw [Attempt.EndsIn, DeskStep.converse, Attempt.runFrom_ofFunction]
  dsimp only
  cases houtcome : (dialogue desk.replies).outcome with
  | error failure => trivial
  | ok resolved =>
    exact ⟨h.isOneLine_value resolved houtcome, fun reply hreply =>
      hreplies reply (h.left_subset hreply)⟩

/-- A built-in source comes to a value on one line. -/
theorem endsIn_resolveBuiltin (scope : Scope) {values : Table Text Text} {desk : Desk}
    (hsound : definition.Sound) (hvalues : PlainValues values)
    (hreplies : PlainReplies desk.replies) :
    (resolveBuiltin scope values definition).EndsIn desk
      (fun resolved after => Text.isOneLine resolved.value = true ∧ PlainReplies after.replies)
      fun _ _ => True := by
  have hexample := hsound.isOneLine_exampleValue
  obtain ⟨hfixed, hboolean⟩ := isOneLine_of_builtinSource hsound
  unfold resolveBuiltin
  cases hsource : definition.directive.builtinSource with
  | placeholder => exact ⟨hexample, hreplies⟩
  | computed what => exact ⟨hexample, hreplies⟩
  | copy source? =>
    refine ⟨?_, hreplies⟩
    cases source? with
    | none => exact hexample
    | some source =>
      cases hget : values.get? source with
      | none => simp [resolveCopy, hget]
      | some value => simpa [resolveCopy, hget] using hvalues.isOneLine_of_get? hget
  | fixed value? =>
    refine ⟨?_, hreplies⟩
    cases value? with
    | none => exact hexample
    | some value => exact hfixed value hsource
  | localOnly =>
    by_cases hskip : skipsLocalOnly scope = true
    · simp only [hskip, if_true]
      exact ⟨rfl, hreplies⟩
    · simp only [hskip]
      exact ⟨hexample, hreplies⟩
  | prompt =>
    by_cases hinteractive : scope.interactive = true
    · simp only [hinteractive, if_true]
      exact endsIn_converse hreplies (plain_promptDialogue hsound hreplies)
    · simp only [hinteractive]
      refine ⟨?_, hreplies⟩
      simp only [promptPlaceholder]
      split
      · rw [Text.isOneLine_append, isOneLine_of_isName hsound.isName_name]
        decide
      · exact hexample
  | boolean yes no =>
    obtain ⟨hyes, hno⟩ := hboolean yes no hsource
    by_cases hinteractive : scope.interactive = true
    · simp only [hinteractive, if_true]
      exact endsIn_converse hreplies (plain_booleanDialogue hyes hno desk.replies)
    · simp only [hinteractive]
      refine ⟨?_, hreplies⟩
      simp only [booleanUnasked, booleanDefault]
      split
      · exact hyes
      · exact hno

end Builtin

section Passes

variable {registry : Registry} {scope : Scope} {definition : Definition}

/-- A step of a pass that only needs the desk. -/
theorem endsIn_atDesk {α : Type} (task : DeskStep α) {pass : Pass} {done : α → Pass → Prop}
    {failed : Failure → Pass → Prop} :
    (Resolving.atDesk task).EndsIn pass done failed ↔
      task.EndsIn pass.desk (fun result desk => done result { pass with desk })
        fun failure desk => failed failure { pass with desk } :=
  Attempt.endsIn_onPart ..

/-- Adding an event. -/
theorem endsIn_record {event : Event} {desk : Desk} {done : Unit → Desk → Prop}
    {failed : Failure → Desk → Prop} :
    (DeskStep.record event).EndsIn desk done failed ↔
      done () { desk with trace := desk.trace ++ [event] } := Iff.rfl

/-- Adding a notice. -/
theorem endsIn_note {notice : Notice} {desk : Desk} {done : Unit → Desk → Prop}
    {failed : Failure → Desk → Prop} :
    (DeskStep.note notice).EndsIn desk done failed ↔
      done () { desk with log := desk.log ++ [notice] } := Iff.rfl

/-- What a plugin called now would see. -/
theorem endsIn_circumstances {pass : Pass} {done : Circumstances → Pass → Prop}
    {failed : Failure → Pass → Prop} :
    (Resolving.circumstances scope).EndsIn pass done failed ↔
      done ⟨scope, pass.values, pass.desk.trace⟩ pass := Iff.rfl

/-- Replacing the values known so far. -/
theorem endsIn_setValues {values : Table Text Text} {pass : Pass} {done : Unit → Pass → Prop}
    {failed : Failure → Pass → Prop} :
    (Resolving.setValues values).EndsIn pass done failed ↔ done () { pass with values } := Iff.rfl

/-- What a plugin answered. -/
theorem endsIn_ofPlugin {α : Type} {answer : Except Text α} {desk : Desk}
    {done : α → Desk → Prop} {failed : Failure → Desk → Prop}
    (hdone : ∀ value, answer = .ok value → done value desk)
    (hfailed : ∀ message, answer = .error message → failed (.pluginFailed message) desk) :
    (DeskStep.ofPlugin answer).EndsIn desk done failed := by
  cases answer with
  | ok value => exact hdone value rfl
  | error message => exact hfailed message rfl

/-- Hooks around a variable leave plain values. -/
theorem endsIn_callVariableHooks
    {hook : Hooks → Option (Circumstances → Except Text (Table Text Text))} {event : Text → Event}
    (hhook : ∀ plugin ∈ registry.plugins, ∀ answer, hook plugin.hooks = some answer →
      ∀ circumstances values, answer circumstances = .ok values →
        ∀ entry ∈ values, entry ∈ circumstances.values ∨ Text.isOneLine entry.2 = true)
    {pass : Pass} (hpass : pass.Plain) :
    (registry.callVariableHooks scope hook event).EndsIn pass (fun _ => Pass.Plain)
      fun _ _ => True := by
  have hplugins : (registry.callVariableHooks scope hook event).EndsIn pass (fun _ => Pass.Plain)
      fun _ => Pass.Plain := by
    refine Attempt.endsIn_forM (fun plugin hplugin pass hpass => ?_) hpass
    cases hanswer : hook plugin.hooks with
    | none => exact hpass
    | some answer =>
      simp only [Attempt.endsIn_bind, endsIn_atDesk, endsIn_record, endsIn_circumstances,
        endsIn_setValues]
      refine endsIn_ofPlugin (fun values hvalues => ⟨fun entry hentry => ?_, hpass.replies⟩)
        fun _ _ => ⟨hpass.values, hpass.replies⟩
      rcases hhook plugin hplugin answer hanswer _ values hvalues entry hentry with hold | hnew
      · exact hpass.values entry hold
      · exact hnew
  exact hplugins.mono (fun _ _ h => h) fun _ _ _ => trivial

/-- A source that is asked whether it can be used leaves the values and replies. -/
theorem endsIn_checkAvailable (source : ValueSource) (position : Nat) {pass : Pass}
    (hpass : pass.Plain) :
    (source.checkAvailable position scope).EndsIn pass (fun _ => Pass.Plain) fun _ _ => True := by
  unfold ValueSource.checkAvailable
  cases source.isAvailable with
  | none => exact hpass
  | some check =>
    simp only [Attempt.endsIn_bind, endsIn_atDesk, endsIn_record, endsIn_circumstances]
    exact endsIn_ofPlugin (fun _ _ => ⟨hpass.values, hpass.replies⟩) fun _ _ => trivial

/-- A plugin's source comes to a value on one line. -/
theorem endsIn_supply (hregistry : registry.PlainSupplies) (hsound : definition.Sound)
    {source : ValueSource} (hsource : source ∈ registry.valueSources) (position : Nat) {pass : Pass}
    (hpass : pass.Plain) :
    (source.supply position scope definition).EndsIn pass
      (fun resolved after => Text.isOneLine resolved.value = true ∧ after.Plain)
      fun _ _ => True := by
  unfold ValueSource.supply
  rw [Attempt.endsIn_bind]
  refine (endsIn_checkAvailable source position hpass).mono (fun usable after hafter => ?_)
    fun _ _ h => h
  split
  · simp only [Attempt.endsIn_bind, endsIn_atDesk, endsIn_record, endsIn_circumstances]
    refine endsIn_ofPlugin (fun resolved hresolved => ⟨?_, hafter.values, hafter.replies⟩)
      fun _ _ => trivial
    exact hregistry.isOneLine_of_resolve source hsource definition _ resolved hresolved
  · simp only [Attempt.endsIn_bind, endsIn_atDesk, endsIn_note, Attempt.endsIn_pure]
    exact ⟨hsound.isOneLine_exampleValue, hafter.values, hafter.replies⟩

/-- The source that a directive leads to comes to a value on one line. -/
theorem endsIn_dispatch (hregistry : registry.PlainSupplies) (hsound : definition.Sound)
    {pass : Pass} (hpass : pass.Plain) :
    (dispatch registry scope definition).EndsIn pass
      (fun resolved after => Text.isOneLine resolved.value = true ∧ after.Plain)
      fun _ _ => True := by
  unfold dispatch
  cases hfind : registry.findSource definition.directive.kind with
  | some source =>
    exact endsIn_supply hregistry hsound (List.mem_of_find?_eq_some hfind) _ hpass
  | none =>
    simp only [Attempt.endsIn_bind, Attempt.endsIn_get, endsIn_atDesk]
    exact (endsIn_resolveBuiltin scope hsound hpass.values hpass.replies).mono
      (fun _ _ h => ⟨h.1, hpass.values, h.2⟩) fun _ _ h => h

/-- Resolving a variable comes to a value on one line. -/
theorem endsIn_resolve (hregistry : registry.PlainSupplies) (hsound : definition.Sound)
    {pass : Pass} (hpass : pass.Plain) :
    (resolve registry scope definition).EndsIn pass
      (fun resolved after => Text.isOneLine resolved.value = true ∧ after.Plain)
      fun _ _ => True := by
  have hbefore (pass : Pass) (hpass : pass.Plain) :
      (registry.beforeResolve scope definition).EndsIn pass (fun _ => Pass.Plain)
        fun _ _ => True := by
    refine endsIn_callVariableHooks (fun plugin hplugin answer hanswer => ?_) hpass
    obtain ⟨hook, hhook, rfl⟩ := Option.map_eq_some_iff.mp hanswer
    exact hregistry.plain_of_beforeResolve plugin hplugin hook hhook definition
  have hafter (resolved : Resolved) (pass : Pass) (hpass : pass.Plain) :
      (registry.afterResolve scope definition resolved).EndsIn pass (fun _ => Pass.Plain)
        fun _ _ => True := by
    refine endsIn_callVariableHooks (fun plugin hplugin answer hanswer => ?_) hpass
    obtain ⟨hook, hhook, rfl⟩ := Option.map_eq_some_iff.mp hanswer
    exact hregistry.plain_of_afterResolve plugin hplugin hook hhook definition resolved
  unfold resolve
  simp only [Attempt.endsIn_bind, endsIn_atDesk, endsIn_record, Attempt.endsIn_get]
  cases hfilled : pass.values.filled? definition.name with
  | some value =>
    have hget := (Table.filled?_eq_some_iff.mp hfilled).1
    exact ⟨hpass.values.isOneLine_of_get? hget, hpass.values, hpass.replies⟩
  | none =>
    simp only [Attempt.endsIn_bind]
    have hstart := hbefore
      ⟨pass.values, { pass.desk with
        trace := pass.desk.trace ++ [.consulted scope.shared scope.workspace definition] }⟩
      ⟨hpass.values, hpass.replies⟩
    refine hstart.mono (fun _ before hbefore => ?_) fun _ _ h => h
    refine (endsIn_dispatch hregistry hsound hbefore).mono (fun resolved after h => ?_)
      fun _ _ h => h
    exact (hafter resolved after h.2).mono (fun _ _ hpass => ⟨h.1, hpass⟩) fun _ _ h => h

/-- A variable that is skipped is not written. -/
theorem updates_add (outcome : PassOutcome) (definition : Definition) (resolved : Resolved) :
    (outcome.add definition resolved).updates =
      if resolved.skipped then outcome.updates
      else outcome.updates.put definition.name resolved.value := by
  simp only [PassOutcome.add]
  by_cases hskipped : resolved.skipped = true
  · by_cases hrequired : definition.isRequired = true <;> simp [hskipped, hrequired]
  · simp [hskipped]

/-- What a pass is to write: values on one line for given names, each name once. -/
structure PassOutcome.Supplies (outcome : PassOutcome) (names : List Text) : Prop where
  nodup_keys : outcome.updates.keys.Nodup
  subset_names : outcome.updates.keys ⊆ names
  plain : PlainValues outcome.updates

/-- What a pass supplies for given variables is updates of any file. -/
theorem PassOutcome.Supplies.plainUpdates {outcome : PassOutcome} {definitions : List Definition}
    (h : outcome.Supplies (definitions.map Definition.name))
    (hsound : ∀ definition ∈ definitions, definition.Sound) : PlainUpdates outcome.updates where
  nodup_keys := h.nodup_keys
  isName_of_mem entry hentry := by
    obtain ⟨definition, hmem, hname⟩ :=
      List.mem_map.mp (h.subset_names (List.mem_map_of_mem hentry))
    exact hname ▸ (hsound definition hmem).isName_name
  isOneLine_of_mem := h.plain

/-- A variable of another name has no update. -/
theorem PassOutcome.Supplies.has_eq_false {outcome : PassOutcome} {names : List Text}
    (h : outcome.Supplies names) {name : Text} (hname : name ∉ names) :
    outcome.updates.has name = false := by
  rw [Table.has, Table.get?_eq_none_iff.mpr fun hmem => hname (h.subset_names hmem)]
  rfl

/-- One more variable resolved. -/
theorem PassOutcome.Supplies.add {outcome : PassOutcome} {names : List Text}
    (h : outcome.Supplies names) (hname : definition.name ∈ names) {resolved : Resolved}
    (hvalue : Text.isOneLine resolved.value = true) :
    (outcome.add definition resolved).Supplies names := by
  have hkeys : (outcome.updates.put definition.name resolved.value).keys ⊆ names := by
    rw [Table.keys_put]
    split
    · exact h.subset_names
    · exact List.append_subset.mpr ⟨h.subset_names, List.cons_subset.mpr ⟨hname, List.nil_subset _⟩⟩
  have hupdates := updates_add outcome definition resolved
  split at hupdates
  · exact ⟨hupdates ▸ h.nodup_keys, hupdates ▸ h.subset_names, hupdates ▸ h.plain⟩
  · exact ⟨hupdates ▸ nodup_map_upsert h.nodup_keys _, hupdates ▸ hkeys,
      hupdates ▸ h.plain.put hvalue⟩

/-- A pass supplies values on one line for the variables it was given. -/
theorem endsIn_resolveMissing (hregistry : registry.PlainSupplies) {definitions : List Definition}
    (hsound : ∀ definition ∈ definitions, definition.Sound) {names : List Text}
    (hnames : ∀ definition ∈ definitions, definition.name ∈ names) {outcome : PassOutcome}
    (houtcome : outcome.Supplies names) {pass : Pass} (hpass : pass.Plain) :
    (resolveMissing registry scope outcome definitions).EndsIn pass
      (fun outcome after => outcome.Supplies names ∧ after.Plain) fun _ _ => True := by
  induction definitions generalizing outcome pass with
  | nil => exact ⟨houtcome, hpass⟩
  | cons definition rest ih =>
    simp only [resolveMissing, Attempt.endsIn_bind]
    refine (endsIn_resolve hregistry (hsound definition (List.mem_cons_self ..)) hpass).mono
      (fun resolved after h => ?_) fun _ _ h => h
    have hlearned : (Resolving.learn definition resolved).EndsIn after (fun _ => Pass.Plain)
        fun _ _ => True := by
      unfold Resolving.learn
      split
      · exact h.2
      · exact ⟨h.2.values.put h.1, h.2.replies⟩
    refine hlearned.mono (fun _ learned hlearned => ?_) fun _ _ h => h
    exact ih (fun other hother => hsound other (List.mem_cons_of_mem _ hother))
      (fun other hother => hnames other (List.mem_cons_of_mem _ hother))
      (houtcome.add (hnames definition (List.mem_cons_self ..)) h.1) hlearned

end Passes
end EnvFiles
