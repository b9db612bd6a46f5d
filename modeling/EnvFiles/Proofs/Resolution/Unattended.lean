import EnvFiles.Proofs.Resolution.Filling
import EnvFiles.Proofs.Resolution.Supply
import EnvFiles.Workflow.Files

/-!
# Passes without questions and plugins

Without plugins, and with nobody to ask, a pass is a function of the values known before it: it
cannot fail and takes no reply. `unattendedPass` is that function. Its updates, put over the
values, are the values known after it, and these have the names that `fillAll` says.
-/

namespace EnvFiles

/-- A text that is not empty and holds nothing but blanks. -/
def IsBlankOnly (text : Text) : Prop := text ≠ [] ∧ ∀ c ∈ text, Text.isBlank c = true

/-- A text that can be a value: one line, and not blank only. -/
structure Usable (text : Text) : Prop where
  isOneLine : Text.isOneLine text = true
  not_isBlankOnly : ¬ IsBlankOnly text

/-- A text that loses no blank at its end is not blank only. -/
theorem not_isBlankOnly_of_trimEnd {text : Text} (h : Text.trimEnd text = text) :
    ¬ IsBlankOnly text := by
  rintro ⟨hne, hblank⟩
  exact hne (h.symm.trans (Text.trimEnd_eq_nil_iff.mpr hblank))

/-- A text that is not blank only is empty exactly if it is empty without the blanks at its end. -/
theorem isEmpty_trimEnd {text : Text} (h : ¬ IsBlankOnly text) :
    (Text.trimEnd text).isEmpty = text.isEmpty := by
  rw [Bool.eq_iff_iff, List.isEmpty_iff, List.isEmpty_iff, Text.trimEnd_eq_nil_iff]
  constructor
  · intro hblank
    by_contra hne
    exact h ⟨hne, hblank⟩
  · rintro rfl
    simp

/-- A definition whose example value and literals can be values. -/
structure Definition.Tame (definition : Definition) : Prop extends definition.Sound where
  not_isBlankOnly_of_mem_literals :
    ∀ literal ∈ definition.directive.literals, ¬ IsBlankOnly literal

/-- The values that are known. -/
def UsableValues (values : Table Text Text) : Prop := ∀ entry ∈ values, Usable entry.2

/-- Reading a file gives usable values. -/
theorem usableValues_readValues (text : Text) : UsableValues (readValues text).values := by
  intro entry hentry
  obtain ⟨hone, htrim⟩ := value_of_mem_readValues hentry
  exact ⟨hone, not_isBlankOnly_of_trimEnd htrim⟩

section Definitions

variable {definition : Definition}

/-- The literals of a built-in source can be values. -/
theorem usable_of_builtinSource (htame : definition.Tame) :
    (∀ value, definition.directive.builtinSource = .fixed (some value) → Usable value) ∧
    ∀ yes no, definition.directive.builtinSource = .boolean yes no → Usable yes ∧ Usable no := by
  have hliteral : ∀ literal ∈ definition.directive.literals, Usable literal := fun literal hmem =>
    ⟨htame.isOneLine_of_mem_literals literal hmem,
      htame.not_isBlankOnly_of_mem_literals literal hmem⟩
  refine ⟨fun value hvalue => ?_, fun yes no hliterals => ?_⟩
  · exact hliteral value (mem_literals_of_fixed hvalue)
  · rcases mem_literals_of_boolean hliterals with ⟨hyes, hno⟩ | ⟨rfl, rfl⟩
    · exact ⟨hliteral yes hyes, hliteral no hno⟩
    · exact ⟨⟨by decide, not_isBlankOnly_of_trimEnd (by decide)⟩,
        ⟨by decide, not_isBlankOnly_of_trimEnd (by decide)⟩⟩

/-- A copy takes the value that its source has so far. -/
theorem unattended_of_copied {source : Text} (h : definition.copied? = some source)
    (values : Table Text Text) :
    unattended values definition = resolveCopy definition values (some source) := by
  cases hdirective : definition.directive with
  | copy other =>
    simp only [Definition.copied?, hdirective, Option.some.injEq] at h
    simp only [unattended, Directive.builtinSource, hdirective, h]
  | _ => simp [Definition.copied?, hdirective] at h

/-- The values known only matter for a copy. -/
theorem unattended_of_not_copied (h : definition.copied? = none) (values : Table Text Text) :
    unattended values definition = unattended [] definition := by
  have hsource : ∀ source, definition.directive.builtinSource ≠ .copy (some source) := by
    intro source
    cases hdirective : definition.directive with
    | copy other => simp [Definition.copied?, hdirective] at h
    | plugin kind raw =>
      simp only [Directive.builtinSource, BuiltinSource.ofKind]
      intro heq
      split_ifs at heq
      cases heq
    | _ => simp [Directive.builtinSource]
  unfold unattended
  cases hbuiltin : definition.directive.builtinSource with
  | copy source? =>
    cases source? with
    | none => rfl
    | some source => exact absurd hbuiltin (hsource source)
  | _ => rfl

/-- The value that a copy takes, or nothing when its source has none. -/
theorem value_resolveCopy (values : Table Text Text) (source : Text) :
    (resolveCopy definition values (some source)).value = (values.get? source).getD [] := by
  simp only [resolveCopy]
  cases values.get? source <;> rfl

/-- A copy is not left out. -/
theorem skipped_resolveCopy (values : Table Text Text) (source : Text) :
    (resolveCopy definition values (some source)).skipped = false := by
  simp only [resolveCopy]
  cases values.get? source <;> rfl

/-- Whether a variable is left out does not hang on the values known. -/
theorem skipped_unattended (values : Table Text Text) (definition : Definition) :
    (unattended values definition).skipped = (unattended [] definition).skipped := by
  cases hcopied : definition.copied? with
  | none => rw [unattended_of_not_copied hcopied values]
  | some source =>
    rw [unattended_of_copied hcopied, unattended_of_copied hcopied, skipped_resolveCopy,
      skipped_resolveCopy]

/-- A definition comes to a value that is not empty exactly if it is supplied. -/
theorem fills_unattended (values : Table Text Text) (definition : Definition) :
    (unattended values definition).fills = definition.suppliedBy values.fills := by
  unfold Definition.suppliedBy
  cases hcopied : definition.copied? with
  | none => rw [unattended_of_not_copied hcopied values]
  | some source =>
    rw [unattended_of_copied hcopied, Resolved.fills, skipped_resolveCopy, value_resolveCopy]
    exact (Table.fills_eq values source).symm

/-- A definition comes to a value that can be one. -/
theorem usable_unattended (htame : definition.Tame) {values : Table Text Text}
    (hvalues : UsableValues values) : Usable (unattended values definition).value := by
  have hempty : Usable [] := ⟨rfl, fun h => h.1 rfl⟩
  have hexample : Usable definition.exampleValue :=
    ⟨htame.isOneLine_exampleValue, not_isBlankOnly_of_trimEnd htame.trimEnd_exampleValue⟩
  obtain ⟨hfixed, hboolean⟩ := usable_of_builtinSource htame
  unfold unattended
  cases hsource : definition.directive.builtinSource with
  | placeholder => exact hexample
  | computed what => exact hexample
  | localOnly => exact hempty
  | copy source? =>
    cases source? with
    | none => exact hexample
    | some source =>
      change Usable (resolveCopy definition values (some source)).value
      rw [value_resolveCopy]
      cases hget : values.get? source with
      | none => exact hempty
      | some value => exact hvalues _ (Table.mem_of_get? hget)
  | fixed value? =>
    cases value? with
    | none => exact hexample
    | some value => exact hfixed value hsource
  | prompt =>
    simp only [promptPlaceholder]
    split
    · refine ⟨?_, ?_⟩
      · rw [Text.isOneLine_append, isOneLine_of_isName htame.isName_name]
        decide
      · rintro ⟨-, hblank⟩
        exact absurd (hblank 'R' (by simp)) (by decide)
    · exact hexample
  | boolean yes no =>
    obtain ⟨hyes, hno⟩ := hboolean yes no hsource
    simp only [booleanUnasked, booleanDefault]
    split
    · exact hyes
    · exact hno

end Definitions

/-- What a variable comes to in such a pass: the value that it has, or what its definition comes
to. -/
def resolveUnattended (values : Table Text Text) (definition : Definition) : Resolved :=
  match values.filled? definition.name with
  | some value => { value, source := "existing" }
  | none => unattended values definition

/-- The values known after a variable was resolved. -/
def learnUnattended (values : Table Text Text) (definition : Definition) : Table Text Text :=
  if (resolveUnattended values definition).skipped then values
  else values.put definition.name (resolveUnattended values definition).value

/-- Such a pass: the values known after it, and its outcome. -/
def unattendedPass : Table Text Text → PassOutcome → List Definition →
    Table Text Text × PassOutcome
  | values, outcome, [] => (values, outcome)
  | values, outcome, definition :: rest =>
    unattendedPass (learnUnattended values definition)
      (outcome.add definition (resolveUnattended values definition)) rest

section Outcomes

variable {start values : Table Text Text} {names : List Text} {outcome : PassOutcome}
  {definition : Definition}

/-- A variable that has no value is filled exactly if its definition is supplied. -/
theorem fills_learnUnattended (hactive : definition.isActive = true) (values : Table Text Text) :
    (learnUnattended values definition).fills = fillStep values.fills definition := by
  funext name
  unfold learnUnattended resolveUnattended
  cases hfilled : values.filled? definition.name with
  | some value =>
    obtain ⟨hget, hvalue⟩ := Table.filled?_eq_some_iff.mp hfilled
    have hname : values.fills definition.name = true := Table.fills_iff.mpr ⟨value, hget, hvalue⟩
    simp only [Bool.false_eq_true, if_false, Table.fills_put, fillStep]
    split
    · rename_i heq
      subst heq
      simp [hname, hvalue]
    · rename_i hne
      simp [Ne.symm hne]
  | none =>
    have hsupplied := fills_unattended values definition
    rw [Resolved.fills] at hsupplied
    rw [fillStep, ← hsupplied, hactive]
    dsimp only
    split
    · rename_i hskipped
      simp [hskipped]
    · rename_i hskipped
      rw [Table.fills_put]
      split
      · rename_i heq
        subst heq
        have hname : values.fills definition.name = false := by
          rw [Table.fills, hfilled]
          rfl
        simp [hskipped, hname]
      · rename_i hne
        simp [Ne.symm hne]

/-- A pass fills what a scan fills. -/
theorem fills_unattendedPass {definitions : List Definition}
    (hactive : ∀ definition ∈ definitions, definition.isActive = true)
    (values : Table Text Text) (outcome : PassOutcome) :
    (unattendedPass values outcome definitions).1.fills = fillAll definitions values.fills := by
  induction definitions generalizing values outcome with
  | nil => rfl
  | cons definition rest ih =>
    rw [unattendedPass, ih fun other hother => hactive other (List.mem_cons_of_mem _ hother),
      fills_learnUnattended (hactive definition (List.mem_cons_self ..))]
    rfl

/-- The values known to a pass are those it started with and its updates, and all can be values. -/
structure Tracks (start : Table Text Text) (names : List Text) (values : Table Text Text)
    (outcome : PassOutcome) : Prop extends outcome.Supplies names where
  get?_values : ∀ name, values.get? name = (outcome.updates.get? name).or (start.get? name)
  usable : UsableValues values

/-- What a variable comes to can be a value. -/
theorem usable_resolveUnattended (htame : definition.Tame) (hvalues : UsableValues values) :
    Usable (resolveUnattended values definition).value := by
  unfold resolveUnattended
  cases hfilled : values.filled? definition.name with
  | some value => exact hvalues _ (Table.mem_of_get? (Table.filled?_eq_some_iff.mp hfilled).1)
  | none => exact usable_unattended htame hvalues

/-- One more variable that had no value at the start. -/
theorem Tracks.add (h : Tracks start names values outcome)
    (hlacks : start.fills definition.name = false)
    (hname : (unattended [] definition).skipped = false → definition.name ∈ names)
    (htame : definition.Tame) :
    Tracks start names (learnUnattended values definition)
      (outcome.add definition (resolveUnattended values definition)) := by
  have husable := usable_resolveUnattended htame h.usable
  have hupdates := updates_add outcome definition (resolveUnattended values definition)
  cases hskipped : (resolveUnattended values definition).skipped with
  | true =>
    rw [learnUnattended, hskipped, if_pos rfl]
    rw [hskipped, if_pos rfl] at hupdates
    exact ⟨⟨hupdates ▸ h.nodup_keys, hupdates ▸ h.subset_names, hupdates ▸ h.plain⟩,
      hupdates ▸ h.get?_values, h.usable⟩
  | false =>
    have hmem : definition.name ∈ names := by
      unfold resolveUnattended at hskipped
      cases hfilled : values.filled? definition.name with
      | some value =>
        -- The pass itself filled the name, so that it is written already.
        obtain ⟨hget, hvalue⟩ := Table.filled?_eq_some_iff.mp hfilled
        refine h.subset_names (Table.mem_keys_iff.mpr ⟨value, ?_⟩)
        rw [h.get?_values] at hget
        rcases Option.or_eq_some_iff.mp hget with hupdated | ⟨-, hstart⟩
        · exact hupdated
        · rw [Table.fills_iff.mpr ⟨value, hstart, hvalue⟩] at hlacks
          cases hlacks
      | none =>
        rw [hfilled, skipped_unattended] at hskipped
        exact hname hskipped
    rw [learnUnattended, hskipped, if_neg Bool.false_ne_true]
    rw [hskipped, if_neg Bool.false_ne_true] at hupdates
    refine ⟨h.toSupplies.add hmem husable.isOneLine, fun name => ?_, fun entry hentry => ?_⟩
    · rw [hupdates, Table.get?_put, Table.get?_put]
      split
      · rfl
      · exact h.get?_values name
    · rcases mem_of_mem_upsert hentry with rfl | hentry
      · exact husable
      · exact h.usable entry hentry

/-- A whole pass. -/
theorem Tracks.unattendedPass {definitions : List Definition}
    (h : Tracks start names values outcome)
    (hlacks : ∀ definition ∈ definitions, start.fills definition.name = false)
    (hnames : ∀ definition ∈ definitions, (unattended [] definition).skipped = false →
      definition.name ∈ names)
    (htame : ∀ definition ∈ definitions, definition.Tame) :
    Tracks start names (EnvFiles.unattendedPass values outcome definitions).1
      (EnvFiles.unattendedPass values outcome definitions).2 := by
  induction definitions generalizing values outcome with
  | nil => exact h
  | cons definition rest ih =>
    exact ih (h.add (hlacks definition (List.mem_cons_self ..))
        (hnames definition (List.mem_cons_self ..)) (htame definition (List.mem_cons_self ..)))
      (fun other hother => hlacks other (List.mem_cons_of_mem _ hother))
      (fun other hother => hnames other (List.mem_cons_of_mem _ hother))
      fun other hother => htame other (List.mem_cons_of_mem _ hother)

/-- What is to be written stays to be written. -/
theorem has_updates_of_has (definitions : List Definition) {name : Text}
    (h : outcome.updates.has name = true) :
    (unattendedPass values outcome definitions).2.updates.has name = true := by
  induction definitions generalizing values outcome with
  | nil => exact h
  | cons definition rest ih =>
    apply ih
    rw [updates_add]
    split
    · exact h
    · rw [Table.has, Table.get?_put]
      split
      · rfl
      · exact h

/-- Every variable that is not left out is to be written. -/
theorem has_updates_unattendedPass {definitions : List Definition} (hmem : definition ∈ definitions)
    (hkept : (unattended [] definition).skipped = false) :
    (unattendedPass values outcome definitions).2.updates.has definition.name = true := by
  induction definitions generalizing values outcome with
  | nil => exact absurd hmem List.not_mem_nil
  | cons first rest ih =>
    rcases List.mem_cons.mp hmem with rfl | hmem
    · apply has_updates_of_has rest
      have hresolved : (resolveUnattended values definition).skipped = false := by
        unfold resolveUnattended
        cases values.filled? definition.name with
        | some value => rfl
        | none => exact (skipped_unattended values definition).trans hkept
      rw [updates_add, hresolved, if_neg Bool.false_ne_true, Table.has, Table.get?_put, if_pos rfl]
      rfl
    · exact ih hmem

end Outcomes

section Updates

variable {definitions : List Definition} {values : Table Text Text}

/-- The definitions of active variables without a value. -/
def missingFrom (definitions : List Definition) (values : Table Text Text) : List Definition :=
  definitions.filter fun definition => definition.isActive && !values.fills definition.name

/-- What a pass over the missing variables is to write. -/
def passUpdates (definitions : List Definition) (values : Table Text Text) : Table Text Text :=
  (unattendedPass values {} (missingFrom definitions values)).2.updates

/-- Definitions whose variables have a value add nothing to a scan. -/
theorem fillAll_missingFrom (definitions : List Definition) (values : Table Text Text)
    {filled : Text → Bool} (h : ∀ name, values.fills name = true → filled name = true) :
    fillAll (missingFrom definitions values) filled = fillAll definitions filled := by
  induction definitions generalizing filled with
  | nil => rfl
  | cons definition rest ih =>
    by_cases hmissing : (definition.isActive && !values.fills definition.name) = true
    · rw [missingFrom, List.filter_cons_of_pos (by simpa using hmissing)]
      exact ih fun name hname => fillStep_of_filled definition (h name hname)
    · have hstep : fillStep filled definition = filled := by
        refine fillStep_eq_self_iff.mpr fun hactive hname => ?_
        cases hvalue : values.fills definition.name with
        | true => exact absurd (h _ hvalue) (by simp [hname])
        | false => exact absurd (by simp [hactive, hvalue]) hmissing
      rw [missingFrom, List.filter_cons_of_neg (by simpa using hmissing)]
      exact (ih h).trans (congrArg (fillAll rest) hstep.symm)

/-- A missing variable is declared, active and without a value. -/
theorem mem_missingFrom {definition : Definition} :
    definition ∈ missingFrom definitions values ↔ definition ∈ definitions ∧
      definition.isActive = true ∧ values.fills definition.name = false := by
  rw [missingFrom, List.mem_filter, Bool.and_eq_true, Bool.not_eq_true']

/-- Updates that complete the values of a file as one scan of the schema does. -/
structure Completes (definitions : List Definition) (values updates : Table Text Text) :
    Prop where
  plain : PlainUpdates updates
  usable : UsableValues updates
  fills : ∀ name, (if updates.has name then updates.fills name else values.fills name) =
    fillAll definitions values.fills name
  has_of_missing : ∀ definition ∈ missingFrom definitions values,
    (unattended [] definition).skipped = false → updates.has definition.name = true
  exists_missing : ∀ entry ∈ updates, ∃ definition ∈ missingFrom definitions values,
    definition.name = entry.1 ∧ (unattended [] definition).skipped = false

/-- A pass over the missing variables completes the values. -/
theorem completes_passUpdates (htame : ∀ definition ∈ definitions, definition.Tame)
    (hvalues : UsableValues values) :
    Completes definitions values (passUpdates definitions values) := by
  let kept := (missingFrom definitions values).filter fun definition =>
    !(unattended [] definition).skipped
  have hstart : Tracks values (kept.map Definition.name) values {} :=
    ⟨⟨List.nodup_nil, List.nil_subset _, fun _ hentry => absurd hentry List.not_mem_nil⟩,
      fun _ => rfl, hvalues⟩
  have htracks := hstart.unattendedPass
    (fun definition hmissing => (mem_missingFrom.mp hmissing).2.2)
    (fun definition hmissing hkept =>
      List.mem_map_of_mem (List.mem_filter.mpr ⟨hmissing, by simpa using hkept⟩))
    fun definition hmissing => htame definition (mem_missingFrom.mp hmissing).1
  have hactive : ∀ definition ∈ missingFrom definitions values, definition.isActive = true :=
    fun definition hmissing => (mem_missingFrom.mp hmissing).2.1
  have hfills := fills_unattendedPass hactive values {}
  rw [fillAll_missingFrom definitions values fun _ h => h] at hfills
  have hexists : ∀ entry ∈ passUpdates definitions values,
      ∃ definition ∈ missingFrom definitions values, definition.name = entry.1 ∧
        (unattended [] definition).skipped = false := by
    intro entry hentry
    obtain ⟨definition, hmem, hname⟩ :=
      List.mem_map.mp (htracks.subset_names (List.mem_map_of_mem hentry))
    obtain ⟨hmissing, hkept⟩ := List.mem_filter.mp hmem
    exact ⟨definition, hmissing, hname, by simpa using hkept⟩
  refine ⟨⟨htracks.nodup_keys, fun entry hentry => ?_, htracks.plain⟩, fun entry hentry => ?_,
    fun name => ?_, fun definition hmissing hkept => has_updates_unattendedPass hmissing hkept,
    hexists⟩
  · obtain ⟨definition, hmissing, hname, -⟩ := hexists entry hentry
    exact hname ▸ (htame definition (mem_missingFrom.mp hmissing).1).isName_name
  · refine htracks.usable entry (Table.mem_of_get? ?_)
    rw [htracks.get?_values, Table.get?_of_mem htracks.nodup_keys hentry]
    rfl
  · rw [← hfills]
    rw [Table.fills_eq (unattendedPass values {} (missingFrom definitions values)).1,
      htracks.get?_values name, Table.has, Table.fills_eq, Table.fills_eq, passUpdates]
    cases (unattendedPass values {} (missingFrom definitions values)).2.updates.get? name <;> rfl

/-- Values to which a pass has nothing to add: a scan fills no name, and every active variable
that is not left out is there, if only with an empty value. -/
structure Settled (definitions : List Definition) (values : Table Text Text) : Prop where
  fills : fillAll definitions values.fills = values.fills
  has_of_active : ∀ definition ∈ definitions, definition.isActive = true →
    (unattended [] definition).skipped = false → values.has definition.name = true

/-- On settled values a pass comes to the empty values that are there. -/
theorem Settled.changesTo_eq_nil (hsettled : Settled definitions values)
    {updates : Table Text Text} (h : Completes definitions values updates) :
    changesTo values updates = [] := by
  refine List.filter_eq_nil_iff.mpr fun entry hentry => ?_
  obtain ⟨definition, hmissing, hname, hkept⟩ := h.exists_missing entry hentry
  obtain ⟨hmem, hactive, hlacks⟩ := mem_missingFrom.mp hmissing
  obtain ⟨held, hheld⟩ := Table.has_iff.mp (hsettled.has_of_active definition hmem hactive hkept)
  have hget := Table.get?_of_mem h.plain.nodup_keys hentry
  have hnow : updates.fills entry.1 = false := by
    have hfills := h.fills entry.1
    rw [hsettled.fills, ← hname, hlacks, hname, if_pos (Table.has_iff.mpr ⟨_, hget⟩)] at hfills
    exact hfills
  rw [hname] at hheld hlacks
  rw [Table.fills_eq, hheld] at hlacks
  rw [Table.fills_eq, hget] at hnow
  simp only [Option.getD_some, Bool.not_eq_false', List.isEmpty_iff] at hlacks hnow
  simp [hheld, hlacks, hnow]

end Updates

section Runs

variable {registry : Registry} {scope : Scope}

/-- A built-in source does not ask when nobody is there. -/
theorem resolveBuiltin_unattended (hscope : scope.interactive = false) (values : Table Text Text)
    (definition : Definition) :
    resolveBuiltin scope values definition = pure (unattended values definition) := by
  unfold resolveBuiltin unattended
  cases definition.directive.builtinSource with
  | localOnly => simp [skipsLocalOnly, hscope]
  | prompt => simp [hscope]
  | boolean yes no => simp [hscope]
  | _ => rfl

/-- Without plugins no hook is called around a variable. -/
theorem callVariableHooks_of_nil (hplugins : registry.plugins = [])
    (hook : Hooks → Option (Circumstances → Except Text (Table Text Text)))
    (event : Text → Event) : registry.callVariableHooks scope hook event = pure () := by
  rw [Registry.callVariableHooks, hplugins]
  rfl

/-- Resolving a variable without plugins and questions only adds the call of the resolver. -/
theorem endsIn_resolve_unattended (hplugins : registry.plugins = [])
    (hscope : scope.interactive = false) (definition : Definition) (pass : Pass) :
    (resolve registry scope definition).EndsIn pass
      (fun resolved after => resolved = resolveUnattended pass.values definition ∧
        after = { pass with desk := { pass.desk with
          trace := pass.desk.trace ++ [.consulted scope.shared scope.workspace definition] } })
      fun _ _ => False := by
  have hfind (kind : Text) : registry.findSource kind = none := by
    simp [Registry.findSource, Registry.valueSources, hplugins]
  unfold resolve resolveUnattended
  simp only [Attempt.endsIn_bind, endsIn_atDesk, endsIn_record, Attempt.endsIn_get]
  cases hfilled : pass.values.filled? definition.name with
  | some value =>
    rw [Attempt.endsIn_pure]
    exact ⟨rfl, rfl⟩
  | none =>
    simp only [Registry.beforeResolve, Registry.afterResolve, callVariableHooks_of_nil hplugins,
      dispatch, hfind, resolveBuiltin_unattended hscope, Attempt.endsIn_bind, endsIn_atDesk,
      Attempt.endsIn_pure, Attempt.endsIn_get]
    exact ⟨trivial, trivial⟩

/-- A pass without plugins and questions does not fail. It comes to what `unattendedPass` says, and
but for the calls of the resolver it leaves the desk. -/
theorem endsIn_unattendedPass (hplugins : registry.plugins = [])
    (hscope : scope.interactive = false) (definitions : List Definition) (outcome : PassOutcome)
    (pass : Pass) :
    (resolveMissing registry scope outcome definitions).EndsIn pass
      (fun result after => result = (unattendedPass pass.values outcome definitions).2 ∧
        after = ⟨(unattendedPass pass.values outcome definitions).1, { pass.desk with
          trace := pass.desk.trace ++
            definitions.map (.consulted scope.shared scope.workspace) }⟩)
      fun _ _ => False := by
  induction definitions generalizing outcome pass with
  | nil =>
    rw [resolveMissing, Attempt.endsIn_pure, List.map_nil, List.append_nil]
    exact ⟨rfl, rfl⟩
  | cons definition rest ih =>
    simp only [resolveMissing, Attempt.endsIn_bind]
    refine (endsIn_resolve_unattended hplugins hscope definition pass).mono
      (fun resolved after h => ?_) fun _ _ h => h
    obtain ⟨rfl, rfl⟩ := h
    have hlearn (desk : Desk) :
        (Resolving.learn definition (resolveUnattended pass.values definition)).EndsIn
          ⟨pass.values, desk⟩ (fun _ learned =>
            learned = ⟨learnUnattended pass.values definition, desk⟩) fun _ _ => False := by
      unfold Resolving.learn learnUnattended
      split
      · rw [Attempt.endsIn_pure]
      · rw [Attempt.endsIn_modify]
    refine (hlearn _).mono (fun _ learned hlearned => ?_) fun _ _ h => h
    subst hlearned
    refine (ih _ _).mono (fun result after h => ?_) fun _ _ h => h
    rw [List.append_assoc, List.singleton_append] at h
    exact h

/-- A pass without plugins and questions does not fail, and comes to what `unattendedPass` says. -/
theorem endsIn_resolveMissing_unattended (hplugins : registry.plugins = [])
    (hscope : scope.interactive = false) (definitions : List Definition) (outcome : PassOutcome)
    (pass : Pass) :
    (resolveMissing registry scope outcome definitions).EndsIn pass
      (fun result after => result = (unattendedPass pass.values outcome definitions).2 ∧
        after.desk.replies = pass.desk.replies)
      fun _ _ => False :=
  (endsIn_unattendedPass hplugins hscope definitions outcome pass).mono
    (fun _ _ h => ⟨h.1, h.2 ▸ rfl⟩) fun _ _ h => h

end Runs
end EnvFiles
