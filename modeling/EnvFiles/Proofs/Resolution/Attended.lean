import EnvFiles.Proofs.Resolution.Unattended

/-!
# Passes with questions

Without plugins a pass may still ask. Whatever the replies are, it accounts for every variable that
it was given: the variable is to be written, or it was skipped, and then its name stands once among
those skipped. A value that is to be written is not blank only, and it is empty only if its
definition can come to that.
-/

namespace EnvFiles

/-- Whether a built-in source can come to an empty value, given the example value. An open question
never does: a variable that gets no reply is skipped. -/
def BuiltinSource.mayBeEmpty (exampleValue : Text) : BuiltinSource → Bool
  | .prompt => false
  | .copy (some _) => true
  | .fixed (some value) => value.isEmpty
  | .boolean yes no => yes.isEmpty || no.isEmpty
  | _ => exampleValue.isEmpty

/-- Whether the variable can come to an empty value. -/
def Definition.mayBeEmpty (definition : Definition) : Bool :=
  definition.directive.builtinSource.mayBeEmpty definition.exampleValue

/-- What a definition can come to: a value that is not blank only, and empty only if it is skipped
or can be empty. -/
structure Definition.Allows (definition : Definition) (resolved : Resolved) : Prop where
  not_isBlankOnly : ¬ IsBlankOnly resolved.value
  mayBeEmpty : resolved.skipped = false → resolved.value = [] → definition.mayBeEmpty = true

/-- The empty text is not blank only. -/
theorem not_isBlankOnly_nil : ¬ IsBlankOnly [] := fun h => h.1 rfl

section Sources

variable {definition : Definition} {resolved : Resolved}

/-- An example value is not blank only. -/
theorem Definition.Sound.not_isBlankOnly_exampleValue (hsound : definition.Sound) :
    ¬ IsBlankOnly definition.exampleValue :=
  not_isBlankOnly_of_trimEnd hsound.trimEnd_exampleValue

/-- What a reply settles is a value, or the variable is skipped. -/
theorem value_of_settle? (hsound : definition.Sound) {reply : Text}
    (h : settle? definition reply = some resolved) :
    ¬ IsBlankOnly resolved.value ∧ (resolved.skipped = false → resolved.value ≠ []) := by
  unfold settle? at h
  simp only at h
  split at h
  · rename_i hreply
    obtain rfl := Option.some.inj h
    exact ⟨not_isBlankOnly_of_trimEnd (Text.trimEnd_trim reply), fun _ => by simpa using hreply⟩
  · split at h
    · rename_i hexample
      obtain rfl := Option.some.inj h
      exact ⟨hsound.not_isBlankOnly_exampleValue, fun _ => by simpa using hexample⟩
    · split at h
      · obtain rfl := Option.some.inj h
        exact ⟨not_isBlankOnly_nil, fun hskipped => by cases hskipped⟩
      · cases h

/-- The open question comes to a value, or the variable is skipped. -/
theorem value_of_promptDialogue (hsound : definition.Sound) {replies : List Text}
    (h : (promptDialogue definition replies).outcome = .ok resolved) :
    ¬ IsBlankOnly resolved.value ∧ (resolved.skipped = false → resolved.value ≠ []) := by
  fun_induction promptDialogue definition replies with
  | case1 => cases h
  | case2 reply settled hsettle =>
    obtain rfl := Except.ok.inj h
    exact value_of_settle? hsound hsettle
  | case3 reply hsettle => cases h
  | case4 reply second rest settled hsettle =>
    obtain rfl := Except.ok.inj h
    exact value_of_settle? hsound hsettle
  | case5 reply second rest hsettle questions hskip =>
    obtain rfl := Except.ok.inj h
    exact ⟨not_isBlankOnly_nil, fun hskipped => by cases hskipped⟩
  | case6 reply second rest hsettle questions hskip ih => exact ih h

/-- A dialogue at the desk comes to what it comes to with the replies that are left. -/
theorem outcome_of_converse {dialogue : List Text → Dialogue} {desk : Desk} :
    (DeskStep.converse dialogue).EndsIn desk
      (fun resolved _ => (dialogue desk.replies).outcome = .ok resolved) fun _ _ => True := by
  rw [Attempt.EndsIn, DeskStep.converse, Attempt.runFrom_ofFunction]
  dsimp only
  cases houtcome : (dialogue desk.replies).outcome with
  | error failure => trivial
  | ok resolved => rfl

/-- Whether a variable can come to an empty value depends on its built-in source. -/
theorem mayBeEmpty_eq {source : BuiltinSource}
    (h : definition.directive.builtinSource = source) :
    definition.mayBeEmpty = source.mayBeEmpty definition.exampleValue := by
  rw [Definition.mayBeEmpty, h]

/-- The example value, where that decides whether the variable can be empty. -/
theorem allows_exampleValue (hsound : definition.Sound)
    (hempty : definition.mayBeEmpty = definition.exampleValue.isEmpty)
    (hvalue : resolved.value = definition.exampleValue) : definition.Allows resolved where
  not_isBlankOnly := hvalue ▸ hsound.not_isBlankOnly_exampleValue
  mayBeEmpty _ hnil := hempty.trans (List.isEmpty_iff.mpr (hvalue ▸ hnil))

/-- One of the two literals of a yes/no variable. -/
theorem allows_literal (htame : definition.Tame) {yes no : Text}
    (hsource : definition.directive.builtinSource = .boolean yes no)
    (hvalue : resolved.value = yes ∨ resolved.value = no) : definition.Allows resolved := by
  obtain ⟨hyes, hno⟩ := (usable_of_builtinSource htame).2 yes no hsource
  have hempty : definition.mayBeEmpty = (yes.isEmpty || no.isEmpty) := mayBeEmpty_eq hsource
  rcases hvalue with rfl | rfl
  · exact ⟨hyes.not_isBlankOnly, fun _ hnil => by rw [hempty, hnil]; rfl⟩
  · exact ⟨hno.not_isBlankOnly, fun _ hnil => by rw [hempty, hnil]; exact Bool.or_true _⟩

/-- The literal that the example value stands for is one of the two. -/
theorem booleanDefault_eq_or (definition : Definition) (yes no : Text) :
    booleanDefault definition yes no = yes ∨ booleanDefault definition yes no = no := by
  rw [booleanDefault]
  split
  · exact Or.inl rfl
  · exact Or.inr rfl

/-- The literal that a reply stands for is one of the two. -/
theorem booleanReply_eq_or (definition : Definition) (yes no reply : Text) :
    booleanReply definition yes no reply = yes ∨ booleanReply definition yes no reply = no := by
  rw [booleanReply]
  split
  · exact booleanDefault_eq_or definition yes no
  · split
    · exact Or.inl rfl
    · exact Or.inr rfl

/-- What stands for a reply is a value. -/
theorem value_promptPlaceholder_ne_nil (definition : Definition) :
    (promptPlaceholder definition).value ≠ [] := by
  simp only [promptPlaceholder]
  split
  · simp
  · rename_i hne
    simpa using hne

/-- A built-in source comes to what its definition allows. -/
theorem allows_resolveBuiltin (htame : definition.Tame) (scope : Scope)
    {values : Table Text Text} (hvalues : UsableValues values) {desk : Desk} :
    (resolveBuiltin scope values definition).EndsIn desk
      (fun resolved _ => definition.Allows resolved) fun _ _ => True := by
  have husable := usable_unattended htame hvalues
  unfold resolveBuiltin
  cases hsource : definition.directive.builtinSource with
  | placeholder => exact allows_exampleValue htame.toSound (mayBeEmpty_eq hsource) rfl
  | computed what => exact allows_exampleValue htame.toSound (mayBeEmpty_eq hsource) rfl
  | copy source? =>
    cases source? with
    | none => exact allows_exampleValue htame.toSound (mayBeEmpty_eq hsource) rfl
    | some source =>
      simp only [unattended, hsource] at husable
      exact ⟨husable.not_isBlankOnly, fun _ _ => mayBeEmpty_eq hsource⟩
  | fixed value? =>
    cases value? with
    | none => exact allows_exampleValue htame.toSound (mayBeEmpty_eq hsource) rfl
    | some value =>
      simp only [unattended, hsource] at husable
      exact ⟨husable.not_isBlankOnly,
        fun _ hnil => (mayBeEmpty_eq hsource).trans (List.isEmpty_iff.mpr hnil)⟩
  | localOnly =>
    by_cases hskip : skipsLocalOnly scope = true
    · simp only [hskip, if_true]
      exact ⟨not_isBlankOnly_nil, fun hskipped => by cases hskipped⟩
    · simp only [hskip]
      exact allows_exampleValue htame.toSound (mayBeEmpty_eq hsource) rfl
  | prompt =>
    by_cases hinteractive : scope.interactive = true
    · simp only [hinteractive, if_true]
      refine outcome_of_converse.mono (fun resolved _ houtcome => ?_) fun _ _ h => h
      obtain ⟨hvalue, hne⟩ := value_of_promptDialogue htame.toSound houtcome
      exact ⟨hvalue, fun hskipped hnil => absurd hnil (hne hskipped)⟩
    · simp only [hinteractive]
      simp only [unattended, hsource] at husable
      exact ⟨husable.not_isBlankOnly,
        fun _ hnil => absurd hnil (value_promptPlaceholder_ne_nil definition)⟩
  | boolean yes no =>
    by_cases hinteractive : scope.interactive = true
    · simp only [hinteractive, if_true]
      refine outcome_of_converse.mono (fun resolved _ houtcome => ?_) fun _ _ h => h
      cases hreplies : desk.replies with
      | nil =>
        rw [hreplies] at houtcome
        cases houtcome
      | cons reply rest =>
        rw [hreplies] at houtcome
        obtain rfl := Except.ok.inj houtcome
        exact allows_literal htame hsource (booleanReply_eq_or definition yes no reply)
    · simp only [hinteractive]
      exact allows_literal htame hsource (booleanDefault_eq_or definition yes no)

end Sources

/-- A pass that accounts for definitions: what it is to write, and the names of all others among
those skipped, by their requirement and in order. -/
structure PassOutcome.Accounts (outcome : PassOutcome) (definitions : List Definition) : Prop
    extends outcome.Supplies (definitions.map Definition.name) where
  skippedRequired_eq : outcome.skippedRequired = (definitions.filter fun definition =>
    definition.isRequired && !outcome.updates.has definition.name).map Definition.name
  skippedOptional_eq : outcome.skippedOptional = (definitions.filter fun definition =>
    !definition.isRequired && !outcome.updates.has definition.name).map Definition.name
  usable : UsableValues outcome.updates
  mayBeEmpty : ∀ definition ∈ definitions, outcome.updates.get? definition.name = some [] →
    definition.mayBeEmpty = true

section Accounting

variable {outcome : PassOutcome} {definitions : List Definition} {definition : Definition}
  {resolved : Resolved}

/-- A pass over nothing. -/
theorem accounts_nil : PassOutcome.Accounts {} [] where
  nodup_keys := List.nodup_nil
  subset_names := List.nil_subset _
  plain _ hentry := absurd hentry List.not_mem_nil
  skippedRequired_eq := rfl
  skippedOptional_eq := rfl
  usable _ hentry := absurd hentry List.not_mem_nil
  mayBeEmpty _ hmem := absurd hmem List.not_mem_nil

/-- Which lists of skipped names a variable joins. -/
theorem skipped_add (outcome : PassOutcome) (definition : Definition) (resolved : Resolved) :
    (outcome.add definition resolved).skippedRequired = outcome.skippedRequired ++
        (if resolved.skipped && definition.isRequired then [definition.name] else []) ∧
      (outcome.add definition resolved).skippedOptional = outcome.skippedOptional ++
        (if resolved.skipped && !definition.isRequired then [definition.name] else []) := by
  simp only [PassOutcome.add]
  by_cases hskipped : resolved.skipped = true
  · by_cases hrequired : definition.isRequired = true <;> simp [hskipped, hrequired]
  · simp [hskipped]

/-- What is to be written for a name after one more variable. -/
theorem get?_updates_add (outcome : PassOutcome) (definition : Definition) (resolved : Resolved)
    (name : Text) :
    (outcome.add definition resolved).updates.get? name =
      if definition.name = name ∧ resolved.skipped = false then some resolved.value
      else outcome.updates.get? name := by
  rw [updates_add]
  cases resolved.skipped with
  | true => simp
  | false => simp [Table.get?_put]

/-- Which variables have no update after one more of a new name. -/
theorem filter_lacking_add (h : outcome.Accounts definitions)
    (hnew : definition.name ∉ definitions.map Definition.name) (good : Definition → Bool) :
    (definitions ++ [definition]).filter (fun other =>
        good other && !(outcome.add definition resolved).updates.has other.name) =
      definitions.filter (fun other => good other && !outcome.updates.has other.name) ++
        if resolved.skipped && good definition then [definition] else [] := by
  have hown : (outcome.add definition resolved).updates.has definition.name =
      !resolved.skipped := by
    have hnone := h.has_eq_false hnew
    rw [Table.has] at hnone
    rw [Table.has, get?_updates_add]
    cases resolved.skipped <;> simp [hnone]
  rw [List.filter_append, List.filter_singleton, hown, Bool.not_not, Bool.and_comm,
    Bool.cond_eq_ite]
  congr 1
  refine List.filter_congr fun other hmem => ?_
  have hne : definition.name ≠ other.name := fun hname =>
    hnew (hname ▸ List.mem_map_of_mem hmem)
  rw [Table.has, Table.has, get?_updates_add, if_neg fun hboth => hne hboth.1]

/-- One more variable of a new name. -/
theorem PassOutcome.Accounts.add (h : outcome.Accounts definitions)
    (hnew : definition.name ∉ definitions.map Definition.name)
    (hvalue : Text.isOneLine resolved.value = true) (hallows : definition.Allows resolved) :
    (outcome.add definition resolved).Accounts (definitions ++ [definition]) := by
  obtain ⟨hrequired, hoptional⟩ := skipped_add outcome definition resolved
  have hnames : outcome.Supplies ((definitions ++ [definition]).map Definition.name) :=
    ⟨h.nodup_keys, fun _ hkey => by simp [h.subset_names hkey], h.plain⟩
  refine ⟨hnames.add (by simp) hvalue, ?_, ?_, fun entry hentry => ?_,
    fun other hmem hnil => ?_⟩
  · rw [hrequired, h.skippedRequired_eq, filter_lacking_add h hnew Definition.isRequired,
      List.map_append]
    congr 1
    split <;> rfl
  · rw [hoptional, h.skippedOptional_eq, filter_lacking_add h hnew fun other => !other.isRequired,
      List.map_append]
    congr 1
    split <;> rfl
  · rw [updates_add] at hentry
    split at hentry
    · exact h.usable entry hentry
    · rcases mem_of_mem_upsert hentry with rfl | hentry
      · exact ⟨hvalue, hallows.not_isBlankOnly⟩
      · exact h.usable entry hentry
  · rw [get?_updates_add] at hnil
    rcases List.mem_append.mp hmem with hmem | hmem
    · have hne : definition.name ≠ other.name := fun hname =>
        hnew (hname ▸ List.mem_map_of_mem hmem)
      rw [if_neg fun hboth => hne hboth.1] at hnil
      exact h.mayBeEmpty other hmem hnil
    · obtain rfl := List.mem_singleton.mp hmem
      split at hnil
      · rename_i hboth
        exact hallows.mayBeEmpty hboth.2 (Option.some.inj hnil)
      · have hnone := h.has_eq_false hnew
        rw [Table.has, hnil] at hnone
        cases hnone

end Accounting

section Runs

variable {registry : Registry} {scope : Scope}

/-- Without plugins nothing is supplied by them. -/
theorem plainSupplies_of_nil (hplugins : registry.plugins = []) : registry.PlainSupplies := by
  have hnone : registry.valueSources = [] := by
    rw [Registry.valueSources, hplugins]
    rfl
  refine ⟨fun source hsource => ?_, fun plugin hplugin => ?_, fun plugin hplugin => ?_⟩
  · rw [hnone] at hsource
    exact absurd hsource List.not_mem_nil
  · rw [hplugins] at hplugin
    exact absurd hplugin List.not_mem_nil
  · rw [hplugins] at hplugin
    exact absurd hplugin List.not_mem_nil

/-- Without plugins a variable that has no value comes to what its definition allows. -/
theorem allows_resolve (hplugins : registry.plugins = []) {definition : Definition}
    (htame : definition.Tame) {pass : Pass} (hvalues : UsableValues pass.values)
    (hlacks : pass.values.fills definition.name = false) :
    (resolve registry scope definition).EndsIn pass
      (fun resolved after => definition.Allows resolved ∧ after.values = pass.values)
      fun _ _ => True := by
  have hfind : registry.findSource definition.directive.kind = none := by
    simp [Registry.findSource, Registry.valueSources, hplugins]
  have hfilled : pass.values.filled? definition.name = none := by
    simpa [Table.fills] using hlacks
  unfold resolve
  simp only [Attempt.endsIn_bind, endsIn_atDesk, endsIn_record, Attempt.endsIn_get, hfilled,
    Registry.beforeResolve, Registry.afterResolve, callVariableHooks_of_nil hplugins, dispatch,
    hfind, Attempt.endsIn_pure]
  exact (allows_resolveBuiltin htame scope hvalues).mono (fun _ _ h => ⟨h, trivial⟩)
    fun _ _ h => h

/-- Without plugins a pass over variables of different names, none of which has a value, accounts
for all of them. -/
theorem accounts_resolveMissing (hplugins : registry.plugins = []) {accounted : List Definition}
    {definitions : List Definition} (htame : ∀ definition ∈ definitions, definition.Tame)
    (hnodup : ((accounted ++ definitions).map Definition.name).Nodup) {outcome : PassOutcome}
    (houtcome : outcome.Accounts accounted) {pass : Pass} (hvalues : UsableValues pass.values)
    (hreplies : PlainReplies pass.desk.replies)
    (hlacks : ∀ definition ∈ definitions, pass.values.fills definition.name = false) :
    (resolveMissing registry scope outcome definitions).EndsIn pass
      (fun outcome after => outcome.Accounts (accounted ++ definitions) ∧
        PlainReplies after.desk.replies) fun _ _ => True := by
  induction definitions generalizing accounted outcome pass with
  | nil =>
    rw [List.append_nil]
    exact ⟨houtcome, hreplies⟩
  | cons definition rest ih =>
    have hmem : definition ∈ definition :: rest := List.mem_cons_self ..
    have hplain : pass.Plain := ⟨fun entry hentry => (hvalues entry hentry).isOneLine, hreplies⟩
    have hnew : definition.name ∉ accounted.map Definition.name := by
      rw [List.map_append, List.map_cons] at hnodup
      exact fun hold => (List.nodup_append.mp hnodup).2.2 _ hold _ (List.mem_cons_self ..) rfl
    have hnames : ∀ other ∈ rest, definition.name ≠ other.name := by
      intro other hother hname
      rw [List.map_append, List.map_cons] at hnodup
      have hrest := (List.nodup_cons.mp (List.nodup_append.mp hnodup).2.1).1
      exact hrest (hname ▸ List.mem_map_of_mem hother)
    rw [List.append_cons] at hnodup ⊢
    simp only [resolveMissing, Attempt.endsIn_bind]
    refine ((endsIn_resolve (plainSupplies_of_nil hplugins) (htame definition hmem).toSound
      hplain).and (allows_resolve hplugins (htame definition hmem) hvalues
        (hlacks definition hmem))).mono (fun resolved after hresolved => ?_) fun _ _ _ => trivial
    obtain ⟨⟨hvalue, hafter⟩, hallows, hsame⟩ := hresolved
    have hlearn : (Resolving.learn definition resolved).EndsIn after
        (fun _ learned => UsableValues learned.values ∧ PlainReplies learned.desk.replies ∧
          ∀ other ∈ rest, learned.values.fills other.name = false) fun _ _ => True := by
      have hrest : ∀ other ∈ rest, pass.values.fills other.name = false := fun other hother =>
        hlacks other (List.mem_cons_of_mem _ hother)
      unfold Resolving.learn
      split
      · rw [Attempt.endsIn_pure, hsame]
        exact ⟨hvalues, hafter.replies, hrest⟩
      · rw [Attempt.endsIn_modify, hsame]
        refine ⟨fun entry hentry => ?_, hafter.replies, fun other hother => ?_⟩
        · rcases mem_of_mem_upsert hentry with rfl | hentry
          · exact ⟨hvalue, hallows.not_isBlankOnly⟩
          · exact hvalues entry hentry
        · rw [Table.fills_put, if_neg (hnames other hother)]
          exact hrest other hother
    refine hlearn.mono (fun _ learned hlearned => ?_) fun _ _ h => h
    exact ih (fun other hother => htame other (List.mem_cons_of_mem _ hother)) hnodup
      (houtcome.add hnew hvalue hallows) hlearned.1 hlearned.2.1 hlearned.2.2

/-- Such a pass at the desk of a run. -/
theorem accounts_ofPass (hplugins : registry.plugins = []) {definitions : List Definition}
    (htame : ∀ definition ∈ definitions, definition.Tame)
    (hnodup : (definitions.map Definition.name).Nodup) {values : Table Text Text}
    (hvalues : UsableValues values)
    (hlacks : ∀ definition ∈ definitions, values.fills definition.name = false) {desk : Desk}
    (hreplies : PlainReplies desk.replies) :
    (DeskStep.ofPass values (resolveMissing registry scope {} definitions)).EndsIn desk
      (fun outcome after => outcome.Accounts definitions ∧ PlainReplies after.replies)
      fun _ _ => True :=
  (Attempt.endsIn_onPart ..).mpr
    (@accounts_resolveMissing registry scope hplugins [] definitions htame hnodup {} accounts_nil
      ⟨values, desk⟩ hvalues hreplies hlacks)

end Runs
end EnvFiles
