import EnvFiles.Proofs.Resolution.Attended

/-!
# Where a pass puts its variables

A pass without plugins and questions puts every variable that it is given in one place. One for
developers' machines only joins the skipped names, the others are to be written. What is to be
written, put over the values known before the pass, is what is known after it, and a copy is made
in between: it takes what the pass has recorded for its source by then, or else the value from
before the pass. So a chain of copies hands on the value of its first link.
-/

namespace EnvFiles

/-- Whether the variable is for developers' machines only. -/
def Definition.isLocalOnly (definition : Definition) : Bool :=
  definition.directive.kind == ("local-only" : Text)

/-- Whether one definition copies the variable of another one. -/
def Definition.IsCopiedBy (source copy : Definition) : Prop :=
  copy.directive = .copy source.name

/-- The value of a variable at some point of a pass: what is to be written for it, if it is one of
those before that point, or else its value from before the pass. -/
def valueSoFar? (start updates : Table Text Text) (earlier : List Definition) (name : Text) :
    Option Text :=
  (if (earlier.map Definition.name).contains name then updates.get? name else none).or
    (start.get? name)

/-- The warning about a copy whose source has no value. -/
def notFoundWarning (source name : Text) : Text :=
  "Source variable " ++ source ++ " not found for copying to " ++ name

/-- A copy of a variable has the value that its source had by then, or none under a warning. -/
def PassOutcome.CopiesTo (start : Table Text Text) (earlier : List Definition) (source name : Text)
    (outcome : PassOutcome) : Prop :=
  match valueSoFar? start outcome.updates earlier source with
  | some value => outcome.updates.get? name = some value
  | none => outcome.updates.get? name = some [] ∧ notFoundWarning source name ∈ outcome.warnings

/-- Every definition of a pass from the given values has its place in the outcome, and the values
known after the pass are those before it under what is to be written. -/
structure PassOutcome.Places (start : Table Text Text) (definitions : List Definition)
    (values : Table Text Text) (outcome : PassOutcome) : Prop where
  values_eq : values = start.putAll outcome.updates
  keys_updates : outcome.updates.keys =
    (definitions.filter fun definition => !definition.isLocalOnly).map Definition.name
  skippedRequired_eq : outcome.skippedRequired = (definitions.filter fun definition =>
    definition.isLocalOnly && definition.isRequired).map Definition.name
  skippedOptional_eq : outcome.skippedOptional = (definitions.filter fun definition =>
    definition.isLocalOnly && !definition.isRequired).map Definition.name
  copied : ∀ earlier definition later source, definitions = earlier ++ definition :: later →
    definition.directive = .copy source → outcome.CopiesTo start earlier source definition.name

section Definitions

variable {definition : Definition} {source : Text}

/-- The kind for developers' machines names its built-in source, and no other kind does. -/
theorem isLocalOnly_iff : definition.isLocalOnly = true ↔
    definition.directive.builtinSource = .localOnly := by
  rw [Definition.isLocalOnly, beq_iff_eq]
  cases definition.directive with
  | localOnly => exact iff_of_true (by decide) rfl
  | prompt => exact iff_of_false (show ("prompt" : Text) ≠ _ by decide) BuiltinSource.noConfusion
  | placeholder =>
    exact iff_of_false (show ("placeholder" : Text) ≠ _ by decide) BuiltinSource.noConfusion
  | computed what =>
    exact iff_of_false (show ("computed" : Text) ≠ _ by decide) BuiltinSource.noConfusion
  | copy source =>
    exact iff_of_false (show ("copy" : Text) ≠ _ by decide) BuiltinSource.noConfusion
  | fixed value =>
    exact iff_of_false (show ("default" : Text) ≠ _ by decide) BuiltinSource.noConfusion
  | boolean yes no =>
    exact iff_of_false (show ("boolean" : Text) ≠ _ by decide) BuiltinSource.noConfusion
  | plugin kind raw =>
    change kind = "local-only" ↔ BuiltinSource.ofKind kind = .localOnly
    unfold BuiltinSource.ofKind
    split_ifs with hprompt hlocalOnly
    · rw [hprompt]
      exact iff_of_false (by decide) id
    · exact iff_of_true hlocalOnly rfl
    all_goals exact iff_of_false hlocalOnly id

/-- A variable is left out exactly if it is for developers' machines only. -/
theorem skipped_unattended_eq (values : Table Text Text) (definition : Definition) :
    (unattended values definition).skipped = definition.isLocalOnly := by
  rw [Bool.eq_iff_iff, isLocalOnly_iff, unattended]
  cases definition.directive.builtinSource with
  | localOnly => exact iff_of_true rfl rfl
  | copy source? =>
    refine iff_of_false ?_ (by simp)
    cases source? with
    | none => simp [resolveCopy]
    | some source => simp [skipped_resolveCopy]
  | _ => exact iff_of_false Bool.false_ne_true (by simp)

/-- A copy is to be written. -/
theorem isLocalOnly_of_copy (h : definition.directive = .copy source) :
    definition.isLocalOnly = false := by
  rw [Bool.eq_false_iff, ne_eq, isLocalOnly_iff, h]
  simp [Directive.builtinSource]

/-- A copy whose source has no value. -/
theorem resolveCopy_of_lacking {values : Table Text Text} (h : values.get? source = none) :
    resolveCopy definition values (some source) =
      { source := "copied", warning := some (notFoundWarning source definition.name) } := by
  unfold resolveCopy notFoundWarning
  dsimp only
  rw [h]

/-- The warning is not empty. -/
theorem notFoundWarning_ne_nil (source name : Text) : notFoundWarning source name ≠ [] := by
  have hstart : ("Source variable " : Text) ≠ [] := by decide
  unfold notFoundWarning
  simp only [ne_eq, List.append_eq_nil_iff, hstart, false_and, not_false_eq_true]

/-- A warning that is not empty joins those before it. -/
theorem warnings_add (outcome : PassOutcome) (definition : Definition) (resolved : Resolved) :
    (outcome.add definition resolved).warnings =
      outcome.warnings ++ (resolved.warning.filter fun warning => !warning.isEmpty).toList := by
  unfold PassOutcome.add
  rcases resolved.warning with _ | _ | ⟨c, rest⟩ <;> dsimp only <;> split_ifs <;>
    simp [Option.filter]

/-- A warning that was given stays, and one that is not empty joins it. -/
theorem mem_warnings_add {outcome : PassOutcome} {resolved : Resolved} {warning : Text}
    (h : warning ∈ outcome.warnings ∨ resolved.warning = some warning ∧ warning ≠ []) :
    warning ∈ (outcome.add definition resolved).warnings := by
  rw [warnings_add, List.mem_append]
  refine h.imp_right fun ⟨hgiven, hne⟩ => ?_
  rw [hgiven]
  simp [hne]

end Definitions

section Points

variable {start updates : Table Text Text} {earlier : List Definition} {name : Text}

/-- The value of a variable before the point. -/
theorem valueSoFar?_of_mem (h : name ∈ earlier.map Definition.name) :
    valueSoFar? start updates earlier name = (updates.get? name).or (start.get? name) := by
  rw [valueSoFar?, if_pos (List.contains_iff_mem.mpr h)]

/-- The value of a variable that is not before the point. -/
theorem valueSoFar?_of_notMem (h : name ∉ earlier.map Definition.name) :
    valueSoFar? start updates earlier name = start.get? name := by
  rw [valueSoFar?, if_neg fun hcontains => h (List.contains_iff_mem.mp hcontains), Option.none_or]

end Points

section Steps

variable {start values : Table Text Text} {definitions : List Definition} {outcome : PassOutcome}
  {definition : Definition}

/-- One more definition with a name of its own. -/
theorem nodup_names_concat : ((definitions ++ [definition]).map Definition.name).Nodup ↔
    definition.name ∉ definitions.map Definition.name ∧
      (definitions.map Definition.name).Nodup := by
  rw [List.map_append, List.map_singleton, ← List.concat_eq_append, List.nodup_concat]

/-- What was to be written for other variables still is. -/
theorem get?_updates_add_of_ne {name : Text} (hne : name ≠ definition.name) (resolved : Resolved) :
    (outcome.add definition resolved).updates.get? name = outcome.updates.get? name := by
  rw [get?_updates_add, if_neg fun hboth => hne hboth.1.symm]

/-- The values at a point of the pass are the same after one more definition. -/
theorem valueSoFar?_add {earlier : List Definition}
    (hnew : definition.name ∉ earlier.map Definition.name) (resolved : Resolved) (name : Text) :
    valueSoFar? start (outcome.add definition resolved).updates earlier name =
      valueSoFar? start outcome.updates earlier name := by
  by_cases hmem : name ∈ earlier.map Definition.name
  · have hne : name ≠ definition.name := fun heq => hnew (heq ▸ hmem)
    rw [valueSoFar?_of_mem hmem, valueSoFar?_of_mem hmem, get?_updates_add_of_ne hne]
  · rw [valueSoFar?_of_notMem hmem, valueSoFar?_of_notMem hmem]

/-- A copy that was made stays as it is when a definition of another name follows. -/
theorem PassOutcome.CopiesTo.add {earlier : List Definition} {source name : Text}
    (h : outcome.CopiesTo start earlier source name)
    (hnew : definition.name ∉ earlier.map Definition.name) (hne : name ≠ definition.name)
    (resolved : Resolved) :
    (outcome.add definition resolved).CopiesTo start earlier source name := by
  unfold PassOutcome.CopiesTo at h ⊢
  rw [valueSoFar?_add hnew, get?_updates_add_of_ne hne]
  revert h
  split
  · exact fun h => h
  · exact fun h => ⟨h.1, mem_warnings_add (Or.inl h.2)⟩

/-- A copy takes what is known of its source. -/
theorem copiesTo_add {source : Text} (hcopy : definition.directive = .copy source)
    (hvalues : values.get? source = valueSoFar? start outcome.updates definitions source)
    (hnew : definition.name ∉ definitions.map Definition.name) :
    (outcome.add definition (unattended values definition)).CopiesTo start definitions source
      definition.name := by
  have hcopied : definition.copied? = some source := by rw [Definition.copied?, hcopy]
  have hget : (outcome.add definition (unattended values definition)).updates.get?
      definition.name = some (unattended values definition).value := by
    have hkept : (unattended values definition).skipped = false := by
      rw [unattended_of_copied hcopied, skipped_resolveCopy]
    rw [get?_updates_add, if_pos ⟨rfl, hkept⟩]
  rw [PassOutcome.CopiesTo, valueSoFar?_add hnew, ← hvalues, hget, unattended_of_copied hcopied,
    value_resolveCopy]
  cases hvalue : values.get? source with
  | some value => rfl
  | none =>
    rw [resolveCopy_of_lacking hvalue]
    exact ⟨rfl, mem_warnings_add (Or.inr ⟨rfl, notFoundWarning_ne_nil source _⟩)⟩

namespace PassOutcome.Places

/-- A pass over nothing. -/
theorem nil (start : Table Text Text) : PassOutcome.Places start [] start {} where
  values_eq := rfl
  keys_updates := rfl
  skippedRequired_eq := rfl
  skippedOptional_eq := rfl
  copied earlier _ _ _ h := absurd h.symm (List.append_ne_nil_of_right_ne_nil earlier (by simp))

/-- What is to be written is to be written for definitions. -/
theorem notMem_keys (h : outcome.Places start definitions values) {name : Text}
    (hname : name ∉ definitions.map Definition.name) : name ∉ outcome.updates.keys := by
  rw [h.keys_updates]
  exact fun hmem => hname (List.map_subset _ (List.filter_subset_self ..) hmem)

/-- Definitions of distinct names are written under distinct names. -/
theorem nodup_keys (h : outcome.Places start definitions values)
    (hnodup : (definitions.map Definition.name).Nodup) : outcome.updates.keys.Nodup := by
  rw [h.keys_updates]
  exact hnodup.sublist (List.filter_sublist.map _)

/-- A value known after a pass is to be written, or was there before. -/
theorem get?_values (h : outcome.Places start definitions values)
    (hnodup : (definitions.map Definition.name).Nodup) (name : Text) :
    values.get? name = valueSoFar? start outcome.updates definitions name := by
  rw [h.values_eq, Table.get?_putAll_of_nodup start (h.nodup_keys hnodup)]
  by_cases hname : name ∈ definitions.map Definition.name
  · rw [valueSoFar?_of_mem hname]
  · rw [valueSoFar?_of_notMem hname, Table.get?_eq_none_iff.mpr (h.notMem_keys hname),
      Option.none_or]

/-- One more definition. -/
theorem add (h : outcome.Places start definitions values)
    (hnodup : ((definitions ++ [definition]).map Definition.name).Nodup) :
    (outcome.add definition (unattended values definition)).Places start
      (definitions ++ [definition])
      (if (unattended values definition).skipped then values
        else values.put definition.name (unattended values definition).value) := by
  obtain ⟨hnew, hearlier⟩ := nodup_names_concat.mp hnodup
  have hskipped := skipped_unattended_eq values definition
  have hupdates := updates_add outcome definition (unattended values definition)
  obtain ⟨hrequired, hoptional⟩ := skipped_add outcome definition (unattended values definition)
  have hput (value : Text) : outcome.updates.put definition.name value =
      outcome.updates ++ [(definition.name, value)] := upsert_of_notMem (h.notMem_keys hnew)
  rw [hskipped] at hupdates hrequired hoptional ⊢
  refine ⟨?_, ?_, ?_, ?_, fun earlier copy later source hsplit hcopy => ?_⟩
  · rw [hupdates, h.values_eq]
    split
    · rfl
    · rw [hput, Table.putAll_concat]
  · rw [hupdates, List.filter_append, List.map_append, ← h.keys_updates]
    cases hlocal : definition.isLocalOnly with
    | true => simp [hlocal]
    | false => simp [hlocal, hput, Table.keys]
  · rw [hrequired, h.skippedRequired_eq, List.filter_append, List.map_append,
      List.filter_singleton]
    cases definition.isLocalOnly && definition.isRequired <;> rfl
  · rw [hoptional, h.skippedOptional_eq, List.filter_append, List.map_append,
      List.filter_singleton]
    cases definition.isLocalOnly && !definition.isRequired <;> rfl
  · rcases later.eq_nil_or_concat with rfl | ⟨later, last, rfl⟩
    · obtain ⟨rfl, hlast⟩ := List.append_inj' hsplit rfl
      obtain rfl : definition = copy := List.head_eq_of_cons_eq hlast
      exact copiesTo_add hcopy (h.get?_values hearlier source) hnew
    · rw [List.concat_eq_append, ← List.cons_append, ← List.append_assoc] at hsplit
      obtain ⟨rfl, rfl⟩ := List.append_singleton_inj.mp hsplit
      rw [List.map_append, List.mem_append, not_or, List.map_cons, List.mem_cons, not_or] at hnew
      exact (h.copied earlier copy later source rfl hcopy).add hnew.1 (Ne.symm hnew.2.1) _

end PassOutcome.Places

/-- A pass over two lists is one pass after the other. -/
theorem unattendedPass_append (values : Table Text Text) (outcome : PassOutcome)
    (first second : List Definition) :
    unattendedPass values outcome (first ++ second) =
      unattendedPass (unattendedPass values outcome first).1
        (unattendedPass values outcome first).2 second := by
  induction first generalizing values outcome with
  | nil => rfl
  | cons definition rest ih => exact ih _ _

/-- A pass over variables that had no value puts each of them in its place. -/
theorem places_unattendedPass (hnodup : (definitions.map Definition.name).Nodup)
    (hlacks : ∀ definition ∈ definitions, start.fills definition.name = false) :
    (unattendedPass start {} definitions).2.Places start definitions
      (unattendedPass start {} definitions).1 := by
  induction definitions using List.reverseRecOn with
  | nil => exact .nil start
  | append_singleton definitions definition ih =>
    obtain ⟨hnew, hearlier⟩ := nodup_names_concat.mp hnodup
    have h := ih hearlier fun other hother => hlacks other (List.mem_append_left _ hother)
    -- No definition before this one has its name, so it has no value at its turn either.
    have hmissing : (unattendedPass start {} definitions).1.fills definition.name = false := by
      have hsame : (unattendedPass start {} definitions).1.get? definition.name =
          start.get? definition.name := by
        rw [h.get?_values hearlier, valueSoFar?_of_notMem hnew]
      rw [Table.fills_congr hsame]
      exact hlacks definition (List.mem_append_right _ (List.mem_singleton_self _))
    have hresolved : resolveUnattended (unattendedPass start {} definitions).1 definition =
        unattended (unattendedPass start {} definitions).1 definition := by
      rw [resolveUnattended, Option.not_isSome_iff_eq_none.mp (Bool.eq_false_iff.mp hmissing)]
    rw [unattendedPass_append, unattendedPass, unattendedPass, learnUnattended, hresolved]
    exact h.add hnodup

end Steps

section Consequences

variable {start values : Table Text Text} {definitions : List Definition} {outcome : PassOutcome}

/-- Every name has exactly one place. -/
theorem PassOutcome.Places.names_perm (h : outcome.Places start definitions values) :
    (outcome.updates.keys ++ (outcome.skippedRequired ++ outcome.skippedOptional)).Perm
      (definitions.map Definition.name) := by
  have hlevels : ((definitions.filter fun definition =>
        definition.isLocalOnly && definition.isRequired) ++
      definitions.filter fun definition =>
        definition.isLocalOnly && !definition.isRequired).Perm
      (definitions.filter Definition.isLocalOnly) := by
    have hsplit := List.filter_append_perm Definition.isRequired
      (definitions.filter Definition.isLocalOnly)
    simpa only [List.filter_filter, Bool.and_comm] using hsplit
  have hplaces := List.filter_append_perm (fun definition => !definition.isLocalOnly) definitions
  simp only [Bool.not_not] at hplaces
  rw [h.keys_updates, h.skippedRequired_eq, h.skippedOptional_eq, ← List.map_append,
    ← List.map_append]
  exact ((hlevels.append_left _).trans hplaces).map _

/-- A variable that is not for developers' machines only is to be written. -/
theorem PassOutcome.Places.exists_get? (h : outcome.Places start definitions values)
    {definition : Definition} (hmem : definition ∈ definitions)
    (hlocal : definition.isLocalOnly = false) :
    ∃ value, outcome.updates.get? definition.name = some value := by
  rw [← Table.mem_keys_iff, h.keys_updates]
  refine List.mem_map_of_mem (List.mem_filter.mpr ⟨hmem, ?_⟩)
  rw [hlocal]
  rfl

/-- A chain of copies in the order of the definitions hands on the value of its first link. -/
theorem PassOutcome.Places.get?_of_chain (h : outcome.Places start definitions values)
    {first : Definition} {links : List Definition} (hsub : (first :: links).Sublist definitions)
    (hfirst : first.isLocalOnly = false)
    (hchain : List.IsChain Definition.IsCopiedBy (first :: links)) :
    ∃ value, outcome.updates.get? first.name = some value ∧
      ∀ link ∈ links, outcome.updates.get? link.name = some value := by
  obtain ⟨value, hvalue⟩ := h.exists_get? (hsub.subset (List.mem_cons_self ..)) hfirst
  refine ⟨value, hvalue, ?_⟩
  induction links generalizing first with
  | nil => exact fun _ hlink => absurd hlink List.not_mem_nil
  | cons copy links ih =>
    obtain ⟨hcopy, hlinks⟩ := List.isChain_cons_cons.mp hchain
    -- The definitions up to the copy hold the first link, and the pass has its value by then.
    obtain ⟨before, after, hsplit, hfirstMem, hafter⟩ := List.cons_sublist_iff.mp hsub
    obtain ⟨middle, later, hmiddle⟩ := List.append_of_mem (hafter.subset (List.mem_cons_self ..))
    have hcopied := h.copied (before ++ middle) copy later first.name
      (by rw [hsplit, hmiddle, List.append_assoc]) hcopy
    have hearlier : first.name ∈ (before ++ middle).map Definition.name :=
      List.mem_map_of_mem (List.mem_append_left _ hfirstMem)
    rw [PassOutcome.CopiesTo, valueSoFar?_of_mem hearlier, hvalue, Option.some_or] at hcopied
    exact List.forall_mem_cons.mpr ⟨hcopied, ih (List.sublist_of_cons_sublist hsub)
      (isLocalOnly_of_copy hcopy) hlinks hcopied⟩

end Consequences

section Runs

/-- A pass without plugins and questions, over definitions of distinct names none of which has a
value, returns. It asks nothing and takes no reply. Every definition has one place in its outcome,
what is to be written overlays the values from before the pass, and copies are made in between: a
chain of them hands on the value of its first link. -/
theorem resolveMissing_places {registry : Registry} {scope : Scope}
    (hplugins : registry.plugins = []) (hscope : scope.interactive = false)
    {definitions : List Definition} (hnodup : (definitions.map Definition.name).Nodup) {pass : Pass}
    (hlacks : ∀ definition ∈ definitions, pass.values.fills definition.name = false) :
    (resolveMissing registry scope {} definitions).EndsIn pass
      (fun outcome after =>
        (after.desk.asked = pass.desk.asked ∧ after.desk.replies = pass.desk.replies) ∧
          outcome.Places pass.values definitions after.values ∧
          (outcome.updates.keys ++ (outcome.skippedRequired ++ outcome.skippedOptional)).Perm
            (definitions.map Definition.name) ∧
          ∀ first links, (first :: links).Sublist definitions → first.isLocalOnly = false →
            List.IsChain Definition.IsCopiedBy (first :: links) →
              ∃ value, outcome.updates.get? first.name = some value ∧
                ∀ link ∈ links, outcome.updates.get? link.name = some value)
      fun _ _ => False := by
  refine (endsIn_unattendedPass hplugins hscope definitions {} pass).mono
    (fun outcome after h => ?_) fun _ _ h => h
  obtain ⟨rfl, rfl⟩ := h
  have hplaces := places_unattendedPass hnodup hlacks
  exact ⟨⟨rfl, rfl⟩, hplaces, hplaces.names_perm, fun _ _ => hplaces.get?_of_chain⟩

/-- Definitions with a chain of copies, a copy of nothing and a variable that is left out. -/
def copyingDefinitions : List Definition := [
  { name := "B", directive := .copy "A" },
  { name := "L", requirement := .required, directive := .localOnly },
  { name := "C", directive := .copy "B" },
  { name := "D", directive := .copy "Z" }]

/-- A pass that knows the value at the start of the chain. -/
def copyingPass : Pass := { values := [("A", "1")] }

/-- The chain delivers the value from before the pass, and the copy of nothing leaves a warning. -/
theorem resolveMissing_places_copying :
    ((copyingDefinitions.map Definition.name).Nodup ∧
      ∀ definition ∈ copyingDefinitions, copyingPass.values.fills definition.name = false) ∧
    ∃ outcome after,
      (resolveMissing {} default {} copyingDefinitions).runFrom copyingPass =
        (.ok outcome, after) ∧
      outcome.skippedRequired = ["L"] ∧
      (outcome.updates.get? "C" = some "1" ∧ outcome.updates.get? "D" = some []) ∧
      notFoundWarning "Z" "D" ∈ outcome.warnings ∧
      after.values = copyingPass.values.putAll outcome.updates := by
  have hnodup : (copyingDefinitions.map Definition.name).Nodup := by decide
  have hlacks : ∀ definition ∈ copyingDefinitions,
      copyingPass.values.fills definition.name = false := by decide
  have hnobody : (default : Scope).interactive = false := rfl
  have hplugins : Registry.plugins {} = [] := rfl
  obtain ⟨outcome, after, hrun, -, hplaces, -, hchain⟩ :=
    (resolveMissing_places hplugins hnobody hnodup hlacks).returns
  obtain ⟨value, hfirst, hlinks⟩ := hchain { name := "B", directive := .copy "A" }
    [{ name := "C", directive := .copy "B" }] (by decide) (by decide)
    (List.isChain_cons_cons.mpr ⟨rfl, .singleton _⟩)
  have horigin : outcome.updates.get? "B" = some "1" := hplaces.copied [] _ _ "A" rfl rfl
  have hcopy : outcome.updates.get? "C" = some value :=
    hlinks _ (List.mem_singleton_self _)
  have hnothing := hplaces.copied (copyingDefinitions.take 3) _ [] "Z" rfl rfl
  rw [horigin] at hfirst
  obtain rfl := Option.some.inj hfirst
  exact ⟨⟨hnodup, hlacks⟩, outcome, after, hrun, hplaces.skippedRequired_eq, ⟨hcopy, hnothing.1⟩,
    hnothing.2, hplaces.values_eq⟩

end Runs
end EnvFiles
