import EnvFiles.Proofs.Workflow.OwnPasses

/-!
# The values that a sync hands out

Without plugins and questions the value that a sync hands out for a shared name is known from what
the paths read as: it is the first value of the members that do not own the name, or else what a
scan of the shared definitions comes to. A file shows the value when it was given it, and no step
of a sync takes a value back.
-/

namespace EnvFiles

variable {σ : Type} {store : Store σ}

section Values

variable {definitions : List Definition} {values : Table Text Text}

/-- The first value of a name that is not empty and that a member holds who does not own it. -/
def firstHeld? (files : Files) (members : List Member) (name : Text) : Option Text :=
  members.findSome? fun member =>
    if member.owns name then none else (valuesOf (files member.valuesPath)).filled? name

/-- The value that a sync hands out for the name of an active shared variable. -/
def handedOut? (files : Files) (root : Schema) (members : List Member) (name : Text) :
    Option Text :=
  if declaresActive root.definitions name then
    (firstHeld? files members name).or
      ((passUpdates root.definitions (firstValues (holdingsIn files members))).filled? name)
  else none

/-- A value is handed out for the name of an active shared variable. -/
theorem exists_of_handedOut? {files : Files} {root : Schema} {members : List Member}
    {name value : Text} (h : handedOut? files root members name = some value) :
    ∃ definition ∈ root.definitions, definition.isActive = true ∧ definition.name = name := by
  have hdeclares : declaresActive root.definitions name = true := by
    by_contra hinactive
    rw [handedOut?, if_neg hinactive] at h
    cases h
  simpa [declaresActive] using hdeclares

/-- The first values of the members, by name; none of them is empty. -/
theorem filled?_firstValues_holdingsIn (files : Files) (members : List Member) (name : Text) :
    (firstValues (holdingsIn files members)).filled? name = firstHeld? files members name := by
  have hnodup : ∀ holding ∈ holdingsIn files members, holding.2.keys.Nodup := by
    intro holding hmem
    obtain ⟨member, -, rfl⟩ := List.mem_map.mp hmem
    exact nodup_keys_valuesOf _
  rw [filled?_firstValues hnodup, get?_firstValues hnodup, holdingsIn, List.findSome?_map]
  rfl

/-- A pass that scans the shared definitions distributes the values that are handed out. -/
theorem SharedPass.Compares.get?_values {pass : SharedPass} {root : Schema}
    (h : pass.Compares root.definitions) {files : Files} {members : List Member}
    (hexisting : pass.existing = firstValues (holdingsIn files members))
    (hupdates : pass.outcome.updates = passUpdates root.definitions pass.existing) (name : Text) :
    (pass.values root.names).get? name = handedOut? files root members name := by
  rw [SharedPass.get?_values, h.value?_eq, hupdates, hexisting, filled?_firstValues_holdingsIn]
  split
  · rfl
  · rename_i hname
    rw [handedOut?, if_neg fun hactive => hname (mem_names_of_declaresActive hactive)]

/-- A scan comes to values on one line, for names of missing variables. -/
theorem supplies_passUpdates (hsound : ∀ definition ∈ definitions, definition.Sound)
    (hvalues : PlainValues values) :
    (unattendedPass values {} (missingFrom definitions values)).2.Supplies
      ((missingFrom definitions values).map Definition.name) := by
  let pass : Pass := { values, desk := {} }
  let scope : Scope := RunOptions.scope {} default
  let registry : Registry := {}
  have hregistry : registry.PlainSupplies := plainSupplies_of_nil rfl
  have hpass : pass.Plain := ⟨hvalues, fun _ hreply => absurd hreply List.not_mem_nil⟩
  have hscan : (resolveMissing registry scope {} (missingFrom definitions values)).EndsIn pass
      (fun result after =>
        result = (unattendedPass values {} (missingFrom definitions values)).2 ∧
          after.desk.replies = []) fun _ _ => False :=
    endsIn_resolveMissing_unattended rfl rfl _ {} pass
  have hnothing : PassOutcome.Supplies {} ((missingFrom definitions values).map Definition.name) :=
    ⟨List.nodup_nil, List.nil_subset _, fun _ hmem => absurd hmem List.not_mem_nil⟩
  have hsupplies : (resolveMissing registry scope {} (missingFrom definitions values)).EndsIn pass
      (fun result after =>
        result.Supplies ((missingFrom definitions values).map Definition.name) ∧ after.Plain)
      fun _ _ => True :=
    endsIn_resolveMissing hregistry
      (fun definition hmissing => hsound definition (mem_missingFrom.mp hmissing).1)
      (fun definition hmissing => List.mem_map_of_mem hmissing) hnothing hpass
  obtain ⟨outcome, -, -, ⟨rfl, -⟩, hsupplied, -⟩ :=
    ((hscan.and hsupplies).mono (fun _ _ h => h) fun _ _ h => h.1).returns
  exact hsupplied

/-- A scan of definitions is to write names that have no value in the file. -/
theorem fillsOnly_passUpdates (hsound : ∀ definition ∈ definitions, definition.Sound)
    (content : Content) : FillsOnly content (passUpdates definitions (valuesOf content)) :=
  (supplies_passUpdates hsound fun entry hentry =>
    (usableValues_valuesOf content entry hentry).isOneLine).fillsOnly hsound

end Values

section Contents

/-- The gap after the last equals sign behind a name, which a rewrite keeps. A path that cannot be
read has none. -/
def gapOf : Content → Text → Text
  | .ok text, name => lastGap (text.getD []) name
  | .error _, _ => []

/-- What a path reads as after a tidy file was given updates: names without an update keep their
values, and an update stands behind the gap that was there, unless the name had its value before. -/
structure ContentGiven (updates : Table Text Text) (before after : Content) : Prop where
  tidy : TidyContent after
  get?_of_none : ∀ name, updates.get? name = none →
    (valuesOf after).get? name = (valuesOf before).get? name
  get?_of_some : ∀ name value, updates.get? name = some value →
    (valuesOf before).get? name = some value ∧ (valuesOf after).get? name = some value ∨
      (valuesOf after).get? name = some (Text.trimEnd (gapOf before name ++ value))

variable {updates entries : Table Text Text} {before after : Content}
  {value? : Option Text} {value name : Text}

/-- Where only the changes are written, the others of the updates had their values before. -/
theorem contentGiven_of_changesTo (hnodup : updates.keys.Nodup) (htidy : TidyContent after)
    (hkept : ∀ name, (changesTo (valuesOf before) updates).get? name = none →
      (valuesOf after).get? name = (valuesOf before).get? name)
    (hchanged : ∀ name value, (changesTo (valuesOf before) updates).get? name = some value →
      (valuesOf after).get? name = some (Text.trimEnd (gapOf before name ++ value))) :
    ContentGiven updates before after := by
  have hget := get?_changesTo hnodup (valuesOf before)
  refine ⟨htidy, fun name hname => hkept name ?_, fun name value hname => ?_⟩
  · rw [hget, hname, ite_self]
  · by_cases hsame : (valuesOf before).get? name = updates.get? name
    · have hnone : (changesTo (valuesOf before) updates).get? name = none := by
        rw [hget, if_pos hsame]
      rw [hname] at hsame
      exact Or.inl ⟨hsame, (hkept name hnone).trans hsame⟩
    · exact Or.inr (hchanged name value (by rw [hget, if_neg hsame, hname]))

/-- What reads back after a tidy file was written with the changes only. -/
theorem contentGiven_of_readsBack {content : Option Text} {back : Text}
    {schema : List Definition} (htidy : TidyText (content.getD [])) (hupdates : PlainUpdates updates)
    (hschema : PlainDescriptions schema)
    (hback : ReadsBack (rewriteValues (readValues (content.getD []))
      (changesTo (readValues (content.getD [])).values updates) schema) back) :
    ContentGiven updates (.ok content) (.ok (some back)) := by
  have hplain : PlainUpdates (changesTo (readValues (content.getD [])).values updates) :=
    hupdates.filter _
  have hwritten := tidyText_rewriteValues htidy hplain hschema
  obtain ⟨hbackTidy, hvalues⟩ : TidyText back ∧ (readValues back).values =
      (readValues (rewriteValues (readValues (content.getD []))
        (changesTo (readValues (content.getD [])).values updates) schema)).values := by
    rcases hback with rfl | rfl
    · exact ⟨hwritten, rfl⟩
    · exact ⟨hwritten.unifyNewlines, readValues_values_congr (Text.lines_unifyNewlines _)⟩
  refine contentGiven_of_changesTo hupdates.nodup_keys (fun text htext => ?_)
    (fun name hchange => ?_) fun name value hchange => ?_
  · obtain rfl := Except.ok.inj htext
    exact hbackTidy
  · exact (congrArg (Table.get? · name) hvalues).trans
      (get?_rewriteValues_of_none htidy.hasPlainEnds hplain hschema hchange)
  · exact (congrArg (Table.get? · name) hvalues).trans
      (get?_rewriteValues_of_some htidy hplain hschema hchange)

/-- A name with a value has no update where only names without one have. -/
theorem FillsOnly.get?_eq_none {content : Content} (h : FillsOnly content updates)
    (hname : (valuesOf content).fills name = true) : updates.get? name = none := by
  cases hget : updates.get? name with
  | none => rfl
  | some value =>
    cases content with
    | error failure => cases hname
    | ok text =>
      have hlacks := h.lacked text rfl _ (Table.mem_of_get? hget)
      rw [valuesOf] at hname
      rw [hname] at hlacks
      cases hlacks

/-- What a file lacks are updates for names without a value. -/
theorem fillsOnly_lackedBy (hentries : PlainUpdates entries) (content : Content) :
    FillsOnly content (lackedBy (valuesOf content) entries) where
  plain := hentries.filter _
  lacked text htext entry hentry := by
    have hlacks := (List.mem_filter.mp hentry).2
    rwa [htext, valuesOf, Bool.not_eq_true'] at hlacks

/-- A path that holds a value that is not empty. -/
structure Holds (name value : Text) (content : Content) : Prop where
  tidy : TidyContent content
  filled? : (valuesOf content).filled? name = some value

/-- Values that show what was handed out for a name. A reader drops blanks at the end of a value,
and an empty value counts as none. -/
def Shows (value? : Option Text) (name : Text) (values : Table Text Text) : Prop :=
  (values.get? name).getD [] = (value?.map Text.trimEnd).getD []

/-- Values that show a value that is not blank hold it. -/
theorem Shows.get?_of_some {table : Table Text Text} (h : Shows (some value) name table)
    (hne : Text.trimEnd value ≠ []) : table.get? name = some (Text.trimEnd value) := by
  have hshows : (table.get? name).getD [] = Text.trimEnd value := h
  cases hget : table.get? name with
  | none =>
    rw [hget] at hshows
    exact absurd hshows.symm hne
  | some held =>
    rw [hget] at hshows
    exact congrArg some hshows

/-- A path that shows what was handed out. -/
structure Received (value? : Option Text) (name : Text) (content : Content) : Prop where
  tidy : TidyContent content
  shows : Shows value? name (valuesOf content)

/-- A path that shows what was handed out, or has no value and no gap that would stand before
one. -/
structure Awaits (value? : Option Text) (name : Text) (content : Content) : Prop where
  tidy : TidyContent content
  shows_or : Shows value? name (valuesOf content) ∨
    (valuesOf content).fills name = false ∧ gapOf content name = []

/-- A path that shows what was handed out needs no more. -/
theorem Received.awaits (h : Received value? name before) : Awaits value? name before :=
  ⟨h.tidy, Or.inl h.shows⟩

/-- Where nothing was handed out, a path without a value shows that. -/
theorem Awaits.received_of_none (h : Awaits none name before) : Received none name before := by
  refine ⟨h.tidy, h.shows_or.elim id fun hlacks => ?_⟩
  rw [Table.fills_eq] at hlacks
  simpa [Shows] using hlacks.1

/-- A path that shows a value that is not blank holds it. -/
theorem Received.holds (h : Received (some value) name before) (hne : Text.trimEnd value ≠ []) :
    Holds name (Text.trimEnd value) before :=
  ⟨h.tidy, Table.filled?_eq_some_iff.mpr ⟨h.shows.get?_of_some hne, hne⟩⟩

/-- A value that is not empty stays when only names without one are updated. -/
theorem ContentGiven.holds (h : ContentGiven updates before after) (hupdates : FillsOnly before updates)
    (hholds : Holds name value before) : Holds name value after := by
  obtain ⟨hget, hne⟩ := Table.filled?_eq_some_iff.mp hholds.filled?
  have hnone := hupdates.get?_eq_none (Table.fills_iff.mpr ⟨value, hget, hne⟩)
  exact ⟨h.tidy, Table.filled?_eq_some_iff.mpr ⟨(h.get?_of_none name hnone).trans hget, hne⟩⟩

/-- A path keeps showing a value when the name is not updated. -/
theorem ContentGiven.received_of_none (h : ContentGiven updates before after)
    (hname : updates.get? name = none) (hreceived : Received value? name before) :
    Received value? name after :=
  ⟨h.tidy, (congrArg (Option.getD · []) (h.get?_of_none name hname)).trans hreceived.shows⟩

/-- A path shows what it was given because it lacked it. -/
theorem ContentGiven.received (h : ContentGiven (lackedBy (valuesOf before) entries) before after)
    (hawaits : Awaits (entries.get? name) name before) :
    Received (entries.get? name) name after := by
  have hget := get?_lackedBy (valuesOf before) entries name
  cases hfills : (valuesOf before).fills name with
  | true =>
    rw [hfills, if_pos rfl] at hget
    refine h.received_of_none hget ⟨hawaits.tidy, hawaits.shows_or.resolve_right fun hlacks => ?_⟩
    rw [hfills] at hlacks
    cases hlacks.1
  | false =>
    rw [hfills, if_neg Bool.false_ne_true] at hget
    have hempty : ((valuesOf before).get? name).getD [] = [] := by
      rw [Table.fills_eq] at hfills
      simpa using hfills
    cases hentry : entries.get? name with
    | none =>
      rw [hentry] at hget hawaits
      exact h.received_of_none hget hawaits.received_of_none
    | some value =>
      rw [hentry] at hget hawaits
      refine ⟨h.tidy, ?_⟩
      rcases h.get?_of_some name value hget with ⟨hbefore, hafter⟩ | hafter
      · -- The file had the value, so it is empty.
        rw [hbefore] at hempty
        obtain rfl : value = [] := hempty
        rw [Shows, hafter]
        rfl
      · rw [Shows, hafter]
        rcases hawaits.shows_or with hshows | ⟨-, hgap⟩
        · -- What the file shows is blank, and stays so behind any gap.
          have hblank : Text.trimEnd value = [] := hshows.symm.trans hempty
          have hgap : Text.trimEnd (gapOf before name) = [] := by
            cases before with
            | error failure => rfl
            | ok text => exact trimEnd_lastGap _ _
          simp [Text.trimEnd_append, hblank, hgap]
        · rw [hgap]
          rfl

end Contents

end EnvFiles
