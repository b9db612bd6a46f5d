import EnvFiles.Proofs.Resolution.Unattended
import EnvFiles.Workflow.Sync

/-!
# The values that workspaces share

The shared pass starts from the first value that is not empty of every name, and never takes the
value of a name from a workspace that owns it. It distributes the values of the active shared
variables that have one afterwards. Without plugins and questions these are the variables for
which a workspace that does not own them has a value, and those whose definitions come to one.
-/

namespace EnvFiles

section Shared

/-- The first values come from the values held. -/
theorem forall_mem_firstValues {good : Text × Text → Prop}
    {holdings : List (Member × Table Text Text)}
    (h : ∀ holding ∈ holdings, ∀ entry ∈ holding.2, good entry) :
    ∀ entry ∈ firstValues holdings, good entry := by
  refine List.foldlRecOn (motive := fun found => ∀ entry ∈ found, good entry) holdings _
    (fun _ hmem => absurd hmem List.not_mem_nil) fun found hfound holding hholding => ?_
  refine List.foldlRecOn (motive := fun found => ∀ entry ∈ found, good entry) holding.2 _ hfound
    fun found hfound entry hentry => ?_
  split
  · exact hfound
  · intro other hother
    rcases mem_of_mem_upsert hother with rfl | hother
    · exact h holding hholding entry hentry
    · exact hfound other hother

/-- A value to distribute is the value of a shared name. -/
theorem SharedPass.value?_of_mem_values {pass : SharedPass} {names : List Text}
    {entry : Text × Text} (h : entry ∈ pass.values names) :
    entry.1 ∈ names ∧ pass.value? entry.1 = some entry.2 := by
  obtain ⟨name, hname, heq⟩ := List.mem_filterMap.mp (Table.mem_of_mem_ofEntries h)
  obtain ⟨value, hvalue, rfl⟩ := Option.map_eq_some_iff.mp heq
  exact ⟨hname, hvalue⟩

/-- Each shared name has its value among the values to distribute. -/
theorem SharedPass.get?_values (pass : SharedPass) (names : List Text) (name : Text) :
    (pass.values names).get? name = if name ∈ names then pass.value? name else none := by
  cases hget : (pass.values names).get? name with
  | some value =>
    obtain ⟨hmem, hvalue⟩ := SharedPass.value?_of_mem_values (Table.mem_of_get? hget)
    rw [if_pos hmem, hvalue]
  | none =>
    split
    · rename_i hmem
      cases hvalue : pass.value? name with
      | none => rfl
      | some value =>
        refine absurd ?_ (Table.get?_eq_none_iff.mp hget)
        rw [SharedPass.values, Table.keys_ofEntries, mem_firstOccurrences]
        have hentry : (name, value) ∈ names.filterMap fun name =>
            (pass.value? name).map fun value => (name, value) :=
          List.mem_filterMap.mpr ⟨name, hmem, by rw [hvalue]; rfl⟩
        exact List.mem_map_of_mem hentry
    · rfl

/-- The value of a shared name was there, or the pass came to it. -/
theorem SharedPass.mem_of_value? {pass : SharedPass} {name value : Text}
    (h : pass.value? name = some value) :
    (name, value) ∈ pass.outcome.updates ∨ (name, value) ∈ pass.existing := by
  unfold SharedPass.value? at h
  split at h
  · exact Or.inl (Table.mem_of_get? h)
  · split at h
    · exact Or.inr (Table.mem_of_get? h)
    · cases h

/-- The values that a shared pass distributes are updates. -/
theorem SharedPass.plainUpdates_values {pass : SharedPass} {names : List Text}
    (hnames : ∀ name ∈ names, isName name = true) (hexisting : PlainValues pass.existing)
    (hupdates : PlainValues pass.outcome.updates) : PlainUpdates (pass.values names) := by
  refine ⟨Table.nodup_keys_ofEntries _, fun entry hentry => ?_, fun entry hentry => ?_⟩
  · exact hnames _ (SharedPass.value?_of_mem_values hentry).1
  · rcases SharedPass.mem_of_value? (SharedPass.value?_of_mem_values hentry).2 with hmem | hmem
    · exact hupdates _ hmem
    · exact hexisting _ hmem

end Shared

/-- Values none of which is empty. -/
def OnlyFilled (values : Table Text Text) : Prop := ∀ name, values.has name = values.fills name

section FirstValues

/-- The value of a name that is not empty, entry by entry. -/
theorem filled?_cons (name value : Text) (rest : Table Text Text) (other : Text) :
    Table.filled? ((name, value) :: rest) other =
      if name = other then (if value.isEmpty then none else some value)
      else Table.filled? rest other := by
  rw [Table.filled?, Table.filled?, Table.get?]
  by_cases heq : name = other
  · rw [if_pos heq, if_pos heq]
    cases value <;> rfl
  · rw [if_neg heq, if_neg heq]

/-- What the values of one member add to those found before. -/
theorem get?_foldl_member (member : Member) {held : Table Text Text} (hnodup : held.keys.Nodup)
    (found : Table Text Text) (name : Text) :
    Table.get? (held.foldl (fun found entry =>
      if entry.2.isEmpty || member.owns entry.1 || found.has entry.1 then found
      else found.put entry.1 entry.2) found) name =
      (found.get? name).or (if member.owns name then none else held.filled? name) := by
  induction held generalizing found with
  | nil =>
    have hnone : Table.filled? ([] : Table Text Text) name = none := rfl
    rw [List.foldl_nil, hnone, ite_self, Option.or_none]
  | cons entry rest ih =>
    obtain ⟨key, value⟩ := entry
    simp only [Table.keys, List.map_cons, List.nodup_cons] at hnodup
    obtain ⟨hnew, hrest⟩ := hnodup
    have hnone : Table.filled? rest key = none := by
      rw [Table.filled?, Table.get?_eq_none_iff.mpr hnew]
    rw [List.foldl_cons, ih hrest, filled?_cons]
    by_cases hname : key = name
    · subst hname
      rw [hnone, if_pos rfl]
      by_cases htaken : (value.isEmpty || member.owns key || found.has key) = true
      · rw [if_pos htaken]
        rw [Table.has] at htaken
        revert htaken
        cases value.isEmpty <;> cases member.owns key <;> cases found.get? key <;> simp
      · rw [if_neg htaken, Table.get?_put, if_pos rfl]
        simp only [Bool.or_eq_true, not_or, Bool.not_eq_true, Table.has,
          Option.isSome_eq_false_iff, Option.isNone_iff_eq_none] at htaken
        simp [htaken]
    · rw [if_neg hname]
      split
      · rfl
      · rw [Table.get?_put, if_neg hname]

/-- The first value of a name is the first one that is not empty and that a member holds who does
not own the name. -/
theorem get?_firstValues {holdings : List (Member × Table Text Text)}
    (hnodup : ∀ holding ∈ holdings, holding.2.keys.Nodup) (name : Text) :
    (firstValues holdings).get? name = holdings.findSome? fun holding =>
      if holding.1.owns name then none else holding.2.filled? name := by
  have hall (holdings : List (Member × Table Text Text))
      (hnodup : ∀ holding ∈ holdings, holding.2.keys.Nodup) (found : Table Text Text) :
      Table.get? (holdings.foldl (fun found holding =>
        holding.2.foldl (fun found entry =>
          if entry.2.isEmpty || holding.1.owns entry.1 || found.has entry.1 then found
          else found.put entry.1 entry.2) found) found) name =
        (found.get? name).or (holdings.findSome? fun holding =>
          if holding.1.owns name then none else holding.2.filled? name) := by
    induction holdings generalizing found with
    | nil => exact (Option.or_none).symm
    | cons holding rest ih =>
      obtain ⟨hfirst, hrest⟩ := List.forall_mem_cons.mp hnodup
      rw [List.foldl_cons, ih hrest, get?_foldl_member holding.1 hfirst, List.findSome?_cons,
        Option.or_assoc]
      congr 1
      cases (if holding.1.owns name then none else holding.2.filled? name) <;> rfl
  exact (hall holdings hnodup []).trans Option.none_or

/-- No first value is empty. -/
theorem filled?_firstValues {holdings : List (Member × Table Text Text)}
    (hnodup : ∀ holding ∈ holdings, holding.2.keys.Nodup) (name : Text) :
    (firstValues holdings).filled? name = (firstValues holdings).get? name := by
  cases hget : (firstValues holdings).get? name with
  | none => rw [Table.filled?, hget]
  | some value =>
    refine Table.filled?_eq_some_iff.mpr ⟨hget, ?_⟩
    rw [get?_firstValues hnodup] at hget
    obtain ⟨holding, -, hvalue⟩ := List.exists_of_findSome?_eq_some hget
    split at hvalue
    · cases hvalue
    · exact (Table.filled?_eq_some_iff.mp hvalue).2

/-- A name has a first value exactly if a member that does not own it has one. -/
theorem fills_firstValues {holdings : List (Member × Table Text Text)}
    (hnodup : ∀ holding ∈ holdings, holding.2.keys.Nodup) (name : Text) :
    (firstValues holdings).fills name =
      holdings.any fun holding => !holding.1.owns name && holding.2.fills name := by
  rw [Table.fills, filled?_firstValues hnodup, get?_firstValues hnodup, Bool.eq_iff_iff,
    List.findSome?_isSome_iff, List.any_eq_true]
  refine exists_congr fun holding => and_congr_right fun _ => ?_
  cases holding.1.owns name <;> simp [Table.fills]

end FirstValues

/-- Whether a name is that of an active variable. -/
def declaresActive (definitions : List Definition) (name : Text) : Bool :=
  definitions.any fun definition => definition.isActive && definition.name == name

/-- Whether a shared pass distributes a name, given the values that were there: an active variable
has it, and a scan fills it. -/
def distributes (definitions : List Definition) (existing : Table Text Text) (name : Text) : Bool :=
  declaresActive definitions name && fillAll definitions existing.fills name

/-- Searching for a name among active variables whose names are as given. -/
theorem any_filter_name (definitions : List Definition) (good : Text → Bool) (name : Text) :
    ((definitions.filter fun definition => definition.isActive && good definition.name).any
      fun definition => definition.name == name) =
        (declaresActive definitions name && good name) := by
  rw [Bool.eq_iff_iff]
  simp only [declaresActive, List.any_eq_true, List.mem_filter, Bool.and_eq_true, beq_iff_eq]
  constructor
  · rintro ⟨definition, ⟨hmem, hactive, hgood⟩, rfl⟩
    exact ⟨⟨definition, hmem, hactive, rfl⟩, hgood⟩
  · rintro ⟨⟨definition, hmem, hactive, rfl⟩, hgood⟩
    exact ⟨definition, ⟨hmem, hactive, hgood⟩, rfl⟩

/-- A shared pass that compared the definitions with the values that were there. -/
structure SharedPass.Compares (pass : SharedPass) (definitions : List Definition) : Prop where
  missing : pass.comparison.missing = missingFrom definitions pass.existing
  valid : pass.comparison.valid =
    definitions.filter fun definition => definition.isActive && pass.existing.fills definition.name

section Compares

variable {pass : SharedPass} {definitions : List Definition}

/-- A missing variable is found exactly if the updates fill it. -/
theorem SharedPass.Compares.any_found (h : pass.Compares definitions) (name : Text) :
    (pass.found.any fun definition => definition.name == name) =
      (declaresActive definitions name &&
        (!pass.existing.fills name && pass.outcome.updates.fills name)) := by
  rw [← any_filter_name definitions fun name =>
    !pass.existing.fills name && pass.outcome.updates.fills name, SharedPass.found, h.missing,
    missingFrom, List.filter_filter]
  refine congrArg (List.any · _) (List.filter_congr fun definition _ => ?_)
  rw [Bool.and_comm, Bool.and_assoc]

/-- An active variable is valid exactly if its name has a value already. -/
theorem SharedPass.Compares.any_valid (h : pass.Compares definitions) (name : Text) :
    (pass.comparison.valid.any fun definition => definition.name == name) =
      (declaresActive definitions name && pass.existing.fills name) := by
  rw [h.valid]
  exact any_filter_name definitions pass.existing.fills name

/-- The value that a pass has for the name of an active variable is the one that was there, or the
one of its updates, if it is not empty. -/
theorem SharedPass.Compares.value?_eq (h : pass.Compares definitions) (name : Text) :
    pass.value? name =
      if declaresActive definitions name then
        (pass.existing.filled? name).or (pass.outcome.updates.filled? name)
      else none := by
  have hfilled (table : Table Text Text) (hfills : table.fills name = true) :
      table.get? name = table.filled? name := by
    obtain ⟨value, hvalue⟩ := Option.isSome_iff_exists.mp hfills
    rw [hvalue, (Table.filled?_eq_some_iff.mp hvalue).1]
  have hnone (table : Table Text Text) (hfills : table.fills name = false) :
      table.filled? name = none := Option.not_isSome_iff_eq_none.mp (by simpa [Table.fills] using hfills)
  rw [SharedPass.value?, h.any_found, h.any_valid]
  cases declaresActive definitions name with
  | false => rfl
  | true =>
    cases hfills : pass.existing.fills name with
    | true =>
      obtain ⟨value, hvalue⟩ := Option.isSome_iff_exists.mp hfills
      simp [hfilled _ hfills, hvalue]
    | false =>
      cases hupdates : pass.outcome.updates.fills name with
      | true => simp [hnone _ hfills, hfilled _ hupdates]
      | false => simp [hnone _ hfills, hnone _ hupdates]

/-- A pass has a value exactly for the names of active variables that were there or that its
updates fill, and none of these is empty. -/
theorem SharedPass.Compares.value? (h : pass.Compares definitions) (name : Text) :
    (pass.value? name).isSome = (declaresActive definitions name &&
        (pass.existing.fills name || pass.outcome.updates.fills name)) ∧
      ∀ value, pass.value? name = some value → value ≠ [] := by
  rw [h.value?_eq]
  cases declaresActive definitions name with
  | false => exact ⟨rfl, fun _ hvalue => by cases hvalue⟩
  | true =>
    refine ⟨by simp [Table.fills], fun value hvalue => ?_⟩
    rcases Option.or_eq_some_iff.mp hvalue with hvalue | ⟨-, hvalue⟩
    · exact (Table.filled?_eq_some_iff.mp hvalue).2
    · exact (Table.filled?_eq_some_iff.mp hvalue).2

/-- The values that a pass distributes are those that it has, and none of them is empty. -/
theorem SharedPass.Compares.fills_values (h : pass.Compares definitions) :
    OnlyFilled (pass.values (definitions.map Definition.name)) ∧ ∀ name,
      (pass.values (definitions.map Definition.name)).fills name =
        (declaresActive definitions name &&
          (pass.existing.fills name || pass.outcome.updates.fills name)) := by
  have hboth (name : Text) :
      (pass.values (definitions.map Definition.name)).has name = (pass.value? name).isSome ∧
        (pass.values (definitions.map Definition.name)).fills name =
          (pass.value? name).isSome := by
    obtain ⟨hsome, hne⟩ := h.value? name
    rw [Table.fills_eq, Table.has, SharedPass.get?_values]
    split
    · cases hvalue : pass.value? name with
      | none => exact ⟨rfl, rfl⟩
      | some value => simpa using hne value hvalue
    · rename_i hname
      have hinactive : declaresActive definitions name = false := by
        rw [declaresActive, List.any_eq_false]
        intro definition hmem hactive
        rw [Bool.and_eq_true, beq_iff_eq] at hactive
        exact hname (hactive.2 ▸ List.mem_map_of_mem hmem)
      rw [hsome, hinactive]
      exact ⟨rfl, rfl⟩
  exact ⟨fun name => (hboth name).1.trans (hboth name).2.symm,
    fun name => (hboth name).2.trans (h.value? name).1⟩

/-- The values that a pass distributes can be updates of any file. -/
theorem SharedPass.plainUpdates_of_usable (hsound : ∀ definition ∈ definitions, definition.Sound)
    (hexisting : UsableValues pass.existing) (hupdates : UsableValues pass.outcome.updates) :
    PlainUpdates (pass.values (definitions.map Definition.name)) ∧
      UsableValues (pass.values (definitions.map Definition.name)) := by
  refine ⟨SharedPass.plainUpdates_values (fun name hname => ?_)
    (fun entry hentry => (hexisting entry hentry).isOneLine)
    fun entry hentry => (hupdates entry hentry).isOneLine, fun entry hentry => ?_⟩
  · obtain ⟨definition, hmem, rfl⟩ := List.mem_map.mp hname
    exact (hsound definition hmem).isName_name
  · rcases SharedPass.mem_of_value? (SharedPass.value?_of_mem_values hentry).2 with hmem | hmem
    · exact hupdates _ hmem
    · exact hexisting _ hmem

end Compares

/-- A shared pass without plugins and questions. -/
structure SharedPass.Scans (pass : SharedPass) (definitions : List Definition) : Prop where
  missing : pass.comparison.missing = missingFrom definitions pass.existing
  valid : pass.comparison.valid =
    definitions.filter fun definition => definition.isActive && pass.existing.fills definition.name
  completes : Completes definitions pass.existing pass.outcome.updates
  usable : UsableValues pass.existing

section Scans

variable {pass : SharedPass} {definitions : List Definition}

/-- A pass that scans compares. -/
theorem SharedPass.Scans.compares (h : pass.Scans definitions) : pass.Compares definitions :=
  ⟨h.missing, h.valid⟩

/-- A name without a value is filled by a scan exactly if the updates fill it. -/
theorem SharedPass.Scans.fills_updates (h : pass.Scans definitions) {name : Text}
    (hlacks : pass.existing.fills name = false) :
    pass.outcome.updates.fills name = fillAll definitions pass.existing.fills name := by
  rw [← h.completes.fills, hlacks]
  cases hhas : pass.outcome.updates.has name with
  | true => rfl
  | false =>
    rw [if_neg Bool.false_ne_true]
    by_contra hfills
    rw [Table.has_of_fills (Bool.of_not_eq_false hfills)] at hhas
    cases hhas

/-- A pass that scans has a value exactly for the names that it distributes. -/
theorem SharedPass.Scans.fills_values (h : pass.Scans definitions) :
    OnlyFilled (pass.values (definitions.map Definition.name)) ∧ ∀ name,
      (pass.values (definitions.map Definition.name)).fills name =
        distributes definitions pass.existing name := by
  obtain ⟨hfilled, hfills⟩ := h.compares.fills_values
  refine ⟨hfilled, fun name => ?_⟩
  rw [hfills, distributes]
  cases hexisting : pass.existing.fills name with
  | true => rw [fillAll_of_filled definitions hexisting, Bool.true_or]
  | false => rw [← h.fills_updates hexisting, Bool.false_or]

/-- The values that a pass distributes can be updates of any file. -/
theorem SharedPass.Scans.plainUpdates (h : pass.Scans definitions)
    (hsound : ∀ definition ∈ definitions, definition.Sound) :
    PlainUpdates (pass.values (definitions.map Definition.name)) ∧
      UsableValues (pass.values (definitions.map Definition.name)) :=
  SharedPass.plainUpdates_of_usable hsound h.usable h.completes.usable

end Scans

end EnvFiles
