import EnvFiles.Proofs.Comparison
import EnvFiles.Proofs.Modes

/-!
# Canonical values are modes and overrides are the rest

The value that is counted most often is the first mode of the values a name is given. A name that
is listed several times has all its counts multiplied alike, which changes no mode. So of the
workspaces that give a shared name a value, those without an override form a largest group of equal
values.
-/

namespace EnvFiles

section Counting

variable {names : List Text} {workspaces : List (Table Text Text)} {values : Table Text Text}
  {counts : Table Text (Table Text Nat)} {name : Text}

/-- The most frequent of some items with positive scores is the first one with the greatest
score. -/
theorem mostFrequent_map {score : Text → Nat} {items : List Text}
    (h : ∀ item ∈ items, 0 < score item) :
    mostFrequent (items.map fun item => (item, score item)) =
      (items.argmax score).elim ([], 0) fun item => (item, score item) := by
  induction items using List.reverseRecOn with
  | nil => rfl
  | append_singleton items last ih =>
    have hrest := ih fun item hitem => h item (List.mem_append_left _ hitem)
    rw [mostFrequent] at hrest ⊢
    rw [List.map_append, List.map_singleton, List.foldl_concat, hrest, List.argmax_concat]
    cases items.argmax score with
    | none => simp [h last (by simp)]
    | some best => by_cases hlast : score best < score last <;> simp [hlast]

/-- The most frequent of the counted values is their first mode. -/
theorem mostFrequent_tally (values : List Text) :
    (mostFrequent (tally values)).1 = (firstMode? values).getD [] := by
  rw [tally_eq, mostFrequent_map fun value hvalue => count_pos_of_mem_firstOccurrences hvalue,
    argmax_firstOccurrences]
  cases hmode : firstMode? values <;> rw [firstMode?] at hmode <;> rw [hmode] <;> rfl

/-- The values of a name that are not empty, in workspace order. -/
def heldValues (workspaces : List (Table Text Text)) (name : Text) : List Text :=
  workspaces.filterMap fun values => values.filled? name

/-- Counting a value of a name that has counts adds no name. -/
theorem keys_countHeld (values : Table Text Text) (hname : name ∈ counts.keys) :
    (countHeld values counts name).keys = counts.keys := by
  rw [countHeld]
  split
  · rw [Table.keys_put, if_pos hname]
  · rfl

/-- Counting the values of one workspace adds no name. -/
theorem keys_foldl_countHeld (values : Table Text Text)
    (hnames : ∀ name ∈ names, name ∈ counts.keys) :
    (names.foldl (countHeld values) counts).keys = counts.keys := by
  induction names generalizing counts with
  | nil => rfl
  | cons first rest ih =>
    have hkeys := keys_countHeld values (hnames first (by simp))
    rw [List.foldl_cons, ih fun name hname => hkeys ▸ hnames name (List.mem_cons_of_mem _ hname),
      hkeys]

/-- The names that have counts are the shared ones. -/
theorem keys_countShared (names : List Text) (workspaces : List (Table Text Text)) :
    (countShared names workspaces).keys = firstOccurrences names := by
  induction workspaces using List.reverseRecOn with
  | nil =>
    rw [countShared, List.foldl_nil, Table.keys_ofEntries, List.map_map]
    exact congrArg firstOccurrences (List.map_id' names)
  | append_singleton workspaces last ih =>
    rw [countShared] at ih ⊢
    rw [List.foldl_concat, keys_foldl_countHeld last fun name hname => ?_, ih]
    rw [ih]
    exact mem_firstOccurrences.mpr hname

/-- One workspace adds its value of a name as often as the name is listed. -/
theorem get?_foldl_countHeld {before : List Text} (h : counts.get? name = some (tally before)) :
    (names.foldl (countHeld values) counts).get? name =
      some (tally (before ++ repeatEach (names.count name) (values.filled? name).toList)) := by
  induction names generalizing counts before with
  | nil => rwa [List.count_nil, repeatEach_zero, List.append_nil]
  | cons first rest ih =>
    rw [List.foldl_cons]
    by_cases hfirst : first = name
    · subst hfirst
      rw [List.count_cons_self]
      cases hvalue : values.filled? first with
      | none =>
        have hsame : countHeld values counts first = counts := by rw [countHeld, hvalue]
        rw [hsame, ih h, hvalue]
        rfl
      | some value =>
        have hcounted : (countHeld values counts first).get? first =
            some (tally (before ++ [value])) := by
          rw [countHeld, hvalue, Table.get?_put, if_pos rfl, h, tally_concat]
          rfl
        rw [ih hcounted, hvalue, Option.toList_some, repeatEach_singleton, repeatEach_singleton,
          List.append_assoc, List.replicate_succ, List.singleton_append]
    · have hsame : (countHeld values counts first).get? name = counts.get? name := by
        rw [countHeld]
        split
        · rw [Table.get?_put, if_neg hfirst]
        · rfl
      rw [ih (hsame.trans h), List.count_cons_of_ne hfirst]

/-- The counts of a shared name are those of the values it is given, each as often as the name is
listed. -/
theorem get?_countShared (hname : name ∈ names) :
    (countShared names workspaces).get? name =
      some (tally (repeatEach (names.count name) (heldValues workspaces name))) := by
  induction workspaces using List.reverseRecOn with
  | nil =>
    refine (Table.get?_ofEntries_eq_some_iff ?_).mpr (List.mem_map_of_mem hname)
    simp only [List.mem_map, forall_exists_index, and_imp]
    rintro _ _ _ rfl _ _ _ rfl _
    rfl
  | append_singleton workspaces last ih =>
    rw [countShared] at ih ⊢
    rw [List.foldl_concat, get?_foldl_countHeld ih, ← repeatEach_append, heldValues, heldValues,
      List.filterMap_append]
    cases hvalue : last.filled? name <;> simp [hvalue]

/-- What a workspace gives a name is held. -/
theorem mem_heldValues {value : Text} : value ∈ heldValues workspaces name ↔
    ∃ values ∈ workspaces, values.filled? name = some value := by
  rw [heldValues, List.mem_filterMap]

/-- The canonical value of a name is the most frequent of its counted values. -/
theorem get?_canonicalValues_eq_bind (names : List Text) (workspaces : List (Table Text Text))
    (name : Text) :
    (canonicalValues names workspaces).get? name =
      ((countShared names workspaces).get? name).bind fun counts =>
        if (mostFrequent counts).1.isEmpty then none else some (mostFrequent counts).1 := by
  have hnodup : (countShared names workspaces).keys.Nodup :=
    keys_countShared names workspaces ▸ nodup_firstOccurrences names
  rw [canonicalValues, Table.get?_filterMap_of_nodup ?_ hnodup]
  · congr 1
    funext counts
    dsimp only
    split <;> rfl
  · rintro ⟨first, counts⟩ found hfound
    simp only [Option.ite_none_left_eq_some, Option.some.injEq] at hfound
    rw [← hfound.2]

/-- The canonical value of a shared name is the first mode of the values that it is given. -/
theorem get?_canonicalValues (hname : name ∈ names) :
    (canonicalValues names workspaces).get? name = firstMode? (heldValues workspaces name) := by
  rw [get?_canonicalValues_eq_bind, get?_countShared hname, Option.bind_some, mostFrequent_tally,
    firstMode?_repeatEach (List.count_pos_iff.mpr hname)]
  cases hmode : firstMode? (heldValues workspaces name) with
  | none => rfl
  | some mode =>
    obtain ⟨values, -, hvalue⟩ := mem_heldValues.mp (firstMode?_eq_some_iff.mp hmode).mem
    simp [(Table.filled?_eq_some_iff.mp hvalue).2]

/-- No other name has a canonical value. -/
theorem get?_canonicalValues_of_notMem (hname : name ∉ names) :
    (canonicalValues names workspaces).get? name = none := by
  have hcounts : (countShared names workspaces).get? name = none := by
    rw [Table.get?_eq_none_iff, keys_countShared, mem_firstOccurrences]
    exact hname
  rw [get?_canonicalValues_eq_bind, hcounts, Option.bind_none]

/-- A name has the canonical value that is the first mode of the values it is given, if it is
shared. -/
theorem get?_canonicalValues_eq_some_iff {value : Text} :
    (canonicalValues names workspaces).get? name = some value ↔
      name ∈ names ∧ IsFirstMode (heldValues workspaces name) value := by
  by_cases hname : name ∈ names
  · rw [get?_canonicalValues hname, firstMode?_eq_some_iff, and_iff_right hname]
  · simp [get?_canonicalValues_of_notMem hname, hname]

/-- A name has a canonical value exactly if it is shared and some workspace gives it a value that
is not empty. -/
theorem has_canonicalValues :
    (canonicalValues names workspaces).has name = true ↔
      name ∈ names ∧ ∃ values ∈ workspaces, values.fills name = true := by
  simp only [Table.has_iff, Table.fills, Option.isSome_iff_exists]
  constructor
  · rintro ⟨value, hvalue⟩
    obtain ⟨hname, hmode⟩ := get?_canonicalValues_eq_some_iff.mp hvalue
    obtain ⟨values, hvalues, hheld⟩ := mem_heldValues.mp hmode.mem
    exact ⟨hname, values, hvalues, value, hheld⟩
  · rintro ⟨hname, values, hvalues, value, hheld⟩
    rw [get?_canonicalValues hname]
    have hmem := mem_heldValues.mpr ⟨values, hvalues, hheld⟩
    exact exists_firstMode?_iff.mpr (List.ne_nil_of_mem hmem)

end Counting

section Participants

/-- A workspace with the schema and the values by which it is compared. -/
structure Participant where
  workspace : Workspace
  schema : List Definition
  values : Table Text Text

/-- A participant declares a name if one of its definitions that is not deprecated has it. -/
def Participant.Declares (participant : Participant) (name : Text) : Prop :=
  ∃ definition ∈ participant.schema,
    definition.requirement ≠ .deprecated ∧ definition.name = name

instance (participant : Participant) (name : Text) : Decidable (participant.Declares name) :=
  inferInstanceAs (Decidable (∃ definition ∈ participant.schema,
    definition.requirement ≠ .deprecated ∧ definition.name = name))

/-- The canonical values of some participants. -/
def canonicalAmong (names : List Text) (participants : List Participant) : Table Text Text :=
  canonicalValues names (participants.map Participant.values)

/-- The overrides that a participant reports against the canonical values of all. -/
def overridesAmong (names : List Text) (participants : List Participant)
    (participant : Participant) : Table Text Text :=
  (compare participant.schema participant.values participant.workspace
    (some (canonicalAmong names participants)) names).overrides

/-- The overrides of a name tell the participants that hold its canonical value from the rest. -/
structure OverridesSplit (participants : List Participant) (canonical : Option Text)
    (reported? : Participant → Option Text) (name : Text) : Prop where
  /-- A participant reports its own value, unless that is empty or the canonical one. -/
  reported_iff : ∀ participant ∈ participants, ∀ value, reported? participant = some value ↔
    participant.values.filled? name = some value ∧ canonical ≠ some value
  /-- Those with a value and without an override are those that hold the canonical value. -/
  unreported_iff : ∀ participant ∈ participants,
    participant.values.fills name = true ∧ reported? participant = none ↔
      ∃ value, canonical = some value ∧ participant.values.filled? name = some value
  /-- No more participants hold any one value. -/
  largest : ∀ value,
    (participants.countP fun participant => participant.values.filled? name = some value) ≤
      participants.countP fun participant =>
        participant.values.fills name && (reported? participant).isNone
  /-- Where all values are equal no participant reports an override. -/
  identical : (∀ first ∈ participants, ∀ second ∈ participants,
    first.values.fills name = true → second.values.fills name = true →
      first.values.filled? name = second.values.filled? name) →
    ∀ participant ∈ participants, reported? participant = none
  /-- Where all but one of at least three values are equal only the odd one is reported. -/
  odd : ∀ before odd after value,
    (participants.filter fun participant => participant.values.fills name) =
      before ++ odd :: after →
    2 ≤ (before ++ after).length →
    (∀ participant ∈ before ++ after, participant.values.filled? name = some value) →
    odd.values.filled? name ≠ some value →
    reported? odd = odd.values.filled? name ∧
      ∀ participant ∈ before ++ after, reported? participant = none

variable {names : List Text} {participants : List Participant} {name : Text}

/-- A shared name that a participant gives a value has a canonical value, which is the first
mode. -/
theorem exists_canonicalAmong {participant : Participant} (hname : name ∈ names)
    (hmem : participant ∈ participants) (hfills : participant.values.fills name = true) :
    ∃ mode, (canonicalAmong names participants).get? name = some mode ∧
      IsFirstMode (heldValues (participants.map Participant.values) name) mode := by
  have hhas : (canonicalAmong names participants).has name = true :=
    has_canonicalValues.mpr ⟨hname, participant.values, List.mem_map_of_mem hmem, hfills⟩
  obtain ⟨mode, hmode⟩ := Table.has_iff.mp hhas
  exact ⟨mode, hmode, (get?_canonicalValues_eq_some_iff.mp hmode).2⟩

/-- A participant that declares a shared name reports its value if that is neither empty nor
canonical. -/
theorem get?_overridesAmong {participant : Participant} (hname : name ∈ names)
    (hmem : participant ∈ participants) (hdeclares : participant.Declares name) (value : Text) :
    (overridesAmong names participants participant).get? name = some value ↔
      participant.values.filled? name = some value ∧
        (canonicalAmong names participants).get? name ≠ some value := by
  have hactive : ∃ definition ∈ participant.schema,
      definition.isActive = true ∧ definition.name = name := by
    simpa only [Participant.Declares, Definition.isActive, decide_eq_true_eq] using hdeclares
  rw [overridesAmong, get?_overrides_compare, and_iff_right hactive, and_iff_right hname]
  refine and_congr_right fun hvalue => ?_
  obtain ⟨mode, hmode, -⟩ := exists_canonicalAmong hname hmem (Table.fills_of_filled? hvalue)
  simp [hmode]

/-- As many participants hold a value as it occurs among the values that are held. -/
theorem countP_filled? (participants : List Participant) (name value : Text) :
    (participants.countP fun participant => participant.values.filled? name = some value) =
      (heldValues (participants.map Participant.values) name).countP fun held => held = value := by
  rw [heldValues, List.countP_filterMap, List.countP_map]
  refine List.countP_congr fun participant _ => ?_
  simp only [Function.comp_apply]
  cases participant.values.filled? name <;> simp

/-- The values that are held are those of the participants with a value. -/
theorem heldValues_eq_map_filter (participants : List Participant) (name : Text) :
    heldValues (participants.map Participant.values) name =
      (participants.filter fun participant => participant.values.fills name).map
        fun participant => (participant.values.filled? name).getD [] := by
  induction participants with
  | nil => rfl
  | cons first rest ih =>
    rw [heldValues] at ih ⊢
    cases hvalue : first.values.filled? name with
    | none => simp [hvalue, ih, Table.fills]
    | some value => simp [hvalue, ih, Table.fills]

variable (hname : name ∈ names) (hdeclare : ∀ participant ∈ participants, participant.Declares name)

include hname hdeclare in
/-- The participants with a value and without an override are those with the canonical value. -/
theorem unreported_overridesAmong {participant : Participant} (hmem : participant ∈ participants) :
    participant.values.fills name = true ∧
        (overridesAmong names participants participant).get? name = none ↔
      ∃ value, (canonicalAmong names participants).get? name = some value ∧
        participant.values.filled? name = some value := by
  have hreported := get?_overridesAmong hname hmem (hdeclare participant hmem)
  rw [Table.fills, Option.isSome_iff_exists, Option.eq_none_iff_forall_ne_some]
  constructor
  · rintro ⟨⟨value, hvalue⟩, hnone⟩
    refine ⟨value, ?_, hvalue⟩
    by_contra hcanonical
    exact hnone value ((hreported value).mpr ⟨hvalue, hcanonical⟩)
  · rintro ⟨value, hcanonical, hvalue⟩
    refine ⟨⟨value, hvalue⟩, fun other hother => ?_⟩
    obtain ⟨hheld, hdiffers⟩ := (hreported other).mp hother
    exact hdiffers (hcanonical.trans (hvalue.symm.trans hheld))

include hname hdeclare in
/-- No value is held by more participants than have a value and no override. -/
theorem largest_overridesAmong (value : Text) :
    (participants.countP fun participant => participant.values.filled? name = some value) ≤
      participants.countP fun participant => participant.values.fills name &&
        ((overridesAmong names participants participant).get? name).isNone := by
  cases hcanonical : (canonicalAmong names participants).get? name with
  | none =>
    rw [List.countP_eq_zero.mpr fun participant hmem hvalue => ?_]
    · exact Nat.zero_le _
    · have hfills := Table.fills_of_filled? (of_decide_eq_true hvalue)
      obtain ⟨mode, hmode, -⟩ := exists_canonicalAmong hname hmem hfills
      cases hcanonical.symm.trans hmode
  | some mode =>
    calc (participants.countP fun participant => participant.values.filled? name = some value)
      _ = (heldValues (participants.map Participant.values) name).countP
            fun held => held = value := countP_filled? participants name value
      _ ≤ (heldValues (participants.map Participant.values) name).countP
            fun held => held = mode :=
          (get?_canonicalValues_eq_some_iff.mp hcanonical).2.countP_le value
      _ = participants.countP fun participant => participant.values.filled? name = some mode :=
          (countP_filled? participants name mode).symm
      _ = participants.countP fun participant => participant.values.fills name &&
            ((overridesAmong names participants participant).get? name).isNone := by
          refine List.countP_congr fun participant hmem => ?_
          have hunreported := unreported_overridesAmong hname hdeclare hmem
          simp only [hcanonical, Option.some.injEq, exists_eq_left'] at hunreported
          simp only [Bool.and_eq_true, Option.isNone_iff_eq_none, hunreported, decide_eq_true_eq]

include hname hdeclare in
/-- Participants with equal values report no override. -/
theorem identical_overridesAmong
    (hsame : ∀ first ∈ participants, ∀ second ∈ participants,
      first.values.fills name = true → second.values.fills name = true →
        first.values.filled? name = second.values.filled? name)
    {participant : Participant} (hmem : participant ∈ participants) :
    (overridesAmong names participants participant).get? name = none := by
  refine Option.eq_none_iff_forall_ne_some.mpr fun value hvalue => ?_
  obtain ⟨hheld, hdiffers⟩ :=
    (get?_overridesAmong hname hmem (hdeclare participant hmem) value).mp hvalue
  have hfills := Table.fills_of_filled? hheld
  obtain ⟨mode, hmode, hfirst⟩ := exists_canonicalAmong hname hmem hfills
  obtain ⟨values, hvalues, hother⟩ := mem_heldValues.mp hfirst.mem
  obtain ⟨other, hothermem, rfl⟩ := List.mem_map.mp hvalues
  have hequal := hsame other hothermem participant hmem (Table.fills_of_filled? hother) hfills
  exact hdiffers (hmode.trans (hother.symm.trans (hequal.trans hheld)))

include hname hdeclare in
/-- If all but one of at least three values are equal, only the odd one is reported. -/
theorem odd_overridesAmong {before after : List Participant} {odd : Participant} {value : Text}
    (hfilter : (participants.filter fun participant => participant.values.fills name) =
      before ++ odd :: after)
    (hlength : 2 ≤ (before ++ after).length)
    (hvalue : ∀ participant ∈ before ++ after, participant.values.filled? name = some value)
    (hodd : odd.values.filled? name ≠ some value) :
    (overridesAmong names participants odd).get? name = odd.values.filled? name ∧
      ∀ participant ∈ before ++ after,
        (overridesAmong names participants participant).get? name = none := by
  have hmem (participant : Participant) (h : participant ∈ before ++ odd :: after) :
      participant ∈ participants ∧ participant.values.fills name = true :=
    List.mem_filter.mp (hfilter ▸ h)
  obtain ⟨hoddmem, hoddfills⟩ := hmem odd (by simp)
  obtain ⟨mode, hmode, hfirst⟩ := exists_canonicalAmong hname hoddmem hoddfills
  obtain rfl : mode = value := by
    rw [heldValues_eq_map_filter, hfilter, List.map_append, List.map_cons] at hfirst
    refine hfirst.eq_of_but_one (by simpa using hlength) fun item hitem => ?_
    rw [← List.map_append] at hitem
    obtain ⟨participant, hparticipant, rfl⟩ := List.mem_map.mp hitem
    rw [hvalue participant hparticipant, Option.getD_some]
  constructor
  · obtain ⟨own, hown⟩ := Option.isSome_iff_exists.mp hoddfills
    rw [hown, get?_overridesAmong hname hoddmem (hdeclare odd hoddmem) own, hmode, ← hown]
    exact ⟨rfl, hodd.symm⟩
  · intro participant hparticipant
    have hholder := (hmem participant (by grind)).1
    exact ((unreported_overridesAmong hname hdeclare hholder).mpr
      ⟨mode, hmode, hvalue participant hparticipant⟩).2

include hname hdeclare in
/-- The overrides of a shared name that all participants declare tell those with its canonical value
from the rest. -/
theorem overridesSplit_overridesAmong :
    OverridesSplit participants ((canonicalAmong names participants).get? name)
      (fun participant => (overridesAmong names participants participant).get? name) name where
  reported_iff participant hmem := get?_overridesAmong hname hmem (hdeclare participant hmem)
  unreported_iff _ hmem := unreported_overridesAmong hname hdeclare hmem
  largest := largest_overridesAmong hname hdeclare
  identical hsame _ hmem := identical_overridesAmong hname hdeclare hsame hmem
  odd _ _ _ _ hfilter hlength hvalue hodd :=
    odd_overridesAmong hname hdeclare hfilter hlength hvalue hodd

end Participants

/-- For every list of shared names and every list of workspaces, a name has a canonical value
exactly if it is shared and some workspace gives it a value that is not empty, and that value is
the first mode of those it is given. When the workspaces are compared against these values, the
overrides of a shared name that all of them declare tell those with its canonical value from the
rest. -/
theorem canonicalValues_split (names : List Text) :
    (∀ (workspaces : List (Table Text Text)) (name : Text),
      ((canonicalValues names workspaces).has name = true ↔
        name ∈ names ∧ ∃ values ∈ workspaces, values.fills name = true) ∧
      ∀ value, (canonicalValues names workspaces).get? name = some value ↔
        name ∈ names ∧ IsFirstMode (heldValues workspaces name) value) ∧
    ∀ (participants : List Participant), ∀ name ∈ names,
      (∀ participant ∈ participants, participant.Declares name) →
        OverridesSplit participants ((canonicalAmong names participants).get? name)
          (fun participant => (overridesAmong names participants participant).get? name) name :=
  ⟨fun _ _ => ⟨has_canonicalValues, fun _ => get?_canonicalValues_eq_some_iff⟩,
    fun _ _ hname hdeclare => overridesSplit_overridesAmong hname hdeclare⟩

/-- Two workspaces against one, with an empty value, an absent one, a tie and a name that is listed
twice. -/
theorem canonicalValues_split_odd :
    let names : List Text := ["S", "T", "S"]
    let schema : List Definition := [{ name := "S", requirement := .required }, { name := "T" }]
    let participants : List Participant := [⟨default, schema, [("S", "bar"), ("T", "x")]⟩,
      ⟨default, schema, [("S", "foo"), ("T", "y")]⟩, ⟨default, schema, [("T", ""), ("S", "foo")]⟩,
      ⟨default, schema, [("S", "")]⟩, ⟨default, schema, []⟩]
    (("S" : Text) ∈ names ∧ ∀ participant ∈ participants, participant.Declares "S") ∧
      OverridesSplit participants ((canonicalAmong names participants).get? "S")
        (fun participant => (overridesAmong names participants participant).get? "S") "S" ∧
      canonicalAmong names participants = ([("S", "foo"), ("T", "x")] : Table Text Text) ∧
      participants.map (overridesAmong names participants) =
        ([[("S", "bar")], [("T", "y")], [], [], []] : List (Table Text Text)) := by
  intro names schema participants
  have hname : ("S" : Text) ∈ names := by decide
  have hdeclare : ∀ participant ∈ participants, participant.Declares "S" := by decide
  exact ⟨⟨hname, hdeclare⟩, (canonicalValues_split names).2 participants "S" hname hdeclare,
    by decide, by decide⟩

end EnvFiles
