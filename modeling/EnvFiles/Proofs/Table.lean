import EnvFiles.Table
import Mathlib.Data.List.Induction
import Mathlib.Data.List.Nodup
import Mathlib.Data.List.Perm.Basic

/-!
# Reading tables back

A table built from a list of entries gives each key the value of its last entry and lists the
keys in order of their first one. A key that is put is read back, and no other key is touched.
-/

namespace EnvFiles

/-- One more item is kept when it is new. -/
theorem firstOccurrences_concat {α : Type} [DecidableEq α] (items : List α) (item : α) :
    firstOccurrences (items ++ [item]) =
      if item ∈ firstOccurrences items then firstOccurrences items
      else firstOccurrences items ++ [item] := List.foldl_concat ..

/-- Distinct items come from the list. -/
@[simp]
theorem mem_firstOccurrences {α : Type} [DecidableEq α] {items : List α} {item : α} :
    item ∈ firstOccurrences items ↔ item ∈ items := by
  induction items using List.reverseRecOn with
  | nil => simp [firstOccurrences]
  | append_singleton items last ih =>
    rw [firstOccurrences_concat]
    split
    · rename_i hlast
      rw [ih, List.mem_append, List.mem_singleton]
      refine ⟨Or.inl, fun h => h.elim id ?_⟩
      rintro rfl
      exact ih.mp hlast
    · rw [List.mem_append, ih, List.mem_append]

/-- Going on with the distinct items of a list after those seen before. -/
theorem foldl_firstOccurrences {α : Type} [DecidableEq α] (seen items : List α) :
    items.foldl (fun seen item => if item ∈ seen then seen else seen ++ [item]) seen =
      seen ++ firstOccurrences (items.filter fun item => item ∉ seen) := by
  induction items using List.reverseRecOn with
  | nil => simp [firstOccurrences]
  | append_singleton items item ih =>
    rw [List.foldl_concat, ih, List.filter_append]
    by_cases hseen : item ∈ seen
    · simp [hseen]
    · rw [List.filter_singleton]
      simp only [hseen, not_false_eq_true, decide_true, cond_true]
      rw [firstOccurrences_concat]
      simp only [List.mem_append, hseen, false_or]
      split
      · rfl
      · rw [List.append_assoc]

/-- Distinct items are distinct. -/
theorem nodup_firstOccurrences {α : Type} [DecidableEq α] (items : List α) :
    (firstOccurrences items).Nodup := by
  induction items using List.reverseRecOn with
  | nil => simp [firstOccurrences]
  | append_singleton items last ih =>
    rw [firstOccurrences_concat]
    split
    · exact ih
    · rename_i h
      refine List.nodup_append.mpr ⟨ih, by simp, ?_⟩
      rintro a ha b hb rfl
      exact h (List.mem_singleton.mp hb ▸ ha)

/-- Distinct items come in the order in which the list has them first. -/
theorem pairwise_firstOccurrences {α : Type} [DecidableEq α] [BEq α] [LawfulBEq α]
    (items : List α) :
    (firstOccurrences items).Pairwise fun first second =>
      items.idxOf first < items.idxOf second := by
  induction items using List.reverseRecOn with
  | nil => simp [firstOccurrences]
  | append_singleton items last ih =>
    have hbefore : ∀ item ∈ firstOccurrences items, item ∈ items := fun _ =>
      mem_firstOccurrences.mp
    have hkept : (firstOccurrences items).Pairwise fun first second =>
        (items ++ [last]).idxOf first < (items ++ [last]).idxOf second := by
      refine ih.imp_of_mem fun hfirst hsecond hlt => ?_
      rwa [List.idxOf_append_of_mem (hbefore _ hfirst), List.idxOf_append_of_mem (hbefore _ hsecond)]
    rw [firstOccurrences_concat]
    split
    · exact hkept
    · rename_i hnew
      refine List.pairwise_append.mpr ⟨hkept, List.pairwise_singleton .., ?_⟩
      intro item hitem other hother
      rw [List.mem_singleton.mp hother, List.idxOf_append_of_mem (hbefore item hitem),
        List.idxOf_append_of_notMem fun hlast => hnew (mem_firstOccurrences.mpr hlast)]
      exact Nat.lt_add_right _ (List.idxOf_lt_length_of_mem (hbefore item hitem))

/-- The distinct items of two lists are those of the first and the new ones of the second. -/
theorem firstOccurrences_append {α : Type} [DecidableEq α] (first second : List α) :
    firstOccurrences (first ++ second) =
      firstOccurrences first ++ firstOccurrences (second.filter fun item => item ∉ first) := by
  rw [firstOccurrences, List.foldl_append]
  change second.foldl _ (firstOccurrences first) = _
  rw [foldl_firstOccurrences]
  simp only [mem_firstOccurrences]

/-- Items that are distinct already stay as they are. -/
theorem firstOccurrences_of_nodup {α : Type} [DecidableEq α] {items : List α}
    (h : items.Nodup) : firstOccurrences items = items := by
  induction items using List.reverseRecOn with
  | nil => rfl
  | append_singleton items last ih =>
    rw [List.nodup_append] at h
    have hlast : last ∉ items := fun hmem => h.2.2 last hmem last (by simp) rfl
    rw [firstOccurrences_append, ih h.1]
    simp [hlast, firstOccurrences]

/-- A list as long as that of its distinct items repeats none. -/
theorem nodup_of_length_le_firstOccurrences {α : Type} [DecidableEq α] {items : List α}
    (h : items.length ≤ (firstOccurrences items).length) : items.Nodup := by
  have hsub : (firstOccurrences items).Subperm items :=
    List.subperm_of_subset (nodup_firstOccurrences items) fun _ => mem_firstOccurrences.mp
  exact (hsub.perm_of_length_le h).nodup_iff.mp (nodup_firstOccurrences items)

/-- Items may be chosen before or after the distinct ones are taken. -/
theorem firstOccurrences_filter {α : Type} [DecidableEq α] (keep : α → Bool) (items : List α) :
    firstOccurrences (items.filter keep) = (firstOccurrences items).filter keep := by
  induction items using List.reverseRecOn with
  | nil => rfl
  | append_singleton items last ih =>
    rw [List.filter_append, List.filter_singleton, firstOccurrences_concat]
    cases hkeep : keep last with
    | false => split <;> simp [ih, hkeep]
    | true =>
      rw [cond_true, firstOccurrences_concat, ih]
      simp only [mem_firstOccurrences, List.mem_filter, hkeep, and_true]
      split <;> simp [hkeep]

/-- The distinct items of a list stand for the list behind others. -/
theorem firstOccurrences_append_firstOccurrences {α : Type} [DecidableEq α]
    (first second : List α) :
    firstOccurrences (first ++ firstOccurrences second) = firstOccurrences (first ++ second) := by
  rw [firstOccurrences_append, firstOccurrences_append, firstOccurrences_filter,
    firstOccurrences_filter, firstOccurrences_of_nodup (nodup_firstOccurrences _)]

/-- The distinct items of a list stand for the list in front of others. -/
theorem firstOccurrences_firstOccurrences_append {α : Type} [DecidableEq α]
    (first second : List α) :
    firstOccurrences (firstOccurrences first ++ second) = firstOccurrences (first ++ second) := by
  rw [firstOccurrences_append, firstOccurrences_append,
    firstOccurrences_of_nodup (nodup_firstOccurrences _)]
  simp only [mem_firstOccurrences]

/-- The keys of a list after an item is put. -/
theorem map_upsert {α κ : Type} [DecidableEq κ] (key : α → κ) (item : α) (items : List α) :
    (upsert key item items).map key =
      if key item ∈ items.map key then items.map key else items.map key ++ [key item] := by
  induction items with
  | nil => simp [upsert]
  | cons first rest ih =>
    by_cases h : key first = key item
    · simp [upsert, h]
    · simp only [upsert, if_neg h, List.map_cons, ih, List.mem_cons, Ne.symm h, false_or]
      split <;> simp

/-- Items may be changed before or after one of them is put in, if their keys stay. -/
theorem map_upsert_of_key {α β κ : Type} [DecidableEq κ] (key : α → κ) (other : β → κ)
    (change : α → β) (h : ∀ item, other (change item) = key item) (item : α) (items : List α) :
    (upsert key item items).map change = upsert other (change item) (items.map change) := by
  induction items with
  | nil => rfl
  | cons first rest ih =>
    rw [List.map_cons, upsert, upsert, h, h]
    split
    · rfl
    · rw [List.map_cons, ih]

/-- An item with a new key goes to the end. -/
theorem upsert_of_notMem {α κ : Type} [DecidableEq κ] {key : α → κ} {item : α} {items : List α}
    (h : key item ∉ items.map key) : upsert key item items = items ++ [item] := by
  induction items with
  | nil => rfl
  | cons first rest ih =>
    simp only [List.map_cons, List.mem_cons, not_or] at h
    rw [upsert, if_neg (Ne.symm h.1), ih h.2, List.cons_append]

/-- What is put comes from the list or is the new item. -/
theorem mem_of_mem_upsert {α κ : Type} [DecidableEq κ] {key : α → κ} {item other : α}
    {items : List α} (h : other ∈ upsert key item items) : other = item ∨ other ∈ items := by
  induction items with
  | nil => exact Or.inl (List.mem_singleton.mp h)
  | cons first rest ih =>
    rw [upsert] at h
    split at h
    · exact (List.mem_cons.mp h).imp_right (List.mem_cons_of_mem _)
    · rcases List.mem_cons.mp h with rfl | h
      · exact Or.inr (List.mem_cons_self ..)
      · exact (ih h).imp_right (List.mem_cons_of_mem _)

/-- Items with another key stay when an item is put. -/
theorem mem_upsert_of_ne {α κ : Type} [DecidableEq κ] {key : α → κ} {item other : α}
    {items : List α} (h : other ∈ items) (hne : key other ≠ key item) :
    other ∈ upsert key item items := by
  induction items with
  | nil => exact absurd h List.not_mem_nil
  | cons first rest ih =>
    rw [upsert]
    split
    · rename_i heq
      rcases List.mem_cons.mp h with rfl | h
      · exact absurd heq hne
      · exact List.mem_cons_of_mem _ h
    · exact List.mem_cons.mpr ((List.mem_cons.mp h).imp_right ih)

/-- Distinct keys stay distinct when an item is put. -/
theorem nodup_map_upsert {α κ : Type} [DecidableEq κ] {key : α → κ} {items : List α}
    (h : (items.map key).Nodup) (item : α) : ((upsert key item items).map key).Nodup := by
  rw [map_upsert]
  split
  · exact h
  · rename_i hnew
    refine List.nodup_append.mpr ⟨h, by simp, ?_⟩
    rintro a ha b hb rfl
    exact hnew (List.mem_singleton.mp hb ▸ ha)

/-- An item that was put in is there. -/
theorem mem_upsert_self {α κ : Type} [DecidableEq κ] (key : α → κ) (item : α) (items : List α) :
    item ∈ upsert key item items := by
  induction items with
  | nil => exact List.mem_singleton_self _
  | cons first rest ih =>
    rw [upsert]
    split
    · exact List.mem_cons_self ..
    · exact List.mem_cons_of_mem _ ih

/-- Among items with distinct keys, one that is put takes the place of the one with its key. -/
theorem mem_upsert_iff {α κ : Type} [DecidableEq κ] {key : α → κ} {item other : α}
    {items : List α} (hnodup : (items.map key).Nodup) :
    other ∈ upsert key item items ↔ other = item ∨ other ∈ items ∧ key other ≠ key item := by
  refine ⟨fun h => ?_, ?_⟩
  · by_cases heq : other = item
    · exact Or.inl heq
    · refine Or.inr ⟨(mem_of_mem_upsert h).resolve_left heq, fun hkey => heq ?_⟩
      exact List.inj_on_of_nodup_map (nodup_map_upsert hnodup item) h (mem_upsert_self ..) hkey
  · rintro (rfl | ⟨h, hne⟩)
    · exact mem_upsert_self ..
    · exact mem_upsert_of_ne h hne

/-- Items with distinct keys are determined by the order of their keys. -/
theorem eq_of_map_key_eq {α κ : Type} (key : α → κ) {first second : List α}
    (hkeys : first.map key = second.map key) (hnodup : (second.map key).Nodup)
    (hsubset : first ⊆ second) : first = second := by
  have hlength : first.length = second.length := by
    simpa using congrArg List.length hkeys
  refine List.ext_getElem hlength fun i hfirst hsecond => ?_
  refine List.inj_on_of_nodup_map hnodup (hsubset (List.getElem_mem hfirst))
    (List.getElem_mem hsecond) ?_
  have hget := List.getElem_of_eq hkeys (i := i) (by simpa using hfirst)
  simpa using hget

/-- The keys of entries made of some items stand in the order of the items. -/
theorem sublist_map_filterMap {α β κ : Type} {found? : α → Option (κ × β)} {key : α → κ}
    (h : ∀ item entry, found? item = some entry → entry.1 = key item) (items : List α) :
    ((items.filterMap found?).map Prod.fst).Sublist (items.map key) := by
  induction items with
  | nil => exact .slnil
  | cons item rest ih =>
    cases hfound : found? item with
    | none =>
      rw [List.filterMap_cons_none hfound]
      exact ih.cons _
    | some entry =>
      rw [List.filterMap_cons_some hfound, List.map_cons, h item entry hfound, List.map_cons]
      exact ih.cons_cons _

namespace Table

variable {κ α : Type} [DecidableEq κ]

/-- A value that is read stands in the table. -/
theorem mem_of_get? {table : Table κ α} {key : κ} {value : α}
    (h : table.get? key = some value) : (key, value) ∈ table := by
  induction table with
  | nil => simp [get?] at h
  | cons entry rest ih =>
    obtain ⟨k, v⟩ := entry
    rw [get?] at h
    split at h
    · rename_i hk
      simp_all
    · exact List.mem_cons_of_mem _ (ih h)

/-- Nothing is read exactly for the keys that are not there. -/
theorem get?_eq_none_iff {table : Table κ α} {key : κ} :
    table.get? key = none ↔ key ∉ table.keys := by
  induction table with
  | nil => simp [get?, keys]
  | cons entry rest ih =>
    obtain ⟨k, v⟩ := entry
    by_cases hk : k = key
    · simp [get?, keys, hk]
    · simpa [get?, keys, hk, Ne.symm hk] using ih

/-- A key is there when something is read for it. -/
theorem mem_keys_iff {table : Table κ α} {key : κ} :
    key ∈ table.keys ↔ ∃ value, table.get? key = some value := by
  rw [← Option.isSome_iff_exists, ← not_iff_not, Option.not_isSome_iff_eq_none, get?_eq_none_iff]

/-- A table has a key when something is read for it. -/
theorem has_iff {table : Table κ α} {key : κ} :
    table.has key = true ↔ ∃ value, table.get? key = some value := Option.isSome_iff_exists

/-- With distinct keys an entry of the table is what is read for its key. -/
theorem get?_of_mem {table : Table κ α} (hnodup : table.keys.Nodup) {entry : κ × α}
    (h : entry ∈ table) : table.get? entry.1 = some entry.2 := by
  induction table with
  | nil => simp at h
  | cons first rest ih =>
    simp only [keys, List.map_cons, List.nodup_cons] at hnodup
    rcases List.mem_cons.mp h with rfl | h
    · simp [get?]
    · have hne : first.1 ≠ entry.1 := fun heq =>
        hnodup.1 (heq ▸ List.mem_map_of_mem (f := Prod.fst) h)
      simpa [get?, hne] using ih hnodup.2 h

/-- The first table in which a key is found gives its value. -/
theorem get?_append (first second : Table κ α) (key : κ) :
    Table.get? (first ++ second) key = (first.get? key).or (second.get? key) := by
  induction first with
  | nil => simp [get?]
  | cons entry rest ih =>
    obtain ⟨k, v⟩ := entry
    by_cases hk : k = key <;> simp [get?, hk, ih]

/-- Entries kept by their keys are read as before. -/
theorem get?_filter (table : Table κ α) (keep : κ → Bool) (key : κ) :
    Table.get? (table.filter fun entry => keep entry.1) key =
      if keep key then table.get? key else none := by
  induction table with
  | nil => simp [get?]
  | cons entry rest ih =>
    obtain ⟨k, v⟩ := entry
    by_cases hk : k = key
    · subst hk
      by_cases hkeep : keep k <;> simp [get?, hkeep, ih]
    · by_cases hkeep : keep k <;> simp [get?, hk, hkeep, ih]

/-- The keys of entries kept by their keys. -/
theorem keys_filter {ι : Type} (table : Table ι α) (keep : ι → Bool) :
    Table.keys (table.filter fun entry => keep entry.1) = table.keys.filter keep :=
  (List.filter_map (f := Prod.fst) (p := keep) (l := table)).symm

/-- Reading among entries that come from other things. -/
theorem get?_filterMap {β : Type} (found? : β → Option (κ × α)) (items : List β) (key : κ) :
    Table.get? (items.filterMap found?) key =
      items.findSome? fun item =>
        (found? item).bind fun entry => if entry.1 = key then some entry.2 else none := by
  induction items with
  | nil => rfl
  | cons item rest ih =>
    cases h : found? item with
    | none => simp [h, ih]
    | some entry =>
      obtain ⟨k, v⟩ := entry
      by_cases hk : k = key <;> simp [h, hk, get?, ih]

/-- Of a table with distinct keys, each entry may be dropped or given another value. -/
theorem get?_filterMap_of_nodup {β : Type} {found? : κ × α → Option (κ × β)}
    (h : ∀ entry found, found? entry = some found → found.1 = entry.1) {table : Table κ α}
    (hnodup : table.keys.Nodup) (key : κ) :
    Table.get? (table.filterMap found?) key =
      (table.get? key).bind fun value => (found? (key, value)).map Prod.snd := by
  induction table with
  | nil => rfl
  | cons entry rest ih =>
    obtain ⟨first, value⟩ := entry
    simp only [keys, List.map_cons, List.nodup_cons] at hnodup
    have hrest := ih hnodup.2
    by_cases hkey : first = key
    · subst hkey
      rw [get?_eq_none_iff.mpr hnodup.1] at hrest
      cases hfound : found? (first, value) with
      | none => simpa [hfound, get?] using hrest
      | some found =>
        obtain ⟨found, other⟩ := found
        obtain rfl : found = first := h _ _ hfound
        simp [hfound, get?]
    · cases hfound : found? (first, value) with
      | none => simpa [hfound, get?, hkey] using hrest
      | some found =>
        obtain ⟨found, other⟩ := found
        obtain rfl : found = first := h _ _ hfound
        simpa [hfound, get?, hkey] using hrest

/-- The keys after one is put. -/
theorem keys_put (table : Table κ α) (key : κ) (value : α) :
    (table.put key value).keys = if key ∈ table.keys then table.keys else table.keys ++ [key] :=
  map_upsert Prod.fst (key, value) table

/-- A function of the values is applied to what is read. -/
theorem get?_mapValues {β : Type} (function : α → β) (table : Table κ α) (key : κ) :
    Table.get? (table.map fun entry => (entry.1, function entry.2)) key =
      (table.get? key).map function := by
  induction table with
  | nil => rfl
  | cons entry rest ih =>
    by_cases hk : entry.1 = key <;> simp [get?, hk, ih]

/-- A function of the values may be applied before or after a value is put. -/
theorem put_mapValues {β : Type} (function : α → β) (table : Table κ α) (key : κ) (value : α) :
    Table.put (table.map fun entry => (entry.1, function entry.2)) key (function value) =
      (table.put key value).map fun entry => (entry.1, function entry.2) :=
  (map_upsert_of_key Prod.fst Prod.fst (fun entry => (entry.1, function entry.2)) (fun _ => rfl)
    (key, value) table).symm

/-- Putting one more entry after others. -/
theorem putAll_concat (table entries : Table κ α) (entry : κ × α) :
    table.putAll (entries ++ [entry]) = (table.putAll entries).put entry.1 entry.2 := by
  simp [putAll]

/-- One more entry after others. -/
theorem ofEntries_concat (entries : List (κ × α)) (entry : κ × α) :
    ofEntries (entries ++ [entry]) = (ofEntries entries).put entry.1 entry.2 :=
  putAll_concat [] entries entry

/-- Of the entries that are put the last one of a key counts. -/
theorem get?_putAll (table entries : Table κ α) (key : κ) :
    (table.putAll entries).get? key = (Table.get? entries.reverse key).or (table.get? key) := by
  induction entries using List.reverseRecOn with
  | nil => rfl
  | append_singleton entries entry ih =>
    rw [putAll_concat, List.reverse_concat, get?_put, ih, get?]
    split <;> rfl

/-- Each key has the value of its last entry. -/
theorem get?_ofEntries (entries : List (κ × α)) (key : κ) :
    (ofEntries entries).get? key = Table.get? entries.reverse key := by
  rw [ofEntries, get?_putAll]
  exact Option.or_none

/-- The keys come in order of their first entries. -/
theorem keys_ofEntries (entries : List (κ × α)) :
    (ofEntries entries).keys = firstOccurrences (entries.map Prod.fst) := by
  induction entries using List.reverseRecOn with
  | nil => rfl
  | append_singleton entries entry ih =>
    rw [ofEntries_concat, keys_put, ih, List.map_append, List.map_singleton,
      firstOccurrences_concat]

/-- The keys of a table built from entries are distinct. -/
theorem nodup_keys_ofEntries (entries : List (κ × α)) : (ofEntries entries).keys.Nodup := by
  rw [keys_ofEntries]
  exact nodup_firstOccurrences _

/-- Entries with distinct keys are a table as they stand. -/
theorem ofEntries_of_nodup {entries : List (κ × α)} (h : (entries.map Prod.fst).Nodup) :
    ofEntries entries = entries := by
  induction entries using List.reverseRecOn with
  | nil => rfl
  | append_singleton entries entry ih =>
    rw [List.map_append, List.nodup_append] at h
    rw [ofEntries_concat, ih h.1, put]
    exact upsert_of_notMem fun hmem => h.2.2 entry.1 hmem entry.1 (by simp) rfl

/-- Entries with distinct keys are read before those of the table in which they are put. -/
theorem get?_putAll_of_nodup (table : Table κ α) {entries : Table κ α} (h : entries.keys.Nodup)
    (key : κ) : (table.putAll entries).get? key = (entries.get? key).or (table.get? key) := by
  rw [get?_putAll, ← get?_ofEntries, ofEntries_of_nodup h]

/-- An entry of a table built from entries is one of them. -/
theorem mem_of_mem_ofEntries {entries : List (κ × α)} {entry : κ × α}
    (h : entry ∈ ofEntries entries) : entry ∈ entries := by
  induction entries using List.reverseRecOn with
  | nil => simp [ofEntries, putAll] at h
  | append_singleton entries last ih =>
    rw [ofEntries_concat] at h
    rcases mem_of_mem_upsert h with rfl | h
    · simp
    · exact List.mem_append_left _ (ih h)

/-- Where entries of one key agree, each of them is what is read for its key. -/
theorem get?_ofEntries_eq_some_iff {entries : List (κ × α)}
    (h : ∀ first ∈ entries, ∀ second ∈ entries, first.1 = second.1 → first.2 = second.2)
    {key : κ} {value : α} : (ofEntries entries).get? key = some value ↔ (key, value) ∈ entries := by
  refine ⟨fun hget => mem_of_mem_ofEntries (mem_of_get? hget), fun hmem => ?_⟩
  have hkey : key ∈ (ofEntries entries).keys := by
    rw [keys_ofEntries, mem_firstOccurrences]
    exact List.mem_map_of_mem (f := Prod.fst) hmem
  obtain ⟨other, hother⟩ := mem_keys_iff.mp hkey
  rw [hother]
  exact congrArg some (h _ (mem_of_mem_ofEntries (mem_of_get? hother)) _ hmem rfl)

/-- A key is filled when a value that is not empty is read for it. -/
theorem fills_eq (table : Table κ Text) (key : κ) :
    table.fills key = !((table.get? key).getD []).isEmpty := by
  unfold fills filled?
  cases table.get? key with
  | none => rfl
  | some value => cases value <;> rfl

/-- A key has a value that is not empty. -/
theorem fills_iff {table : Table κ Text} {key : κ} :
    table.fills key = true ↔ ∃ value, table.get? key = some value ∧ value ≠ [] := by
  rw [fills_eq]
  cases table.get? key with
  | none => simp
  | some value => cases value <;> simp

/-- A key with a value that is read as filled is filled. -/
theorem fills_of_filled? {table : Table κ Text} {key : κ} {value : Text}
    (h : table.filled? key = some value) : table.fills key = true :=
  Option.isSome_of_eq_some h

/-- A key that is filled is there. -/
theorem has_of_fills {table : Table κ Text} {key : κ} (h : table.fills key = true) :
    table.has key = true := by
  obtain ⟨value, hget, -⟩ := fills_iff.mp h
  exact has_iff.mpr ⟨value, hget⟩

/-- A key is filled with the value that is read for it. -/
theorem filled?_eq_some_iff {table : Table κ Text} {key : κ} {value : Text} :
    table.filled? key = some value ↔ table.get? key = some value ∧ value ≠ [] := by
  unfold filled?
  split
  · rename_i c rest h
    rw [h]
    constructor
    · rintro h
      obtain rfl := Option.some.inj h
      simp
    · exact fun h => h.1
  · rename_i h
    simp only [reduceCtorEq, false_iff, not_and, not_not]
    intro hvalue
    cases value with
    | nil => rfl
    | cons c rest => exact absurd hvalue (h c rest)

/-- Whether a key is filled after one is put. -/
theorem fills_put (table : Table κ Text) (key other : κ) (value : Text) :
    (table.put key value).fills other =
      if key = other then !value.isEmpty else table.fills other := by
  rw [fills_eq, fills_eq, get?_put]
  by_cases h : key = other <;> simp [h]

/-- Two tables that give a key the same value agree on whether it is filled. -/
theorem fills_congr {first second : Table κ Text} {key : κ}
    (h : first.get? key = second.get? key) : first.fills key = second.fills key := by
  rw [fills_eq, fills_eq, h]

end Table
end EnvFiles
