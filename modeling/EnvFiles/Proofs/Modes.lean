import EnvFiles.Canonical
import EnvFiles.Proofs.Table
import Mathlib.Data.List.MinMax

/-!
# Counting items and the first mode

The first mode of a list is its most frequent item, and the one that is met first where several are
as frequent. It is what a search among the counts of a list finds. Repeating every item equally
often multiplies all counts and changes no mode.
-/

namespace EnvFiles

section Repeating

variable {α : Type}

/-- Every item of a list as many times in a row. -/
def repeatEach (times : Nat) (items : List α) : List α := items.flatMap (List.replicate times)

/-- Items that are taken no times are gone. -/
@[simp]
theorem repeatEach_zero (items : List α) : repeatEach 0 items = [] := by
  simp [repeatEach]

/-- A single item as many times in a row. -/
@[simp]
theorem repeatEach_singleton (times : Nat) (item : α) :
    repeatEach times [item] = List.replicate times item := by
  simp [repeatEach]

/-- The items of two lists are repeated one list after the other. -/
theorem repeatEach_append (times : Nat) (first second : List α) :
    repeatEach times (first ++ second) = repeatEach times first ++ repeatEach times second :=
  List.flatMap_append

end Repeating

section Modes

variable {α : Type} [DecidableEq α]

/-- No item of a list is more frequent than its first mode, and no item that is as frequent stands
before it. -/
structure IsFirstMode (items : List α) (mode : α) : Prop where
  mem : mode ∈ items
  count_le : ∀ item, items.count item ≤ items.count mode
  idxOf_le : ∀ item ∈ items, items.count item = items.count mode →
    items.idxOf mode ≤ items.idxOf item

/-- No item is found more often than the first mode. -/
theorem IsFirstMode.countP_le {items : List α} {mode : α} (h : IsFirstMode items mode) (item : α) :
    (items.countP fun other => other = item) ≤ items.countP fun other => other = mode :=
  h.count_le item

/-- If all but one of at least three items are equal, they are the first mode. -/
theorem IsFirstMode.eq_of_but_one {before after : List α} {odd value mode : α}
    (hmode : IsFirstMode (before ++ odd :: after) mode) (hlength : 2 ≤ (before ++ after).length)
    (hvalue : ∀ item ∈ before ++ after, item = value) : mode = value := by
  by_contra hne
  have hothers : (before ++ after).count value = (before ++ after).length :=
    List.count_eq_length.mpr fun item hitem => (hvalue item hitem).symm
  have hnone : (before ++ after).count mode = 0 :=
    List.count_eq_zero_of_not_mem fun hmem => hne (hvalue mode hmem)
  have hcount := hmode.count_le value
  rw [List.perm_middle.count_eq, List.perm_middle.count_eq, List.count_cons, List.count_cons,
    hothers, hnone] at hcount
  split at hcount <;> split at hcount <;> omega

/-- The first item with the greatest count. -/
def firstMode? (items : List α) : Option α := items.argmax fun item => items.count item

/-- The first item with the greatest count is the first mode. -/
theorem firstMode?_eq_some_iff {items : List α} {mode : α} :
    firstMode? items = some mode ↔ IsFirstMode items mode := by
  rw [firstMode?, List.argmax_eq_some_iff]
  constructor
  · rintro ⟨hmem, hcount, hidx⟩
    refine ⟨hmem, fun item => ?_, fun item hitem heq => hidx item hitem heq.ge⟩
    by_cases hitem : item ∈ items
    · exact hcount item hitem
    · simp [List.count_eq_zero_of_not_mem hitem]
  · rintro ⟨hmem, hcount, hidx⟩
    exact ⟨hmem, fun item _ => hcount item,
      fun item hitem hle => hidx item hitem (le_antisymm (hcount item) hle)⟩

/-- Repetitions do not change the first item with the greatest score. -/
theorem argmax_firstOccurrences (score : α → Nat) (items : List α) :
    (firstOccurrences items).argmax score = items.argmax score := by
  induction items using List.reverseRecOn with
  | nil => rfl
  | append_singleton items last ih =>
    rw [firstOccurrences_concat, List.argmax_concat, ← ih]
    split
    · rename_i hmem
      cases hbest : (firstOccurrences items).argmax score with
      | none => simp [List.argmax_eq_none.mp hbest] at hmem
      | some best =>
        have hle : score last ≤ score best := List.le_of_mem_argmax hmem hbest
        simp only [if_neg hle.not_gt]
    · rw [List.argmax_concat]

/-- Repeating every item multiplies the counts. -/
theorem count_repeatEach (times : Nat) (items : List α) (item : α) :
    (repeatEach times items).count item = times * items.count item := by
  induction items with
  | nil => simp [repeatEach]
  | cons first rest ih =>
    rw [repeatEach] at ih ⊢
    rw [List.flatMap_cons, List.count_append, ih, List.count_replicate, List.count_cons,
      Nat.mul_add, Nat.add_comm]
    split <;> simp

/-- Repeating every item multiplies the places where items are found first. -/
theorem idxOf_repeatEach (times : Nat) (items : List α) (item : α) :
    (repeatEach times items).idxOf item = times * items.idxOf item := by
  induction items with
  | nil => simp [repeatEach]
  | cons first rest ih =>
    rw [repeatEach] at ih ⊢
    rw [List.flatMap_cons]
    by_cases hfirst : first = item
    · subst hfirst
      rw [List.idxOf_cons_self, Nat.mul_zero]
      cases times with
      | zero => rw [List.replicate_zero, List.nil_append, ih, Nat.zero_mul]
      | succ times => rw [List.replicate_succ, List.cons_append, List.idxOf_cons_self]
    · have hnot : item ∉ List.replicate times first := fun hmem =>
        hfirst (List.eq_of_mem_replicate hmem).symm
      rw [List.idxOf_append_of_notMem hnot, ih, List.length_replicate, List.idxOf_cons_ne _ hfirst,
        Nat.mul_succ, Nat.add_comm]

/-- Repeating every item changes no first mode. -/
theorem isFirstMode_repeatEach {times : Nat} (htimes : 0 < times) {items : List α} {mode : α} :
    IsFirstMode (repeatEach times items) mode ↔ IsFirstMode items mode := by
  have hmem (item : α) : item ∈ repeatEach times items ↔ item ∈ items := by
    simp [repeatEach, htimes.ne']
  constructor
  · rintro ⟨hmode, hcount, hidx⟩
    simp only [hmem, count_repeatEach, idxOf_repeatEach, Nat.mul_le_mul_left_iff htimes,
      Nat.mul_right_inj htimes.ne'] at hmode hcount hidx
    exact ⟨hmode, hcount, hidx⟩
  · rintro ⟨hmode, hcount, hidx⟩
    constructor <;>
      simpa only [hmem, count_repeatEach, idxOf_repeatEach, Nat.mul_le_mul_left_iff htimes,
        Nat.mul_right_inj htimes.ne']

/-- Repeating every item changes no first item with the greatest count. -/
theorem firstMode?_repeatEach {times : Nat} (htimes : 0 < times) (items : List α) :
    firstMode? (repeatEach times items) = firstMode? items :=
  Option.ext fun mode => by
    rw [firstMode?_eq_some_iff, isFirstMode_repeatEach htimes, firstMode?_eq_some_iff]

/-- A list with an item has a first mode. -/
theorem exists_firstMode?_iff {items : List α} :
    (∃ mode, firstMode? items = some mode) ↔ items ≠ [] := by
  rw [← Option.ne_none_iff_exists', firstMode?, ne_eq, List.argmax_eq_none]

/-- How often each item of a list occurs, in order of first occurrence. -/
def tally (items : List α) : Table α Nat := items.foldl countOne []

/-- One more item is counted after the others. -/
theorem tally_concat (items : List α) (item : α) :
    tally (items ++ [item]) = countOne (tally items) item := List.foldl_concat ..

/-- The items that are counted are those of the list. -/
theorem keys_tally (items : List α) : (tally items).keys = firstOccurrences items := by
  induction items using List.reverseRecOn with
  | nil => rfl
  | append_singleton items last ih =>
    rw [tally_concat, countOne, Table.keys_put, ih, firstOccurrences_concat]

/-- Each item is counted as often as it occurs. -/
theorem get?_tally (items : List α) (item : α) :
    (tally items).get? item = if item ∈ items then some (items.count item) else none := by
  induction items using List.reverseRecOn with
  | nil => rfl
  | append_singleton items last ih =>
    rw [tally_concat, countOne, Table.get?_put, List.count_append]
    by_cases hlast : last = item
    · subst hlast
      by_cases hmem : last ∈ items
      · simp [ih, hmem]
      · simp [ih, hmem, List.count_eq_zero_of_not_mem hmem]
    · simp [ih, hlast, Ne.symm hlast]

/-- The counts of a list in closed form. -/
theorem tally_eq (items : List α) :
    tally items = (firstOccurrences items).map fun item => (item, items.count item) := by
  have hkeys : (tally items).map Prod.fst =
      ((firstOccurrences items).map fun item => (item, items.count item)).map Prod.fst := by
    rw [List.map_map]
    exact (keys_tally items).trans (List.map_id' _).symm
  have hnodup : (tally items).keys.Nodup := keys_tally items ▸ nodup_firstOccurrences items
  refine eq_of_map_key_eq Prod.fst hkeys (hkeys ▸ hnodup) fun entry hentry => ?_
  have hget := Table.get?_of_mem hnodup hentry
  rw [get?_tally] at hget
  split at hget
  · rename_i hmem
    exact List.mem_map.mpr ⟨entry.1, mem_firstOccurrences.mpr hmem,
      Prod.ext rfl (Option.some.inj hget)⟩
  · cases hget

/-- An item that is met occurs. -/
theorem count_pos_of_mem_firstOccurrences {items : List α} {item : α}
    (h : item ∈ firstOccurrences items) : 0 < items.count item :=
  List.count_pos_iff.mpr (mem_firstOccurrences.mp h)

end Modes

end EnvFiles
