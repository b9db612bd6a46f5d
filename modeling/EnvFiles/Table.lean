import EnvFiles.Text.Basic

/-!
# Tables that remember insertion order

A table is a list of entries. Putting a key that is there already changes its value and keeps
its place; a new key goes to the end. The same rule for items that carry their own key is
`upsert`, from which `Table.put` is derived.
-/

namespace EnvFiles

/-- Replace the first item with the same key, or add the item at the end. -/
def upsert {α κ : Type} [DecidableEq κ] (key : α → κ) (item : α) : List α → List α
  | [] => [item]
  | first :: rest => if key first = key item then item :: rest else first :: upsert key item rest

/-- A table is the list of its entries in insertion order. -/
abbrev Table (κ α : Type) := List (κ × α)

namespace Table

variable {κ α : Type} [DecidableEq κ]

/-- The value of the first entry with the key. -/
def get? : Table κ α → κ → Option α
  | [], _ => none
  | (k, v) :: rest, key => if k = key then some v else get? rest key

/-- Whether an entry has the key. -/
def has (table : Table κ α) (key : κ) : Bool := (table.get? key).isSome

/-- Set the value of a key. -/
def put (table : Table κ α) (key : κ) (value : α) : Table κ α := upsert Prod.fst (key, value) table

/-- Set several keys, in order. -/
def putAll (table entries : Table κ α) : Table κ α :=
  entries.foldl (fun result entry => result.put entry.1 entry.2) table

/-- The table of a list of entries in which a later entry overrides an earlier one. -/
def ofEntries (entries : List (κ × α)) : Table κ α := putAll [] entries

/-- The keys in insertion order. -/
def keys (table : Table κ α) : List κ := table.map Prod.fst

/-- The value of a name when it is there and not empty. -/
def filled? (table : Table κ Text) (key : κ) : Option Text :=
  match table.get? key with
  | some (c :: rest) => some (c :: rest)
  | _ => none

/-- Whether the key has a value that is not empty. -/
def fills (table : Table κ Text) (key : κ) : Bool := (table.filled? key).isSome

end Table

/-- The distinct items in order of first occurrence. -/
def firstOccurrences {α : Type} [DecidableEq α] (items : List α) : List α :=
  items.foldl (fun seen item => if item ∈ seen then seen else seen ++ [item]) []

theorem upsert_ne_nil {α κ : Type} [DecidableEq κ] (key : α → κ) (item : α) (items : List α) :
    upsert key item items ≠ [] := by
  cases items with
  | nil => simp [upsert]
  | cons first rest => by_cases h : key first = key item <;> simp [upsert, h]

theorem Table.get?_put {κ α : Type} [DecidableEq κ] (table : Table κ α) (key other : κ)
    (value : α) :
    (table.put key value).get? other = if key = other then some value else table.get? other := by
  induction table with
  | nil => simp [Table.put, upsert, Table.get?]
  | cons entry rest ih =>
    obtain ⟨k, v⟩ := entry
    simp only [Table.put] at ih
    by_cases hk : k = key
    · subst hk
      by_cases ho : k = other <;> simp [Table.put, upsert, Table.get?, ho]
    · by_cases ho : k = other
      · subst ho
        simp [Table.put, upsert, Table.get?, hk, Ne.symm hk]
      · simp [Table.put, upsert, Table.get?, hk, ho, ih]

end EnvFiles
