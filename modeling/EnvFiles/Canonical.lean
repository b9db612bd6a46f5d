import EnvFiles.Table

/-!
# Canonical values of shared names

The canonical value of a shared name is the value that most workspaces give it, empty values
aside; among equally frequent values the one met first in workspace order wins. A name without a
value anywhere has none.
-/

namespace EnvFiles

/-- One more occurrence of an item. -/
def countOne {κ : Type} [DecidableEq κ] (counts : Table κ Nat) (item : κ) : Table κ Nat :=
  counts.put item ((counts.get? item).getD 0 + 1)

/-- Count the value that a workspace gives a name, unless it is empty. -/
def countHeld (values : Table Text Text) (counts : Table Text (Table Text Nat)) (name : Text) :
    Table Text (Table Text Nat) :=
  match values.filled? name with
  | some value => counts.put name (countOne ((counts.get? name).getD []) value)
  | none => counts

/-- How often each value of each name occurs, in order of first occurrence. A name that stands
several times among the names is counted several times. -/
def countShared (names : List Text) (workspaces : List (Table Text Text)) :
    Table Text (Table Text Nat) :=
  workspaces.foldl (fun counts values => names.foldl (countHeld values) counts)
    (Table.ofEntries (names.map fun name => (name, [])))

/-- The first value with the greatest count, and that count. -/
def mostFrequent (counts : Table Text Nat) : Text × Nat :=
  counts.foldl (fun best entry => if best.2 < entry.2 then entry else best) ([], 0)

/-- The canonical values, in the order of the shared names. -/
def canonicalValues (names : List Text) (workspaces : List (Table Text Text)) :
    Table Text Text :=
  (countShared names workspaces).filterMap fun (name, counts) =>
    let value := (mostFrequent counts).1
    if value.isEmpty then none else some (name, value)

end EnvFiles
