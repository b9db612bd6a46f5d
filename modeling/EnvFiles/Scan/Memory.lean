import EnvFiles.Scan.Result

/-!
# Merging results in memory

In memory a result refers to its table of usages and a table to the list of each name, so that
several results can share tables and lists. Merging makes a result of its own and adds to it what
the given results hold, changing its counters, its table and its lists in place.
-/

namespace EnvFiles

/-- A result in memory, with the number of its table of usages. -/
structure ResultCell where
  usages : Nat
  files : Nat := 0
  lines : Nat := 0
  deriving DecidableEq, Repr, Inhabited

/-- The results in memory, the tables that they refer to and the lists that the tables refer to, by
their numbers. -/
structure ScanMemory where
  results : List ResultCell := []
  tables : List (Table Text Nat) := []
  lists : List (List Usage) := []
  deriving DecidableEq, Repr, Inhabited

namespace ScanMemory

/-- The list that a table has for a name. A new list is made beforehand and entered if there is
none. -/
def listFor (table : Nat) (name : Text) (memory : ScanMemory) : Nat × ScanMemory :=
  let fresh := memory.lists.length
  let made := { memory with lists := memory.lists ++ [[]] }
  match (made.tables.getD table []).get? name with
  | some list => (list, made)
  | none => (fresh, { made with tables := made.tables.modify table (Table.put · name fresh) })

/-- Add the items of one list to another one. -/
def extend (list source : Nat) (memory : ScanMemory) : ScanMemory :=
  { memory with lists := memory.lists.modify list (· ++ memory.lists.getD source []) }

/-- Add an entry of a table to those of another table. -/
def addEntry (table : Nat) (memory : ScanMemory) (entry : Text × Nat) : ScanMemory :=
  let (list, made) := memory.listFor table entry.1
  made.extend list entry.2

/-- Add a result to the one that collects them. -/
def addResult (sum : Nat) (memory : ScanMemory) (result : Nat) : ScanMemory :=
  let found := memory.results.getD result default
  let counted := { memory with
    results := memory.results.modify sum fun total =>
      { total with files := total.files + found.files, lines := total.lines + found.lines } }
  let table := (counted.results.getD sum default).usages
  (counted.tables.getD found.usages []).foldl (addEntry table) counted

/-- Merge the results of the given numbers. The number of the new result comes with the memory. -/
def merge (results : List Nat) (memory : ScanMemory) : Nat × ScanMemory :=
  let sum := memory.results.length
  let made := { memory with
    results := memory.results ++ [{ usages := memory.tables.length }]
    tables := memory.tables ++ [[]] }
  (sum, results.foldl (addResult sum) made)

end ScanMemory
end EnvFiles
