import EnvFiles.Proofs.Scan.Diagnosis
import EnvFiles.Scan.Memory
import Mathlib.Algebra.GroupWithZero.Nat
import Mathlib.Data.List.Forall2
import Mathlib.Data.List.Infix

/-!
# Merging parts and merging in memory

A merged result is determined by the results that it joins, so these can be merged part by part.
In memory the merged result is built in place. It has a table and lists of its own, so that the
results that are merged stay as they are, whatever tables and lists they share.
-/

namespace EnvFiles

namespace ScanResult

section Joins

variable {merged other first second : ScanResult} {scans more : List ScanResult}

/-- The files of joined results are counted together. -/
theorem Joins.files_eq_sum (h : merged.Joins scans) :
    merged.files = (scans.map ScanResult.files).sum := by
  rw [h.files, List.sum_eq_foldl, List.foldl_map]

/-- So are their lines. -/
theorem Joins.lines_eq_sum (h : merged.Joins scans) :
    merged.lines = (scans.map ScanResult.lines).sum := by
  rw [h.lines, List.sum_eq_foldl, List.foldl_map]

/-- What joined results have for a name is what they have in their table. -/
theorem Joins.evidence_eq (h : merged.Joins scans) (name : Text) :
    merged.evidence name = scans.flatMap fun scan => scan.evidence name := by
  rw [← h.get?_usages]
  exact flatMap_of_nodup h.nodup_keys name

/-- There is one result that joins some scans. -/
theorem Joins.unique (h : merged.Joins scans) (hother : other.Joins scans) : merged = other := by
  have hkeys : merged.usages.keys = other.usages.keys := h.keys.trans hother.keys.symm
  have husages : merged.usages = other.usages := by
    refine eq_of_map_key_eq Prod.fst hkeys hother.nodup_keys fun entry hentry => ?_
    have hget := Table.get?_of_mem h.nodup_keys hentry
    obtain ⟨found, hfound⟩ : ∃ found, other.usages.get? entry.1 = some found := by
      rw [← Table.mem_keys_iff, ← hkeys]
      exact List.mem_map_of_mem hentry
    have hsame : entry.2 = found := by
      have hboth := (h.get?_usages entry.1).trans (hother.get?_usages entry.1).symm
      simpa [hget, hfound] using hboth
    rw [← hsame] at hfound
    exact Table.mem_of_get? hfound
  calc merged = ⟨merged.usages, merged.files, merged.lines⟩ := rfl
    _ = ⟨other.usages, other.files, other.lines⟩ := by
        rw [husages, h.files, h.lines, hother.files, hother.lines]

/-- A result that joins two joined results joins all their scans. -/
theorem Joins.of_parts (h : merged.Joins [first, second]) (hfirst : first.Joins scans)
    (hsecond : second.Joins more) : merged.Joins (scans ++ more) where
  files := by
    rw [← List.foldl_map (f := ScanResult.files), ← List.sum_eq_foldl, h.files_eq_sum]
    simp [hfirst.files_eq_sum, hsecond.files_eq_sum]
  lines := by
    rw [← List.foldl_map (f := ScanResult.lines), ← List.sum_eq_foldl, h.lines_eq_sum]
    simp [hfirst.lines_eq_sum, hsecond.lines_eq_sum]
  keys := by
    rw [h.keys, List.flatMap_append, ← firstOccurrences_firstOccurrences_append,
      ← firstOccurrences_append_firstOccurrences, ← hfirst.keys, ← hsecond.keys]
    simp
  get?_usages name := by
    rw [h.get?_usages, List.flatMap_append, ← hfirst.evidence_eq, ← hsecond.evidence_eq]
    simp

end Joins
end ScanResult

/-- Adding usages to a table changes the first entry of their name. -/
theorem addUsages_cons (entry : Text × List Usage) (rest : Table Text (List Usage))
    (found : Text × List Usage) :
    ScanResult.addUsages (entry :: rest) found =
      if entry.1 = found.1 then (entry.1, entry.2 ++ found.2) :: rest
      else entry :: ScanResult.addUsages rest found := by
  by_cases h : entry.1 = found.1 <;>
    simp [ScanResult.addUsages, Table.put, upsert, Table.get?, h]

/-- Usages under a new name go to the end of the table. -/
theorem addUsages_of_notMem {usages : Table Text (List Usage)} {found : Text × List Usage}
    (h : found.1 ∉ usages.keys) : ScanResult.addUsages usages found = usages ++ [found] := by
  rw [ScanResult.addUsages, Table.get?_eq_none_iff.mpr h]
  exact upsert_of_notMem h

section Lists

variable {α : Type} {front items : List α} {index : Nat}

/-- Changing the last of some items. -/
theorem modify_concat (items : List α) (last : α) (change : α → α) :
    (items ++ [last]).modify items.length change = items ++ [change last] := by
  induction items with
  | nil => rfl
  | cons item rest ih => simpa using ih

/-- A change behind some items leaves them in front. -/
theorem isPrefix_modify (h : front <+: items) (hindex : front.length ≤ index) (change : α → α) :
    front <+: items.modify index change := by
  rw [List.prefix_iff_getElem?] at h ⊢
  intro i hi
  have hne : index ≠ i := by omega
  rw [List.getElem?_modify, h i hi]
  simp [hne]

/-- The items in front are found at the same place. -/
theorem getElem?_of_isPrefix (h : front <+: items) {item : α} (hitem : front[index]? = some item) :
    items[index]? = some item := by
  obtain ⟨hlt, rfl⟩ := List.getElem?_eq_some_iff.mp hitem
  exact List.prefix_iff_getElem?.mp h index hlt

end Lists

/-- The lists in memory hold some usages for a table: the table has their names in the same order,
and under each name the number of the list with its usages. -/
def HoldsUsages (lists : List (List Usage)) : Table Text Nat → Table Text (List Usage) → Prop :=
  List.Forall₂ fun entry found => entry.1 = found.1 ∧ lists[entry.2]? = some found.2

/-- No two names of a table have the same list, and the numbers of the lists lie in a range. -/
structure OwnsLists (entries : Table Text Nat) (first last : Nat) : Prop where
  apart : (entries.map Prod.snd).Nodup
  range : ∀ entry ∈ entries, first ≤ entry.2 ∧ entry.2 < last

section Tables

variable {lists more : List (List Usage)} {entries : Table Text Nat}
  {usages : Table Text (List Usage)} {name : Text} {list first last wide : Nat}

/-- More lists do not matter. -/
theorem HoldsUsages.mono (h : HoldsUsages lists entries usages) (hlists : lists <+: more) :
    HoldsUsages more entries usages :=
  List.Forall₂.imp (fun _ _ hentry => ⟨hentry.1, getElem?_of_isPrefix hlists hentry.2⟩) h

/-- The names are the same. -/
theorem HoldsUsages.keys_eq (h : HoldsUsages lists entries usages) :
    entries.keys = usages.keys := by
  induction h with
  | nil => rfl
  | cons hentry _ ih => exact congrArg₂ List.cons hentry.1 ih

/-- A list that the table does not have does not matter. -/
theorem HoldsUsages.modify (h : HoldsUsages lists entries usages)
    (hlist : list ∉ entries.map Prod.snd) (change : List Usage → List Usage) :
    HoldsUsages (lists.modify list change) entries usages := by
  induction h with
  | nil => exact .nil
  | @cons entry _ _ _ hentry _ ih =>
    simp only [List.map_cons, List.mem_cons, not_or] at hlist
    refine .cons ⟨hentry.1, ?_⟩ (ih hlist.2)
    rw [List.getElem?_modify, hentry.2]
    simp [hlist.1]

/-- A new name gets a new list. -/
theorem HoldsUsages.enter (h : HoldsUsages lists entries usages) (hnew : name ∉ entries.keys)
    (found : List Usage) :
    HoldsUsages (lists ++ [found]) (entries.put name lists.length)
      (ScanResult.addUsages usages (name, found)) := by
  rw [Table.put, upsert_of_notMem hnew, addUsages_of_notMem (h.keys_eq ▸ hnew)]
  exact List.rel_append (h.mono (List.prefix_append ..)) (.cons (by simp) .nil)

/-- Usages are added to the list of their name, which is the list of no other name. -/
theorem HoldsUsages.extend (h : HoldsUsages lists entries usages)
    (hapart : (entries.map Prod.snd).Nodup) (hlist : entries.get? name = some list)
    (found : List Usage) :
    HoldsUsages (lists.modify list (· ++ found)) entries
      (ScanResult.addUsages usages (name, found)) := by
  induction h with
  | nil => cases hlist
  | @cons entry held entries usages hentry hrest ih =>
    obtain ⟨hfirst, hapart⟩ := List.nodup_cons.mp hapart
    rw [Table.get?, hentry.1] at hlist
    rw [addUsages_cons]
    split at hlist
    · rename_i hname
      obtain rfl := Option.some.inj hlist
      rw [if_pos hname]
      refine .cons ⟨hentry.1, ?_⟩ (HoldsUsages.modify hrest hfirst _)
      rw [List.getElem?_modify, hentry.2]
      simp
    · rename_i hname
      rw [if_neg hname]
      have hother : list ≠ entry.2 := by
        rintro rfl
        have hmem := List.mem_map_of_mem (f := Prod.snd) (Table.mem_of_get? hlist)
        exact hfirst hmem
      refine .cons ⟨hentry.1, ?_⟩ (ih hapart hlist)
      rw [List.getElem?_modify, hentry.2]
      simp [hother]

/-- The range can be wider. -/
theorem OwnsLists.mono (h : OwnsLists entries first last) (hle : last ≤ wide) :
    OwnsLists entries first wide where
  apart := h.apart
  range entry hentry := ⟨(h.range entry hentry).1, (h.range entry hentry).2.trans_le hle⟩

/-- A new name can have the next list. -/
theorem OwnsLists.enter (h : OwnsLists entries first last) (hle : first ≤ last)
    (hnew : name ∉ entries.keys) : OwnsLists (entries.put name last) first (last + 1) := by
  rw [Table.put, upsert_of_notMem hnew]
  constructor
  · rw [List.map_append, List.nodup_append]
    refine ⟨h.apart, by simp, ?_⟩
    rintro _ hlist _ hlast rfl
    obtain ⟨entry, hentry, rfl⟩ := List.mem_map.mp hlist
    have hlt := (h.range entry hentry).2
    simp at hlast
    omega
  · intro entry hentry
    rcases List.mem_append.mp hentry with hentry | hentry
    · exact (h.mono (Nat.le_succ last)).range entry hentry
    · rw [List.mem_singleton.mp hentry]
      exact ⟨hle, Nat.lt_succ_self last⟩

end Tables

namespace ScanMemory

/-- The result of a number has the given value: its counters, and its table with the lists. -/
def Holds (memory : ScanMemory) (result : Nat) (scan : ScanResult) : Prop :=
  ∃ cell entries, memory.results[result]? = some cell ∧
    memory.tables[cell.usages]? = some entries ∧ HoldsUsages memory.lists entries scan.usages ∧
      cell.files = scan.files ∧ cell.lines = scan.lines

/-- All results, tables and lists in memory stand unchanged in another one, which can have more of
them. -/
structure KeptIn (memory after : ScanMemory) : Prop where
  results : memory.results <+: after.results
  tables : memory.tables <+: after.tables
  lists : memory.lists <+: after.lists

/-- So every result has the value that it had. -/
theorem Holds.kept {memory after : ScanMemory} {result : Nat} {scan : ScanResult}
    (h : memory.Holds result scan) (hkept : memory.KeptIn after) : after.Holds result scan := by
  obtain ⟨cell, entries, hcell, hentries, husages, hcounts⟩ := h
  exact ⟨cell, entries, getElem?_of_isPrefix hkept.results hcell,
    getElem?_of_isPrefix hkept.tables hentries, husages.mono hkept.lists, hcounts⟩

/-- While results are merged: the memory holds what was there at the start, and behind it the
result that collects them, with one table and lists that nothing else refers to. -/
structure Collects (start memory : ScanMemory) (entries : Table Text Nat) (scan : ScanResult) :
    Prop where
  results : memory.results =
    start.results ++ [⟨start.tables.length, scan.files, scan.lines⟩]
  tables : memory.tables = start.tables ++ [entries]
  lists : start.lists <+: memory.lists
  usages : HoldsUsages memory.lists entries scan.usages
  own : OwnsLists entries start.lists.length memory.lists.length

section Merging

variable {start memory : ScanMemory} {entries : Table Text Nat} {scan : ScanResult} {name : Text}

/-- A name that a table has keeps its list. -/
theorem listFor_of_some {table list : Nat}
    (h : (memory.tables.getD table []).get? name = some list) :
    memory.listFor table name = (list, { memory with lists := memory.lists ++ [[]] }) := by
  simp only [listFor, h]

/-- Another name is entered with the new list. -/
theorem listFor_of_none {table : Nat} (h : (memory.tables.getD table []).get? name = none) :
    memory.listFor table name = (memory.lists.length, { memory with
      tables := memory.tables.modify table (Table.put · name memory.lists.length)
      lists := memory.lists ++ [[]] }) := by
  simp only [listFor, h]

/-- What was there at the start is kept. -/
theorem Collects.keptIn (h : Collects start memory entries scan) : start.KeptIn memory where
  results := h.results ▸ List.prefix_append ..
  tables := h.tables ▸ List.prefix_append ..
  lists := h.lists

/-- The result that collects has a number of its own. -/
theorem Collects.holds (h : Collects start memory entries scan) :
    memory.Holds start.results.length scan :=
  ⟨⟨start.tables.length, scan.files, scan.lines⟩, entries, by simp [h.results],
    by simp [h.tables], h.usages, rfl, rfl⟩

/-- An entry of a table that was there at the start is added to those collected. -/
theorem Collects.addEntry (h : Collects start memory entries scan) {entry : Text × Nat}
    {found : Text × List Usage} (hname : entry.1 = found.1)
    (hlist : start.lists[entry.2]? = some found.2) :
    ∃ after, Collects start (memory.addEntry start.tables.length entry) after
      { scan with usages := ScanResult.addUsages scan.usages found } := by
  obtain ⟨name, source⟩ := entry
  obtain ⟨_, found⟩ := found
  obtain rfl := hname
  have hgrown : memory.lists <+: memory.lists ++ [[]] := List.prefix_append ..
  have htable : memory.tables.getD start.tables.length [] = entries := by simp [h.tables]
  have hsource : (memory.lists ++ [[]]).getD source [] = found := by
    rw [List.getD_eq_getElem?_getD, getElem?_of_isPrefix (h.lists.trans hgrown) hlist]
    rfl
  cases hget : entries.get? name with
  | some list =>
    have hlow := (h.own.range _ (Table.mem_of_get? hget)).1
    have hstep : memory.addEntry start.tables.length (name, source) =
        { memory with lists := (memory.lists ++ [[]]).modify list (· ++ found) } := by
      rw [ScanMemory.addEntry, listFor_of_some (htable ▸ hget)]
      simp only [ScanMemory.extend, hsource]
    rw [hstep]
    exact ⟨entries, h.results, h.tables, isPrefix_modify (h.lists.trans hgrown) hlow _,
      (h.usages.mono hgrown).extend h.own.apart hget found, h.own.mono (by simp)⟩
  | none =>
    have hnew := Table.get?_eq_none_iff.mp hget
    have hstep : memory.addEntry start.tables.length (name, source) =
        ⟨memory.results, start.tables ++ [entries.put name memory.lists.length],
          memory.lists ++ [found]⟩ := by
      rw [ScanMemory.addEntry, listFor_of_none (htable ▸ hget)]
      simp only [ScanMemory.extend, hsource, modify_concat, h.tables, List.nil_append]
    rw [hstep]
    refine ⟨_, h.results, rfl, h.lists.trans (List.prefix_append ..), h.usages.enter hnew found, ?_⟩
    rw [List.length_append, List.length_singleton]
    exact h.own.enter h.lists.length_le hnew

/-- So is a whole table. -/
theorem Collects.addEntries (h : Collects start memory entries scan) {table : Table Text Nat}
    {usages : Table Text (List Usage)} (htable : HoldsUsages start.lists table usages) :
    ∃ after, Collects start (table.foldl (ScanMemory.addEntry start.tables.length) memory) after
      { scan with usages := usages.foldl ScanResult.addUsages scan.usages } := by
  induction htable generalizing memory entries scan with
  | nil => exact ⟨entries, h⟩
  | cons hentry _ ih =>
    obtain ⟨next, hnext⟩ := h.addEntry hentry.1 hentry.2
    exact ih hnext

/-- A result that was there at the start is added to the one that collects. -/
theorem Collects.addResult (h : Collects start memory entries scan) {result : Nat}
    {other : ScanResult} (hother : start.Holds result other) :
    ∃ after, Collects start (memory.addResult start.results.length result) after
      (scan.append other) := by
  obtain ⟨cell, table, hcell, htable, husages, hfiles, hlines⟩ := hother
  have hfound : memory.results.getD result default = cell := by
    rw [List.getD_eq_getElem?_getD, getElem?_of_isPrefix h.keptIn.results hcell]
    rfl
  have hentries : memory.tables.getD cell.usages [] = table := by
    rw [List.getD_eq_getElem?_getD, getElem?_of_isPrefix h.keptIn.tables htable]
    rfl
  have hcounted : Collects start { memory with results := start.results ++
      [⟨start.tables.length, scan.files + other.files, scan.lines + other.lines⟩] } entries
      ⟨scan.usages, scan.files + other.files, scan.lines + other.lines⟩ :=
    { h with results := rfl }
  have hstep : memory.addResult start.results.length result =
      table.foldl (ScanMemory.addEntry start.tables.length) { memory with results :=
        start.results ++
          [⟨start.tables.length, scan.files + other.files, scan.lines + other.lines⟩] } := by
    simp only [ScanMemory.addResult, hfound, hentries]
    simp [h.results, modify_concat, hfiles, hlines]
  rw [hstep]
  exact hcounted.addEntries husages

/-- Results that were there at the start are added one after the other. -/
theorem Collects.addResults (h : Collects start memory entries scan) {results : List Nat}
    {scans : List ScanResult} (hresults : List.Forall₂ start.Holds results scans) :
    ∃ after, Collects start (results.foldl (ScanMemory.addResult start.results.length) memory)
      after (scans.foldl ScanResult.append scan) := by
  induction hresults generalizing memory entries scan with
  | nil => exact ⟨entries, h⟩
  | cons hresult _ ih =>
    obtain ⟨next, hnext⟩ := h.addResult hresult
    exact ih hnext

/-- Merging results in memory makes a new result that has the value of the merged ones, and keeps
all that was there. -/
theorem holds_merge {results : List Nat} {scans : List ScanResult}
    (h : List.Forall₂ start.Holds results scans) :
    ∃ sum after, start.merge results = (sum, after) ∧ start.results.length ≤ sum ∧
      after.Holds sum (ScanResult.merge scans) ∧ start.KeptIn after := by
  have hmade : Collects start { start with
      results := start.results ++ [{ usages := start.tables.length }]
      tables := start.tables ++ [[]] } [] {} :=
    { results := rfl
      tables := rfl
      lists := List.prefix_refl _
      usages := .nil
      own := ⟨List.nodup_nil, nofun⟩ }
  obtain ⟨entries, hcollects⟩ := hmade.addResults h
  exact ⟨_, _, rfl, le_refl _, hcollects.holds, hcollects.keptIn⟩

end Merging
end ScanMemory

namespace ScanResult

/-- Results can be merged all at once or in two parts. The merged result counts the files and lines
of all of them; its names stand in the order in which they were first met, and under each name it
has what the results have for it, one after the other. The same result comes from merging in
memory, which keeps the results that are merged, and all else, as it was. -/
theorem merge_append (first second : List ScanResult) :
    merge (first ++ second) = merge [merge first, merge second] ∧
      (merge first).files = (first.map ScanResult.files).sum ∧
      (merge first).lines = (first.map ScanResult.lines).sum ∧
      (merge first).usages.keys = firstOccurrences (first.flatMap fun scan => scan.usages.keys) ∧
      (∀ name, ((merge first).usages.get? name).getD [] =
        first.flatMap fun scan => scan.evidence name) ∧
      ∀ (memory : ScanMemory) (results : List Nat), List.Forall₂ memory.Holds results first →
        ∃ sum after, memory.merge results = (sum, after) ∧ memory.results.length ≤ sum ∧
          after.Holds sum (merge first) ∧ memory.KeptIn after ∧
          ∀ result scan, memory.Holds result scan → after.Holds result scan := by
  have hfirst := joins_merge first
  have hparts := (joins_merge [merge first, merge second]).of_parts hfirst (joins_merge second)
  refine ⟨(joins_merge (first ++ second)).unique hparts, hfirst.files_eq_sum, hfirst.lines_eq_sum,
    hfirst.keys, hfirst.get?_usages, fun memory results hresults => ?_⟩
  obtain ⟨sum, after, hmerge, hnew, hholds, hkept⟩ := ScanMemory.holds_merge hresults
  exact ⟨sum, after, hmerge, hnew, hholds, hkept, fun _ _ h => h.kept hkept⟩

/-- Two results that share a list, one of which also shares its table with a third. -/
def sharingMemory : ScanMemory where
  results := [⟨0, 1, 3⟩, ⟨1, 1, 2⟩, ⟨0, 2, 5⟩]
  tables := [[("X", 0)], [("Y", 1), ("X", 0)]]
  lists := [[⟨"a.ts", 1, "process.env.X"⟩], [⟨"b.ts", 2, "process.env.Y"⟩]]

/-- Merging them, one of them twice, changes none of them. -/
theorem merge_append_shared :
    let x : Usage := ⟨"a.ts", 1, "process.env.X"⟩
    let y : Usage := ⟨"b.ts", 2, "process.env.Y"⟩
    let scans : List ScanResult := [⟨[("X", [x])], 1, 3⟩, ⟨[("Y", [y]), ("X", [x])], 1, 2⟩,
      ⟨[("X", [x])], 2, 5⟩, ⟨[("X", [x])], 1, 3⟩]
    List.Forall₂ sharingMemory.Holds [0, 1, 2, 0] scans ∧
      ∃ sum after, sharingMemory.merge [0, 1, 2, 0] = (sum, after) ∧
        after.Holds sum ⟨[("X", [x, x, x, x]), ("Y", [y])], 5, 13⟩ ∧
        List.Forall₂ after.Holds [0, 1, 2, 0] scans := by
  intro x y scans
  have hx (lists : List (List Usage)) (h : lists[0]? = some [x]) :
      HoldsUsages lists [("X", 0)] [("X", [x])] := .cons ⟨rfl, h⟩ .nil
  have hfirst : sharingMemory.Holds 0 ⟨[("X", [x])], 1, 3⟩ :=
    ⟨_, _, rfl, rfl, hx _ rfl, rfl, rfl⟩
  have hsecond : sharingMemory.Holds 1 ⟨[("Y", [y]), ("X", [x])], 1, 2⟩ :=
    ⟨_, _, rfl, rfl, .cons ⟨rfl, rfl⟩ (hx _ rfl), rfl, rfl⟩
  have hthird : sharingMemory.Holds 2 ⟨[("X", [x])], 2, 5⟩ :=
    ⟨_, _, rfl, rfl, hx _ rfl, rfl, rfl⟩
  have hscans : List.Forall₂ sharingMemory.Holds [0, 1, 2, 0] scans :=
    .cons hfirst (.cons hsecond (.cons hthird (.cons hfirst .nil)))
  obtain ⟨-, -, -, -, -, hmemory⟩ := merge_append scans []
  obtain ⟨sum, after, hmerge, -, hholds, -, hkept⟩ := hmemory sharingMemory _ hscans
  have hvalue : merge scans = ⟨[("X", [x, x, x, x]), ("Y", [y])], 5, 13⟩ := by decide
  rw [hvalue] at hholds
  exact ⟨hscans, sum, after, hmerge, hholds, hscans.imp hkept⟩

end ScanResult
end EnvFiles
