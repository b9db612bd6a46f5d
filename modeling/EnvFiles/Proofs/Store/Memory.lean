import EnvFiles.Proofs.Store.View

/-!
# The store in memory

A table of texts by path is the plainest store: every operation succeeds, and reading a path back
gives exactly what was last written.
-/

namespace EnvFiles

/-- The store whose state is a table of texts. -/
def memoryStore : Store (Table Path Text) where
  read path table := ⟨.ok (table.get? path), table, []⟩
  write path text table := ⟨.ok (), table.put path text, []⟩
  delete path table := ⟨.ok (), table.filter fun entry => entry.1 ≠ path, []⟩
  holds path table := table.has path

/-- Every path of the store in memory is its own file. -/
def memoryView : StoreView memoryStore where
  covers _ := True
  sameFile := Eq
  valid _ := True
  files table path := .ok (table.get? path)
  sameFile_equivalence := ⟨fun _ => rfl, Eq.symm, Eq.trans⟩
  files_congr _ _ _ _ _ _ h := by rw [h]
  answer_read _ _ _ := rfl
  valid_read _ _ _ := trivial
  files_read _ _ _ := rfl
  valid_write _ _ _ _ _ := trivial
  files_write table path text other _ _ _ _ h := by
    refine ⟨text, ?_, Or.inl rfl⟩
    change Except.ok ((table.put path text).get? other) = _
    rw [Table.get?_put, if_pos h]
  files_write_other table path text other _ _ _ h := by
    change Except.ok ((table.put path text).get? other) = _
    rw [Table.get?_put, if_neg h]
  files_write_failed _ _ _ _ _ _ _ _ h := by cases h

end EnvFiles
