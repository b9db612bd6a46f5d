import EnvFiles.Store.Basic
import EnvFiles.Table

/-!
# Rehearsals

A rehearsal keeps writes and deletes to itself and lets reads see them; the store behind it does
not change. What is pending is a table, so a path appears once, as a write or as a delete.
-/

namespace EnvFiles

/-- The state of a rehearsal: the state of the store behind it, and for each path touched the
text it would hold, or nothing. -/
structure Rehearsal (σ : Type) where
  base : σ
  pending : Table Path (Option Text) := []

namespace Rehearsal

variable {σ : Type}

/-- The texts that would be written. -/
def writes (rehearsal : Rehearsal σ) : Table Path Text :=
  rehearsal.pending.filterMap fun entry => entry.2.map fun text => (entry.1, text)

/-- The paths that would be deleted. -/
def deletes (rehearsal : Rehearsal σ) : List Path :=
  (rehearsal.pending.filter fun entry => entry.2.isNone).map Prod.fst

/-- The rehearsal with one more change pending. -/
def plan (rehearsal : Rehearsal σ) (path : Path) (content : Option Text) : Rehearsal σ :=
  { rehearsal with pending := rehearsal.pending.put path content }

/-- A reply of the store behind, seen from a rehearsal. -/
def ofBase {α : Type} (rehearsal : Rehearsal σ) (reply : Reply σ α) : Reply (Rehearsal σ) α :=
  ⟨reply.answer, { rehearsal with base := reply.after }, reply.notices⟩

end Rehearsal

namespace Store

variable {σ : Type}

/-- The store whose changes are rehearsed only. -/
def rehearsed (inner : Store σ) : Store (Rehearsal σ) where
  read path state :=
    match state.pending.get? path with
    | some content => ⟨.ok content, state, []⟩
    | none => state.ofBase (inner.read path state.base)
  write path text state := ⟨.ok (), state.plan path (some text), []⟩
  delete path state := ⟨.ok (), state.plan path none, []⟩
  holds path state :=
    match state.pending.get? path with
    | some content => content.isSome
    | none => inner.holds path state.base

/-- The store behind a rehearsal that is not used. -/
def direct (inner : Store σ) : Store (Rehearsal σ) where
  read path state := state.ofBase (inner.read path state.base)
  write path text state := state.ofBase (inner.write path text state.base)
  delete path state := state.ofBase (inner.delete path state.base)
  holds path state := inner.holds path state.base

end Store

/-- Run against a rehearsal of the store that starts with nothing pending. The result comes with
what would have been written; the store is as the reads left it. -/
def Run.rehearse {σ α : Type} (run : Run (Rehearsal σ) α) : Run σ (α × Table Path Text) :=
  Attempt.ofFunction fun world =>
    let (outcome, after) := run.runFrom ⟨⟨world.store, []⟩, world.desk⟩
    (outcome.map fun result => (result, after.store.writes), ⟨after.store.base, after.desk⟩)

end EnvFiles
