import EnvFiles.Desk

/-!
# Stores of example and values files

A store reads, writes and deletes texts by path and tells whether it holds a path. It is a
record of functions on its state, so that a store can be wrapped without being known. A run works
on a store's state and at a desk; when it fails, both keep what was done.
-/

namespace EnvFiles

/-- What a store gives back: an answer, its state afterwards, and notices. -/
structure Reply (σ α : Type) where
  answer : Except Failure α
  after : σ
  notices : List Notice := []

/-- A store with states `σ`. Reading gives nothing for a path that it does not hold. -/
structure Store (σ : Type) where
  read : Path → σ → Reply σ (Option Text)
  write : Path → Text → σ → Reply σ Unit
  delete : Path → σ → Reply σ Unit
  holds : Path → σ → Bool

/-- What a run works on. -/
structure World (σ : Type) where
  store : σ
  desk : Desk := {}

/-- A step of a run. -/
abbrev Run (σ : Type) := Attempt (World σ)

namespace Run

variable {σ α : Type}

/-- A step at the desk. -/
def atDesk (step : DeskStep α) : Run σ α :=
  step.onPart World.desk fun desk world => { world with desk }

/-- Call an operation of a store. -/
def call (operation : σ → Reply σ α) : Run σ α :=
  Attempt.ofFunction fun world =>
    let reply := operation world.store
    (reply.answer, { store := reply.after
                     desk := { world.desk with log := world.desk.log ++ reply.notices } })

/-- Read a file. -/
def read (store : Store σ) (path : Path) : Run σ (Option Text) := call (store.read path)

/-- Write a file. -/
def write (store : Store σ) (path : Path) (text : Text) : Run σ Unit := call (store.write path text)

/-- Delete a file. -/
def delete (store : Store σ) (path : Path) : Run σ Unit := call (store.delete path)

/-- Whether the store holds a path. -/
def holds (store : Store σ) (path : Path) : Run σ Bool := do
  return store.holds path (← get).store

/-- Fail with what was computed, or go on with it. -/
def ofExcept (result : Except Failure α) : Run σ α := MonadExcept.ofExcept result

end Run
end EnvFiles
