import EnvFiles.Store.Logged
import EnvFiles.Store.Rehearsal
import EnvFiles.Text.Quoted

/-!
# Putting stores together

A store is put together from the names of its wrappers. Their order and number do not matter: the
rehearsal is always inside and the log outside, so that what is logged is what would have
happened.
-/

namespace EnvFiles

/-- The store with the named wrappers. -/
def Store.assemble {σ : Type} (inner : Store σ) (wrappers : List Text) :
    Except Failure (Store (Rehearsal σ)) :=
  let unknown := wrappers.filter fun name => !storeWrapperNames.contains name
  if unknown.isEmpty then
    let store := if wrappers.contains ("dry_run" : Text) then inner.rehearsed else inner.direct
    .ok (if wrappers.contains ("logging" : Text) then store.logged else store)
  else .error (.unknownWrappers ((firstOccurrences unknown).mergeSort Text.precedes))

/-- The wrappers of a store when none are named. -/
def usualWrappers : List Text := ["logging"]

end EnvFiles
