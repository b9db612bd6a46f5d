import EnvFiles.Proofs.Store.Rehearsal
import EnvFiles.Proofs.Tree.Removing
import EnvFiles.Store.Logged
import EnvFiles.Store.OnTree

/-!
# What deleting takes away

Something stands at some places of a store, and the paths that can be deleted lead to such places.
Deleting a path takes away what stands at its place; every other place keeps what it has, no path
changes its place, and no path is held that was not held before. In a file tree the place of a path
is where its links lead, but a link at its end is what is deleted.
-/

namespace EnvFiles

variable {σ κ : Type} {store : Store σ}

/-- What stands at the places of a store, and to which places its paths lead. -/
structure StorePlaces (σ κ : Type) where
  valid : σ → Prop
  at? : σ → Path → Option κ
  Leads : σ → Path → Path → Prop

/-- In the second state what stood at the places of some paths is gone, and nothing else. -/
structure Removes (store : Store σ) (places : StorePlaces σ κ) (paths : List Path)
    (before after : σ) : Prop where
  valid : places.valid after
  gone : ∀ path ∈ paths, ∀ place, places.Leads before path place → places.at? after place = none
  kept : ∀ place, (∀ path ∈ paths, ¬ places.Leads before path place) →
    places.at? after place = places.at? before place
  leads : ∀ path place, places.Leads before path place → places.Leads after path place
  held : ∀ path, store.holds path after = true → store.holds path before = true ∧ path ∉ paths

/-- A store in which what is held can be deleted, and nothing else goes with it. -/
structure DeleteView (store : Store σ) (κ : Type) extends StorePlaces σ κ where
  leads_unique : ∀ state path place place', Leads state path place → Leads state path place' →
    place = place'
  exists_leads : ∀ state path, valid state → store.holds path state = true →
    ∃ place, Leads state path place ∧ at? state place ≠ none
  delete : ∀ state path place, valid state → Leads state path place →
    ∃ notices after, store.delete path state = ⟨.ok (), after, notices⟩ ∧
      Removes store toStorePlaces [path] state after

namespace Removes

variable {places : StorePlaces σ κ} {first second : List Path} {before middle after : σ}

/-- Where no path is deleted, nothing is gone. -/
theorem nil (h : places.valid before) : Removes store places [] before before :=
  ⟨h, nofun, fun _ _ => rfl, fun _ _ => id, fun _ hheld => ⟨hheld, List.not_mem_nil⟩⟩

/-- What was at the places of two lists of paths is gone when it went with one after the other. -/
theorem append
    (hunique : ∀ path place place', places.Leads middle path place →
      places.Leads middle path place' → place = place')
    (hlead : ∀ path ∈ second, ∃ place, places.Leads before path place)
    (hfirst : Removes store places first before middle)
    (hsecond : Removes store places second middle after) :
    Removes store places (first ++ second) before after where
  valid := hsecond.valid
  gone path hpath place hplace := by
    rcases List.mem_append.mp hpath with hmem | hmem
    · -- What the second list took away was gone already, or it is kept as it was.
      by_cases hboth : ∃ other ∈ second, places.Leads middle other place
      · obtain ⟨other, hother, hleads⟩ := hboth
        exact hsecond.gone other hother place hleads
      · rw [hsecond.kept place fun other hother hleads => hboth ⟨other, hother, hleads⟩]
        exact hfirst.gone path hmem place hplace
    · exact hsecond.gone path hmem place (hfirst.leads path place hplace)
  kept place hplace := by
    rw [hsecond.kept place fun path hpath hleads => ?_,
      hfirst.kept place fun path hpath => hplace path (List.mem_append_left _ hpath)]
    obtain ⟨place', hplace'⟩ := hlead path hpath
    cases hunique path _ _ hleads (hfirst.leads path place' hplace')
    exact hplace path (List.mem_append_right _ hpath) hplace'
  leads path place hplace := hsecond.leads path place (hfirst.leads path place hplace)
  held path hheld := by
    obtain ⟨hmiddle, hnotSecond⟩ := hsecond.held path hheld
    obtain ⟨hbefore, hnotFirst⟩ := hfirst.held path hmiddle
    exact ⟨hbefore, fun hmem => (List.mem_append.mp hmem).elim hnotFirst hnotSecond⟩

end Removes

/-- The place of a path in a file tree, and what stands there apart from what is below. -/
def treeDeleteView : DeleteView treeStore Node.Shape where
  valid root := root.shapeAt [] = some .folder ∧ root.NullFree
  at? := Node.shapeAt
  Leads := Node.Unlinks
  leads_unique _ _ _ _ hplace hplace' := hplace.unique hplace'
  exists_leads root path hvalid hheld := Node.exists_unlinks_of_hasFile hvalid.1 hvalid.2 hheld
  delete root path place hvalid hplace := by
    obtain ⟨after, hdelete, hremoved⟩ := hplace.exists_delete
    refine ⟨[], after, ?_, ?_, ?_, ?_, fun other place' => hremoved.unlinks hplace.deadEnd, ?_⟩
    · simp only [treeStore, hdelete]
    · exact ⟨hremoved.folder hplace.deadEnd hvalid.1, hremoved.nullFree hvalid.2⟩
    · intro other hother place' hplace'
      obtain rfl := List.mem_singleton.mp hother
      rw [← hplace.unique hplace']
      exact hremoved.here
    · intro place' hother
      refine hremoved.others place' ?_
      rintro rfl
      exact hother path (List.mem_singleton_self _) hplace
    · intro other hheld
      refine ⟨hremoved.hasFile hheld, fun hmem => ?_⟩
      obtain rfl := List.mem_singleton.mp hmem
      have hgone := (hremoved.unlinks hplace.deadEnd hplace).hasFile_eq_false hremoved.here
      exact Bool.false_ne_true (hgone.symm.trans hheld)

section Wrapped

/-- Logging takes nothing away. -/
def DeleteView.logged (view : DeleteView store κ) (logger : Text) :
    DeleteView (store.logged logger) κ where
  toStorePlaces := view.toStorePlaces
  leads_unique := view.leads_unique
  exists_leads := view.exists_leads
  delete state path place hvalid hplace := by
    obtain ⟨notices, after, hdelete, hremoves⟩ := view.delete state path place hvalid hplace
    refine ⟨.fileDeleted logger path :: notices, after, ?_, ?_⟩
    · simp only [Store.logged, hdelete]
    · exact ⟨hremoves.valid, hremoves.gone, hremoves.kept, hremoves.leads, hremoves.held⟩

/-- A store behind a rehearsal that is not used has the places that it has alone. -/
def DeleteView.direct (view : DeleteView store κ) : DeleteView store.direct κ where
  valid state := view.valid state.base
  at? state := view.at? state.base
  Leads state := view.Leads state.base
  leads_unique state := view.leads_unique state.base
  exists_leads state := view.exists_leads state.base
  delete state path place hvalid hplace := by
    obtain ⟨notices, after, hdelete, hremoves⟩ := view.delete state.base path place hvalid hplace
    refine ⟨notices, { state with base := after }, ?_, ?_⟩
    · simp only [Store.direct, Rehearsal.ofBase, hdelete]
    · exact ⟨hremoves.valid, hremoves.gone, hremoves.kept, hremoves.leads, hremoves.held⟩

/-- What a rehearsal holds at a path: what is pending, or else what the store behind it reads there
if it holds the path. -/
def Rehearsal.contentAt (store : Store σ) (rehearsal : Rehearsal σ) (path : Path) :
    Option Content :=
  match rehearsal.pending.get? path with
  | some content => content.map fun text => .ok (some text)
  | none => if store.holds path rehearsal.base then some (store.read path rehearsal.base).answer
    else none

/-- A rehearsal with one more change pending holds it at its path. -/
theorem Rehearsal.contentAt_plan (store : Store σ) (rehearsal : Rehearsal σ) (path other : Path)
    (content : Option Text) :
    (rehearsal.plan path content).contentAt store other =
      if path = other then content.map fun text => .ok (some text)
      else rehearsal.contentAt store other := by
  rw [contentAt, plan, Table.get?_put]
  by_cases h : path = other
  · rw [if_pos h, if_pos h]
  · rw [if_neg h, if_neg h, contentAt]

/-- In a rehearsal of any store every path is its own place. -/
def Store.rehearsedView (store : Store σ) : DeleteView store.rehearsed Content where
  valid _ := True
  at? := Rehearsal.contentAt store
  Leads _ path place := path = place
  leads_unique _ _ _ _ hplace hplace' := hplace.symm.trans hplace'
  exists_leads state path _ hheld := by
    refine ⟨path, rfl, ?_⟩
    simp only [Store.rehearsed] at hheld
    simp only [Rehearsal.contentAt]
    cases hpending : state.pending.get? path with
    | none =>
      rw [hpending] at hheld
      simp [show store.holds path state.base = true from hheld]
    | some content =>
      rw [hpending] at hheld
      obtain ⟨text, rfl⟩ := Option.isSome_iff_exists.mp hheld
      simp
  delete state path place _ hplace := by
    refine ⟨[], state.plan path none, rfl, trivial, ?_, ?_, fun _ _ => id, ?_⟩
    · rintro other hother place rfl
      obtain rfl := List.mem_singleton.mp hother
      exact (Rehearsal.contentAt_plan ..).trans (if_pos rfl)
    · intro place hother
      have hne : path ≠ place := fun heq => hother path (List.mem_singleton_self _) heq
      exact (Rehearsal.contentAt_plan ..).trans (if_neg hne)
    · intro other hheld
      simp only [Store.rehearsed, Rehearsal.plan, Table.get?_put] at hheld ⊢
      by_cases hother : path = other
      · rw [if_pos hother] at hheld
        cases hheld
      · rw [if_neg hother] at hheld
        exact ⟨hheld, fun hmem => hother (List.mem_singleton.mp hmem).symm⟩

/-- If what is held in a store can be deleted without anything else, so can what is held in a store
that is put together from it and known wrappers. -/
theorem DeleteView.exists_assemble (view : DeleteView store κ) {wrappers : List Text}
    (hknown : wrappers ⊆ storeWrapperNames) :
    ∃ assembled, store.assemble wrappers = .ok assembled ∧
      ∃ (content : Type) (outer : DeleteView assembled content),
        ∀ state, view.valid state → outer.valid ⟨state, []⟩ := by
  refine ⟨_, Store.assemble_of_known store hknown, ?_⟩
  dsimp only
  cases wrappers.contains ("dry_run" : Text) with
  | true =>
    cases wrappers.contains ("logging" : Text) with
    | true => exact ⟨_, store.rehearsedView.logged filesLogger, fun _ _ => trivial⟩
    | false => exact ⟨_, store.rehearsedView, fun _ _ => trivial⟩
  | false =>
    cases wrappers.contains ("logging" : Text) with
    | true => exact ⟨_, view.direct.logged filesLogger, fun _ hvalid => hvalid⟩
    | false => exact ⟨_, view.direct, fun _ hvalid => hvalid⟩

end Wrapped
end EnvFiles
