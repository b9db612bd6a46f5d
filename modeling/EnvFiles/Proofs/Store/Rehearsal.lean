import EnvFiles.Proofs.Attempt
import EnvFiles.Proofs.Store.Memory
import EnvFiles.Proofs.Table
import EnvFiles.Store.Assembly
import Mathlib.Data.List.Perm.Basic
import Mathlib.Logic.Function.Basic

/-!
# A rehearsal behaves as the store it stands for

A map store holds a text at some of its paths, answers every call from them, and forgets and
remembers nothing else. What a sequence of calls comes to on a map store follows from the texts
alone: `Texts.answers` and `Texts.effects` say which answers it gets and what it leaves.

A rehearsal of a map store is a map store again, whose texts are the pending ones over those of
the store behind it. That is the whole simulation: a rehearsal and a plain store with the same
texts give the same answers, notices included, for any sequence of calls. The store behind it
keeps its state, and committing what is pending brings it to where the plain store is.
-/

namespace EnvFiles

/-- The texts that a store holds. -/
abbrev Texts := Path → Option Text

/-- One call of a store. -/
inductive StoreCall
  | read (path : Path)
  | write (path : Path) (text : Text)
  | delete (path : Path)
  | holds (path : Path)
  deriving DecidableEq, Repr

/-- What a call gives back. -/
inductive StoreAnswer
  | content (text : Option Text)
  | done
  | held (held : Bool)
  deriving DecidableEq, Repr

namespace StoreCall

/-- What a call gives back for the given texts. -/
def answer (texts : Texts) : StoreCall → StoreAnswer
  | .read path => .content (texts path)
  | .write _ _ => .done
  | .delete _ => .done
  | .holds path => .held (texts path).isSome

/-- The texts after a call. -/
def effect (texts : Texts) : StoreCall → Texts
  | .read _ => texts
  | .write path text => Function.update texts path (some text)
  | .delete path => Function.update texts path none
  | .holds _ => texts

/-- What a log says about a call. -/
def notices (logger : Text) (texts : Texts) : StoreCall → List Notice
  | .read path => readNotices logger path (.ok (texts path))
  | .write path text => [.fileWritten logger path text.length]
  | .delete path => [.fileDeleted logger path]
  | .holds _ => []

/-- What a call leaves at a path, if it changes the path at all. -/
def left? (path : Path) : StoreCall → Option (Option Text)
  | .write other text => if other = path then some (some text) else none
  | .delete other => if other = path then some none else none
  | _ => none

/-- A path reads afterwards as the call leaves it, or as before. -/
theorem effect_eq (texts : Texts) (call : StoreCall) (path : Path) :
    call.effect texts path = (call.left? path).getD (texts path) := by
  cases call with
  | read other => rfl
  | holds other => rfl
  | write other text =>
    by_cases h : other = path
    · simp [effect, left?, h]
    · simp [effect, left?, h, Function.update_of_ne (Ne.symm h)]
  | delete other =>
    by_cases h : other = path
    · simp [effect, left?, h]
    · simp [effect, left?, h, Function.update_of_ne (Ne.symm h)]

end StoreCall

namespace Texts

/-- What a sequence of calls gives back. -/
def answers : Texts → List StoreCall → List StoreAnswer
  | _, [] => []
  | texts, call :: rest => call.answer texts :: answers (call.effect texts) rest

/-- The texts after a sequence of calls. -/
def effects (texts : Texts) (calls : List StoreCall) : Texts := calls.foldl StoreCall.effect texts

/-- What a log says about a sequence of calls, when it says `noted` about each. -/
def notices (noted : Texts → StoreCall → List Notice) : Texts → List StoreCall → List Notice
  | _, [] => []
  | texts, call :: rest => noted texts call ++ notices noted (call.effect texts) rest

/-- Where nothing is noted about any call, nothing is noted about a sequence of them. -/
theorem notices_of_silent (texts : Texts) (calls : List StoreCall) :
    texts.notices (fun _ _ => []) calls = [] := by
  induction calls generalizing texts with
  | nil => rfl
  | cons call rest ih => exact ih _

/-- Calls that leave one content at a path, and no other, lead to that content there. -/
theorem effects_eq_of_left {texts : Texts} {calls : List StoreCall} {path : Path}
    {content : Option Text}
    (honly : ∀ call ∈ calls, ∀ left, call.left? path = some left → left = content)
    (hcontent : texts path = content ∨ ∃ call ∈ calls, call.left? path = some content) :
    texts.effects calls path = content := by
  induction calls generalizing texts with
  | nil =>
    rcases hcontent with h | ⟨call, hcall, -⟩
    · exact h
    · exact absurd hcall List.not_mem_nil
  | cons call rest ih =>
    change (call.effect texts).effects rest path = content
    refine ih (fun other hother => honly other (List.mem_cons_of_mem _ hother)) ?_
    rw [StoreCall.effect_eq]
    cases hleft : call.left? path with
    | some left => exact Or.inl (honly call (List.mem_cons_self ..) left hleft)
    | none =>
      refine hcontent.imp_right fun ⟨other, hother, hsome⟩ => ?_
      rcases List.mem_cons.mp hother with rfl | hrest
      · rw [hleft] at hsome
        cases hsome
      · exact ⟨other, hrest, hsome⟩

end Texts

namespace Store

variable {σ τ : Type}

/-- Make a call. -/
def perform (store : Store σ) : StoreCall → Run σ StoreAnswer
  | .read path => StoreAnswer.content <$> Run.read store path
  | .write path text => (fun _ => StoreAnswer.done) <$> Run.write store path text
  | .delete path => (fun _ => StoreAnswer.done) <$> Run.delete store path
  | .holds path => StoreAnswer.held <$> Run.holds store path

/-- Make calls one after another. -/
def performAll (store : Store σ) : List StoreCall → Run σ (List StoreAnswer)
  | [] => pure []
  | call :: rest => do return (← store.perform call) :: (← store.performAll rest)

/-- A store that is a map from paths to texts and notes about each call what `noted` says. -/
structure IsMap (store : Store σ) (texts : σ → Texts)
    (noted : Texts → StoreCall → List Notice := fun _ _ => []) : Prop where
  read : ∀ path state, store.read path state =
    ⟨.ok (texts state path), state, noted (texts state) (.read path)⟩
  write : ∀ path text state, ∃ after, store.write path text state =
      ⟨.ok (), after, noted (texts state) (.write path text)⟩ ∧
    texts after = Function.update (texts state) path (some text)
  delete : ∀ path state, ∃ after, store.delete path state =
      ⟨.ok (), after, noted (texts state) (.delete path)⟩ ∧
    texts after = Function.update (texts state) path none
  holds : ∀ path state, store.holds path state = (texts state path).isSome ∧
    noted (texts state) (.holds path) = []

namespace IsMap

variable {store : Store σ} {texts : σ → Texts} {noted : Texts → StoreCall → List Notice}

/-- A call comes to what the texts say. -/
theorem perform (h : store.IsMap texts noted) (call : StoreCall) (state : σ) (desk : Desk) :
    ∃ after, (store.perform call).runFrom ⟨state, desk⟩ =
        (.ok (call.answer (texts state)),
          ⟨after, { desk with log := desk.log ++ noted (texts state) call }⟩) ∧
      texts after = call.effect (texts state) := by
  cases call with
  | read path =>
    refine ⟨state, ?_, rfl⟩
    rw [Store.perform, Attempt.runFrom_map, Run.read, Run.call, Attempt.runFrom_ofFunction, h.read]
    rfl
  | write path text =>
    obtain ⟨after, hwrite, hafter⟩ := h.write path text state
    refine ⟨after, ?_, hafter⟩
    rw [Store.perform, Attempt.runFrom_map, Run.write, Run.call, Attempt.runFrom_ofFunction, hwrite]
    rfl
  | delete path =>
    obtain ⟨after, hdelete, hafter⟩ := h.delete path state
    refine ⟨after, ?_, hafter⟩
    rw [Store.perform, Attempt.runFrom_map, Run.delete, Run.call, Attempt.runFrom_ofFunction,
      hdelete]
    rfl
  | holds path =>
    obtain ⟨hholds, hnoted⟩ := h.holds path state
    refine ⟨state, ?_, rfl⟩
    rw [Store.perform, Attempt.runFrom_map, hnoted, List.append_nil, StoreCall.answer, ← hholds]
    rfl

/-- What a sequence of calls comes to follows from the texts at its start. -/
theorem performAll (h : store.IsMap texts noted) (calls : List StoreCall) (state : σ)
    (desk : Desk) :
    ∃ after, (store.performAll calls).runFrom ⟨state, desk⟩ =
        (.ok ((texts state).answers calls),
          ⟨after, { desk with log := desk.log ++ (texts state).notices noted calls }⟩) ∧
      texts after = (texts state).effects calls := by
  induction calls generalizing state desk with
  | nil =>
    refine ⟨state, ?_, rfl⟩
    rw [Texts.notices, List.append_nil]
    rfl
  | cons call rest ih =>
    obtain ⟨middle, hcall, hmiddle⟩ := h.perform call state desk
    obtain ⟨after, hrest, hafter⟩ :=
      ih middle { desk with log := desk.log ++ noted (texts state) call }
    rw [hmiddle] at hrest hafter
    refine ⟨after, ?_, hafter⟩
    rw [Store.performAll, Attempt.runFrom_bind, hcall]
    dsimp only
    rw [Attempt.runFrom_bind, hrest]
    simp only [List.append_assoc]
    rfl

/-- A map store that is logged is a map store with a log. -/
theorem logged (h : store.IsMap texts) (logger : Text) :
    (store.logged logger).IsMap texts fun texts call => call.notices logger texts where
  read path state := by simp only [Store.logged, h.read]; rfl
  write path text state := by
    obtain ⟨after, hwrite, hafter⟩ := h.write path text state
    exact ⟨after, by simp only [Store.logged, hwrite]; rfl, hafter⟩
  delete path state := by
    obtain ⟨after, hdelete, hafter⟩ := h.delete path state
    exact ⟨after, by simp only [Store.logged, hdelete]; rfl, hafter⟩
  holds path state := ⟨(h.holds path state).1, rfl⟩

/-- A map store behind a rehearsal that is not used is the map store it is alone. -/
theorem direct (h : store.IsMap texts) : store.direct.IsMap fun state => texts state.base where
  read path state := by simp only [Store.direct, h.read]; rfl
  write path text state := by
    obtain ⟨after, hwrite, hafter⟩ := h.write path text state.base
    exact ⟨{ state with base := after }, by simp only [Store.direct, hwrite]; rfl, hafter⟩
  delete path state := by
    obtain ⟨after, hdelete, hafter⟩ := h.delete path state.base
    exact ⟨{ state with base := after }, by simp only [Store.direct, hdelete]; rfl, hafter⟩
  holds path state := ⟨(h.holds path state.base).1, rfl⟩

end IsMap
end Store

section Rehearsing

variable {σ τ : Type}

namespace Rehearsal

/-- What a rehearsal reads: what is pending, and behind it what the store holds. -/
def texts (base : σ → Texts) (rehearsal : Rehearsal σ) : Texts := fun path =>
  match rehearsal.pending.get? path with
  | some content => content
  | none => base rehearsal.base path

/-- One more change pending is a change of the texts. -/
theorem texts_plan (base : σ → Texts) (rehearsal : Rehearsal σ) (path : Path)
    (content : Option Text) :
    (rehearsal.plan path content).texts base =
      Function.update (rehearsal.texts base) path content := by
  funext other
  rw [texts, plan, Table.get?_put]
  by_cases h : path = other
  · subst h
    simp
  · rw [if_neg h, Function.update_of_ne (Ne.symm h)]
    rfl

/-- What is pending, as calls of the store behind. -/
def commits (rehearsal : Rehearsal σ) : List StoreCall :=
  rehearsal.writes.map (fun entry => .write entry.1 entry.2) ++ rehearsal.deletes.map .delete

/-- A path is pending with what one of the pending calls leaves there. -/
theorem mem_pending_of_commit {rehearsal : Rehearsal σ} {call : StoreCall}
    (hcall : call ∈ rehearsal.commits) {path : Path} {left : Option Text}
    (hleft : call.left? path = some left) : (path, left) ∈ rehearsal.pending := by
  rcases List.mem_append.mp hcall with hwrite | hdelete
  · obtain ⟨⟨other, text⟩, hentry, rfl⟩ := List.mem_map.mp hwrite
    obtain ⟨⟨place, content⟩, hmem, hsome⟩ := List.mem_filterMap.mp hentry
    obtain ⟨text, rfl, heq⟩ := Option.map_eq_some_iff.mp hsome
    cases heq
    simp only [StoreCall.left?, Option.ite_none_right_eq_some, Option.some.injEq] at hleft
    obtain ⟨rfl, rfl⟩ := hleft
    exact hmem
  · obtain ⟨other, hother, rfl⟩ := List.mem_map.mp hdelete
    obtain ⟨⟨place, content⟩, hmem, rfl⟩ := List.mem_map.mp hother
    obtain ⟨hmem, hnone⟩ := List.mem_filter.mp hmem
    simp only [StoreCall.left?, Option.ite_none_right_eq_some, Option.some.injEq] at hleft
    obtain ⟨rfl, rfl⟩ := hleft
    obtain rfl : content = none := Option.isNone_iff_eq_none.mp hnone
    exact hmem

/-- What is pending at a path is left there by one of the pending calls. -/
theorem exists_commit {rehearsal : Rehearsal σ} {path : Path} {content : Option Text}
    (h : (path, content) ∈ rehearsal.pending) :
    ∃ call ∈ rehearsal.commits, call.left? path = some content := by
  cases content with
  | some text =>
    refine ⟨.write path text, List.mem_append_left _ ?_, if_pos rfl⟩
    exact List.mem_map.mpr ⟨(path, text), List.mem_filterMap.mpr ⟨_, h, rfl⟩, rfl⟩
  | none =>
    refine ⟨.delete path, List.mem_append_right _ (List.mem_map_of_mem ?_), if_pos rfl⟩
    exact List.mem_map.mpr ⟨(path, none), List.mem_filter.mpr ⟨h, rfl⟩, rfl⟩

/-- Committing what is pending, in any order, leads to what the rehearsal reads. -/
theorem effects_commits (base : σ → Texts) {rehearsal : Rehearsal σ}
    (hnodup : rehearsal.pending.keys.Nodup) {calls : List StoreCall}
    (hcalls : calls.Perm rehearsal.commits) :
    (base rehearsal.base).effects calls = rehearsal.texts base := by
  funext path
  rw [texts]
  split
  · rename_i content hpending
    refine Texts.effects_eq_of_left (fun call hcall left hleft => ?_) (Or.inr ?_)
    · have hmem := mem_pending_of_commit (hcalls.mem_iff.mp hcall) hleft
      exact Option.some.inj ((Table.get?_of_mem hnodup hmem).symm.trans hpending)
    · obtain ⟨call, hcall, hleft⟩ := exists_commit (Table.mem_of_get? hpending)
      exact ⟨call, hcalls.mem_iff.mpr hcall, hleft⟩
  · rename_i hpending
    refine Texts.effects_eq_of_left (fun call hcall left hleft => ?_) (Or.inl rfl)
    have hmem := mem_pending_of_commit (hcalls.mem_iff.mp hcall) hleft
    have hkey := Table.get?_of_mem hnodup hmem
    rw [hpending] at hkey
    cases hkey

/-- No path is both to be written and to be deleted. -/
theorem disjoint_writes_deletes {rehearsal : Rehearsal σ}
    (hnodup : rehearsal.pending.keys.Nodup) :
    rehearsal.writes.keys.Disjoint rehearsal.deletes := by
  intro path hwrite hdelete
  obtain ⟨⟨other, text⟩, hentry, rfl⟩ := List.mem_map.mp hwrite
  have hwritten : StoreCall.write other text ∈ rehearsal.commits :=
    List.mem_append_left _ (List.mem_map.mpr ⟨_, hentry, rfl⟩)
  have hdeleted : StoreCall.delete other ∈ rehearsal.commits :=
    List.mem_append_right _ (List.mem_map_of_mem hdelete)
  have hsome := Table.get?_of_mem hnodup (mem_pending_of_commit hwritten (if_pos rfl))
  have hnone := Table.get?_of_mem hnodup (mem_pending_of_commit hdeleted (if_pos rfl))
  cases hsome.symm.trans hnone

end Rehearsal

/-- A rehearsal of a map store is a map store. -/
theorem Store.IsMap.rehearsed {store : Store σ} {texts : σ → Texts} (h : store.IsMap texts) :
    store.rehearsed.IsMap (Rehearsal.texts texts) where
  read path state := by
    cases hpending : state.pending.get? path <;>
      simp only [Store.rehearsed, Rehearsal.texts, hpending, h.read, Rehearsal.ofBase]
  write path text state := ⟨_, rfl, Rehearsal.texts_plan ..⟩
  delete path state := ⟨_, rfl, Rehearsal.texts_plan ..⟩
  holds path state := by
    refine ⟨?_, rfl⟩
    cases hpending : state.pending.get? path <;>
      simp only [Store.rehearsed, Rehearsal.texts, hpending, (h.holds _ _).1]

/-- A rehearsal that started at the given state of the store behind it. -/
def Rehearsal.IsOver (start : σ) (rehearsal : Rehearsal σ) : Prop :=
  rehearsal.base = start ∧ rehearsal.pending.keys.Nodup

/-- One more change pending leaves the store behind as it is. -/
theorem Rehearsal.IsOver.plan {start : σ} {rehearsal : Rehearsal σ}
    (h : rehearsal.IsOver start) (path : Path) (content : Option Text) :
    (rehearsal.plan path content).IsOver start :=
  ⟨h.1, nodup_map_upsert h.2 (path, content)⟩

/-- A store can be put together from known names of wrappers. -/
theorem Store.assemble_of_known (inner : Store σ) {wrappers : List Text}
    (hknown : wrappers ⊆ storeWrapperNames) :
    inner.assemble wrappers = .ok (
      let store := if wrappers.contains ("dry_run" : Text) then inner.rehearsed else inner.direct
      if wrappers.contains ("logging" : Text) then store.logged else store) := by
  have hunknown : wrappers.filter (fun name => !storeWrapperNames.contains name) = [] := by
    rw [List.filter_eq_nil_iff]
    intro name hname
    simpa using hknown hname
  rw [Store.assemble, hunknown]
  rfl

namespace Store.IsMap

variable {inner : Store σ} {texts : σ → Texts}

/-- A call through a rehearsal leaves the store behind it as it is. -/
theorem endsIn_perform (h : inner.IsMap texts) (call : StoreCall) {start : σ}
    {world : World (Rehearsal σ)} (hworld : world.store.IsOver start) :
    (inner.rehearsed.perform call).EndsIn world (fun _ after => after.store.IsOver start)
      fun _ after => after.store.IsOver start := by
  cases call with
  | read path =>
    rw [Store.perform, Attempt.endsIn_map, Run.read, Run.call, Attempt.EndsIn,
      Attempt.runFrom_ofFunction, h.rehearsed.read]
    exact hworld
  | write path text => exact hworld.plan path (some text)
  | delete path => exact hworld.plan path none
  | holds path => exact hworld

/-- Calls through a rehearsal leave the store behind it as it is. -/
theorem endsIn_performAll (h : inner.IsMap texts) (calls : List StoreCall) {start : σ}
    {world : World (Rehearsal σ)} (hworld : world.store.IsOver start) :
    (inner.rehearsed.performAll calls).EndsIn world (fun _ after => after.store.IsOver start)
      fun _ after => after.store.IsOver start := by
  induction calls generalizing world with
  | nil => exact hworld
  | cons call rest ih =>
    rw [Store.performAll, Attempt.endsIn_bind]
    refine (h.endsIn_perform call hworld).mono (fun _ middle hmiddle => ?_) fun _ _ hafter => hafter
    rw [Attempt.endsIn_bind]
    exact (ih hmiddle).mono (fun _ _ hafter => hafter) fun _ _ hafter => hafter

/-- A store with a log is put together from known names of wrappers, in any order and number,
and behaves as its rehearsal or as itself, with every call noted. -/
theorem exists_assemble (h : inner.IsMap texts) {wrappers : List Text}
    (hknown : wrappers ⊆ storeWrapperNames) (hlogging : ("logging" : Text) ∈ wrappers)
    (calls : List StoreCall) (start : σ) (desk : Desk) :
    ∃ store after, inner.assemble wrappers = .ok store ∧
      (store.performAll calls).runFrom ⟨⟨start, []⟩, desk⟩ =
        (.ok ((texts start).answers calls), ⟨after, { desk with
          log := desk.log ++ (texts start).notices
            (fun texts call => call.notices filesLogger texts) calls }⟩) := by
  rw [assemble_of_known inner hknown]
  simp only [List.contains_iff_mem.mpr hlogging, if_true]
  cases hdry : wrappers.contains ("dry_run" : Text) with
  | true =>
    obtain ⟨after, hrun, -⟩ := (h.rehearsed.logged filesLogger).performAll calls ⟨start, []⟩ desk
    exact ⟨_, after, rfl, hrun⟩
  | false =>
    obtain ⟨after, hrun, -⟩ := (h.direct.logged filesLogger).performAll calls ⟨start, []⟩ desk
    exact ⟨_, after, rfl, hrun⟩

end Store.IsMap

/-- A rehearsal over a map store refines a plain map store with the same texts. Any sequence of
calls gets the same answers from both. The store behind the rehearsal keeps its state, no path is
both to be written and to be deleted, and committing what is pending in any order brings the
store behind to the plain store's texts. Put together with a log, with or without a rehearsal and
whatever the order and number of the wrappers, the stores note the same about the calls. -/
theorem rehearsal_refines {inner : Store σ} {plain : Store τ} {texts : σ → Texts}
    {plainTexts : τ → Texts} (hinner : inner.IsMap texts) (hplain : plain.IsMap plainTexts)
    {start : σ} {first : τ} (hstart : texts start = plainTexts first) (calls : List StoreCall)
    (desk : Desk) :
    ∃ answers rehearsal final,
      (inner.rehearsed.performAll calls).runFrom ⟨⟨start, []⟩, desk⟩ =
        (.ok answers, ⟨rehearsal, desk⟩) ∧
      (plain.performAll calls).runFrom ⟨first, desk⟩ = (.ok answers, ⟨final, desk⟩) ∧
      rehearsal.base = start ∧
      rehearsal.writes.keys.Disjoint rehearsal.deletes ∧
      (∀ commits, commits.Perm rehearsal.commits → ∃ done committed,
        (inner.performAll commits).runFrom ⟨start, desk⟩ = (.ok done, ⟨committed, desk⟩) ∧
          texts committed = plainTexts final) ∧
      ∀ dry real, dry ⊆ storeWrapperNames → real ⊆ storeWrapperNames →
        ("logging" : Text) ∈ dry → ("logging" : Text) ∈ real →
        ∃ dryStore realStore log dryAfter realAfter,
          inner.assemble dry = .ok dryStore ∧ plain.assemble real = .ok realStore ∧
          (dryStore.performAll calls).runFrom ⟨⟨start, []⟩, desk⟩ =
            (.ok answers, ⟨dryAfter, { desk with log }⟩) ∧
          (realStore.performAll calls).runFrom ⟨⟨first, []⟩, desk⟩ =
            (.ok answers, ⟨realAfter, { desk with log }⟩) := by
  have hover : (Rehearsal.mk start []).IsOver start := ⟨rfl, List.nodup_nil⟩
  obtain ⟨rehearsal, hrehearsed, htexts⟩ := hinner.rehearsed.performAll calls ⟨start, []⟩ desk
  obtain ⟨final, hreal, hfinal⟩ := hplain.performAll calls first desk
  obtain ⟨hbase, hnodup⟩ : rehearsal.IsOver start :=
    Attempt.EndsIn.of_runFrom_ok (hinner.endsIn_performAll calls hover) hrehearsed
  rw [Texts.notices_of_silent, List.append_nil] at hrehearsed hreal
  refine ⟨(texts start).answers calls, rehearsal, final, hrehearsed, ?_, hbase,
    Rehearsal.disjoint_writes_deletes hnodup, fun commits hcommits => ?_,
    fun dry real hdry hknown hdryLogging hrealLogging => ?_⟩
  · rwa [hstart]
  · obtain ⟨committed, hrun, hcommitted⟩ := hinner.performAll commits start desk
    rw [Texts.notices_of_silent, List.append_nil] at hrun
    refine ⟨_, committed, hrun, ?_⟩
    calc texts committed = (texts rehearsal.base).effects commits := by rw [hcommitted, hbase]
      _ = rehearsal.texts texts := Rehearsal.effects_commits texts hnodup hcommits
      _ = plainTexts final := by rw [htexts, hfinal, ← hstart]; rfl
  · obtain ⟨dryStore, dryAfter, hdryStore, hdryRun⟩ :=
      hinner.exists_assemble hdry hdryLogging calls start desk
    obtain ⟨realStore, realAfter, hrealStore, hrealRun⟩ :=
      hplain.exists_assemble hknown hrealLogging calls first desk
    rw [← hstart] at hrealRun
    exact ⟨dryStore, realStore, _, dryAfter, realAfter, hdryStore, hrealStore, hdryRun, hrealRun⟩

end Rehearsing

/-- The store in memory is a map store. -/
theorem isMap_memoryStore : memoryStore.IsMap Table.get? where
  read _ _ := rfl
  write path text table := ⟨table.put path text, rfl, by
    funext other
    rw [Table.get?_put]
    by_cases h : path = other
    · simp [h]
    · rw [if_neg h, Function.update_of_ne (Ne.symm h)]⟩
  delete path table := ⟨_, rfl, by
    funext other
    rw [Table.get?_filter table (fun key => decide (key ≠ path))]
    by_cases h : other = path
    · simp [h]
    · rw [Function.update_of_ne h]
      simp [h]⟩
  holds _ _ := ⟨rfl, rfl⟩

/-- Two files. -/
def twoFiles : Table Path Text := [([['a']], ['0']), ([['b']], ['2'])]

/-- Calls that write over a file, delete one, and write a file again that was deleted before. -/
def changingCalls : List StoreCall :=
  [.write [['a']] ['1'], .delete [['b']], .read [['b']], .holds [['a']], .delete [['c']],
    .write [['c']] ['3'], .read [['c']]]

/-- What these calls get from a store with the two files. -/
def changingAnswers : List StoreAnswer :=
  [.done, .done, .content none, .held true, .done, .done, .content (some ['3'])]

/-- A rehearsal of these calls over the two files sees what the store itself would see. -/
theorem rehearsal_refines_changing :
    memoryStore.IsMap Table.get? ∧ ∃ rehearsal final,
      (memoryStore.rehearsed.performAll changingCalls).runFrom ⟨⟨twoFiles, []⟩, {}⟩ =
        (.ok changingAnswers, ⟨rehearsal, {}⟩) ∧
      (memoryStore.performAll changingCalls).runFrom ⟨twoFiles, {}⟩ =
        (.ok changingAnswers, ⟨final, {}⟩) ∧
      rehearsal.base = twoFiles ∧ rehearsal.writes.keys.Disjoint rehearsal.deletes := by
  obtain ⟨answers, rehearsal, final, hrehearsed, hplain, hbase, hdisjoint, -⟩ :=
    rehearsal_refines isMap_memoryStore isMap_memoryStore (@rfl _ (Table.get? twoFiles))
      changingCalls {}
  have hanswers : Except.ok answers = Except.ok changingAnswers :=
    (congrArg Prod.fst hplain).symm
  cases hanswers
  exact ⟨isMap_memoryStore, rehearsal, final, hrehearsed, hplain, hbase, hdisjoint⟩

end EnvFiles
