import EnvFiles.Discovery.Workspaces
import EnvFiles.Proofs.Store.Deleting
import EnvFiles.Workflow.Clean

/-!
# What a clean run deletes

The values files that the store holds are listed once each, the root's first and then those of the
workspaces in their order. If the run has to ask and is refused, or gets no reply, nothing changes.
Otherwise what stands at the places of the listed paths is gone, and nothing else, so that nothing
is left to delete. A rehearsal tells the same and leaves the store as it is.
-/

namespace EnvFiles

variable {σ κ : Type}

/-- The values files that a clean run is about, in its order. -/
def cleanCandidates (options : RunOptions) (workspaces : List Workspace) (includeRoot : Bool) :
    List Path :=
  (if includeRoot then [options.rootValues] else []) ++ workspaces.map Workspace.valuesPath

/-- Those of some paths that the store holds, each once and sooner if it comes sooner. -/
structure ListsHeld (store : Store σ) (state : σ) (candidates listed : List Path) : Prop where
  mem_iff : ∀ path, path ∈ listed ↔ path ∈ candidates ∧ store.holds path state = true
  order : listed.Pairwise fun first second => candidates.idxOf first < candidates.idxOf second

/-- How a run comes by the consent to delete some files. If it has to ask, it asks one question and
takes one reply; it fails if there is none. -/
inductive Consents (asks : Prop) (count : Nat) (before : Desk) : Except Failure Bool → Desk → Prop
  | unasked : ¬ asks → Consents asks count before (.ok true) before
  | asked {reply : Text} {rest : List Text} : asks → before.replies = reply :: rest →
      Consents asks count before (.ok (agreesToClean reply))
        { before with asked := before.asked ++ [cleanQuestion count], replies := rest }
  | unanswered : asks → before.replies = [] →
      Consents asks count before (.error .outOfReplies)
        { before with asked := before.asked ++ [cleanQuestion count] }

section Runs

variable {store : Store σ} {state : σ} {desk : Desk} {paths : List Path}

/-- The values files to delete are those that the store holds. -/
theorem listsHeld_cleanTargets (store : Store σ) (state : σ) (candidates : List Path) :
    ListsHeld store state candidates (cleanTargets store candidates state) where
  mem_iff path := by rw [cleanTargets, mem_firstOccurrences, List.mem_filter]
  order := by
    rw [cleanTargets, firstOccurrences_filter]
    exact (pairwise_firstOccurrences candidates).sublist List.filter_sublist

/-- The consent to delete some files. -/
def cleanConsent (asking : Bool) (targets : List Path) : DeskStep Bool :=
  if asking && !targets.isEmpty then
    agreesToClean <$> DeskStep.ask (cleanQuestion targets.length)
  else pure true

/-- The consent is come by in one of these ways. -/
theorem exists_consents (asking : Bool) (targets : List Path) (desk : Desk) :
    ∃ consent after, (cleanConsent asking targets).runFrom desk = (consent, after) ∧
      Consents (asking = true ∧ targets ≠ []) targets.length desk consent after := by
  by_cases hasks : asking = true ∧ targets ≠ []
  · rw [cleanConsent, if_pos (by simpa using hasks), Attempt.runFrom_map, DeskStep.ask,
      Attempt.runFrom_ofFunction]
    obtain ⟨replies, asked, trace, log⟩ := desk
    cases replies with
    | nil => exact ⟨_, _, rfl, .unanswered hasks rfl⟩
    | cons reply rest => exact ⟨_, _, rfl, .asked hasks rfl⟩
  · rw [cleanConsent, if_neg (by simpa using hasks)]
    exact ⟨_, _, rfl, .unasked hasks⟩

/-- A function of what a step at the desk comes to. -/
theorem Run.atDesk_map {α β : Type} (function : α → β) (step : DeskStep α) :
    (Run.atDesk (function <$> step) : Run σ β) = function <$> Run.atDesk step := by
  funext world
  change (Run.atDesk (function <$> step)).runFrom world =
    (function <$> Run.atDesk step).runFrom world
  rw [Attempt.runFrom_map, Run.atDesk, Run.atDesk, Attempt.onPart, Attempt.onPart,
    Attempt.runFrom_ofFunction, Attempt.runFrom_ofFunction, Attempt.runFrom_map]

/-- A clean run lists the files, comes by the consent, and deletes them if it has it. -/
theorem cleanIn_eq (store : Store σ) (candidates : List Path) (asking : Bool) :
    cleanIn store candidates asking = (do
      let targets := cleanTargets store candidates (← get).store
      if ← Run.atDesk (cleanConsent asking targets) then
        deleteAll store targets
        return { deleted := targets }
      else return { cancelled := true }) := by
  rw [cleanIn]
  refine congrArg (_ >>= ·) (funext fun world => ?_)
  dsimp only
  cases htargets : cleanTargets store candidates world.store with
  | nil =>
    -- Without files nothing is asked, and deleting none of them does nothing.
    rw [cleanConsent, List.isEmpty_nil, Bool.not_true, Bool.and_false]
    rfl
  | cons path rest =>
    rw [cleanConsent, List.isEmpty_cons, Bool.not_false, Bool.and_true]
    cases asking with
    | false => rfl
    | true =>
      simp only [if_true, Run.atDesk_map]
      rfl

/-- So how a clean run ends hangs on the consent. -/
theorem runFrom_cleanIn (store : Store σ) (candidates : List Path) (asking : Bool) (state : σ)
    (desk : Desk) :
    (cleanIn store candidates asking).runFrom ⟨state, desk⟩ =
      match (cleanConsent asking (cleanTargets store candidates state)).runFrom desk with
      | (.error failure, desk) => (.error failure, ⟨state, desk⟩)
      | (.ok false, desk) => (.ok { cancelled := true }, ⟨state, desk⟩)
      | (.ok true, desk) => ((fun _ => { deleted := cleanTargets store candidates state }) <$>
          deleteAll store (cleanTargets store candidates state)).runFrom ⟨state, desk⟩ := by
  rw [cleanIn_eq]
  change (Run.atDesk (cleanConsent asking (cleanTargets store candidates state)) >>= _).runFrom
    ⟨state, desk⟩ = _
  rw [Attempt.runFrom_bind, Run.atDesk, Attempt.onPart, Attempt.runFrom_ofFunction]
  rcases (cleanConsent asking (cleanTargets store candidates state)).runFrom desk with
    ⟨failure | agreed, after⟩
  · rfl
  · cases agreed with
    | false => rfl
    | true =>
      dsimp only
      rw [if_pos rfl, map_eq_pure_bind]

/-- Deleting paths that lead somewhere takes away what stands there. -/
theorem exists_deleteAll (view : DeleteView store κ) (hvalid : view.valid state)
    (hlead : ∀ path ∈ paths, ∃ place, view.Leads state path place) (desk : Desk) :
    ∃ after log, (deleteAll store paths).runFrom ⟨state, desk⟩ =
        (.ok (), ⟨after, { desk with log }⟩) ∧
      Removes store view.toStorePlaces paths state after := by
  induction paths generalizing state desk with
  | nil => exact ⟨state, desk.log, rfl, .nil hvalid⟩
  | cons path rest ih =>
    obtain ⟨place, hplace⟩ := hlead path (.head _)
    obtain ⟨notices, middle, hdelete, hfirst⟩ := view.delete state path place hvalid hplace
    have hrest : ∀ other ∈ rest, ∃ place, view.Leads state other place := fun other hother =>
      hlead other (.tail _ hother)
    obtain ⟨after, log, hrun, hsecond⟩ := ih hfirst.valid
      (fun other hother => (hrest other hother).imp fun place => hfirst.leads other place)
      { desk with log := desk.log ++ notices }
    refine ⟨after, log, ?_, .append (view.leads_unique middle) hrest hfirst hsecond⟩
    rw [deleteAll, Attempt.runFrom_bind, Run.delete, Run.call, Attempt.runFrom_ofFunction, hdelete]
    exact hrun

/-- Deleting in a rehearsal leaves the store behind it as it is. -/
theorem exists_deleteAll_rehearsed (store : Store σ) (paths : List Path)
    (rehearsal : Rehearsal σ) (desk : Desk) :
    ∃ after, (deleteAll store.rehearsed paths).runFrom ⟨rehearsal, desk⟩ = (.ok (), ⟨after, desk⟩) ∧
      after.base = rehearsal.base := by
  induction paths generalizing rehearsal with
  | nil => exact ⟨rehearsal, rfl, rfl⟩
  | cons path rest ih =>
    obtain ⟨after, hrun, hbase⟩ := ih (rehearsal.plan path none)
    refine ⟨after, ?_, hbase⟩
    rw [deleteAll, Attempt.runFrom_bind, Run.delete, Run.call, Attempt.runFrom_ofFunction]
    simp only [Store.rehearsed, List.append_nil]
    exact hrun

end Runs

section Cleaning

variable {store : Store σ} {candidates : List Path} {asking : Bool} {state : σ} {desk after : Desk}

/-- A run without consent changes nothing. -/
theorem runFrom_cleanIn_of_not_agreed {consent : Except Failure Bool}
    (h : (cleanConsent asking (cleanTargets store candidates state)).runFrom desk =
      (consent, after)) (hno : consent ≠ .ok true) :
    (cleanIn store candidates asking).runFrom ⟨state, desk⟩ =
      (consent.map fun _ => { cancelled := true }, ⟨state, after⟩) := by
  rw [runFrom_cleanIn, h]
  cases consent with
  | error failure => rfl
  | ok agreed =>
    cases agreed with
    | false => rfl
    | true => exact absurd rfl hno

/-- A rehearsal ends as the consent says and leaves the store as it is. -/
theorem runFrom_rehearse_cleanIn {consent : Except Failure Bool}
    (h : (cleanConsent asking (cleanTargets store candidates state)).runFrom desk =
      (consent, after)) :
    (Prod.fst <$> Run.rehearse (cleanIn store.rehearsed candidates asking)).runFrom
        ⟨state, desk⟩ =
      (consent.map fun agreed => if agreed then
        { deleted := cleanTargets store candidates state } else { cancelled := true },
        ⟨state, after⟩) := by
  -- Nothing is pending yet, so the rehearsal holds what the store holds.
  have hsame : cleanTargets store.rehearsed candidates ⟨state, []⟩ =
      cleanTargets store candidates state := rfl
  rw [Attempt.runFrom_map, Run.rehearse, Attempt.runFrom_ofFunction]
  dsimp only
  rw [runFrom_cleanIn, hsame, h]
  cases consent with
  | error failure => rfl
  | ok agreed =>
    cases agreed with
    | false => rfl
    | true =>
      obtain ⟨final, hrun, hbase⟩ := exists_deleteAll_rehearsed store
        (cleanTargets store candidates state) ⟨state, []⟩ after
      simp only [Attempt.runFrom_map, hrun, hbase]
      rfl

/-- A run with consent takes away what stands at the places of the listed files, and none of them
is held afterwards. -/
theorem exists_cleanIn_of_agreed (view : DeleteView store κ) (hvalid : view.valid state)
    (h : (cleanConsent asking (cleanTargets store candidates state)).runFrom desk =
      (.ok true, after)) :
    ∃ final log, (cleanIn store candidates asking).runFrom ⟨state, desk⟩ =
        (.ok { deleted := cleanTargets store candidates state }, ⟨final, { after with log }⟩) ∧
      Removes store view.toStorePlaces (cleanTargets store candidates state) state final ∧
      ∀ path ∈ candidates, store.holds path final = false := by
  have hlists := listsHeld_cleanTargets store state candidates
  have hlead : ∀ path ∈ cleanTargets store candidates state,
      ∃ place, view.Leads state path place := by
    intro path hpath
    obtain ⟨place, hplace, -⟩ :=
      view.exists_leads state path hvalid ((hlists.mem_iff path).mp hpath).2
    exact ⟨place, hplace⟩
  obtain ⟨final, log, hrun, hremoves⟩ := exists_deleteAll view hvalid hlead after
  refine ⟨final, log, ?_, hremoves, fun path hpath => ?_⟩
  · simp only [runFrom_cleanIn, h, Attempt.runFrom_map, hrun]
    rfl
  · -- What is held afterwards was held before and not deleted, so it was not listed.
    by_contra hheld
    obtain ⟨hbefore, hkept⟩ := hremoves.held path (by simpa using hheld)
    exact hkept ((hlists.mem_iff path).mpr ⟨hpath, hbefore⟩)

/-- A clean run of the store itself, or of a rehearsal. -/
theorem clean_eq (store : Store σ) (options : RunOptions) (workspaces : List Workspace)
    (includeRoot force rehearsal : Bool) :
    clean store options workspaces includeRoot force rehearsal =
      if rehearsal then Prod.fst <$> Run.rehearse (cleanIn store.rehearsed
        (cleanCandidates options workspaces includeRoot) (options.interactive && !force))
      else cleanIn store (cleanCandidates options workspaces includeRoot)
        (options.interactive && !force) := by
  rw [clean]
  cases rehearsal with
  | false => rfl
  | true =>
    rw [map_eq_pure_bind]
    rfl

/-- Where none of the files is held, a run does nothing. -/
theorem runFrom_clean_of_none {options : RunOptions} {workspaces : List Workspace}
    {includeRoot : Bool}
    (h : ∀ path ∈ cleanCandidates options workspaces includeRoot, store.holds path state = false)
    (force rehearsal : Bool) (desk : Desk) :
    (clean store options workspaces includeRoot force rehearsal).runFrom ⟨state, desk⟩ =
      (.ok {}, ⟨state, desk⟩) := by
  have hnone : cleanTargets store (cleanCandidates options workspaces includeRoot) state = [] := by
    rw [cleanTargets, List.filter_eq_nil_iff.mpr fun path hpath => by simp [h path hpath]]
    rfl
  have hconsent : (cleanConsent (options.interactive && !force) (cleanTargets store
      (cleanCandidates options workspaces includeRoot) state)).runFrom desk = (.ok true, desk) := by
    rw [hnone, cleanConsent, List.isEmpty_nil, Bool.not_true, Bool.and_false]
    rfl
  rw [clean_eq]
  cases rehearsal with
  | false =>
    rw [if_neg Bool.false_ne_true, runFrom_cleanIn, hconsent, hnone]
    rfl
  | true =>
    rw [if_pos rfl, runFrom_rehearse_cleanIn hconsent, hnone]
    rfl

end Cleaning

variable {store : Store σ} {state : σ}

/-- A clean run lists the values files that the store holds, asks at most once, and takes away what
stands at the places of the listed files if it has the consent. Without it, and in a rehearsal,
nothing changes; a rehearsal ends as the run that it stands for. After a run that deleted the files
another one finds nothing to delete and asks nothing. -/
theorem clean_deletes (view : DeleteView store κ) (options : RunOptions)
    (workspaces : List Workspace) (includeRoot force : Bool) (hvalid : view.valid state)
    (desk : Desk) :
    ∃ targets consent after,
      ListsHeld store state (cleanCandidates options workspaces includeRoot) targets ∧
      Consents (options.interactive = true ∧ force = false ∧ targets ≠ []) targets.length desk
        consent after ∧
      (consent ≠ .ok true → ∀ rehearsal,
        (clean store options workspaces includeRoot force rehearsal).runFrom ⟨state, desk⟩ =
          (consent.map fun _ => { cancelled := true }, ⟨state, after⟩)) ∧
      (consent = .ok true →
        (clean store options workspaces includeRoot force true).runFrom ⟨state, desk⟩ =
          (.ok { deleted := targets }, ⟨state, after⟩) ∧
        ∃ final log,
          (clean store options workspaces includeRoot force false).runFrom ⟨state, desk⟩ =
            (.ok { deleted := targets }, ⟨final, { after with log }⟩) ∧
          Removes store view.toStorePlaces targets state final ∧
          ∀ interactive force rehearsal desk,
            (clean store { options with interactive } workspaces includeRoot force
              rehearsal).runFrom ⟨final, desk⟩ = (.ok {}, ⟨final, desk⟩)) := by
  obtain ⟨consent, after, hconsent, hconsents⟩ := exists_consents (options.interactive && !force)
    (cleanTargets store (cleanCandidates options workspaces includeRoot) state) desk
  refine ⟨_, consent, after, listsHeld_cleanTargets .., by simpa [and_assoc] using hconsents,
    fun hno rehearsal => ?_, ?_⟩
  · rw [clean_eq]
    cases rehearsal with
    | false => exact runFrom_cleanIn_of_not_agreed hconsent hno
    | true =>
      rw [if_pos rfl, runFrom_rehearse_cleanIn hconsent]
      rcases consent with failure | _ | _
      · rfl
      · rfl
      · exact absurd rfl hno
  · rintro rfl
    obtain ⟨final, log, hrun, hremoves, hnone⟩ := exists_cleanIn_of_agreed view hvalid hconsent
    refine ⟨?_, final, log, ?_, hremoves, fun interactive => runFrom_clean_of_none hnone⟩
    · rw [clean_eq, if_pos rfl, runFrom_rehearse_cleanIn hconsent]
      rfl
    · rw [clean_eq, if_neg Bool.false_ne_true, hrun]

section Linked

/-- Two values files that are there, one of them a link, and a file that is none. -/
def linkedTree : Node := .folder [
  (".env.local", .file (Node.encode "A=1\n")),
  ("web", .folder [(".env.local", .link "../shared/env")]),
  ("shared", .folder [("env", .file (Node.encode "B=2\n"))])]

/-- Workspaces whose values files are the link, that of the root, one that is not there, and the
link again. -/
def linkedWorkspaces : List Workspace :=
  [workspaceAt {} ["web"], workspaceAt {} [], workspaceAt {} ["api"], workspaceAt {} ["web"]]

/-- The top of the tree is a folder, and no name there holds the null character. -/
theorem valid_linkedTree : treeDeleteView.valid linkedTree := by
  have hweb : (Node.folder [(".env.local", .link "../shared/env")]).NullFree :=
    .folder (List.forall_mem_singleton.mpr ⟨by decide, .link _⟩)
  have hshared : (Node.folder [("env", .file (Node.encode "B=2\n"))]).NullFree :=
    .folder (List.forall_mem_singleton.mpr ⟨by decide, .file _⟩)
  refine ⟨rfl, .folder fun entry hentry => ?_⟩
  simp only [List.mem_cons, List.not_mem_nil, or_false] at hentry
  rcases hentry with rfl | rfl | rfl
  · exact ⟨by decide, .file _⟩
  · exact ⟨by decide, hweb⟩
  · exact ⟨by decide, hshared⟩

/-- An agreed run deletes the two of them, each once, and the file that the link leads to stays. -/
theorem clean_deletes_link :
    treeDeleteView.valid linkedTree ∧ ∃ final after,
      (clean treeStore { interactive := true } linkedWorkspaces).runFrom
          ⟨linkedTree, { replies := ["Y "] }⟩ =
        (.ok { deleted := [[".env.local"], ["web", ".env.local"]] }, ⟨final, after⟩) ∧
      final.shapeAt ["web", ".env.local"] = none ∧
      final.shapeAt ["shared", "env"] = some (.file (Node.encode "B=2\n")) := by
  obtain ⟨targets, consent, after, hlists, hconsents, -, hagreed⟩ := clean_deletes treeDeleteView
    { interactive := true } linkedWorkspaces true false valid_linkedTree { replies := ["Y "] }
  have hlisted : ([".env.local"] : Path) ∈ targets :=
    (hlists.mem_iff _).mpr ⟨by decide, by decide +kernel⟩
  have hconsent : consent = .ok true := by
    cases hconsents with
    | unasked hno => exact absurd ⟨rfl, rfl, List.ne_nil_of_mem hlisted⟩ hno
    | unanswered _ hreplies => cases hreplies
    | asked _ hreplies =>
      cases hreplies
      decide +kernel
  obtain ⟨-, final, log, hrun, hremoves, -⟩ := hagreed hconsent
  have hreport : ((clean treeStore { interactive := true } linkedWorkspaces).runFrom
      ⟨linkedTree, { replies := ["Y "] }⟩).1 =
        .ok { deleted := [[".env.local"], ["web", ".env.local"]] } := by decide +kernel
  rw [hrun] at hreport
  cases hreport
  refine ⟨valid_linkedTree, final, _, hrun, ?_, ?_⟩
  · obtain ⟨place, hplace, -⟩ := treeDeleteView.exists_leads linkedTree ["web", ".env.local"]
      valid_linkedTree (by decide +kernel)
    obtain rfl := Node.Unlinks.place_eq ["web"] hplace rfl
    exact hremoves.gone _ (by simp) _ hplace
  · refine hremoves.kept ["shared", "env"] fun path hpath hleads => ?_
    simp only [List.mem_cons, List.not_mem_nil, or_false] at hpath
    rcases hpath with rfl | rfl
    · exact absurd (Node.Unlinks.place_eq [] hleads rfl) (by decide)
    · exact absurd (Node.Unlinks.place_eq ["web"] hleads rfl) (by decide)

end Linked
end EnvFiles
