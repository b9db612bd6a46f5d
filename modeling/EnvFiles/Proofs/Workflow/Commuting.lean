import EnvFiles.Discovery.Workspaces
import EnvFiles.Proofs.Store.Memory
import EnvFiles.Proofs.Store.OnTree
import EnvFiles.Proofs.Workflow.Settling

/-!
# Independent workspaces may be reconciled in any order

Without plugins and questions, what a pass makes of a workspace is a function of its schema and of
what its values file reads as. As no values file is an example file or one of another workspace,
both are the same at every place in the order. So the outcome of each workspace is known before
the pass, and a pass over any permutation collects the same outcomes.

Only the store can tell the orders apart, by refusing a file: the workspaces before the refused one
are then written, and those after it are not.
-/

namespace EnvFiles

open Attempt

variable {σ α : Type} {store : Store σ}

/-- A failure with which the store refuses to read or to write one of the paths, in a state to which
reads, and writes to the paths, lead. -/
def Store.RefusesOneOf (store : Store σ) (paths : List Path) (start : σ) (failure : Failure) :
    Prop :=
  ∃ path ∈ paths, ∃ state, store.Reached paths start state ∧
    ((store.read path state).answer = .error failure ∨
      ∃ text, (store.write path text state).answer = .error failure)

/-- A refusal after some writes is a refusal from the start, of more paths. -/
theorem Store.RefusesOneOf.mono {paths more : List Path} {start middle : σ} {failure : Failure}
    (h : store.RefusesOneOf paths middle failure) (hreached : store.Reached more start middle)
    (hsubset : paths ⊆ more) : store.RefusesOneOf more start failure := by
  obtain ⟨path, hpath, state, hstate, hrefused⟩ := h
  exact ⟨path, hsubset hpath, state, hreached.trans (hstate.mono hsubset), hrefused⟩

/-- A run that writes to the given paths only leaves a state that is reached by such writes. -/
theorem Run.WritesOnly.endsIn_reached {targets : List Path} {run : Run σ α}
    (h : run.WritesOnly store targets) (world : World σ) :
    run.EndsIn world (fun _ after => store.Reached targets world.store after.store)
      fun _ after => store.Reached targets world.store after.store := by
  have hafter := h world
  rw [EndsIn]
  rcases hrun : run.runFrom world with ⟨failure | result, after⟩ <;> rwa [hrun] at hafter

/-- A view in which every text that was written reads back as the same function of it. -/
def StoreView.ReadsBackAs (view : StoreView store) (back : Text → Text) : Prop :=
  ∀ state path text other, view.valid state → view.covers path → view.covers other →
    (store.write path text state).answer = .ok () → view.sameFile path other →
      view.files (store.write path text state).after other = .ok (some (back text))

/-- In memory a text reads back as it was written. -/
theorem readsBackAs_memoryView : memoryView.ReadsBackAs id := by
  intro table path text other _ _ _ _ hsame
  obtain rfl : path = other := hsame
  change Except.ok ((table.put path text).get? path) = _
  rw [Table.get?_put, if_pos rfl, id]

/-- On a file tree a text reads back with line feeds for all its line ends. -/
theorem readsBackAs_treeView (layout : Layout) :
    (treeView layout).ReadsBackAs Text.unifyNewlines :=
  fun _ _ text _ hvalid hcovers hother hanswer hsame =>
    hvalid.readFile_write hcovers hother text hsame hanswer

section Updating

variable {view : StoreView store} {back : Text → Text}

/-- What a path reads as after an update. -/
def contentUpdated (back : Text → Text) (updates : Table Text Text) (schema : List Definition) :
    Content → Content
  | .error failure => .error failure
  | .ok text =>
    let file := readValues (text.getD [])
    let changes := changesTo file.values updates
    if changes.isEmpty then .ok text else .ok (some (back (rewriteValues file changes schema)))

/-- What an update makes of a file is determined by what it reads as. Only the store can make it
fail. -/
theorem endsIn_applyUpdates_determined (hback : view.ReadsBackAs back) {world : World σ}
    (hvalid : view.valid world.store) {path : Path} (hcovers : view.covers path)
    (updates : Table Text Text) (schema : List Definition) :
    let content := view.files world.store path
    (applyUpdates store path updates schema).EndsIn world
      (fun changes after => view.Changed path world after ∧
        changes = changesTo (valuesOf content) updates ∧
          view.files after.store path = contentUpdated back updates schema content)
      fun failure _ => store.RefusesOneOf [path] world.store failure := by
  intro content
  unfold applyUpdates
  rw [endsIn_bind]
  refine (computes_readValuesFile view path).endsIn hvalid (fun file read hfile hread => ?_)
    fun failure after hfailure _ => ?_
  · obtain ⟨text, htext, hfile⟩ := exists_of_bind_eq_ok hfile
    obtain rfl := Except.ok.inj hfile
    have hcontent : content = .ok text := htext
    rw [hcontent, contentUpdated, valuesOf]
    dsimp only
    split
    · exact ⟨⟨hread.valid, fun other _ _ => congrFun hread.files other⟩, rfl,
        (congrFun hread.files path).trans htext⟩
    · rw [EndsIn, runFrom_bind, Run.write, Run.call, runFrom_ofFunction]
      dsimp only
      cases hanswer : (store.write path (rewriteValues (readValues (text.getD []))
        (changesTo (readValues (text.getD [])).values updates) schema) read.store).answer with
      | ok _ =>
        refine ⟨⟨view.valid_write _ _ _ hread.valid hcovers, fun other hother hne => ?_⟩, rfl, ?_⟩
        · exact (view.files_write_other _ _ _ _ hread.valid hcovers hother hne).trans
            (congrFun hread.files other)
        · exact hback _ _ _ _ hread.valid hcovers hcovers hanswer
            (view.sameFile_equivalence.refl path)
      | error failure =>
        exact ⟨path, List.mem_singleton_self _, read.store,
          hread.unwritten.mono (List.nil_subset _), Or.inr ⟨_, hanswer⟩⟩
  · exact ⟨path, List.mem_singleton_self _, world.store, .start,
      Or.inl ((view.answer_read _ _ hvalid).trans (eq_error_of_valuesIn hfailure))⟩

end Updating

section Workspaces

variable {view : StoreView store} {back : Text → Text} {registry : Registry}
  {options : RunOptions}

/-- What reconciling a workspace comes to: its reconciliation, how many updates were written, and
what its values file reads as afterwards. -/
structure WorkspaceOutcome where
  reconciliation : Reconciliation
  written : Nat
  content : Content

/-- What reconciling a workspace comes to, given its schema and what its values file reads as. -/
def workspaceOutcome (back : Text → Text) (writing : Bool) (workspace : Workspace)
    (schema : List Definition) (content : Content) : WorkspaceOutcome :=
  let values := valuesOf content
  let outcome := (unattendedPass values {} (missingFrom schema values)).2
  { reconciliation := ⟨compare schema values workspace, outcome⟩
    written := if writing then (changesTo values outcome.updates).length else 0
    content := if writing then contentUpdated back outcome.updates schema content else content }

/-- Without updates nothing is written. -/
theorem contentUpdated_nil (schema : List Definition) (content : Content) :
    contentUpdated back [] schema content = content := by
  cases content <;> rfl

/-- Where nothing is to be written, nothing is counted and the file reads as before. -/
theorem workspaceOutcome_idle {writing : Bool} {workspace : Workspace} {schema : List Definition}
    {content : Content}
    (h : writing = false ∨ (workspaceOutcome back writing workspace schema
      content).reconciliation.outcome.updates = []) :
    (workspaceOutcome back writing workspace schema content).written = 0 ∧
      (workspaceOutcome back writing workspace schema content).content = content := by
  rcases h with rfl | hnone
  · exact ⟨rfl, rfl⟩
  · rw [workspaceOutcome] at hnone ⊢
    dsimp only at hnone ⊢
    rw [hnone, contentUpdated_nil]
    exact ⟨ite_self 0, ite_self content⟩

/-- What reconciling a workspace comes to is determined by its schema and its values file. Only the
store can make it fail. -/
theorem endsIn_reconcileAndWrite_determined (hback : view.ReadsBackAs back)
    (hplugins : registry.plugins = []) (hinteractive : options.interactive = false)
    (writing : Bool) {world : World σ} (hvalid : view.valid world.store) {workspace : Workspace}
    (hcovers : view.covers workspace.valuesPath) {schema : List Definition}
    (hschema : schemaIn registry.patterns (view.files world.store) options.rootExample workspace =
      .ok schema) :
    let outcome := workspaceOutcome back writing workspace schema
      (view.files world.store workspace.valuesPath)
    (reconcileAndWrite store registry options writing workspace).EndsIn world
      (fun result after => view.Changed workspace.valuesPath world after ∧
        result = (outcome.reconciliation, outcome.written) ∧
          view.files after.store workspace.valuesPath = outcome.content)
      fun failure _ => store.RefusesOneOf [workspace.valuesPath] world.store failure := by
  intro outcome
  unfold reconcileAndWrite
  rw [endsIn_bind]
  refine (endsIn_reconcileWorkspace_determined hplugins hinteractive hvalid hschema none [] []).mono
    (fun reconciliation first hfirst => ?_) fun failure _ hfailure => ?_
  · obtain ⟨hsame, hreadable, hreconciliation⟩ := hfirst
    have hall : schema.filter (fun definition => !List.contains [] definition.name) = schema :=
      List.filter_eq_self.mpr fun _ _ => rfl
    rw [hall] at hreconciliation
    obtain rfl : reconciliation = outcome.reconciliation := hreconciliation
    split
    · rename_i hidle
      refine ⟨⟨hsame.valid, fun other _ _ => congrFun hsame.files other⟩, ?_⟩
      obtain ⟨hwritten, hcontent⟩ : outcome.written = 0 ∧
          outcome.content = view.files world.store workspace.valuesPath :=
        workspaceOutcome_idle (by simpa using hidle)
      rw [hcontent, hwritten]
      exact ⟨rfl, congrFun hsame.files workspace.valuesPath⟩
    · rename_i hbusy
      obtain rfl : writing = true := by
        cases writing
        · exact absurd rfl hbusy
        · rfl
      refine (computes_workspaceSchema view registry.patterns _ workspace).endsIn_bind hsame.valid
        (hsame.files ▸ hschema) fun second hsecond => ?_
      have hread := hsame.trans hsecond
      rw [endsIn_bind]
      refine (endsIn_applyUpdates_determined hback hread.valid hcovers _ schema).mono
        (fun changes after hafter => ?_) fun failure _ hrefused =>
          hrefused.mono (hread.unwritten.mono (List.nil_subset _)) (List.Subset.refl _)
      obtain ⟨hchanged, hchanges, hcontent⟩ := hafter
      rw [hread.files] at hchanges hcontent
      refine ⟨⟨hchanged.valid, fun other hother hne =>
        (hchanged.others other hother hne).trans (congrFun hread.files other)⟩, ?_, hcontent⟩
      rw [hchanges]
      rfl
  · exact ⟨workspace.valuesPath, List.mem_singleton_self _, world.store, .start,
      Or.inl ((view.answer_read _ _ hvalid).trans hfailure)⟩

/-- The number of values written in the outcomes of some workspaces together. -/
def totalWritten (outcome : Workspace → WorkspaceOutcome) : List Workspace → Nat
  | [] => 0
  | workspace :: rest => (outcome workspace).written + totalWritten outcome rest

/-- It does not hang on the order of the workspaces. -/
theorem totalWritten_perm (outcome : Workspace → WorkspaceOutcome)
    {order workspaces : List Workspace} (h : order.Perm workspaces) :
    totalWritten outcome order = totalWritten outcome workspaces := by
  induction h with
  | nil => rfl
  | cons workspace _ ih => rw [totalWritten, totalWritten, ih]
  | swap first second rest =>
    rw [totalWritten, totalWritten, totalWritten, totalWritten]
    exact Nat.add_left_comm ..
  | trans _ _ ih ih' => exact ih.trans ih'

/-- What a pass over workspaces leaves where the outcome of each is known: it reports the outcomes
in order, each values file reads as its outcome says, and every other file as before. -/
structure StoreView.Collected (view : StoreView store) (outcome : Workspace → WorkspaceOutcome)
    (order : List Workspace) (first : ReconcileReport) (before : World σ)
    (last : ReconcileReport) (after : World σ) : Prop where
  reconciliations_eq : last.reconciliations =
    first.reconciliations ++ order.map fun workspace => (outcome workspace).reconciliation
  totalUpdates_eq : last.totalUpdates =
    first.totalUpdates + totalWritten outcome order
  files_own : ∀ workspace ∈ order,
    view.files after.store workspace.valuesPath = (outcome workspace).content
  files_other : ∀ path, view.covers path →
    (∀ workspace ∈ order, ¬ view.sameFile workspace.valuesPath path) →
      view.files after.store path = view.files before.store path

/-- A pass that begins with one more workspace collects its outcome as well. -/
theorem StoreView.Collected.cons {outcome : Workspace → WorkspaceOutcome} {workspace : Workspace}
    {rest : List Workspace} {report last : ReconcileReport} {world middle after : World σ}
    (h : view.Collected outcome rest
      (report.add (outcome workspace).reconciliation (outcome workspace).written) middle last after)
    (hchanged : view.Changed workspace.valuesPath world middle)
    (hcontent : view.files middle.store workspace.valuesPath = (outcome workspace).content)
    (hcovers : view.covers workspace.valuesPath)
    (hrest : ∀ other ∈ rest, ¬ view.sameFile workspace.valuesPath other.valuesPath) :
    view.Collected outcome (workspace :: rest) report world last after where
  reconciliations_eq := by
    rw [h.reconciliations_eq, ReconcileReport.add, List.append_assoc]
    rfl
  totalUpdates_eq := by
    rw [h.totalUpdates_eq, ReconcileReport.add, Nat.add_assoc, totalWritten]
  files_own := by
    refine List.forall_mem_cons.mpr ⟨?_, h.files_own⟩
    rw [← hcontent]
    exact h.files_other _ hcovers fun other hother hsame =>
      hrest other hother (view.sameFile_equivalence.symm hsame)
  files_other path hpath hne := by
    obtain ⟨hneHead, hneRest⟩ := List.forall_mem_cons.mp hne
    exact (h.files_other path hpath hneRest).trans (hchanged.others path hpath hneHead)

/-- A run without plugins and questions over workspaces with values files of their own, none of
which is an example file, and with effective schemas that can be read. -/
structure StoreView.Independent (view : StoreView store) (registry : Registry)
    (options : RunOptions) (workspaces : List Workspace) (world : World σ) : Prop where
  plugins_eq_nil : registry.plugins = []
  interactive_eq_false : options.interactive = false
  valid : view.valid world.store
  apart : view.Apart (examplePaths options workspaces) Workspace.valuesPath workspaces
  exists_schema : ∀ workspace ∈ workspaces, ∃ schema,
    schemaIn registry.patterns (view.files world.store) options.rootExample workspace = .ok schema

/-- Items with different files, in another order. -/
theorem StoreView.Apart.perm {ι : Type} {fixed : List Path} {path : ι → Path}
    {items order : List ι} (h : view.Apart fixed path items) (hperm : order.Perm items) :
    view.Apart fixed path order where
  covers item hitem := h.covers item (hperm.subset hitem)
  covers_fixed := h.covers_fixed
  not_sameFile_fixed item hitem := h.not_sameFile_fixed item (hperm.subset hitem)
  pairwise := (hperm.symm.pairwise_iff
    fun hne hsame => hne (view.sameFile_equivalence.symm hsame)).mp h.pairwise

variable {workspaces order : List Workspace} {start world : World σ}

/-- A pass over some of the workspaces collects their outcomes, as long as their files read as at
the start. Only the store can make it fail. -/
theorem endsIn_reconcileFrom_determined (writing : Bool) (hback : view.ReadsBackAs back)
    (h : view.Independent registry options workspaces start)
    {schema : Workspace → List Definition}
    (hschema : ∀ workspace ∈ workspaces, schemaIn registry.patterns (view.files start.store)
      options.rootExample workspace = .ok (schema workspace))
    (hsubset : order ⊆ workspaces)
    (hapart : view.Apart (examplePaths options workspaces) Workspace.valuesPath order)
    (hsteady : view.Steady (examplePaths options workspaces) start world)
    (hunread : ∀ workspace ∈ order, view.files world.store workspace.valuesPath =
      view.files start.store workspace.valuesPath) (report : ReconcileReport) :
    (reconcileFrom store registry options writing report order).EndsIn world
      (fun last after => view.Collected (fun workspace => workspaceOutcome back writing workspace
        (schema workspace) (view.files start.store workspace.valuesPath)) order report world
          last after)
      fun failure _ =>
        store.RefusesOneOf (workspaces.map Workspace.valuesPath) world.store failure := by
  induction order generalizing report world with
  | nil =>
    exact ⟨(List.append_nil _).symm, rfl, fun _ hmem => absurd hmem List.not_mem_nil,
      fun _ _ _ => rfl⟩
  | cons workspace rest ih =>
    obtain ⟨hhead, -⟩ := List.pairwise_cons.mp hapart.pairwise
    have hmem : workspace ∈ workspace :: rest := List.mem_cons_self ..
    have hworkspace := hsubset hmem
    have hpath : workspace.valuesPath ∈ workspaces.map Workspace.valuesPath :=
      List.mem_map_of_mem hworkspace
    have hnow := (hsteady.schemaIn_eq hworkspace).trans (hschema workspace hworkspace)
    rw [reconcileFrom, endsIn_bind]
    refine ((endsIn_reconcileAndWrite_determined hback h.plugins_eq_nil
      h.interactive_eq_false writing hsteady.valid (hapart.covers workspace hmem) hnow).and
        ((writesOnly_reconcileAndWrite store registry options writing hpath).endsIn_reached
          world)).mono (fun result middle hmiddle => ?_)
      fun failure after hfailure =>
        hfailure.1.mono .start (List.cons_subset.mpr ⟨hpath, List.nil_subset _⟩)
    obtain ⟨⟨hchanged, rfl, hcontent⟩, hreached⟩ := hmiddle
    rw [hunread workspace hmem] at hcontent ⊢
    have hkept : ∀ other ∈ rest, view.files middle.store other.valuesPath =
        view.files world.store other.valuesPath := fun other hother =>
      hchanged.others _ (hapart.covers other (List.mem_cons_of_mem _ hother)) (hhead other hother)
    refine (ih (List.Subset.trans (List.subset_cons_self ..) hsubset) hapart.tail
      (hchanged.steady hsteady hapart.covers_fixed (hapart.not_sameFile_fixed workspace hmem))
      (fun other hother => (hkept other hother).trans
        (hunread other (List.mem_cons_of_mem _ hother))) _).mono
      (fun last after hlast => ?_) fun failure _ hrefused =>
        hrefused.mono hreached (List.Subset.refl _)
    exact hlast.cons hchanged hcontent (hapart.covers workspace hmem) hhead

/-- A pass over independent workspaces in any order collects outcomes that do not depend on it. -/
theorem StoreView.Independent.exists_outcome (writing : Bool) (hback : view.ReadsBackAs back)
    (h : view.Independent registry options workspaces world) :
    ∃ outcome : Workspace → WorkspaceOutcome, ∀ order : List Workspace, order.Perm workspaces →
      (reconcileAll store registry options order writing).EndsIn world
        (fun report after => view.Collected outcome order {} world report after)
        fun failure _ =>
          store.RefusesOneOf (workspaces.map Workspace.valuesPath) world.store failure := by
  have hchoice : ∀ workspace, ∃ schema, workspace ∈ workspaces →
      schemaIn registry.patterns (view.files world.store) options.rootExample workspace =
        .ok schema := by
    intro workspace
    by_cases hmem : workspace ∈ workspaces
    · obtain ⟨schema, hschema⟩ := h.exists_schema workspace hmem
      exact ⟨schema, fun _ => hschema⟩
    · exact ⟨[], fun hmem' => absurd hmem' hmem⟩
  obtain ⟨schema, hschema⟩ := Classical.axiomOfChoice hchoice
  exact ⟨_, fun order hperm => endsIn_reconcileFrom_determined writing hback h hschema hperm.subset
    (h.apart.perm hperm) ⟨h.valid, fun _ _ => rfl⟩ (fun _ _ => rfl) {}⟩

/-- Outcomes collected in two orders leave every file the same. -/
theorem StoreView.Collected.files_eq {outcome : Workspace → WorkspaceOutcome}
    {first second report report' : ReconcileReport} {after after' : World σ}
    (h : view.Collected outcome workspaces first world report after)
    (h' : view.Collected outcome order second world report' after') (hperm : order.Perm workspaces)
    (hcovers : ∀ workspace ∈ workspaces, view.covers workspace.valuesPath)
    (hvalid : view.valid after.store) (hvalid' : view.valid after'.store) {path : Path}
    (hpath : view.covers path) :
    view.files after'.store path = view.files after.store path := by
  by_cases hown : ∃ workspace ∈ workspaces, view.sameFile workspace.valuesPath path
  · obtain ⟨workspace, hmem, hsame⟩ := hown
    have hcovered := hcovers workspace hmem
    rw [← view.files_congr _ _ _ hvalid hcovered hpath hsame,
      ← view.files_congr _ _ _ hvalid' hcovered hpath hsame, h.files_own workspace hmem,
      h'.files_own workspace (hperm.symm.subset hmem)]
  · have hne : ∀ workspace ∈ workspaces, ¬ view.sameFile workspace.valuesPath path :=
      fun workspace hmem hsame => hown ⟨workspace, hmem, hsame⟩
    rw [h.files_other path hpath hne,
      h'.files_other path hpath fun workspace hmem => hne workspace (hperm.subset hmem)]

end Workspaces

/-- Reconciling independent workspaces commutes, as far as the store does not refuse a values file.
Without plugins and questions, where the values files are distinct, none is an example file, and
all example files can be read: a pass over the workspaces in any order returns, unless the store
refuses to read or write one of the values files. Whenever two orders return, they count the same
updates, give each workspace the same reconciliation, and leave every file the same. -/
theorem reconcileAll_commutes (view : StoreView store) {back : Text → Text}
    (hback : view.ReadsBackAs back) (registry : Registry) (options : RunOptions) (writing : Bool)
    (workspaces : List Workspace) (world : World σ)
    (hindependent : view.Independent registry options workspaces world) (order : List Workspace)
    (hperm : order.Perm workspaces) :
    ((∃ report after, (reconcileAll store registry options order writing).runFrom world =
        (.ok report, after)) ∨
      ∃ failure after, (reconcileAll store registry options order writing).runFrom world =
          (.error failure, after) ∧
        store.RefusesOneOf (workspaces.map Workspace.valuesPath) world.store failure) ∧
    ∀ report after report' after',
      (reconcileAll store registry options workspaces writing).runFrom world =
        (.ok report, after) →
      (reconcileAll store registry options order writing).runFrom world =
        (.ok report', after') →
      report'.totalUpdates = report.totalUpdates ∧
        (∃ reconciliation : Workspace → Reconciliation,
          report.reconciliations = workspaces.map reconciliation ∧
            report'.reconciliations = order.map reconciliation) ∧
        ∀ path, view.covers path →
          view.files after'.store path = view.files after.store path := by
  obtain ⟨outcome, houtcome⟩ := hindependent.exists_outcome writing hback
  have hvalid {order : List Workspace} (hperm : order.Perm workspaces) {report : ReconcileReport}
      {after : World σ} (hrun : (reconcileAll store registry options order writing).runFrom world =
        (.ok report, after)) : view.valid after.store := by
    have hreached := writesOnly_reconcileAll store registry options order writing world
    rw [hrun] at hreached
    refine view.valid_of_reached (fun path hpath => ?_) hindependent.valid hreached
    obtain ⟨workspace, hmem, rfl⟩ := List.mem_map.mp hpath
    exact hindependent.apart.covers workspace (hperm.subset hmem)
  refine ⟨?_, fun report after report' after' hrun hrun' => ?_⟩
  · rcases hrun : (reconcileAll store registry options order writing).runFrom world with
      ⟨failure | report, after⟩
    · exact Or.inr ⟨failure, after, rfl, (houtcome order hperm).of_runFrom_error hrun⟩
    · exact Or.inl ⟨report, after, rfl⟩
  · have hfirst := (houtcome workspaces (.refl _)).of_runFrom_ok hrun
    have hsecond := (houtcome order hperm).of_runFrom_ok hrun'
    refine ⟨?_, ⟨_, hfirst.reconciliations_eq, hsecond.reconciliations_eq⟩, fun path hpath => ?_⟩
    · rw [hfirst.totalUpdates_eq, hsecond.totalUpdates_eq, totalWritten_perm _ hperm]
    · exact hfirst.files_eq hsecond hperm hindependent.apart.covers (hvalid (.refl _) hrun)
        (hvalid hperm hrun') hpath

section Fixed

/-- A root with one variable, and two workspaces: one copies the variable, one has a value of
it. -/
def copyingWorld : World (Table Path Text) where
  store := [([".env.local.example"], "S=1\n"), (["a", ".env.local.example"], "# [copy:S]\nX=\n"),
    (["b", ".env.local.example"], "Y=2\n"), (["b", ".env.local"], "S=3\n")]

/-- The workspaces above, and one without files, are independent. -/
theorem independent_copyingWorld : memoryView.Independent {} {}
    [workspaceAt {} ["a"], workspaceAt {} ["b"], workspaceAt {} ["c"]] copyingWorld := by
  refine ⟨rfl, rfl, trivial, ⟨fun _ _ => trivial, fun _ _ => trivial, ?_, ?_⟩,
    fun workspace hmem => ?_⟩
  · change ∀ workspace ∈ [workspaceAt {} ["a"], workspaceAt {} ["b"], workspaceAt {} ["c"]],
      ∀ path ∈ examplePaths {} [workspaceAt {} ["a"], workspaceAt {} ["b"], workspaceAt {} ["c"]],
        workspace.valuesPath ≠ path
    decide
  · change [workspaceAt {} ["a"], workspaceAt {} ["b"], workspaceAt {} ["c"]].Pairwise
      fun first second => first.valuesPath ≠ second.valuesPath
    decide
  · have hok : ∀ workspace ∈ [workspaceAt {} ["a"], workspaceAt {} ["b"], workspaceAt {} ["c"]],
        (schemaIn [] (memoryView.files copyingWorld.store) (RunOptions.rootExample {})
          workspace).isOk = true := by decide +kernel
    have hworkspace := hok workspace hmem
    cases hschema : schemaIn [] (memoryView.files copyingWorld.store) (RunOptions.rootExample {})
      workspace with
    | ok schema => exact ⟨schema, hschema⟩
    | error failure =>
      rw [hschema] at hworkspace
      cases hworkspace

/-- The three workspaces in two orders: both return and leave the same files, with four updates. -/
theorem reconcileAll_commutes_copying :
    let workspaces := [workspaceAt {} ["a"], workspaceAt {} ["b"], workspaceAt {} ["c"]]
    let order := [workspaceAt {} ["c"], workspaceAt {} ["a"], workspaceAt {} ["b"]]
    (memoryView.ReadsBackAs id ∧ memoryView.Independent {} {} workspaces copyingWorld ∧
      order.Perm workspaces) ∧
    ∃ report after report' after',
      (reconcileAll memoryStore {} {} workspaces).runFrom copyingWorld = (.ok report, after) ∧
      (reconcileAll memoryStore {} {} order).runFrom copyingWorld = (.ok report', after') ∧
      report.totalUpdates = 4 ∧ report'.totalUpdates = 4 ∧
      memoryView.files after'.store ["a", ".env.local"] = .ok (some "S=1\n\nX=1\n") ∧
      ∀ path, memoryView.files after'.store path = memoryView.files after.store path := by
  intro workspaces order
  have hperm : order.Perm workspaces := by decide
  have hcommutes (other : List Workspace) (hother : other.Perm workspaces) :=
    reconcileAll_commutes memoryView readsBackAs_memoryView {} {} true workspaces copyingWorld
      independent_copyingWorld other hother
  have hreturns (other : List Workspace) (hother : other.Perm workspaces) : ∃ report after,
      (reconcileAll memoryStore {} {} other).runFrom copyingWorld = (.ok report, after) := by
    rcases (hcommutes other hother).1 with
      hreturns | ⟨failure, _, -, _, -, _, -, hread | ⟨_, hwrite⟩⟩
    · exact hreturns
    · cases hread
    · cases hwrite
  obtain ⟨report, after, hrun⟩ := hreturns workspaces (.refl _)
  obtain ⟨report', after', hrun'⟩ := hreturns order hperm
  obtain ⟨htotal, -, hfiles⟩ := (hcommutes order hperm).2 report after report' after' hrun hrun'
  have hcount : ((reconcileAll memoryStore {} {} workspaces).runFrom copyingWorld).1.map
      ReconcileReport.totalUpdates = .ok 4 := by decide +kernel
  have hcontent : memoryView.files ((reconcileAll memoryStore {} {} workspaces).runFrom
      copyingWorld).2.store ["a", ".env.local"] = .ok (some "S=1\n\nX=1\n") := by decide +kernel
  rw [hrun] at hcount hcontent
  have hfour : report.totalUpdates = 4 := Except.ok.inj hcount
  exact ⟨⟨readsBackAs_memoryView, independent_copyingWorld, hperm⟩, report, after, report', after',
    hrun, hrun', hfour, htotal.trans hfour, (hfiles _ trivial).trans hcontent,
    fun path => hfiles path trivial⟩

/-- Two workspaces on a file tree, with a folder where the values file of the second one belongs. -/
def folderWorld : World Node where
  store := .folder [("a", .folder [(".env.local.example", .file (Node.encode "X=1\n"))]),
    ("b", .folder [(".env.local.example", .file (Node.encode "Y=2\n")), (".env.local", .folder [])])]

/-- There the order decides whether the first workspace is written before the pass fails. -/
theorem reconcileAll_commutes_refused :
    let first := workspaceAt {} ["a"]
    let second := workspaceAt {} ["b"]
    let pass (order : List Workspace) := (reconcileAll treeStore {} {} order).runFrom folderWorld
    [second, first].Perm [first, second] ∧
      (first.valuesPath ≠ second.valuesPath ∧ ∀ path ∈ [first.valuesPath, second.valuesPath],
        path ∉ examplePaths {} [first, second]) ∧
      (∀ workspace ∈ [first, second], (schemaIn [] (readFile folderWorld.store)
        (RunOptions.rootExample {}) workspace).isOk = true) ∧
      (pass [first, second]).1.map (fun _ => ()) = .error .isDirectory ∧
      (pass [second, first]).1.map (fun _ => ()) = .error .isDirectory ∧
      readFile (pass [first, second]).2.store first.valuesPath = .ok (some "X=1\n") ∧
      readFile (pass [second, first]).2.store first.valuesPath = .ok none :=
  ⟨by decide, by decide, by decide +kernel, by decide +kernel, by decide +kernel, by decide +kernel,
    by decide +kernel⟩

end Fixed
end EnvFiles
