import EnvFiles.Proofs.Store.Memory
import EnvFiles.Proofs.Workflow.Settling

/-!
# Repeated reconciliation converges

Without plugins and questions every pass over a workspace applies one scan of its schema to the
names that have a value, and leaves all variables that are not left out in the file. So after
more passes than the schema has forward copies the file is settled: every further pass comes to
what is there already, and writes nothing.
-/

namespace EnvFiles

variable {σ α : Type} {store : Store σ}

/-- A run several times, one after the other. -/
def Run.repeated (run : Run σ α) : Nat → Run σ Unit
  | 0 => pure ()
  | n + 1 => do
    discard run
    repeated run n

/-- What one run takes from each count to the next, several runs take further. -/
theorem Run.endsIn_repeated {run : Run σ α} {good : Nat → World σ → Prop}
    {failed : Failure → World σ → Prop}
    (h : ∀ m world, good m world → run.EndsIn world (fun _ after => good (m + 1) after) failed)
    (n m : Nat) {world : World σ} (hworld : good m world) :
    (run.repeated n).EndsIn world (fun _ after => good (m + n) after) failed := by
  induction n generalizing m world with
  | zero => exact hworld
  | succ n ih =>
    rw [repeated, Attempt.endsIn_bind]
    refine (Attempt.endsIn_map _ _).mpr ((h m world hworld).mono (fun _ after hafter => ?_)
      fun _ _ hfailed => hfailed)
    have hmore := ih (m + 1) hafter
    rwa [Nat.add_right_comm, Nat.add_assoc] at hmore

/-- A values file over which a schema was scanned a number of times. -/
structure ScannedContent (schema : List Definition) (passes : Nat) (content : Content) : Prop where
  tidy : TidyContent content
  fills : ∃ start, (valuesOf content).fills = (fillAll schema)^[passes] start
  readable : 0 < passes → ∃ text, content = .ok text
  has_of_active : 0 < passes → ∀ definition ∈ schema, definition.isActive = true →
    (unattended [] definition).skipped = false → (valuesOf content).has definition.name = true

section Scanning

variable {schema : List Definition} {passes : Nat} {before after : Content}

/-- A tidy file before any pass. -/
theorem scannedContent_zero (schema : List Definition) (h : TidyContent before) :
    ScannedContent schema 0 before :=
  ⟨h, ⟨_, rfl⟩, fun h => absurd h (Nat.lt_irrefl 0), fun h => absurd h (Nat.lt_irrefl 0)⟩

/-- A file is settled after more scans than the schema has forward copies. -/
theorem ScannedContent.settled (h : ScannedContent schema passes before)
    (hpasses : (forwardCopies schema).length < passes) : Settled schema (valuesOf before) := by
  obtain ⟨start, hstart⟩ := h.fills
  refine ⟨?_, h.has_of_active (by omega)⟩
  rw [hstart]
  exact fillAll_iterate_eq_self schema start hpasses

/-- An update that completes the values of a file scans its schema once more. -/
theorem ScannedContent.of_updated (h : ScannedContent schema passes before)
    {updates : Table Text Text} (hcompletes : Completes schema (valuesOf before) updates)
    (hupdated : ContentUpdated updates before after) :
    ScannedContent schema (passes + 1) after where
  tidy := hupdated.tidy
  fills := by
    obtain ⟨start, hstart⟩ := h.fills
    refine ⟨start, ?_⟩
    rw [Function.iterate_succ_apply', ← hstart]
    exact hcompletes.fills_of_overlays hupdated.overlays
  readable _ := hupdated.readable
  has_of_active _ := hcompletes.has_of_overlays hupdated.overlays

end Scanning

section Passes

variable {view : StoreView store} {registry : Registry} {options : RunOptions}

/-- A pass over a workspace puts its updates over the values file. It counts no update and writes
nothing if nothing changes. -/
theorem endsIn_reconcileAndWrite_unattended (hplugins : registry.plugins = [])
    (hinteractive : options.interactive = false) {world : World σ}
    (hvalid : view.valid world.store) {workspace : Workspace}
    (hcovers : view.covers workspace.valuesPath) {schema : List Definition}
    (hschema : schemaIn registry.patterns (view.files world.store) options.rootExample workspace =
      .ok schema) (htame : ∀ definition ∈ schema, definition.Tame)
    (htidy : TidyContent (view.files world.store workspace.valuesPath)) :
    let values := valuesOf (view.files world.store workspace.valuesPath)
    let updates := passUpdates schema values
    (reconcileAndWrite store registry options true workspace).EndsIn world
      (fun result after => view.Updated workspace.valuesPath updates world after ∧
        (changesTo values updates = [] → result.2 = 0 ∧ view.Same world after))
      fun failure _ => view.FailsOn workspace.valuesPath updates world failure := by
  intro values updates
  have hcompletes : Completes schema values updates :=
    completes_passUpdates htame (usableValues_valuesOf _)
  unfold reconcileAndWrite
  rw [Attempt.endsIn_bind]
  refine (endsIn_reconcileWorkspace_unattended hplugins hinteractive hvalid hschema none [] []).mono
    (fun reconciliation first hfirst => ?_) fun _ _ hfailure => Or.inl hfailure
  obtain ⟨hsame, hreadable, hupdates⟩ := hfirst
  have hall : schema.filter (fun definition => !List.contains [] definition.name) = schema :=
    List.filter_eq_self.mpr fun _ _ => rfl
  rw [hall] at hupdates
  change reconciliation.outcome.updates = updates at hupdates
  rw [hupdates]
  by_cases hempty : updates.isEmpty = true
  · rw [hempty]
    have hnone : changesTo values updates = [] := by
      rw [List.isEmpty_iff.mp hempty]
      rfl
    exact ⟨hsame.updated hreadable htidy hcompletes.plain.nodup_keys hnone,
      fun _ => ⟨rfl, hsame⟩⟩
  · simp only [hempty, Bool.not_true, Bool.or_self, Bool.false_eq_true, if_false]
    refine (computes_workspaceSchema view registry.patterns _ workspace).endsIn_bind hsame.valid
      (hsame.files ▸ hschema) fun second hsecond => ?_
    have hsame' := hsame.trans hsecond
    rw [Attempt.endsIn_bind]
    refine (endsIn_applyUpdates_tidy hsame'.valid hcovers (by rwa [hsame'.files])
      hcompletes.plain hcompletes.usable
      (soundSchema_schemaIn hschema).plainDescriptions).mono (fun changes after hafter => ?_)
      fun failure _ hfailure => ?_
    · obtain ⟨hupdated, hchanges, hunwritten⟩ := hafter
      refine ⟨hupdated.of_same hsame', fun hnone => ?_⟩
      rw [hsame'.files, hnone] at hchanges
      exact ⟨by rw [hchanges]; rfl, hsame'.trans (hunwritten hchanges)⟩
    · rwa [StoreView.FailsOn, hsame'.files] at hfailure

/-- A step of `reconcileFrom`. -/
def reconcileStep (store : Store σ) (registry : Registry) (options : RunOptions)
    (report : ReconcileReport) (workspace : Workspace) : Run σ ReconcileReport := do
  let (reconciliation, written) ← reconcileAndWrite store registry options true workspace
  return report.add reconciliation written

/-- Reconciling workspaces is a round. -/
theorem reconcileFrom_eq_foldlM (report : ReconcileReport) (workspaces : List Workspace) :
    reconcileFrom store registry options true report workspaces =
      workspaces.foldlM (reconcileStep store registry options) report := by
  induction workspaces generalizing report with
  | nil => rfl
  | cons workspace rest ih =>
    rw [reconcileFrom, List.foldlM_cons, reconcileStep, bind_assoc]
    refine bind_congr fun result => ?_
    rw [pure_bind]
    exact ih _

section Rounds

variable {workspaces : List Workspace} {start world : World σ} {passes : Nat}
  {schema : Workspace → List Definition}

/-- Every workspace has its schema, and its values file was scanned with it a number of times. -/
structure StoreView.Scanned (view : StoreView store) (options : RunOptions)
    (workspaces : List Workspace) (schema : Workspace → List Definition) (start : World σ)
    (passes : Nat) (world : World σ) : Prop where
  steady : view.Steady (examplePaths options workspaces) start world
  scanned : ∀ workspace ∈ workspaces,
    ScannedContent (schema workspace) passes (view.files world.store workspace.valuesPath)

/-- A pass over all workspaces scans the schema of each once more in its values file. -/
theorem endsIn_reconcileAll_unattended
    (horderly : view.Orderly registry options workspaces (workspaces.map Workspace.valuesPath)
      start)
    (hschema : ∀ workspace ∈ workspaces, schemaIn registry.patterns (view.files start.store)
      options.rootExample workspace = .ok (schema workspace))
    (h : view.Scanned options workspaces schema start passes world) :
    (reconcileAll store registry options workspaces).EndsIn world
      (fun _ after => view.Scanned options workspaces schema start (passes + 1) after)
      fun failure _ => view.Fails (workspaces.map Workspace.valuesPath) failure := by
  have hapart := horderly.apart (List.Subset.refl _)
  rw [reconcileAll, reconcileFrom_eq_foldlM]
  refine (endsIn_round (fun workspace => ScannedContent (schema workspace) passes)
    (fun workspace _ => ScannedContent (schema workspace) (passes + 1)) hapart
    (fun workspace hmem result before hsteady hready => ?_) h.steady h.scanned _).mono
      (fun _ after hafter => ⟨hafter.1.1, hafter.1.2⟩) fun _ _ hfailure => hfailure
  have hnow := (hsteady.schemaIn_eq hmem).trans (hschema workspace hmem)
  have htame := horderly.tame hmem (hschema workspace hmem)
  rw [reconcileStep, Attempt.endsIn_bind]
  refine (endsIn_reconcileAndWrite_unattended horderly.plugins_eq_nil
    horderly.interactive_eq_false hsteady.valid (hapart.covers workspace hmem) hnow htame
    hready.tidy).mono (fun result after hafter => ⟨hafter.1.toChanged, ?_⟩)
    fun failure _ hfailure => hfailure.fails hsteady.valid (List.mem_map_of_mem hmem)
  exact hready.of_updated (completes_passUpdates htame (usableValues_valuesOf _)) hafter.1.content

/-- A pass over workspaces whose files are settled returns, counts no update and writes nothing. -/
theorem endsIn_reconcileAll_settled
    (horderly : view.Orderly registry options workspaces (workspaces.map Workspace.valuesPath)
      start)
    (hschema : ∀ workspace ∈ workspaces, schemaIn registry.patterns (view.files start.store)
      options.rootExample workspace = .ok (schema workspace))
    (hpasses : ∀ workspace ∈ workspaces, (forwardCopies (schema workspace)).length < passes)
    (h : view.Scanned options workspaces schema start passes world) :
    (reconcileAll store registry options workspaces).EndsIn world
      (fun report after => view.Same world after ∧ report.totalUpdates = 0) fun _ _ => False := by
  have hapart := horderly.apart (List.Subset.refl _)
  rw [reconcileAll, reconcileFrom_eq_foldlM]
  refine endsIn_idleRound ReconcileReport.totalUpdates h.steady.valid
    (fun workspace hmem result before hsame => ?_) _
  have hsteady := hsame.steady h.steady
  have hnow := (hsteady.schemaIn_eq hmem).trans (hschema workspace hmem)
  have htame := horderly.tame hmem (hschema workspace hmem)
  have hscanned : ScannedContent (schema workspace) passes
      (view.files before.store workspace.valuesPath) := by
    rw [hsame.files]
    exact h.scanned workspace hmem
  have hfew := hpasses workspace hmem
  have hnone := (hscanned.settled hfew).changesTo_eq_nil
    (completes_passUpdates htame (usableValues_valuesOf _))
  rw [reconcileStep, Attempt.endsIn_bind]
  refine (endsIn_reconcileAndWrite_unattended horderly.plugins_eq_nil
    horderly.interactive_eq_false hsame.valid (hapart.covers workspace hmem) hnow htame
    hscanned.tidy).mono (fun again after hafter => ?_)
    fun failure _ hfailure => view.not_failsOn (hscanned.readable (by omega)) hnone hfailure
  obtain ⟨hzero, hsame'⟩ := hafter.2 hnone
  refine ⟨hsame', ?_⟩
  rw [ReconcileReport.add, hzero, Nat.add_zero]

end Rounds

/-- Repeated reconciliation converges. Without plugins and questions, in a tree whose example
files can be read and whose values files are tidy and distinct: let no effective schema have more
than `k` variables that copy one declared later. After more than `k` passes over all workspaces
every further pass returns, counts no update and writes no file. Only the store itself can make
one of the passes before fail. -/
theorem reconcileAll_converges (view : StoreView store) (registry : Registry)
    (options : RunOptions) (workspaces : List Workspace) (world : World σ)
    (horderly : view.Orderly registry options workspaces (workspaces.map Workspace.valuesPath)
      world)
    (k : Nat) (hk : ∀ workspace ∈ workspaces, ∀ schema,
      schemaIn registry.patterns (view.files world.store) options.rootExample workspace =
        .ok schema → (forwardCopies schema).length ≤ k)
    (n : Nat) (hn : k < n) :
    let pass := reconcileAll store registry options workspaces
    (∀ after, (Run.repeated pass n).runFrom world = (.ok (), after) →
      ∃ report again, pass.runFrom after = (.ok report, again) ∧ report.totalUpdates = 0 ∧
        store.Reached [] after.store again.store) ∧
      ∀ failure after, (Run.repeated pass n).runFrom world = (.error failure, after) →
        view.Fails (workspaces.map Workspace.valuesPath) failure := by
  intro pass
  have hchoice : ∀ workspace, ∃ schema, workspace ∈ workspaces →
      schemaIn registry.patterns (view.files world.store) options.rootExample workspace =
        .ok schema := by
    intro workspace
    by_cases hmem : workspace ∈ workspaces
    · obtain ⟨schema, hschema⟩ := horderly.exists_schema workspace hmem
      exact ⟨schema, fun _ => hschema⟩
    · exact ⟨[], fun h => absurd h hmem⟩
  obtain ⟨schema, hschema⟩ := Classical.axiomOfChoice hchoice
  have hstart : view.Scanned options workspaces schema world 0 world :=
    ⟨⟨horderly.valid, fun _ _ => rfl⟩, fun workspace hmem =>
      scannedContent_zero _ (horderly.tidyContent (List.mem_map_of_mem hmem))⟩
  have hends := Run.endsIn_repeated
    (fun _ _ => endsIn_reconcileAll_unattended horderly hschema) n 0 hstart
  rw [Nat.zero_add] at hends
  refine ⟨fun after hrun => ?_, fun failure after hrun => hends.of_runFrom_error hrun⟩
  obtain ⟨report, again, hlast, hsame, hzero⟩ := (endsIn_reconcileAll_settled horderly hschema
    (fun workspace hmem => Nat.lt_of_le_of_lt (hk workspace hmem _ (hschema workspace hmem)) hn)
    (hends.of_runFrom_ok hrun)).returns
  exact ⟨report, again, hlast, hzero, hsame.unwritten⟩

end Passes

section Lagging

/-- A workspace of the store below. -/
def laggingWorkspace : Workspace :=
  ⟨"web", ["web"], ["web", ".env.local.example"], ["web", ".env.local"]⟩

/-- A root whose first variable copies the second, and a workspace without values. -/
def laggingWorld : World (Table Path Text) where
  store := [([".env.local.example"], "# [copy:HOST]\nURL=\n# [default:db]\nHOST=\n")]

/-- A pass over the store above. -/
def laggingPass : Run (Table Path Text) ReconcileReport :=
  reconcileAll memoryStore {} {} [laggingWorkspace]

/-- Whether the copy has a value. -/
def laggingFills (world : World (Table Path Text)) : Bool :=
  (valuesOf (memoryView.files world.store laggingWorkspace.valuesPath)).fills "URL"

/-- What the example file above declares: one literal and one forward copy. -/
theorem schemaIn_laggingWorld : ∃ schema,
    schemaIn [] (memoryView.files laggingWorld.store) (RunOptions.rootExample {})
      laggingWorkspace = .ok schema ∧
        (schema.flatMap fun definition => definition.directive.literals) = [("db" : Text)] ∧
          (forwardCopies schema).length = 1 := by
  have hread : (schemaIn [] (memoryView.files laggingWorld.store) (RunOptions.rootExample {})
      laggingWorkspace >>= fun schema => Except.ok (schema.flatMap fun definition =>
        definition.directive.literals, (forwardCopies schema).length)) =
      Except.ok ([("db" : Text)], 1) := by decide +kernel
  obtain ⟨schema, hschema, hmeaning⟩ := exists_of_bind_eq_ok hread
  exact ⟨schema, hschema, Prod.mk.inj (Except.ok.inj hmeaning)⟩

/-- The copy is filled by the second pass, and the third one has nothing to do. -/
theorem reconcileAll_converges_lagging :
    (laggingFills (laggingPass.runFrom laggingWorld).2 = false ∧
      laggingFills ((Run.repeated laggingPass 2).runFrom laggingWorld).2 = true) ∧
      ∃ report again,
        laggingPass.runFrom ((Run.repeated laggingPass 2).runFrom laggingWorld).2 =
          (.ok report, again) ∧ report.totalUpdates = 0 ∧
            memoryStore.Reached [] ((Run.repeated laggingPass 2).runFrom laggingWorld).2.store
              again.store := by
  obtain ⟨schema, hschema, hliterals, hforward⟩ := schemaIn_laggingWorld
  have honly : ∀ workspace ∈ [laggingWorkspace], ∀ other,
      schemaIn [] (memoryView.files laggingWorld.store) (RunOptions.rootExample {}) workspace =
        .ok other → other = schema := by
    intro workspace hmem other hother
    rw [List.mem_singleton.mp hmem, hschema] at hother
    exact (Except.ok.inj hother).symm
  have horderly : memoryView.Orderly {} {} [laggingWorkspace]
      ([laggingWorkspace].map Workspace.valuesPath) laggingWorld := by
    refine ⟨rfl, rfl, trivial, fun _ _ => trivial, fun _ _ => trivial, List.pairwise_singleton ..,
      ?_, fun workspace hmem => ?_, fun workspace hmem other hother => ?_,
      fun path hpath text htext => ?_⟩
    · change ∀ path ∈ [laggingWorkspace].map Workspace.valuesPath,
        ∀ other ∈ examplePaths {} [laggingWorkspace], path ≠ other
      decide
    · exact ⟨schema, List.mem_singleton.mp hmem ▸ hschema⟩
    · obtain rfl := honly workspace hmem other hother
      intro definition hdefinition literal hliteral
      have hdb : literal ∈ [("db" : Text)] :=
        hliterals ▸ List.mem_flatMap.mpr ⟨definition, hdefinition, hliteral⟩
      rw [List.mem_singleton.mp hdb]
      exact not_isBlankOnly_of_trimEnd (by decide)
    · rw [List.mem_singleton.mp hpath] at htext
      have hnone : memoryView.files laggingWorld.store laggingWorkspace.valuesPath = .ok none := by
        decide
      rw [hnone] at htext
      cases htext
  have hfew : ∀ workspace ∈ [laggingWorkspace], ∀ other,
      schemaIn [] (memoryView.files laggingWorld.store) (RunOptions.rootExample {}) workspace =
        .ok other → (forwardCopies other).length ≤ 1 := by
    intro workspace hmem other hother
    rw [honly workspace hmem other hother, hforward]
  obtain ⟨hthird, -⟩ := reconcileAll_converges memoryView {} {} [laggingWorkspace] laggingWorld
    horderly 1 hfew 2 (by decide)
  change ∀ after, (Run.repeated laggingPass 2).runFrom laggingWorld = (.ok (), after) → _ at hthird
  have hrun : ((Run.repeated laggingPass 2).runFrom laggingWorld).1 = .ok () := by decide +kernel
  exact ⟨by decide +kernel, hthird _ (Attempt.runFrom_eq_of_fst hrun)⟩

end Lagging
end EnvFiles
