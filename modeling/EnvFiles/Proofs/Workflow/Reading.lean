import EnvFiles.Proofs.Store.View
import EnvFiles.Workflow.Sync

/-!
# Runs that only read

What such a run comes to is a function of what the paths read as: `exampleIn`, `valuesIn`,
`schemaIn` and the others say it without a store. `Run.Computes` ties a run to its function. The
store reads as before afterwards, and no reply is taken.
-/

namespace EnvFiles

variable {σ α β : Type} {store : Store σ}

/-- A world after reads only: every path reads as before and the same replies are left. -/
structure StoreView.Same (view : StoreView store) (before after : World σ) : Prop where
  valid : view.valid after.store
  files : view.files after.store = view.files before.store
  replies : after.desk.replies = before.desk.replies
  unwritten : store.Reached [] before.store after.store

/-- A world reads as itself. -/
theorem StoreView.Same.refl {view : StoreView store} {world : World σ}
    (h : view.valid world.store) : view.Same world world := ⟨h, rfl, rfl, .start⟩

/-- Reading as before, twice. -/
theorem StoreView.Same.trans {view : StoreView store} {first second third : World σ}
    (h : view.Same first second) (h' : view.Same second third) : view.Same first third :=
  ⟨h'.valid, h'.files.trans h.files, h'.replies.trans h.replies, h.unwritten.trans h'.unwritten⟩

/-- A run that only reads, and what it comes to. -/
def Run.Computes (view : StoreView store) (run : Run σ α)
    (meaning : Files → Except Failure α) : Prop :=
  ∀ world, view.valid world.store →
    (run.runFrom world).1 = meaning (view.files world.store) ∧ view.Same world (run.runFrom world).2

namespace Run.Computes

variable {view : StoreView store}

/-- How a run that only reads ends. -/
theorem endsIn {run : Run σ α} {meaning : Files → Except Failure α}
    (h : run.Computes view meaning) {world : World σ} (hvalid : view.valid world.store)
    {done : α → World σ → Prop} {failed : Failure → World σ → Prop}
    (hdone : ∀ result after, meaning (view.files world.store) = .ok result →
      view.Same world after → done result after)
    (hfailed : ∀ failure after, meaning (view.files world.store) = .error failure →
      view.Same world after → failed failure after) :
    run.EndsIn world done failed := by
  obtain ⟨hmeaning, hsame⟩ := h world hvalid
  rw [Attempt.EndsIn]
  rcases heq : run.runFrom world with ⟨result | result, after⟩
  · rw [heq] at hmeaning hsame
    exact hfailed result after hmeaning.symm hsame
  · rw [heq] at hmeaning hsame
    exact hdone result after hmeaning.symm hsame

/-- What a run that only reads returned is what reading comes to. -/
theorem of_runFrom_ok {run : Run σ α} {meaning : Files → Except Failure α}
    (h : run.Computes view meaning) {world after : World σ} (hvalid : view.valid world.store)
    {result : α} (hrun : run.runFrom world = (.ok result, after)) :
    meaning (view.files world.store) = .ok result ∧ view.Same world after := by
  obtain ⟨hmeaning, hsame⟩ := h world hvalid
  rw [hrun] at hmeaning hsame
  exact ⟨hmeaning.symm, hsame⟩

/-- A run goes on from what reading comes to. -/
theorem endsIn_bind {run : Run σ α} {next : α → Run σ β} {meaning : Files → Except Failure α}
    (h : run.Computes view meaning) {world : World σ} (hvalid : view.valid world.store)
    {result : α} (hresult : meaning (view.files world.store) = .ok result)
    {done : β → World σ → Prop} {failed : Failure → World σ → Prop}
    (hnext : ∀ after, view.Same world after → (next result).EndsIn after done failed) :
    (run >>= next).EndsIn world done failed := by
  refine (Attempt.endsIn_bind ..).mpr (h.endsIn hvalid (fun other after hother hsame => ?_)
    fun failure _ hfailure _ => ?_)
  · obtain rfl := Except.ok.inj (hresult.symm.trans hother)
    exact hnext after hsame
  · rw [hresult] at hfailure
    cases hfailure

/-- A result alone. -/
theorem pure (result : α) : (Pure.pure result : Run σ α).Computes view fun _ => .ok result :=
  fun _ hvalid => ⟨rfl, .refl hvalid⟩

/-- Two readings one after the other. -/
theorem bind {run : Run σ α} {next : α → Run σ β} {meaning : Files → Except Failure α}
    {meaningNext : α → Files → Except Failure β} (h : run.Computes view meaning)
    (hnext : ∀ result, (next result).Computes view (meaningNext result)) :
    (run >>= next).Computes view fun files => meaning files >>= fun x => meaningNext x files := by
  intro world hvalid
  obtain ⟨hmeaning, hsame⟩ := h world hvalid
  change _ = (meaning (view.files world.store) >>= fun x =>
    meaningNext x (view.files world.store)) ∧ _
  rw [Attempt.runFrom_bind]
  rcases heq : run.runFrom world with ⟨result | result, after⟩
  · rw [heq] at hmeaning hsame
    rw [← hmeaning]
    exact ⟨rfl, hsame⟩
  · rw [heq] at hmeaning hsame
    obtain ⟨hmeaning', hsame'⟩ := hnext result after hsame.valid
    rw [← hmeaning, ← hsame.files]
    exact ⟨hmeaning', hsame.trans hsame'⟩

/-- A function of what was read. -/
theorem map {run : Run σ α} {meaning : Files → Except Failure α} (h : run.Computes view meaning)
    (function : α → β) :
    (function <$> run).Computes view fun files => function <$> meaning files := by
  have hbind := h.bind fun result =>
    (pure (function result) : Run.Computes view (Pure.pure (function result)) _)
  intro world hvalid
  obtain ⟨hmeaning, hsame⟩ := hbind world hvalid
  refine ⟨hmeaning.trans ?_, hsame⟩
  cases meaning (view.files world.store) <;> rfl

/-- Reading a path. -/
theorem read (path : Path) : (Run.read store path).Computes view fun files => files path :=
  fun world hvalid => ⟨view.answer_read world.store path hvalid,
    view.valid_read world.store path hvalid, view.files_read world.store path hvalid, rfl,
    .read path .start⟩

/-- What was computed. -/
theorem ofExcept (result : Except Failure α) :
    (Run.ofExcept result : Run σ α).Computes view fun _ => result := by
  intro world hvalid
  rw [Run.ofExcept, Attempt.runFrom_ofExcept]
  exact ⟨rfl, .refl hvalid⟩

end Run.Computes

section Meaning

variable (patterns : List DirectivePattern) (files : Files)

/-- What an example file declares. -/
def exampleIn (path : Path) : Except Failure Schema := do
  match ← files path with
  | none => return { sourcePath := path.written }
  | some text => readExample patterns text path.written

/-- What a values file holds. -/
def valuesIn (path : Path) : Except Failure ValuesFile := do
  return readValues ((← files path).getD [])

/-- The effective schema of a workspace. -/
def schemaIn (rootExample : Path) (workspace : Workspace) : Except Failure (List Definition) := do
  let shared ← exampleIn patterns files rootExample
  if workspace.examplePath = rootExample then return shared.definitions
  else
    let specific ← exampleIn patterns files workspace.examplePath
    return mergeDefinitions shared.definitions specific.definitions

/-- The values of several files. -/
def allValuesIn : List Path → Except Failure (List (Table Text Text))
  | [] => return []
  | path :: rest => do
    let file ← valuesIn files path
    return file.values :: (← allValuesIn rest)

/-- The names that a workspace owns. -/
def ownNamesIn (rootExample : Path) (workspace : Workspace) : Except Failure (List Text) :=
  if workspace.examplePath = rootExample then return []
  else Schema.names <$> exampleIn patterns files workspace.examplePath

/-- The workspaces with the names they own. -/
def membersIn (rootExample : Path) : List Workspace → Except Failure (List Member)
  | [] => return []
  | workspace :: rest => do
    let own ← ownNamesIn patterns files rootExample workspace
    return ⟨workspace, own⟩ :: (← membersIn rootExample rest)

end Meaning

/-- A values file that cannot be read is a path that cannot be read. -/
theorem eq_error_of_valuesIn {files : Files} {path : Path} {failure : Failure}
    (h : valuesIn files path = .error failure) : files path = .error failure := by
  cases hcontent : files path with
  | error other =>
    rw [valuesIn, hcontent] at h
    exact congrArg _ (Except.error.inj h)
  | ok content =>
    rw [valuesIn, hcontent] at h
    cases h

section Readers

variable (view : StoreView store) (patterns : List DirectivePattern)

/-- Reading an example file. -/
theorem computes_readExampleFile (path : Path) :
    (readExampleFile store patterns path).Computes view fun files =>
      exampleIn patterns files path := by
  refine (Run.Computes.read path).bind fun content => ?_
  cases content with
  | none => exact .pure _
  | some text => exact .ofExcept _

/-- Reading a values file. -/
theorem computes_readValuesFile (path : Path) :
    (readValuesFile store path).Computes view fun files => valuesIn files path :=
  (Run.Computes.read path).bind fun _ => .pure _

/-- Reading the effective schema of a workspace. -/
theorem computes_workspaceSchema (rootExample : Path) (workspace : Workspace) :
    (workspaceSchema store patterns rootExample workspace).Computes view fun files =>
      schemaIn patterns files rootExample workspace := by
  refine (computes_readExampleFile view patterns rootExample).bind fun shared => ?_
  by_cases hroot : workspace.examplePath = rootExample
  · simp only [hroot, if_true]
    exact .pure _
  · simp only [hroot, if_false]
    exact (computes_readExampleFile view patterns workspace.examplePath).bind fun _ => .pure _

/-- Reading several values files. -/
theorem computes_readAllValues (paths : List Path) :
    (readAllValues store paths).Computes view fun files => allValuesIn files paths := by
  induction paths with
  | nil => exact .pure _
  | cons path rest ih =>
    exact (computes_readValuesFile view path).bind fun _ => ih.bind fun _ => .pure _

/-- Reading the names that workspaces own. -/
theorem computes_readMembers (rootExample : Path) (workspaces : List Workspace) :
    (readMembers store patterns rootExample workspaces).Computes view fun files =>
      membersIn patterns files rootExample workspaces := by
  induction workspaces with
  | nil => exact .pure _
  | cons workspace rest ih =>
    have hrest (own : List Text) : Run.Computes view
        (do return ⟨workspace, own⟩ :: (← readMembers store patterns rootExample rest))
        fun files => do
          return ⟨workspace, own⟩ :: (← membersIn patterns files rootExample rest) :=
      ih.bind fun _ => .pure _
    by_cases hroot : workspace.examplePath = rootExample
    · simp only [readMembers, membersIn, ownNamesIn, hroot, if_true]
      exact (Run.Computes.pure []).bind hrest
    · simp only [readMembers, membersIn, ownNamesIn, hroot, if_false]
      exact ((computes_readExampleFile view patterns _).map Schema.names).bind hrest

end Readers

end EnvFiles
