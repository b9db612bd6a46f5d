import EnvFiles.Proofs.Resolution.Attended
import EnvFiles.Proofs.Store.Memory
import EnvFiles.Proofs.Workflow.SyncScene

/-!
# What a step of a sync touches

Each step of a sync puts updates over one file. Two relations follow a run along its steps.
`StoreView.Ongoing` is what the next step needs: the example files are as at the start, and the
values files are tidy. `StoreView.Touches` bounds what the steps did: no value is lost, and only the
touched names of a file can have changed. Neither asks whether two paths lead to one file.
-/

namespace EnvFiles

variable {σ : Type} {store : Store σ}

/-- A sync without plugins in a tree whose example files declare no blank literal and are none of
the values files, and whose values files are tidy as far as they can be read. -/
structure StoreView.Prepared (view : StoreView store) (registry : Registry) (options : RunOptions)
    (workspaces : List Workspace) (start : World σ) : Prop where
  plugins_eq_nil : registry.plugins = []
  valid : view.valid start.store
  covers : ∀ path ∈ syncTargets options workspaces, view.covers path
  covers_example : ∀ path ∈ examplePaths options workspaces, view.covers path
  not_sameFile_example : ∀ path ∈ syncTargets options workspaces,
    ∀ other ∈ examplePaths options workspaces, ¬ view.sameFile path other
  not_isBlankOnly_of_mem_literals : ∀ path ∈ examplePaths options workspaces, ∀ schema,
    exampleIn registry.patterns (view.files start.store) path = .ok schema →
      ∀ definition ∈ schema.definitions, ∀ literal ∈ definition.directive.literals,
        ¬ IsBlankOnly literal
  tidy : ∀ path ∈ syncTargets options workspaces, ∀ text,
    view.files start.store path = .ok (some text) → TidyText text
  replies : PlainReplies start.desk.replies

/-- A world in which such a sync can go on. -/
structure StoreView.Ongoing (view : StoreView store) (options : RunOptions)
    (workspaces : List Workspace) (start world : World σ) : Prop
    extends view.Steady (examplePaths options workspaces) start world where
  tidy : ∀ path ∈ syncTargets options workspaces, TidyContent (view.files world.store path)
  replies : PlainReplies world.desk.replies

/-- Two worlds between which no value is lost, and only touched names of a file change. -/
structure StoreView.Touches (view : StoreView store) (touched : Path → Text → Prop)
    (before after : World σ) : Prop extends view.Keeps before after where
  get?_of_not_touched : ∀ path, view.covers path → ∀ name, ¬ touched path name →
    (valuesOf (view.files after.store path)).get? name =
      (valuesOf (view.files before.store path)).get? name

section Values

variable {values updates after : Table Text Text}

/-- Where updates were put over values and no value was lost, a name without an update has the
value that it had. -/
theorem get?_of_overlays (hoverlays : Overlays values updates after)
    (hkept : ValuesKept values after) {name : Text} (hname : updates.has name = false) :
    after.get? name = values.get? name := by
  cases hvalue : values.fills name with
  | true => exact hkept.get?_of_fills name hvalue
  | false =>
    have hhas := hoverlays.has name
    have hfills := hoverlays.fills name
    rw [hname, Bool.or_false] at hhas
    rw [hname, if_neg Bool.false_ne_true, hvalue] at hfills
    rw [Table.has, Table.has] at hhas
    rw [Table.fills_eq] at hfills hvalue
    -- Both are missing or both are empty.
    cases hold : values.get? name <;> cases hnew : after.get? name <;> simp_all

/-- A name that has a value keeps having one. -/
theorem ValuesKept.fills_of_fills (h : ValuesKept values after) {name : Text}
    (hname : values.fills name = true) : after.fills name = true :=
  (Table.fills_congr (h.get?_of_fills name hname)).trans hname

/-- What a file lacks is among the values that it is given. -/
theorem has_of_has_lackedBy {name : Text} (h : (lackedBy values updates).has name = true) :
    updates.has name = true := by
  rw [Table.has, get?_lackedBy] at h
  split at h
  · cases h
  · exact h

end Values

section Relations

variable {view : StoreView store} {touched more : Path → Text → Prop}
  {first second third : World σ}

/-- A file that can be read can still be read. -/
theorem StoreView.Keeps.readable (h : view.Keeps first second) {path : Path}
    (hpath : view.covers path) (hreadable : ∃ text, view.files first.store path = .ok text) :
    ∃ text, view.files second.store path = .ok text := by
  obtain ⟨text, htext⟩ := hreadable
  have hkept := h.files path hpath
  rw [htext] at hkept
  obtain ⟨text', htext', -⟩ := hkept
  exact ⟨text', htext'⟩

/-- A tidy file keeps its values. -/
theorem StoreView.Keeps.valuesKept (h : view.Keeps first second) {path : Path}
    (hpath : view.covers path) (htidy : TidyContent (view.files first.store path)) :
    ValuesKept (valuesOf (view.files first.store path))
      (valuesOf (view.files second.store path)) := by
  have hkept := h.files path hpath
  cases hcontent : view.files first.store path with
  | error failure =>
    rw [hcontent] at hkept
    have hafter : view.files second.store path = .error failure := hkept
    rw [hafter]
    exact ⟨fun _ hname => hname, fun _ _ => rfl⟩
  | ok text =>
    rw [hcontent] at hkept
    obtain ⟨text', htext', hvalues⟩ := hkept
    rw [htext']
    exact (hvalues (htidy text hcontent).hasPlainEnds).2

/-- Where the store reads as before, nothing is touched. -/
theorem StoreView.touches_of_files (hvalid : view.valid second.store)
    (hfiles : view.files second.store = view.files first.store) :
    view.Touches touched first second where
  valid := hvalid
  files path _ := by
    rw [hfiles]
    exact .refl _
  get?_of_not_touched path _ name _ := by rw [hfiles]

/-- One step after another. -/
theorem StoreView.Touches.trans (h : view.Touches touched first second)
    (h' : view.Touches touched second third) : view.Touches touched first third where
  toKeeps := h.toKeeps.trans h'.toKeeps
  get?_of_not_touched path hpath name hname := by
    rw [h'.get?_of_not_touched path hpath name hname, h.get?_of_not_touched path hpath name hname]

/-- More names may be touched. -/
theorem StoreView.Touches.mono (h : view.Touches touched first second)
    (hmore : ∀ path name, touched path name → more path name) :
    view.Touches more first second where
  toKeeps := h.toKeeps
  get?_of_not_touched path hpath name hname :=
    h.get?_of_not_touched path hpath name fun hold => hname (hmore path name hold)

end Relations

section Steps

variable {view : StoreView store} {registry : Registry} {options : RunOptions}
  {workspaces : List Workspace} {start world after : World σ} {path : Path}

/-- At the start a sync can go on. -/
theorem StoreView.Prepared.ongoing
    (hprepared : view.Prepared registry options workspaces start) :
    view.Ongoing options workspaces start start where
  valid := hprepared.valid
  files _ _ := rfl
  tidy path hpath text htext := by
    cases text with
    | none => exact tidyText_nil
    | some text => exact hprepared.tidy path hpath text htext
  replies := hprepared.replies

/-- Where the store reads as before, a sync can go on. -/
theorem StoreView.Ongoing.of_files (h : view.Ongoing options workspaces start world)
    (hvalid : view.valid after.store) (hfiles : view.files after.store = view.files world.store)
    (hreplies : PlainReplies after.desk.replies) : view.Ongoing options workspaces start after where
  valid := hvalid
  files path hpath := (congrFun hfiles path).trans (h.files path hpath)
  tidy path hpath := by
    rw [hfiles]
    exact h.tidy path hpath
  replies := hreplies

/-- A world in which a sync can go on is one in which it keeps values. -/
theorem StoreView.Ongoing.fit (h : view.Ongoing options workspaces start world) :
    view.Fit (syncTargets options workspaces) world where
  valid := h.valid
  hasPlainEnds path hpath text htext := (h.tidy path hpath text htext).hasPlainEnds
  replies := h.replies

/-- After an update of one of its files a sync can go on, and only the updated names of the file
were touched. -/
theorem StoreView.Ongoing.updated (h : view.Ongoing options workspaces start world)
    (hprepared : view.Prepared registry options workspaces start)
    (hpath : path ∈ syncTargets options workspaces) {updates : Table Text Text}
    (hupdated : view.Updated path updates world after) (hkeeps : view.Keeps world after)
    (hreplies : PlainReplies after.desk.replies) :
    view.Ongoing options workspaces start after ∧
      view.Touches (fun other name => view.sameFile path other ∧ updates.has name = true)
        world after := by
  have hcovers := hprepared.covers path hpath
  have hother (other : Path) (hother : view.covers other) :=
    hupdated.toChanged.files_or h.valid hcovers hother
  have hsteady : view.Steady (examplePaths options workspaces) start after :=
    hupdated.toChanged.steady h.toSteady hprepared.covers_example
      (hprepared.not_sameFile_example path hpath)
  refine ⟨⟨hsteady, fun other hmem => ?_, hreplies⟩, hkeeps,
    fun other hcovered name hname => ?_⟩
  · rcases hother other (hprepared.covers other hmem) with ⟨-, -, hafter⟩ | ⟨-, hafter⟩
    · rw [hafter]
      exact hupdated.content.tidy
    · rw [hafter]
      exact h.tidy other hmem
  · rcases hother other hcovered with ⟨hsame, hbefore, hafter⟩ | ⟨-, hafter⟩
    · rw [hbefore, hafter]
      refine get?_of_overlays hupdated.content.overlays
        (hkeeps.valuesKept hcovers (h.tidy path hpath)) ?_
      exact Bool.eq_false_iff.mpr fun hhas => hname ⟨hsame, hhas⟩
    · rw [hafter]

/-- Every definition of an example file is tame. -/
theorem StoreView.Prepared.tame_exampleIn
    (hprepared : view.Prepared registry options workspaces start)
    (hpath : path ∈ examplePaths options workspaces) {schema : Schema}
    (hschema : exampleIn registry.patterns (view.files start.store) path = .ok schema) :
    ∀ definition ∈ schema.definitions, definition.Tame := fun definition hmem =>
  { toSound := (soundSchema_exampleIn hschema).sound_of_mem definition hmem
    not_isBlankOnly_of_mem_literals := hprepared.not_isBlankOnly_of_mem_literals path hpath schema
      hschema definition hmem }

/-- Every definition of an effective schema is tame. -/
theorem StoreView.Prepared.tame_schemaIn
    (hprepared : view.Prepared registry options workspaces start) {workspace : Workspace}
    (hmem : workspace ∈ workspaces) {schema : List Definition}
    (hschema : schemaIn registry.patterns (view.files start.store) options.rootExample workspace =
      .ok schema) : ∀ definition ∈ schema, definition.Tame := by
  have hroot : options.rootExample ∈ examplePaths options workspaces := List.mem_cons_self ..
  have hown : workspace.examplePath ∈ examplePaths options workspaces :=
    List.mem_cons_of_mem _ (List.mem_map_of_mem hmem)
  intro definition hdefinition
  obtain ⟨shared, hshared, hrest⟩ := exists_of_bind_eq_ok hschema
  split at hrest
  · obtain rfl := Except.ok.inj hrest
    exact hprepared.tame_exampleIn hroot hshared definition hdefinition
  · obtain ⟨specific, hspecific, hmerged⟩ := exists_of_bind_eq_ok hrest
    obtain rfl := Except.ok.inj hmerged
    rcases mem_or_mem_of_mem_mergeDefinitions hdefinition with hdefinition | hdefinition
    · exact hprepared.tame_exampleIn hroot hshared definition hdefinition
    · exact hprepared.tame_exampleIn hown hspecific definition hdefinition

variable (hprepared : view.Prepared registry options workspaces start)
  (hongoing : view.Ongoing options workspaces start world)
  (hpath : path ∈ syncTargets options workspaces)

include hprepared hongoing hpath

/-- Updating a file with names that have no value in it. -/
theorem endsIn_applyUpdates_ongoing {updates : Table Text Text} {schema : List Definition}
    (hupdates : FillsOnly (view.files world.store path) updates) (husable : UsableValues updates)
    (hschema : PlainDescriptions schema) :
    (applyUpdates store path updates schema).EndsIn world
      (fun _ after => (view.Ongoing options workspaces start after ∧
        view.Touches (fun other name => view.sameFile path other ∧ updates.has name = true)
          world after) ∧
        ContentUpdated updates (view.files world.store path) (view.files after.store path))
      fun _ _ => True := by
  have htidy := endsIn_applyUpdates_tidy hongoing.valid (hprepared.covers path hpath)
    (hongoing.tidy path hpath) hupdates.plain husable hschema
  have hkeeps := keeps_applyUpdates hongoing.fit hprepared.covers hpath hupdates hschema
  refine (htidy.and hkeeps).mono (fun changes after hafter => ?_) fun _ _ _ => trivial
  obtain ⟨⟨hupdated, -⟩, hkept, hfit⟩ := hafter
  exact ⟨hongoing.updated hprepared hpath hupdated hkept hfit.replies, hupdated.content⟩

/-- Giving a file the values that it lacks. -/
theorem endsIn_fillFile_ongoing {values : Table Text Text} (hvalues : PlainUpdates values)
    (husable : UsableValues values) (hfilled : OnlyFilled values) {schema : List Definition}
    (hschema : PlainDescriptions schema) :
    (fillFile store path values schema).EndsIn world
      (fun _ after => (view.Ongoing options workspaces start after ∧
        view.Touches (fun _ name => values.has name = true) world after) ∧
        ∀ name, values.has name = true →
          (valuesOf (view.files after.store path)).fills name = true)
      fun _ _ => True := by
  have htidy := endsIn_fillFile_tidy hongoing.valid (hprepared.covers path hpath)
    (hongoing.tidy path hpath) hvalues husable hschema
  have hkeeps := keepsValues_fillFile hprepared.covers hpath hvalues hschema world hongoing.fit
  refine (htidy.and hkeeps).mono (fun _ after hafter => ?_) fun _ _ _ => trivial
  obtain ⟨⟨hupdated, -⟩, ⟨hkept, hfit⟩, -⟩ := hafter
  obtain ⟨hongoing', htouches⟩ := hongoing.updated hprepared hpath hupdated hkept hfit.replies
  refine ⟨⟨hongoing', htouches.mono fun _ name hname => ?_⟩, fun name hname => ?_⟩
  · exact has_of_has_lackedBy hname.2
  · rw [fills_of_lackedBy hfilled hupdated.content.overlays, ← hfilled name, hname, Bool.or_true]

end Steps

/-- A tree in memory without values files is prepared when its example files have no literals. -/
theorem prepared_memoryView {registry : Registry} {options : RunOptions}
    {workspaces : List Workspace} {start : World (Table Path Text)}
    (hplugins : registry.plugins = [])
    (hpaths : ∀ path ∈ syncTargets options workspaces, ∀ other ∈ examplePaths options workspaces,
      path ≠ other)
    (hliterals : ∀ path ∈ examplePaths options workspaces,
      (fun schema => schema.definitions.all fun definition =>
        definition.directive.literals.isEmpty) <$>
          exampleIn registry.patterns (memoryView.files start.store) path = .ok true)
    (hvacant : ∀ path ∈ syncTargets options workspaces,
      memoryView.files start.store path = .ok none)
    (hreplies : ∀ reply ∈ start.desk.replies, Text.isOneLine (Text.trim reply) = true) :
    memoryView.Prepared registry options workspaces start where
  plugins_eq_nil := hplugins
  valid := trivial
  covers _ _ := trivial
  covers_example _ _ := trivial
  not_sameFile_example := hpaths
  not_isBlankOnly_of_mem_literals path hpath schema hschema definition hmem literal hliteral := by
    have hnone := hliterals path hpath
    rw [hschema] at hnone
    have hall := List.all_eq_true.mp (Except.ok.inj hnone) definition hmem
    rw [List.isEmpty_iff.mp hall] at hliteral
    exact absurd hliteral List.not_mem_nil
  tidy path hpath text htext := by
    rw [hvacant path hpath] at htext
    cases htext
  replies := hreplies

end EnvFiles
