import EnvFiles.Proofs.Resolution.Supply
import EnvFiles.Proofs.Workflow.Updating
import EnvFiles.Proofs.Workflow.Writes

/-!
# Values that a sync keeps

A sync loses no value. Every update that it writes concerns names that the file has no value for
at that moment, and such an update loses no name and changes no value that is not empty. The
invariant is a relation between two worlds, `StoreView.Keeps`, that holds from the start of the
run to wherever it ends, and composes along its steps. It needs the values files to have plain
line ends, which every rewrite leaves behind again.
-/

namespace EnvFiles

/-- No name is lost, and every value that is not empty is the same. -/
structure ValuesKept (before after : Table Text Text) : Prop where
  has_of_has : ∀ name, before.has name = true → after.has name = true
  get?_of_fills : ∀ name, before.fills name = true → after.get? name = before.get? name

/-- What is kept can be kept again. -/
theorem ValuesKept.trans {first second third : Table Text Text} (h : ValuesKept first second)
    (h' : ValuesKept second third) : ValuesKept first third where
  has_of_has name hname := h'.has_of_has name (h.has_of_has name hname)
  get?_of_fills name hname := by
    have hget := h.get?_of_fills name hname
    exact (h'.get?_of_fills name ((Table.fills_congr hget).trans hname)).trans hget

/-- A rewrite keeps the values of a file when it only updates names without a value. -/
theorem valuesKept_rewriteValues {text : Text} {updates : Table Text Text}
    {schema : List Definition} (hends : Text.hasPlainEnds text = true)
    (hupdates : PlainUpdates updates) (hschema : PlainDescriptions schema)
    (hlacked : ∀ entry ∈ updates, (readValues text).values.fills entry.1 = false) :
    ValuesKept (readValues text).values
      (readValues (rewriteValues (readValues text) updates schema)).values where
  has_of_has _ hname := has_rewriteValues_of_has hends hupdates hschema hname
  get?_of_fills name hname := by
    apply get?_rewriteValues_of_none hends hupdates hschema
    cases hget : updates.get? name with
    | none => rfl
    | some value =>
      have hfills := hlacked _ (Table.mem_of_get? hget)
      rw [hname] at hfills
      cases hfills

/-- What a path reads as after nothing was lost: a file that cannot be read stays as it is, and
a file with plain line ends keeps its values and plain line ends. -/
def ContentKept (before after : Content) : Prop :=
  match before with
  | .error failure => after = .error failure
  | .ok content => ∃ content', after = .ok content' ∧
      (Text.hasPlainEnds (content.getD []) = true → Text.hasPlainEnds (content'.getD []) = true ∧
        ValuesKept (readValues (content.getD [])).values (readValues (content'.getD [])).values)

/-- What reads as before is kept. -/
theorem ContentKept.refl (content : Content) :
    ContentKept content content := by
  cases content with
  | error failure => rfl
  | ok content => exact ⟨content, rfl, fun h => ⟨h, fun _ hname => hname, fun _ _ => rfl⟩⟩

/-- What is kept can be kept again. -/
theorem ContentKept.trans {first second third : Content}
    (h : ContentKept first second) (h' : ContentKept second third) : ContentKept first third := by
  cases first with
  | error failure =>
    obtain rfl : second = .error failure := h
    exact h'
  | ok content =>
    obtain ⟨content', rfl, hkept⟩ := h
    obtain ⟨content'', rfl, hkept'⟩ := h'
    refine ⟨content'', rfl, fun hends => ?_⟩
    obtain ⟨hends', hvalues⟩ := hkept hends
    obtain ⟨hends'', hvalues'⟩ := hkept' hends'
    exact ⟨hends'', hvalues.trans hvalues'⟩

variable {σ α β : Type} {store : Store σ}

/-- Two worlds between which no value is lost. -/
structure StoreView.Keeps (view : StoreView store) (before after : World σ) : Prop where
  valid : view.valid after.store
  files : ∀ path, view.covers path →
    ContentKept (view.files before.store path) (view.files after.store path)

/-- A world in which a run can go on: the files at the given paths have plain line ends, and the
replies that are left stay on one line. -/
structure StoreView.Fit (view : StoreView store) (targets : List Path) (world : World σ) :
    Prop where
  valid : view.valid world.store
  hasPlainEnds : ∀ path ∈ targets, ∀ content, view.files world.store path = .ok content →
    Text.hasPlainEnds (content.getD []) = true
  replies : PlainReplies world.desk.replies

section Keeping

variable {view : StoreView store} {targets : List Path}

/-- What is kept can be kept again. -/
theorem StoreView.Keeps.trans {first second third : World σ} (h : view.Keeps first second)
    (h' : view.Keeps second third) : view.Keeps first third :=
  ⟨h'.valid, fun path hpath => (h.files path hpath).trans (h'.files path hpath)⟩

/-- No change loses nothing. -/
theorem StoreView.Unchanged.keeps {before after : World σ} (h : view.Unchanged before after) :
    view.Keeps before after :=
  ⟨h.valid, fun path hpath => by rw [h.files path hpath]; exact .refl _⟩

/-- Where no value is lost and the replies are plain, the run can go on. -/
theorem StoreView.Fit.of_keeps {before after : World σ} (h : view.Fit targets before)
    (hcovers : ∀ path ∈ targets, view.covers path) (hkeeps : view.Keeps before after)
    (hreplies : PlainReplies after.desk.replies) : view.Fit targets after where
  valid := hkeeps.valid
  hasPlainEnds path hpath content hcontent := by
    have hkept := hkeeps.files path (hcovers path hpath)
    cases hbefore : view.files before.store path with
    | error failure =>
      rw [hbefore, hcontent] at hkept
      cases hkept
    | ok content' =>
      rw [hbefore, hcontent] at hkept
      obtain ⟨after, hafter, hvalues⟩ := hkept
      obtain rfl := Except.ok.inj hafter
      exact (hvalues (h.hasPlainEnds path hpath content' hbefore)).1
  replies := hreplies

/-- A run that loses no value, from worlds in which it can go on to such worlds. -/
def Run.KeepsValues (view : StoreView store) (targets : List Path) (run : Run σ α)
    (good : α → Prop) : Prop :=
  ∀ world, view.Fit targets world → run.EndsIn world
    (fun result after => (view.Keeps world after ∧ view.Fit targets after) ∧ good result)
    fun _ after => view.Keeps world after

namespace Run.KeepsValues

/-- A result alone. -/
theorem pure {good : α → Prop} {result : α} (h : good result) :
    (Pure.pure result : Run σ α).KeepsValues view targets good := fun _ hfit =>
  ⟨⟨⟨hfit.valid, fun _ _ => .refl _⟩, hfit⟩, h⟩

/-- Two runs one after the other. -/
theorem bind {run : Run σ α} {next : α → Run σ β} {good : α → Prop} {good' : β → Prop}
    (h : run.KeepsValues view targets good)
    (hnext : ∀ result, good result → (next result).KeepsValues view targets good') :
    (run >>= next).KeepsValues view targets good' := by
  intro world hfit
  rw [Attempt.endsIn_bind]
  refine (h world hfit).mono (fun result middle hmiddle => ?_) fun _ _ hkeeps => hkeeps
  obtain ⟨⟨hkeeps, hfit'⟩, hgood⟩ := hmiddle
  exact (hnext result hgood middle hfit').mono
    (fun _ _ hafter => ⟨⟨hkeeps.trans hafter.1.1, hafter.1.2⟩, hafter.2⟩)
    fun _ _ hafter => hkeeps.trans hafter

/-- A run that only reads. -/
theorem of_computes {run : Run σ α} {meaning : Files → Except Failure α} {good : α → Prop}
    (hcovers : ∀ path ∈ targets, view.covers path) (h : run.Computes view meaning)
    (hgood : ∀ files result, meaning files = .ok result → good result) :
    run.KeepsValues view targets good := by
  intro world hfit
  refine h.endsIn hfit.valid (fun result after hresult hafter => ?_)
    fun _ _ _ hafter => hafter.unchanged.keeps
  have hkeeps := hafter.unchanged.keeps
  exact ⟨⟨hkeeps, hfit.of_keeps hcovers hkeeps (hafter.replies ▸ hfit.replies)⟩,
    hgood _ result hresult⟩

/-- A step at the desk that leaves plain replies. -/
theorem atDesk {step : DeskStep α} {good : α → Prop}
    (h : ∀ desk, PlainReplies desk.replies → step.EndsIn desk
      (fun result after => PlainReplies after.replies ∧ good result) fun _ _ => True) :
    (Run.atDesk step : Run σ α).KeepsValues view targets good := by
  intro world hfit
  rw [Run.endsIn_atDesk]
  refine (h world.desk hfit.replies).mono (fun result after hafter => ?_)
    fun _ _ _ => ⟨hfit.valid, fun _ _ => .refl _⟩
  exact ⟨⟨⟨hfit.valid, fun _ _ => .refl _⟩, hfit.valid, hfit.hasPlainEnds, hafter.1⟩, hafter.2⟩

end Run.KeepsValues

end Keeping

section Schemas

/-- An example file that is read declares a sound schema. -/
theorem soundSchema_exampleIn {patterns : List DirectivePattern} {files : Files} {path : Path}
    {schema : Schema} (h : exampleIn patterns files path = .ok schema) :
    SoundSchema schema.definitions := by
  obtain ⟨content, -, hread⟩ := exists_of_bind_eq_ok h
  cases content with
  | none =>
    obtain rfl := Except.ok.inj hread
    exact soundSchema_nil
  | some text => exact soundSchema_readExample hread

/-- The effective schema of a workspace is sound. -/
theorem soundSchema_schemaIn {patterns : List DirectivePattern} {files : Files}
    {rootExample : Path} {workspace : Workspace} {definitions : List Definition}
    (h : schemaIn patterns files rootExample workspace = .ok definitions) :
    SoundSchema definitions := by
  obtain ⟨shared, hshared, hrest⟩ := exists_of_bind_eq_ok h
  split at hrest
  · obtain rfl := Except.ok.inj hrest
    exact soundSchema_exampleIn hshared
  · obtain ⟨specific, hspecific, hmerged⟩ := exists_of_bind_eq_ok hrest
    obtain rfl := Except.ok.inj hmerged
    exact soundSchema_mergeDefinitions (soundSchema_exampleIn hshared)
      (soundSchema_exampleIn hspecific)

/-- The descriptions of a sound schema stay on one line. -/
theorem SoundSchema.plainDescriptions {definitions : List Definition}
    (h : SoundSchema definitions) : PlainDescriptions definitions :=
  fun definition hmem => (h.sound_of_mem definition hmem).isOneLine_description

/-- The values of several files stay on one line. -/
theorem plainValues_allValuesIn {files : Files} {paths : List Path}
    {tables : List (Table Text Text)} (h : allValuesIn files paths = .ok tables) :
    ∀ table ∈ tables, PlainValues table := by
  induction paths generalizing tables with
  | nil =>
    obtain rfl := Except.ok.inj h
    exact fun _ hmem => absurd hmem List.not_mem_nil
  | cons path rest ih =>
    obtain ⟨file, hfile, hrest⟩ := exists_of_bind_eq_ok h
    obtain ⟨more, hmore, hcons⟩ := exists_of_bind_eq_ok hrest
    obtain ⟨content, -, hread⟩ := exists_of_bind_eq_ok hfile
    obtain rfl := Except.ok.inj hread
    obtain rfl := Except.ok.inj hcons
    exact List.forall_mem_cons.mpr ⟨plainValues_readValues _, ih hmore⟩

/-- The members are the given workspaces. -/
theorem workspaces_membersIn {patterns : List DirectivePattern} {files : Files}
    {rootExample : Path} {workspaces : List Workspace} {members : List Member}
    (h : membersIn patterns files rootExample workspaces = .ok members) :
    members.map Member.workspace = workspaces := by
  induction workspaces generalizing members with
  | nil =>
    obtain rfl := Except.ok.inj h
    rfl
  | cons workspace rest ih =>
    obtain ⟨own, -, hrest⟩ := exists_of_bind_eq_ok h
    obtain ⟨more, hmore, hcons⟩ := exists_of_bind_eq_ok hrest
    obtain rfl := Except.ok.inj hcons
    rw [List.map_cons, ih hmore]

end Schemas

section Updates

variable {view : StoreView store} {targets : List Path} {path : Path}

/-- Some of the updates are updates. -/
theorem PlainUpdates.filter {updates : Table Text Text} (h : PlainUpdates updates)
    (keep : Text × Text → Bool) : PlainUpdates (updates.filter keep) where
  nodup_keys := h.nodup_keys.sublist (List.filter_sublist.map Prod.fst)
  isName_of_mem entry hentry := h.isName_of_mem entry (List.mem_filter.mp hentry).1
  isOneLine_of_mem entry hentry := h.isOneLine_of_mem entry (List.mem_filter.mp hentry).1

/-- A file keeps its values when it is written with updates that only concern names without a
value. -/
theorem contentKept_of_readsBack {content : Option Text} {updates : Table Text Text}
    {schema : List Definition} {back : Text} (hupdates : PlainUpdates updates)
    (hschema : PlainDescriptions schema)
    (hlacked : ∀ entry ∈ updates, (readValues (content.getD [])).values.fills entry.1 = false)
    (hback : ReadsBack (rewriteValues (readValues (content.getD [])) updates schema) back) :
    ContentKept (.ok content) (.ok (some back)) := by
  refine ⟨some back, rfl, fun hends => ?_⟩
  have hends' := hasPlainEnds_rewriteValues hends hupdates hschema
  have hvalues := valuesKept_rewriteValues hends hupdates hschema hlacked
  rw [Option.getD_some]
  rcases hback with hback | hback
  · rw [hback]
    exact ⟨hends', hvalues⟩
  · rw [hback, readValues_values_congr (Text.lines_unifyNewlines _)]
    exact ⟨Text.hasPlainEnds_unifyNewlines hends', hvalues⟩

/-- Updates that only concern names for which a file has no value. -/
structure FillsOnly (content : Content) (updates : Table Text Text) :
    Prop where
  plain : PlainUpdates updates
  lacked : ∀ text, content = .ok text → ∀ entry ∈ updates,
    (readValues (text.getD [])).values.fills entry.1 = false

/-- An update that only concerns names without a value loses none. -/
theorem keeps_applyUpdates {world : World σ} (hfit : view.Fit targets world)
    (hcovers : ∀ path ∈ targets, view.covers path) (hpath : path ∈ targets)
    {updates : Table Text Text} {schema : List Definition}
    (hupdates : FillsOnly (view.files world.store path) updates)
    (hschema : PlainDescriptions schema) :
    (applyUpdates store path updates schema).EndsIn world
      (fun _ after => view.Keeps world after ∧ view.Fit targets after)
      fun _ after => view.Keeps world after := by
  have hunchanged (after : World σ) (hafter : view.Unchanged world after) :
      view.Keeps world after ∧ view.Fit targets after :=
    ⟨hafter.keeps, hfit.of_keeps hcovers hafter.keeps (hafter.replies ▸ hfit.replies)⟩
  refine endsIn_applyUpdates hfit.valid (hcovers path hpath)
    (fun _ after _ hafter => (hunchanged after hafter.unchanged).1)
    (fun _ after _ _ hafter => hunchanged after hafter.unchanged)
    (fun content after hcontent _ hafter => ?_)
    fun _ _ _ _ after _ _ _ _ hafter => (hunchanged after hafter).1
  have hkeeps : view.Keeps world after := by
    refine ⟨hafter.valid, fun other hother => ?_⟩
    by_cases hsame : view.sameFile path other
    · obtain ⟨back, hback, hreads⟩ := hafter.files_of_sameFile other hother hsame
      rw [← view.files_congr world.store path other hfit.valid (hcovers path hpath) hother hsame,
        hcontent, hback]
      exact contentKept_of_readsBack (hupdates.plain.filter _) hschema (fun entry hentry =>
        hupdates.lacked content hcontent entry (List.mem_filter.mp hentry).1) hreads
    · rw [hafter.files_of_not_sameFile other hother hsame]
      exact .refl _
  exact ⟨hkeeps, hfit.of_keeps hcovers hkeeps (hafter.replies ▸ hfit.replies)⟩

/-- What a file holds when it could be read. -/
theorem eq_of_valuesIn {files : Files} {path : Path} {file : ValuesFile}
    (h : valuesIn files path = .ok file) {content : Option Text}
    (hcontent : files path = .ok content) : file = readValues (content.getD []) := by
  obtain ⟨content', hcontent', hread⟩ := exists_of_bind_eq_ok h
  rw [hcontent] at hcontent'
  obtain rfl := Except.ok.inj hcontent'
  exact (Except.ok.inj hread).symm

/-- Filling a file keeps its values. -/
theorem keepsValues_fillFile (hcovers : ∀ path ∈ targets, view.covers path)
    (hpath : path ∈ targets) {values : Table Text Text} {schema : List Definition}
    (hvalues : PlainUpdates values) (hschema : PlainDescriptions schema) :
    (fillFile store path values schema).KeepsValues view targets fun _ => True := by
  intro world hfit
  unfold fillFile
  rw [Attempt.endsIn_bind]
  refine (computes_readValuesFile view path).endsIn hfit.valid
    (fun file middle hfile hmiddle => ?_) fun _ _ _ hmiddle => hmiddle.unchanged.keeps
  have hkeeps := hmiddle.unchanged.keeps
  have hfit' := hfit.of_keeps hcovers hkeeps (hmiddle.replies ▸ hfit.replies)
  have hlacked : FillsOnly (view.files middle.store path) (lackedBy file.values values) := by
    refine ⟨hvalues.filter _, fun content hcontent entry hentry => ?_⟩
    rw [hmiddle.files] at hcontent
    have hlacks := (List.mem_filter.mp hentry).2
    rwa [eq_of_valuesIn hfile hcontent, Bool.not_eq_true'] at hlacks
  apply (Attempt.endsIn_map _ _).mpr
  exact (keeps_applyUpdates hfit' hcovers hpath hlacked hschema).mono
    (fun _ after hafter => ⟨⟨hkeeps.trans hafter.1, hafter.2⟩, trivial⟩)
    fun _ after hafter => hkeeps.trans hafter

end Updates
end EnvFiles
