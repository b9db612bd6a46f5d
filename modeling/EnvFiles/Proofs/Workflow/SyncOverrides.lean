import EnvFiles.Proofs.Workflow.Checking
import EnvFiles.Proofs.Workflow.Delivery
import EnvFiles.Proofs.Workflow.SyncRehearsed

/-!
# What a sync reports of the values it handed out

A sync hands out the first value that a member holds, and measures overrides against the value that
most of the population holds. A member that is given the first value shows it in its result. So the
report calls it an override exactly when the two values differ.
-/

namespace EnvFiles

variable {σ : Type} {store : Store σ}

/-- A member that a shared value reaches: no member with the same file owns the name, and the file
is tidy, has no value for the name and no gap that would stand before one. -/
structure StoreView.Recipient (view : StoreView store) (members : List Member) (member : Member)
    (name : Text) (start : World σ) : Prop where
  mem : member ∈ members
  owns_eq_false : ∀ other ∈ members, view.sameFile other.valuesPath member.valuesPath →
    other.owns name = false
  tidy : TidyContent (view.files start.store member.valuesPath)
  fills_eq_false : (valuesOf (view.files start.store member.valuesPath)).fills name = false
  gap_eq_nil : gapOf (view.files start.store member.valuesPath) name = []

section Results

variable {view : StoreView store} {registry : Registry} {options : RunOptions}
  {workspaces population : List Workspace} {root : Schema} {members : List Member}
  {member : Member} {name : Text} {start after : World σ} {report : SyncReport}

/-- Among members that own nothing, one that has no file is reached by every value. -/
theorem StoreView.recipient_of_absent (hmem : member ∈ members)
    (hnone : ∀ other ∈ members, other.own = [])
    (hfile : view.files start.store member.valuesPath = .ok none) (name : Text) :
    view.Recipient members member name start where
  mem := hmem
  owns_eq_false other hother _ := by
    rw [Member.owns, hnone other hother]
    rfl
  tidy text htext := by
    obtain rfl := Except.ok.inj (hfile.symm.trans htext)
    exact tidyText_nil
  fills_eq_false := by
    rw [hfile]
    rfl
  gap_eq_nil := by
    rw [hfile]
    rfl

/-- A recipient waits for whatever is handed out. -/
theorem StoreView.Recipient.awaits (h : view.Recipient members member name start)
    (value? : Option Text) : Awaits value? name (view.files start.store member.valuesPath) :=
  ⟨h.tidy, Or.inr ⟨h.fills_eq_false, h.gap_eq_nil⟩⟩

/-- A recipient of a real sync is one of a rehearsed sync. -/
theorem StoreView.Recipient.rehearsed (h : view.Recipient members member name start) :
    view.rehearsed.Recipient members member name ⟨⟨start.store, []⟩, start.desk⟩ where
  mem := h.mem
  owns_eq_false other hmem hsame := h.owns_eq_false other hmem (by
    rw [show other.valuesPath = member.valuesPath from hsame]
    exact view.sameFile_equivalence.refl _)
  tidy := h.tidy
  fills_eq_false := h.fills_eq_false
  gap_eq_nil := h.gap_eq_nil

/-- The passes of a sync of some members that returned. -/
theorem passes_of_syncIn (hplugins : registry.plugins = []) (hvalid : view.valid start.store)
    (hroot : exampleIn registry.patterns (view.files start.store) options.rootExample = .ok root)
    (hmembers : membersIn registry.patterns (view.files start.store) options.rootExample
      workspaces = .ok members) (hmem : member ∈ members)
    (hrun : (syncIn store registry options workspaces population).runFrom start =
      (.ok report, after)) :
    ∃ shared first before middle, view.Same start before ∧
      (syncShared store registry options first members root).runFrom before =
          (.ok shared, middle) ∧
        (syncMembers store registry options (canonicalIn (view.files start.store) root population)
          root.names shared members).runFrom middle = (.ok report, after) := by
  have hsome : workspaces ≠ [] := by
    rintro rfl
    obtain rfl := Except.ok.inj hmembers
    exact absurd hmem List.not_mem_nil
  obtain ⟨root', members', shared, first, before, middle, ⟨hroot', hmembers'⟩, -, hsame, hshared,
    hlast⟩ := exists_passes hplugins hvalid hsome hrun
  obtain rfl := Except.ok.inj (hroot.symm.trans hroot')
  obtain rfl := Except.ok.inj (hmembers.symm.trans hmembers')
  exact ⟨shared, first, before, middle, hsame, hshared, hlast⟩

/-- The files that a sync may write are those of the root and of the members. -/
theorem covers_of_syncTargets (hcovers : ∀ path ∈ syncTargets options workspaces, view.covers path)
    (hmembers : members.map Member.workspace = workspaces) :
    ∀ path ∈ options.rootValues :: members.map Member.valuesPath, view.covers path := by
  rw [← hmembers, syncTargets, List.map_map] at hcovers
  exact hcovers

/-- After a sync the file of a recipient shows what was handed out, and so does its result, which is
measured against the canonical values of the population. -/
theorem StoreView.Recipient.received (h : view.Recipient members member name start)
    (hplugins : registry.plugins = []) (hinteractive : options.interactive = false)
    (hvalid : view.valid start.store)
    (hcovers : ∀ path ∈ syncTargets options workspaces, view.covers path)
    (hroot : exampleIn registry.patterns (view.files start.store) options.rootExample = .ok root)
    (hmembers : membersIn registry.patterns (view.files start.store) options.rootExample
      workspaces = .ok members) (hname : name ∈ root.names)
    (hrun : (syncIn store registry options workspaces population).runFrom start =
      (.ok report, after)) :
    let handed := handedOut? (view.files start.store) root members name
    Received handed name (view.files after.store member.valuesPath) ∧
      report.results.map Comparison.workspace = workspaces ∧
      ∀ result ∈ report.results, result.workspace = member.workspace →
        ∃ schema values, Shows handed name values ∧
          result = compare schema values member.workspace
            (some (canonicalIn (view.files start.store) root population)) root.names := by
  intro handed
  have hworkspaces := workspaces_membersIn hmembers
  obtain ⟨shared, first, before, middle, hsame, hshared, hlast⟩ :=
    passes_of_syncIn hplugins hvalid hroot hmembers h.mem hrun
  have htargets := covers_of_syncTargets hcovers hworkspaces
  have hpath : view.covers member.valuesPath :=
    htargets _ (List.mem_cons_of_mem _ (List.mem_map_of_mem h.mem))
  obtain ⟨hnone, hmiddle, hreceived⟩ := (endsIn_syncShared_received hplugins hinteractive hsame.valid
    htargets first (soundSchema_exampleIn hroot) hpath h.owns_eq_false
    ⟨member, h.mem, view.sameFile_equivalence.refl _⟩
    (hsame.files.symm ▸ h.awaits _)).of_runFrom_ok hshared
  rw [hsame.files] at hreceived
  obtain ⟨⟨-, hreceived'⟩, results, hresults, hmap, hshows⟩ :=
    (endsIn_syncMembers_received hplugins hinteractive hmiddle
      (List.forall_mem_map.mp (List.forall_mem_cons.mp htargets).2) hpath hname h.owns_eq_false _
      shared hreceived).of_runFrom_ok hlast
  rw [hnone, List.nil_append] at hresults
  rw [hresults, hmap]
  refine ⟨hreceived', hworkspaces, fun result hresult hworkspace => ?_⟩
  have hcompared := hshows result hresult (congrArg Workspace.valuesPath hworkspace)
  rwa [hworkspace] at hcompared

/-- A value that is shown and not empty is the one that was handed out. -/
theorem Shows.exists_of_fills {value? : Option Text} {values : Table Text Text}
    (h : Shows value? name values) (hfills : values.fills name = true) :
    ∃ value, value? = some value ∧ Text.trimEnd value ≠ [] ∧
      values.get? name = some (Text.trimEnd value) := by
  obtain ⟨held, hheld, hne⟩ := Table.fills_iff.mp hfills
  rw [Shows, hheld] at h
  cases value? with
  | none => exact absurd h hne
  | some value =>
    obtain rfl : held = Text.trimEnd value := h
    exact ⟨value, rfl, hne, hheld⟩

/-- Where a shown value is compared, its name is an override exactly if it is valid and what was
handed out differs from the canonical value. -/
theorem Shows.has_overrides {value? : Option Text} {values shared : Table Text Text}
    (h : Shows value? name values) (hname : name ∈ root.names) (schema : List Definition)
    (workspace : Workspace) :
    let result := compare schema values workspace (some shared) root.names
    result.overrides.has name = true ↔
      (∃ definition ∈ result.valid, definition.name = name) ∧
        ∃ value canonical, value? = some value ∧ shared.get? name = some canonical ∧
          canonical ≠ Text.trimEnd value := by
  intro result
  rw [has_overrides_compare]
  refine and_congr_right fun hvalid => (and_iff_right hname).trans ?_
  obtain ⟨definition, hmem, rfl⟩ := hvalid
  obtain ⟨value, rfl, -, hget⟩ := h.exists_of_fills (mem_valid_compare.mp hmem).2.2
  simp [hget]

end Results

/-- A sync calls a value that it handed out an override exactly if another value is the canonical
one. Without plugins and questions, rehearsed or not: when a sync returned, each result of a member
that a shared value reaches lists the name as an override if and only if the name is valid there, a
value was handed out for it, and the value that most of the population held at the start is not
that value. -/
theorem sync_overrides (view : StoreView store) (registry : Registry) (options : RunOptions)
    (workspaces : List Workspace) (population : Option (List Workspace)) (rehearsal : Bool)
    (start after : World σ) (report : SyncReport) (root : Schema) (members : List Member)
    (hplugins : registry.plugins = []) (hinteractive : options.interactive = false)
    (hvalid : view.valid start.store)
    (hcovers : ∀ path ∈ syncTargets options workspaces, view.covers path)
    (hroot : exampleIn registry.patterns (view.files start.store) options.rootExample = .ok root)
    (hmembers : membersIn registry.patterns (view.files start.store) options.rootExample
      workspaces = .ok members)
    (hrun : (sync store registry options workspaces population rehearsal).runFrom start =
      (.ok report, after)) :
    ∀ member name, view.Recipient members member name start → name ∈ root.names →
      report.results.map Comparison.workspace = workspaces ∧
      ∀ result ∈ report.results, result.workspace = member.workspace →
        (result.overrides.has name = true ↔
          (∃ definition ∈ result.valid, definition.name = name) ∧
            ∃ value canonical,
              handedOut? (view.files start.store) root members name = some value ∧
                (canonicalIn (view.files start.store) root (population.getD workspaces)).get? name =
                  some canonical ∧
                canonical ≠ Text.trimEnd value) := by
  intro member name hrecipient hname
  have hresults : report.results.map Comparison.workspace = workspaces ∧
      ∀ result ∈ report.results, result.workspace = member.workspace →
        ∃ schema values, Shows (handedOut? (view.files start.store) root members name) name values ∧
          result = compare schema values member.workspace
            (some (canonicalIn (view.files start.store) root (population.getD workspaces)))
            root.names := by
    cases rehearsal with
    | false =>
      exact (hrecipient.received hplugins hinteractive hvalid hcovers hroot hmembers hname hrun).2
    | true =>
      rw [runFrom_rehearsedSync] at hrun
      rcases hdry : (syncIn store.rehearsed registry options workspaces
        (population.getD workspaces)).runFrom ⟨⟨start.store, []⟩, start.desk⟩ with
        ⟨failure | planned, dry⟩
      · rw [hdry] at hrun
        cases hrun
      · rw [hdry] at hrun
        cases hrun
        exact (hrecipient.rehearsed.received hplugins hinteractive hvalid
          (fun _ _ => trivial) hroot hmembers hname hdry).2
  refine ⟨hresults.1, fun result hmem hworkspace => ?_⟩
  obtain ⟨schema, values, hshows, rfl⟩ := hresults.2 result hmem hworkspace
  exact hshows.has_overrides hname schema member.workspace

section Rare

/-- A workspace with the usual files below the root. -/
def usualWorkspace (name : Text) : Workspace :=
  ⟨name, [name], [name, ".env.local.example"], [name, ".env.local"]⟩

/-- Four workspaces that declare nothing themselves. -/
def rareWorkspaces : List Workspace := ["a", "b", "c", "d"].map usualWorkspace

/-- A tree in which the first value of a shared variable is a rare one, and the only value of another
is held by the first workspace. The last workspace has neither. -/
def rareWorld : World (Table Path Text) where
  store := [([".env.local.example"], "X=\nY=\n"), (["a", ".env.local"], "X=1\nY=5\n"),
    (["b", ".env.local"], "X=2\n"), (["c", ".env.local"], "X=2\n")]

/-- What the example file of that tree declares. -/
def rareSchema : Schema where
  sourcePath := "/.env.local.example"
  definitions := [{ name := "X" }, { name := "Y" }]

/-- The workspaces without names of their own. -/
def rareMembers : List Member := rareWorkspaces.map fun workspace => ⟨workspace, []⟩

/-- The last workspace is given both values, and the report calls the rare one an override. -/
theorem sync_overrides_rare :
    ∃ report after result,
      (sync memoryStore {} {} rareWorkspaces).runFrom rareWorld = (.ok report, after) ∧
        (∀ name ∈ rareSchema.names,
          memoryView.Recipient rareMembers ⟨usualWorkspace "d", []⟩ name rareWorld) ∧
        (result ∈ report.results ∧ result.workspace = usualWorkspace "d") ∧
        result.overrides.has "X" = true ∧ result.overrides.has "Y" = false := by
  have hrecipient : ∀ name ∈ rareSchema.names,
      memoryView.Recipient rareMembers ⟨usualWorkspace "d", []⟩ name rareWorld := fun name _ =>
    memoryView.recipient_of_absent (by decide) (by decide) rfl name
  have hvalid : ((sync memoryStore {} {} rareWorkspaces).runFrom rareWorld).1 >>=
      (fun report => Except.ok (report.results.all fun result =>
        result.valid.map Definition.name = rareSchema.names)) = .ok true := by decide +kernel
  obtain ⟨report, hreport, hnames⟩ := exists_of_bind_eq_ok hvalid
  have hrun := Attempt.runFrom_eq_of_fst hreport
  have hoverrides (name : Text) (hname : name ∈ rareSchema.names) :=
    sync_overrides memoryView {} {} rareWorkspaces none false rareWorld _ report rareSchema
      rareMembers rfl rfl trivial (fun _ _ => trivial) (by decide +kernel) (by decide +kernel) hrun
      ⟨usualWorkspace "d", []⟩ name (hrecipient name hname) hname
  obtain ⟨result, hmem, hworkspace⟩ : ∃ result ∈ report.results,
      result.workspace = usualWorkspace "d" := by
    have hlast : usualWorkspace "d" ∈ rareWorkspaces := by decide
    rw [← (hoverrides "X" (by decide)).1] at hlast
    exact List.mem_map.mp hlast
  have hresult : result.valid.map Definition.name = rareSchema.names :=
    of_decide_eq_true (List.all_eq_true.mp (Except.ok.inj hnames) result hmem)
  refine ⟨report, _, result, hrun, hrecipient, ⟨hmem, hworkspace⟩, ?_, ?_⟩
  · -- The last workspace is given the first value, and most workspaces hold another.
    refine ((hoverrides "X" (by decide)).2 result hmem hworkspace).mpr
      ⟨List.mem_map.mp (hresult ▸ by decide), "1", "2", ?_, ?_, ?_⟩ <;> decide +kernel
  · rw [Bool.eq_false_iff]
    intro hhas
    obtain ⟨-, value, canonical, hvalue, hcanonical, hne⟩ :=
      ((hoverrides "Y" (by decide)).2 result hmem hworkspace).mp hhas
    have hhanded : handedOut? (memoryView.files rareWorld.store) rareSchema rareMembers "Y" =
        some ("5" : Text) := by decide +kernel
    have hmost : (canonicalIn (memoryView.files rareWorld.store) rareSchema
        rareWorkspaces).get? "Y" = some ("5" : Text) := by decide +kernel
    obtain rfl := Option.some.inj (hhanded.symm.trans hvalue)
    obtain rfl := Option.some.inj (hmost.symm.trans hcanonical)
    exact hne (by decide)

/-- The names that a sync of a tree in memory lists as overrides. -/
def overridesAfter (workspaces : List Workspace) (files : Table Path Text) :
    Except Failure (List (List Text)) :=
  (fun report => report.results.map fun result => result.overrides.keys) <$>
    ((sync memoryStore {} {} workspaces).runFrom { store := files }).1

/-- Two workspaces that declare a variable themselves, and one that declares nothing and has the
values file of the second. -/
def aliasWorkspaces : List Workspace :=
  [usualWorkspace "a", usualWorkspace "b", { usualWorkspace "c" with valuesPath := ["b", ".env.local"] }]

/-- A tree in which the second workspace comes to a value of its own. -/
def aliasFiles : Table Path Text :=
  [([".env.local.example"], "# [local-only]\nX=\n"), (["a", ".env.local.example"], "X=1\n"),
    (["a", ".env.local"], "X=5\n"), (["b", ".env.local.example"], "X=7\n")]

/-- A workspace that has no value for a shared variable and does not declare it can have an override
of it after a sync: the first of several values is handed out, or a workspace with the same values
file resolves the variable for itself. -/
theorem sync_overrides_handedOut :
    ((memoryView.files rareWorld.store ["d", ".env.local"] = .ok none ∧
        membersIn [] (memoryView.files rareWorld.store) (RunOptions.rootExample {})
          rareWorkspaces = .ok rareMembers) ∧
      overridesAfter rareWorkspaces rareWorld.store = .ok [["X"], [], [], ["X"]]) ∧
    (memoryView.files aliasFiles ["b", ".env.local"] = .ok none ∧
        membersIn [] (memoryView.files aliasFiles) (RunOptions.rootExample {}) aliasWorkspaces =
          .ok (List.zipWith Member.mk aliasWorkspaces [["X"], ["X"], []])) ∧
      overridesAfter aliasWorkspaces aliasFiles = .ok [[], ["X"], ["X"]] := by
  refine ⟨⟨⟨rfl, ?_⟩, ?_⟩, ⟨rfl, ?_⟩, ?_⟩ <;> decide +kernel

end Rare
end EnvFiles
