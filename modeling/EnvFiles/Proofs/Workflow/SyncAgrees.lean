import EnvFiles.Proofs.Workflow.SyncOverrides

/-!
# What a status says after a sync

A status measures overrides against the root's values file. A sync fills that file only where it
has no value, and does not take its values for those of the workspaces. So a status calls a value
that was handed out an override exactly when the root's file held another one before.
-/

namespace EnvFiles

variable {σ : Type} {store : Store σ}

section Schemas

variable {patterns : List DirectivePattern} {files : Files} {rootExample : Path} {root : Schema}
  {workspaces : List Workspace} {members : List Member} {member : Member}
  {schema : List Definition} {definition : Definition}

/-- A definition of the root stands in the schema of every member that does not own its name. -/
theorem mem_schemaIn_of_root (hroot : exampleIn patterns files rootExample = .ok root)
    (hmembers : membersIn patterns files rootExample workspaces = .ok members)
    (hmem : member ∈ members)
    (hschema : schemaIn patterns files rootExample member.workspace = .ok schema)
    (hdefinition : definition ∈ root.definitions) (howns : member.owns definition.name = false) :
    definition ∈ schema := by
  have hown := ownNamesIn_of_mem_membersIn hmembers member hmem
  obtain ⟨shared, hshared, hrest⟩ := exists_of_bind_eq_ok hschema
  obtain rfl := Except.ok.inj (hroot.symm.trans hshared)
  by_cases hexample : member.workspace.examplePath = rootExample
  · rw [if_pos hexample] at hrest
    exact Except.ok.inj hrest ▸ hdefinition
  · rw [if_neg hexample] at hrest
    rw [ownNamesIn, if_neg hexample] at hown
    obtain ⟨specific, hspecific, hmerged⟩ := exists_of_bind_eq_ok hrest
    rw [hspecific] at hown
    obtain hnames : specific.names = member.own := Except.ok.inj hown
    rw [← Except.ok.inj hmerged]
    refine mem_mergeDefinitions_of_notMem (soundSchema_exampleIn hroot).nodup_names hdefinition
      fun hname => ?_
    rw [Member.owns, ← hnames, Schema.names, List.contains_iff_mem.mpr hname] at howns
    cases howns

end Schemas

section Status

variable {view : StoreView store} {registry : Registry} {options : RunOptions}
  {workspaces population : List Workspace} {root : Schema} {members : List Member}
  {member : Member} {name : Text} {start after : World σ} {report : SyncReport}

/-- A sync leaves the example files when none of them is a values file. -/
theorem steady_of_syncIn (hvalid : view.valid start.store)
    (hcovers : ∀ path ∈ syncTargets options workspaces, view.covers path)
    (hcoversExample : ∀ path ∈ examplePaths options workspaces, view.covers path)
    (hexample : ∀ path ∈ syncTargets options workspaces,
      ∀ other ∈ examplePaths options workspaces, ¬ view.sameFile path other)
    (hrun : (syncIn store registry options workspaces population).runFrom start =
      (.ok report, after)) : view.Steady (examplePaths options workspaces) start after :=
  StoreView.steady_of_writesOnly (writesOnly_syncIn store registry options workspaces population)
    hvalid hcovers hcoversExample hexample hrun

/-- After a sync with a shared variable all values files that a status reads can be read. -/
theorem readable_of_syncIn (hplugins : registry.plugins = [])
    (hinteractive : options.interactive = false) (hvalid : view.valid start.store)
    (hcovers : ∀ path ∈ syncTargets options workspaces, view.covers path)
    (hroot : exampleIn registry.patterns (view.files start.store) options.rootExample = .ok root)
    (hmembers : membersIn registry.patterns (view.files start.store) options.rootExample
      workspaces = .ok members) (hmem : member ∈ members) (hname : name ∈ root.names)
    (hrun : (syncIn store registry options workspaces population).runFrom start =
      (.ok report, after)) :
    ∀ path ∈ syncTargets options workspaces, ∃ text, view.files after.store path = .ok text := by
  have hworkspaces := workspaces_membersIn hmembers
  have htargets := covers_of_syncTargets hcovers hworkspaces
  obtain ⟨hrootCovers, hmemberCovers⟩ := List.forall_mem_cons.mp htargets
  rw [List.forall_mem_map] at hmemberCovers
  obtain ⟨shared, first, before, middle, hsame, hshared, hlast⟩ :=
    passes_of_syncIn hplugins hvalid hroot hmembers hmem hrun
  have hreached := writesOnly_syncIn store registry options workspaces population start
  rw [hrun] at hreached
  have hmiddle : view.valid middle.store := by
    have hpaths : ∀ other ∈ members,
        other.valuesPath ∈ options.rootValues :: members.map Member.valuesPath :=
      fun other hother => List.mem_cons_of_mem _ (List.mem_map_of_mem hother)
    have hwrites := writesOnly_syncShared store registry options first root
      (List.mem_cons_self ..) hpaths before
    rw [hshared] at hwrites
    exact view.valid_of_reached htargets hsame.valid hwrites
  refine List.forall_mem_cons.mpr ⟨?_, ?_⟩
  · have hreadable := (endsIn_syncShared_readable hplugins hinteractive hsame.valid first
      hname).of_runFrom_ok hshared
    rw [hsame.files] at hreadable
    exact (view.readable_of_reached hcovers hvalid hreached hrootCovers hreadable).2
  · rw [← hworkspaces, List.map_map]
    exact List.forall_mem_map.mpr ((endsIn_syncMembers_readable hplugins hinteractive hmiddle
      hmemberCovers root _ shared).of_runFrom_ok hlast).2

/-- After a sync the root's file holds the value of a name that it held before, or else the value
that was handed out. -/
theorem holds_of_syncIn (hplugins : registry.plugins = [])
    (hinteractive : options.interactive = false) (hvalid : view.valid start.store)
    (hcovers : ∀ path ∈ syncTargets options workspaces, view.covers path)
    (hroot : exampleIn registry.patterns (view.files start.store) options.rootExample = .ok root)
    (hmembers : membersIn registry.patterns (view.files start.store) options.rootExample
      workspaces = .ok members) (hmem : member ∈ members)
    (htidy : TidyContent (view.files start.store options.rootValues))
    (hgap : gapOf (view.files start.store options.rootValues) name = []) {value : Text}
    (hvalue : handedOut? (view.files start.store) root members name = some value)
    (hne : Text.trimEnd value ≠ [])
    (hrun : (syncIn store registry options workspaces population).runFrom start =
      (.ok report, after)) :
    Holds name (((valuesOf (view.files start.store options.rootValues)).filled? name).getD
      (Text.trimEnd value)) (view.files after.store options.rootValues) := by
  have htargets := covers_of_syncTargets hcovers (workspaces_membersIn hmembers)
  obtain ⟨hrootCovers, hmemberCovers⟩ := List.forall_mem_cons.mp htargets
  rw [List.forall_mem_map] at hmemberCovers
  obtain ⟨shared, first, before, middle, hsame, hshared, hlast⟩ :=
    passes_of_syncIn hplugins hvalid hroot hmembers hmem hrun
  rw [← hsame.files] at htidy hgap hvalue ⊢
  obtain ⟨-, hmiddle, hholds⟩ := (endsIn_syncShared_holds hplugins hinteractive hsame.valid htargets
    first (soundSchema_exampleIn hroot) htidy hgap hvalue hne).of_runFrom_ok hshared
  exact ((endsIn_syncMembers_holds hplugins hinteractive hmiddle hmemberCovers hrootCovers root _
    shared hholds).of_runFrom_ok hlast).2

/-- Where the canonical value is the one that was held before, or else what was handed out, a shown
value is an override exactly if another one was held before. -/
theorem Shows.has_overrides_held {value? held? : Option Text} {values shared : Table Text Text}
    (h : Shows value? name values) (hname : name ∈ root.names) {schema : List Definition}
    (workspace : Workspace)
    (hdeclared : value?.isSome = true →
      ∃ definition ∈ schema, definition.isActive = true ∧ definition.name = name)
    (hcanonical : ∀ value, value? = some value → Text.trimEnd value ≠ [] →
      shared.get? name = some (held?.getD (Text.trimEnd value))) :
    (compare schema values workspace (some shared) root.names).overrides.has name = true ↔
      ∃ held value, held? = some held ∧ value? = some value ∧ Text.trimEnd value ≠ [] ∧
        held ≠ Text.trimEnd value := by
  refine (h.has_overrides hname schema workspace).trans ⟨?_, ?_⟩
  · rintro ⟨⟨definition, hmem, rfl⟩, value, canonical, rfl, hget, hne⟩
    obtain ⟨_, ⟨⟩, hblank, -⟩ := h.exists_of_fills (mem_valid_compare.mp hmem).2.2
    obtain rfl := Option.some.inj ((hcanonical value rfl hblank).symm.trans hget)
    cases held? with
    | none => exact absurd rfl hne
    | some held => exact ⟨held, value, rfl, rfl, hblank, hne⟩
  · rintro ⟨held, value, rfl, rfl, hblank, hne⟩
    obtain ⟨definition, hmem, hactive, rfl⟩ := hdeclared rfl
    have hfills : values.fills definition.name = true :=
      Table.fills_iff.mpr ⟨_, h.get?_of_some hblank, hblank⟩
    exact ⟨⟨definition, mem_valid_compare.mpr ⟨hmem, hactive, hfills⟩, rfl⟩, value, held, rfl,
      hcanonical value rfl hblank, hne⟩

end Status

/-- A status after a sync calls a value that was handed out an override exactly if the root's file
held another value before. Without plugins and questions, in a tree where no values file is an
example file and the root's values file is tidy: after a sync that returned, a status of the same
workspaces returns, and the result of a member that a shared value reaches lists the name as an
override if and only if the root's file had a value for it at the start, another one was handed
out, and the two differ. -/
theorem sync_agrees (view : StoreView store) (registry : Registry) (options : RunOptions)
    (workspaces : List Workspace) (population : Option (List Workspace)) (start after : World σ)
    (report : SyncReport) (root : Schema) (members : List Member)
    (hplugins : registry.plugins = []) (hinteractive : options.interactive = false)
    (hvalid : view.valid start.store)
    (hcovers : ∀ path ∈ syncTargets options workspaces, view.covers path)
    (hcoversExample : ∀ path ∈ examplePaths options workspaces, view.covers path)
    (hexample : ∀ path ∈ syncTargets options workspaces,
      ∀ other ∈ examplePaths options workspaces, ¬ view.sameFile path other)
    (htidy : TidyContent (view.files start.store options.rootValues))
    (hroot : exampleIn registry.patterns (view.files start.store) options.rootExample = .ok root)
    (hmembers : membersIn registry.patterns (view.files start.store) options.rootExample
      workspaces = .ok members)
    (hrun : (sync store registry options workspaces population).runFrom start =
      (.ok report, after)) :
    ∀ member name, view.Recipient members member name start → name ∈ root.names →
      gapOf (view.files start.store options.rootValues) name = [] →
        ∃ checked last,
          (status store registry options workspaces).runFrom after = (.ok checked, last) ∧
            checked.results.map Comparison.workspace = workspaces ∧
              ∀ result ∈ checked.results, result.workspace = member.workspace →
                (result.overrides.has name = true ↔ ∃ held value,
                  (valuesOf (view.files start.store options.rootValues)).filled? name = some held ∧
                    handedOut? (view.files start.store) root members name = some value ∧
                    Text.trimEnd value ≠ [] ∧ held ≠ Text.trimEnd value) := by
  intro member name hrecipient hname hgap
  have hworkspaces := workspaces_membersIn hmembers
  have hsteady := steady_of_syncIn hvalid hcovers hcoversExample hexample hrun
  have hreadable := readable_of_syncIn hplugins hinteractive hvalid hcovers hroot hmembers
    hrecipient.mem hname hrun
  have hreceived := (hrecipient.received hplugins hinteractive hvalid hcovers hroot hmembers hname
    hrun).1
  have hrootAfter : exampleIn registry.patterns (view.files after.store) options.rootExample =
      .ok root := by
    rwa [exampleIn, hsteady.files _ (List.mem_cons_self ..)]
  obtain ⟨checked, last, hstatus, hmap, hresults⟩ := exists_status registry options workspaces
    hsteady.valid hrootAfter (hreadable _ (List.mem_cons_self ..)) fun workspace hmem => by
      refine ⟨?_, hreadable _ (List.mem_cons_of_mem _ (List.mem_map_of_mem hmem))⟩
      obtain ⟨other, hother, rfl⟩ := List.mem_map.mp (hworkspaces ▸ hmem)
      obtain ⟨schema, hschema, -⟩ := exists_schemaIn_of_mem hroot hmembers hother
      exact ⟨schema, (hsteady.schemaIn_eq hmem).trans hschema⟩
  refine ⟨checked, last, hstatus, hmap, fun result hresult hworkspace => ?_⟩
  obtain ⟨schema, hschema, hcompared⟩ := hresults result hresult
  rw [hworkspace] at hschema hcompared
  rw [hsteady.schemaIn_eq (hworkspaces ▸ List.mem_map_of_mem hrecipient.mem)] at hschema
  rw [hcompared]
  refine hreceived.shows.has_overrides_held hname member.workspace (fun hsome => ?_)
    fun value hvalue hblank => ?_
  · obtain ⟨value, hvalue⟩ := Option.isSome_iff_exists.mp hsome
    obtain ⟨definition, hdefinition, hactive, rfl⟩ := exists_of_handedOut? hvalue
    have howns := hrecipient.owns_eq_false member hrecipient.mem
      (view.sameFile_equivalence.refl _)
    exact ⟨definition, mem_schemaIn_of_root hroot hmembers hrecipient.mem hschema hdefinition howns,
      hactive, rfl⟩
  · exact (Table.filled?_eq_some_iff.mp (holds_of_syncIn hplugins hinteractive hvalid hcovers hroot
      hmembers hrecipient.mem htidy hgap hvalue hblank hrun).filled?).1

section Differing

/-- Two workspaces that declare nothing themselves. -/
def differingWorkspaces : List Workspace := ["a", "b"].map usualWorkspace

/-- The workspaces without names of their own. -/
def differingMembers : List Member := differingWorkspaces.map fun workspace => ⟨workspace, []⟩

/-- A tree in which the root's file and the first workspace differ in one of the two shared variables
of the tree above, and the second workspace has neither. -/
def differingWorld : World (Table Path Text) where
  store := [([".env.local.example"], "X=\nY=\n"), ([".env.local"], "X=1\n"),
    (["a", ".env.local"], "X=2\nY=5\n")]

/-- The second workspace is given both values, and a status calls the one an override in which the
root's file differs. -/
theorem sync_agrees_differing :
    ∃ report after checked last result,
      ((sync memoryStore {} {} differingWorkspaces).runFrom differingWorld = (.ok report, after) ∧
        (status memoryStore {} {} differingWorkspaces).runFrom after = (.ok checked, last)) ∧
      (∀ name ∈ rareSchema.names,
        memoryView.Recipient differingMembers ⟨usualWorkspace "b", []⟩ name differingWorld) ∧
      (result ∈ checked.results ∧ result.workspace = usualWorkspace "b") ∧
        result.overrides.has "X" = true ∧ result.overrides.has "Y" = false := by
  have hrecipient : ∀ name ∈ rareSchema.names,
      memoryView.Recipient differingMembers ⟨usualWorkspace "b", []⟩ name differingWorld :=
    fun name _ => memoryView.recipient_of_absent (by decide) (by decide) rfl name
  have htidy : TidyContent (memoryView.files differingWorld.store [".env.local"]) := by
    intro text htext
    obtain rfl : some ("X=1\n" : Text) = text := Except.ok.inj htext
    exact ⟨by decide +kernel, by decide +kernel⟩
  have hreturns : ((sync memoryStore {} {} differingWorkspaces).runFrom differingWorld).1 >>=
      (fun _ => Except.ok ()) = .ok () := by decide +kernel
  obtain ⟨report, hreport, -⟩ := exists_of_bind_eq_ok hreturns
  have hrun := Attempt.runFrom_eq_of_fst hreport
  have hstatus (name : Text) (hname : name ∈ rareSchema.names)
      (hgap : gapOf (memoryView.files differingWorld.store [".env.local"]) name = []) :=
    sync_agrees memoryView {} {} differingWorkspaces none differingWorld _ report rareSchema
      differingMembers rfl rfl trivial (fun _ _ => trivial) (fun _ _ => trivial) (by
        change ∀ path ∈ syncTargets {} differingWorkspaces,
          ∀ other ∈ examplePaths {} differingWorkspaces, path ≠ other
        decide) htidy (by decide +kernel) (by decide +kernel) hrun ⟨usualWorkspace "b", []⟩ name
      (hrecipient name hname) hname hgap
  obtain ⟨checked, last, hchecked, hworkspaces, hoverrides⟩ :=
    hstatus "X" (by decide) (by decide +kernel)
  obtain ⟨checked', last', hchecked', -, hoverrides'⟩ :=
    hstatus "Y" (by decide) (by decide +kernel)
  obtain rfl := Except.ok.inj (congrArg Prod.fst (hchecked.symm.trans hchecked'))
  obtain ⟨result, hmem, hworkspace⟩ : ∃ result ∈ checked.results,
      result.workspace = usualWorkspace "b" := by
    have hlast : usualWorkspace "b" ∈ differingWorkspaces := by decide
    rw [← hworkspaces] at hlast
    exact List.mem_map.mp hlast
  refine ⟨report, _, checked, last, result, ⟨hrun, hchecked⟩, hrecipient, ⟨hmem, hworkspace⟩,
    (hoverrides result hmem hworkspace).mpr ⟨"1", "2", ?_, ?_, ?_, ?_⟩, ?_⟩
  · decide +kernel
  · decide +kernel
  · decide
  · decide
  · rw [Bool.eq_false_iff]
    intro hhas
    obtain ⟨held, -, hheld, -⟩ := (hoverrides' result hmem hworkspace).mp hhas
    have hnone : (valuesOf (memoryView.files differingWorld.store [".env.local"])).filled? "Y" =
        none := by decide +kernel
    exact absurd (hnone.symm.trans hheld) (by simp)

/-- The names that a status of a tree in memory lists as overrides after a sync. -/
def overridesAfterSync (workspaces : List Workspace) (files : Table Path Text) :
    Except Failure (List (List Text)) :=
  (fun checked => checked.results.map fun result => result.overrides.keys) <$>
    ((sync memoryStore {} {} workspaces >>= fun _ =>
      status memoryStore {} {} workspaces).runFrom { store := files }).1

/-- A workspace that declares a variable itself, and one that declares nothing and has the values
file of the first. -/
def pairedWorkspaces : List Workspace :=
  [usualWorkspace "b", { usualWorkspace "c" with valuesPath := ["b", ".env.local"] }]

/-- A tree in which the root's file holds another value than the one that the first workspace comes
to. -/
def pairedFiles : Table Path Text :=
  [([".env.local.example"], "# [local-only]\nX=\n"), ([".env.local"], "X=5\n"),
    (["b", ".env.local.example"], "X=7\n")]

/-- A workspace that has no value for a shared variable and does not declare it can have an override
of it in a status after a sync: the value of another workspace is handed out although the root's
file holds one, or a workspace with the same values file resolves the variable for itself. -/
theorem sync_agrees_held :
    ((memoryView.files differingWorld.store ["b", ".env.local"] = .ok none ∧
        membersIn [] (memoryView.files differingWorld.store) (RunOptions.rootExample {})
          differingWorkspaces = .ok differingMembers) ∧
      overridesAfterSync differingWorkspaces differingWorld.store = .ok [["X"], ["X"]]) ∧
    (memoryView.files pairedFiles ["b", ".env.local"] = .ok none ∧
        membersIn [] (memoryView.files pairedFiles) (RunOptions.rootExample {})
          pairedWorkspaces = .ok (List.zipWith Member.mk pairedWorkspaces [["X"], []])) ∧
      overridesAfterSync pairedWorkspaces pairedFiles = .ok [["X"], ["X"]] := by
  refine ⟨⟨⟨rfl, ?_⟩, ?_⟩, ⟨rfl, ?_⟩, ?_⟩ <;> decide +kernel

end Differing
end EnvFiles
