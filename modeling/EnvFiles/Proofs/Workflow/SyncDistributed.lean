import EnvFiles.Proofs.Workflow.OwnPasses
import Mathlib.Data.List.Pairwise

/-!
# A sync distributes a shared value or reports its name

After a sync that returned, each active variable of the root either has a value wherever it is
shared, or the shared pass reported it once and its value is nowhere changed. The shared pass does
not look into the root's own file. So a variable that every workspace owns can be reported although
that file holds a value for it; that is the only case in which both hold.
-/

namespace EnvFiles

variable {σ : Type} {store : Store σ}

/-- A name that has a value wherever it is shared: in the root's file and in the file of every
member that does not own it. -/
structure StoreView.Distributed (view : StoreView store) (options : RunOptions)
    (members : List Member) (name : Text) (world : World σ) : Prop where
  root : (valuesOf (view.files world.store options.rootValues)).fills name = true
  member : ∀ member ∈ members, member.owns name = false →
    (valuesOf (view.files world.store member.valuesPath)).fills name = true

/-- A name that was written nowhere it is shared. -/
structure StoreView.Withheld (view : StoreView store) (options : RunOptions)
    (members : List Member) (name : Text) (before after : World σ) : Prop where
  root : (valuesOf (view.files after.store options.rootValues)).get? name =
    (valuesOf (view.files before.store options.rootValues)).get? name
  member : ∀ member ∈ members, member.owns name = false →
    (valuesOf (view.files after.store member.valuesPath)).get? name =
      (valuesOf (view.files before.store member.valuesPath)).get? name

section Cases

variable {view : StoreView store} {registry : Registry} {options : RunOptions}
  {workspaces : List Workspace} {root : Schema} {members : List Member}
  {values : Table Text Text} {shared report : SyncReport} {start middle after : World σ}

/-- A workspace with the example file of the root owns nothing. -/
theorem owns_eq_false_of_root {patterns : List DirectivePattern} {files : Files}
    {rootExample : Path} (hmembers : membersIn patterns files rootExample workspaces = .ok members)
    {member : Member} (hmem : member ∈ members)
    (hexample : member.workspace.examplePath = rootExample) (name : Text) :
    member.owns name = false := by
  have hown := ownNamesIn_of_mem_membersIn hmembers member hmem
  rw [ownNamesIn, if_pos hexample] at hown
  obtain hnone : [] = member.own := Except.ok.inj hown
  rw [Member.owns, ← hnone]
  rfl

/-- A report cannot both tell of a definition and not. -/
theorem SyncReport.Tells.absurd {definition : Definition} (h : report.Tells definition false)
    (h' : report.Tells definition true) : False := by
  have hrequired := h.count_required.symm.trans h'.count_required
  have hoptional := h.count_optional.symm.trans h'.count_optional
  cases hlevel : definition.isRequired <;> simp [hlevel] at hrequired hoptional

/-- Members whose files are distinct are the same when their files are. -/
theorem eq_of_sameFile (hdistinct : workspaces.Pairwise fun first second =>
      ¬ view.sameFile first.valuesPath second.valuesPath)
    (hmembers : members.map Member.workspace = workspaces) {first second : Member}
    (hfirst : first ∈ members) (hsecond : second ∈ members)
    (hsame : view.sameFile first.valuesPath second.valuesPath) : first = second := by
  have hsymm : Std.Symm fun first second : Member =>
      ¬ view.sameFile first.valuesPath second.valuesPath :=
    ⟨fun _ _ hne hsame => hne (view.sameFile_equivalence.symm hsame)⟩
  have happart : members.Pairwise fun first second =>
      ¬ view.sameFile first.valuesPath second.valuesPath := by
    rw [← hmembers] at hdistinct
    exact List.pairwise_map.mp hdistinct
  by_contra hne
  exact happart.forall hfirst hsecond hne hsame

/-- A value that the shared pass distributed is still everywhere after the passes over the members
alone. -/
theorem StoreView.Served.distributed
    (h : view.Served registry options workspaces root members values shared report start middle
      after) (hprepared : view.Prepared registry options workspaces start)
    (hmembers : members.map Member.workspace = workspaces) {name : Text}
    (hname : values.has name = true) : view.Distributed options members name after := by
  have hkept (path : Path) (hpath : path ∈ syncTargets options workspaces)
      (hfills : (valuesOf (view.files middle.store path)).fills name = true) :
      (valuesOf (view.files after.store path)).fills name = true :=
    (h.touches.toKeeps.valuesKept (hprepared.covers path hpath)
      (h.ongoing.tidy path hpath)).fills_of_fills hfills
  exact ⟨hkept _ (List.mem_cons_self ..) (h.shares.root_fills name hname),
    fun member hmem howns => hkept _ (valuesPath_mem_syncTargets options hmembers hmem)
      (h.shares.fills member hmem name howns hname)⟩

/-- A file whose members own none of a shared name keeps it as it was when there is no value to
distribute. -/
theorem StoreView.Served.get?_eq
    (h : view.Served registry options workspaces root members values shared report start middle
      after) {path : Path} (hpath : view.covers path) {name : Text} (hshared : name ∈ root.names)
    (hname : values.has name = false)
    (howns : ∀ member ∈ members, view.sameFile member.valuesPath path →
      member.owns name = false) :
    (valuesOf (view.files after.store path)).get? name =
      (valuesOf (view.files start.store path)).get? name := by
  have hmiddle := h.shares.get?_of_not_touched path hpath name (by simp [hname])
  rw [← hmiddle]
  refine h.touches.get?_of_not_touched path hpath name ?_
  rintro ⟨member, hmem, hsame, howned⟩
  rw [howns member hmem hsame] at howned
  cases howned hshared

/-- A shared name without a value to distribute is written nowhere it is shared: in the root's file
only members that own nothing have theirs, and in the file of a member only the member itself. -/
theorem StoreView.Served.withheld
    (h : view.Served registry options workspaces root members values shared report start middle
      after) (hprepared : view.Prepared registry options workspaces start)
    (hmembers : membersIn registry.patterns (view.files start.store) options.rootExample
      workspaces = .ok members)
    (hdistinct : workspaces.Pairwise fun first second =>
      ¬ view.sameFile first.valuesPath second.valuesPath)
    (hroot : ∀ workspace ∈ workspaces, view.sameFile workspace.valuesPath options.rootValues →
      workspace.examplePath = options.rootExample) {name : Text} (hshared : name ∈ root.names)
    (hname : values.has name = false) : view.Withheld options members name start after := by
  have hworkspaces := workspaces_membersIn hmembers
  refine ⟨?_, fun member hmember howns => ?_⟩
  · refine h.get?_eq (hprepared.covers _ (List.mem_cons_self ..)) hshared hname
      fun member hmember hsame => ?_
    exact owns_eq_false_of_root hmembers hmember
      (hroot _ (hworkspaces ▸ List.mem_map_of_mem hmember) hsame) name
  · have hpath := valuesPath_mem_syncTargets options hworkspaces hmember
    refine h.get?_eq (hprepared.covers _ hpath) hshared hname fun other hother hsame => ?_
    rwa [eq_of_sameFile hdistinct hworkspaces hother hmember hsame]

end Cases

/-- A sync distributes each shared value completely or reports its name. Without plugins, in a tree
whose values files are tidy, distinct and none of the example files, where a workspace may have the
root's values file if it has the root's example file: after a sync returned, every active variable
of the root has a value in the root's file and in every workspace that does not declare it itself,
and the shared pass does not report it; or the shared pass reports it exactly once, as its
requirement says, and its value is unchanged in all these files. If both a value is everywhere and
the name is reported, then every workspace declares the variable itself and the root's file held
the value before. -/
theorem sync_distributes (view : StoreView store) (registry : Registry) (options : RunOptions)
    (workspaces : List Workspace) (population : Option (List Workspace)) (start after : World σ)
    (report : SyncReport) (hprepared : view.Prepared registry options workspaces start)
    (hworkspaces : workspaces ≠ [])
    (hdistinct : workspaces.Pairwise fun first second =>
      ¬ view.sameFile first.valuesPath second.valuesPath)
    (hroot : ∀ workspace ∈ workspaces, view.sameFile workspace.valuesPath options.rootValues →
      workspace.examplePath = options.rootExample)
    (hrun : (sync store registry options workspaces population).runFrom start =
      (.ok report, after)) :
    ∃ root members shared,
      view.Stages registry options workspaces root members shared report start after ∧
        shared.Extends report ∧
          ∀ definition ∈ root.definitions, definition.isActive = true →
            ((view.Distributed options members definition.name after ∧
                shared.Tells definition false) ∨
              (view.Withheld options members definition.name start after ∧
                shared.Tells definition true)) ∧
            (view.Distributed options members definition.name after →
              shared.Tells definition true →
                (∀ member ∈ members, member.owns definition.name = true) ∧
                  (valuesOf (view.files start.store options.rootValues)).fills definition.name =
                    true) := by
  obtain ⟨root, members, shared, hstages⟩ :=
    exists_stages hprepared.plugins_eq_nil hprepared.valid hworkspaces hrun
  obtain ⟨values, middle, hserved⟩ := hstages.served hprepared
  have hmembers := workspaces_membersIn hstages.members_eq
  refine ⟨root, members, shared, hstages, hserved.extends_report,
    fun definition hmem hactive => ?_⟩
  have htells := hserved.shares.tells definition hmem hactive
  cases hname : values.has definition.name with
  | true =>
    rw [hname] at htells
    exact ⟨Or.inl ⟨hserved.distributed hprepared hmembers hname, htells⟩,
      fun _ htold => (htells.absurd htold).elim⟩
  | false =>
    rw [hname] at htells
    have hkept := hserved.withheld hprepared hstages.members_eq hdistinct hroot
      (List.mem_map_of_mem hmem) hname
    refine ⟨Or.inr ⟨hkept, htells⟩, fun hdistributed _ => ⟨fun member hmember => ?_, ?_⟩⟩
    · cases howns : member.owns definition.name with
      | true => rfl
      | false =>
        have hlacks := hserved.shares.lacks definition hmem hactive hname member hmember howns
        have hfills := hdistributed.member member hmember howns
        rw [Table.fills_congr (hkept.member member hmember howns), hlacks] at hfills
        cases hfills
    · exact (Table.fills_congr hkept.root).symm.trans hdistributed.root

section Divided

/-- The root as a workspace: its files are those of the root. -/
def dividedRoot : Workspace := ⟨"root", [], [".env.local.example"], [".env.local"]⟩

/-- A workspace with files of its own. -/
def dividedWorkspace : Workspace :=
  ⟨"web", ["web"], ["web", ".env.local.example"], ["web", ".env.local"]⟩

/-- A shared variable that a workspace owns, and two that are asked for and left open. -/
def dividedWorld : World (Table Path Text) where
  store := [([".env.local.example"], "A=1\n# [prompt]\nB=\n# [required] [prompt]\nC=\n"),
    (["web", ".env.local.example"], "A=5\n")]
  desk := { replies := ["", "", "y"] }

/-- A sync of the workspaces above that may ask. -/
def dividedSync : Run (Table Path Text) SyncReport :=
  sync memoryStore {} { interactive := true } [dividedRoot, dividedWorkspace]

/-- A sync that distributes one variable and reports the other two. -/
theorem sync_distributes_divided :
    ∃ root members shared report after, dividedSync.runFrom dividedWorld = (.ok report, after) ∧
      (root.names = (["A", "B", "C"] : List Text) ∧
        report.skippedRequired = (["C"] : List Text) ∧
        report.skippedOptional = (["B"] : List Text)) ∧
      memoryView.Stages {} { interactive := true } [dividedRoot, dividedWorkspace] root members
        shared report dividedWorld after ∧
      ∀ definition ∈ root.definitions, definition.isActive = true →
        (memoryView.Distributed { interactive := true } members definition.name after ∧
            shared.Tells definition false) ∨
          (memoryView.Withheld { interactive := true } members definition.name dividedWorld after ∧
            shared.Tells definition true) := by
  have hprepared : memoryView.Prepared {} { interactive := true } [dividedRoot, dividedWorkspace]
      dividedWorld :=
    prepared_memoryView rfl (by decide) (by decide +kernel) (by decide) (by decide)
  have hreport : ((dividedSync.runFrom dividedWorld).1 >>= fun report =>
      Except.ok [report.skippedRequired, report.skippedOptional]) =
        .ok ([["C"], ["B"]] : List (List Text)) := by decide +kernel
  obtain ⟨report, hrun, hskipped⟩ := exists_of_bind_eq_ok hreport
  have hrun' := Attempt.runFrom_eq_of_fst hrun
  obtain ⟨root, members, shared, hstages, -, hcases⟩ :=
    sync_distributes memoryView {} { interactive := true } [dividedRoot, dividedWorkspace] none
      dividedWorld _ report hprepared (List.cons_ne_nil _ _) (by
        change List.Pairwise (fun first second : Workspace => first.valuesPath ≠ second.valuesPath)
          [dividedRoot, dividedWorkspace]
        decide) (by
        change ∀ workspace ∈ [dividedRoot, dividedWorkspace],
          workspace.valuesPath = RunOptions.rootValues { interactive := true } →
            workspace.examplePath = RunOptions.rootExample { interactive := true }
        decide) hrun'
  have hnames : (exampleIn [] (memoryView.files dividedWorld.store)
      (RunOptions.rootExample { interactive := true }) >>= fun root => Except.ok root.names) =
        .ok (["A", "B", "C"] : List Text) := by decide +kernel
  obtain ⟨other, hother, hnames⟩ := exists_of_bind_eq_ok hnames
  obtain rfl := Except.ok.inj (hother.symm.trans hstages.root_eq)
  obtain ⟨hrequired, hrest⟩ := List.cons.inj (Except.ok.inj hskipped)
  obtain ⟨hoptional, -⟩ := List.cons.inj hrest
  exact ⟨_, members, shared, report, _, hrun', ⟨Except.ok.inj hnames, hrequired, hoptional⟩,
    hstages, fun definition hmem hactive => (hcases definition hmem hactive).1⟩

/-- A root whose own file holds a value for a variable that comes to none and that its only
workspace declares itself. -/
def heldWorld : World (Table Path Text) where
  store := [([".env.local.example"], "X=\n"), ([".env.local"], "X=1\n"),
    (["web", ".env.local.example"], "X=2\n")]

/-- What the example file of that root declares. -/
def heldSchema : Schema where
  sourcePath := "/.env.local.example"
  definitions := [{ name := "X" }]

/-- The workspace with the name that it owns. -/
def heldMember : Member := ⟨dividedWorkspace, ["X"]⟩

/-- A sync of the workspace above. -/
def heldSync : Run (Table Path Text) SyncReport := sync memoryStore {} {} [dividedWorkspace]

/-- There the value is wherever it is shared, and yet the shared pass reports its name. -/
theorem sync_distributes_held :
    (exampleIn [] (memoryView.files heldWorld.store) (RunOptions.rootExample {}) =
        .ok heldSchema ∧
      membersIn [] (memoryView.files heldWorld.store) (RunOptions.rootExample {})
        [dividedWorkspace] = .ok [heldMember]) ∧
    (memoryView.Distributed {} [heldMember] "X" (heldSync.runFrom heldWorld).2 ∧
      memoryView.Withheld {} [heldMember] "X" heldWorld (heldSync.runFrom heldWorld).2) ∧
    SyncReport.skippedOptional <$> ((syncShared memoryStore {} {} dividedWorkspace [heldMember]
      heldSchema).runFrom heldWorld).1 = .ok ["X"] ∧
    SyncReport.skippedOptional <$> (heldSync.runFrom heldWorld).1 = .ok ["X"] := by
  have howns : ∀ member ∈ [heldMember], member.owns "X" ≠ false := by decide
  refine ⟨⟨by decide +kernel, by decide +kernel⟩, ⟨⟨by decide +kernel, fun member hmem hnot => ?_⟩,
    by decide +kernel, fun member hmem hnot => ?_⟩, by decide +kernel, by decide +kernel⟩
  · exact absurd hnot (howns member hmem)
  · exact absurd hnot (howns member hmem)

end Divided
end EnvFiles
