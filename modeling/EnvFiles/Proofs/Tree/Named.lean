import EnvFiles.Proofs.Tree.Walks

/-!
# Well-named trees

The names in a folder are distinct, and none of them is the component that leads to the folder
above. In such a tree everything has a path of its own: what stands below a place is found by
walking on from there. Where there are no links either, it stands nowhere else.
-/

namespace EnvFiles.Node

/-- The names in every folder are distinct, and none leads to the folder above. -/
inductive WellNamed : Node → Prop
  | file (content : ByteArray) : WellNamed (.file content)
  | link (target : Text) : WellNamed (.link target)
  | folder {entries : List (Text × Node)} : (entries.map Prod.fst).Nodup →
      upPart ∉ entries.map Prod.fst → (∀ entry ∈ entries, WellNamed entry.2) →
        WellNamed (.folder entries)

section Named

variable {root node : Node} {entries : List (Text × Node)} {place path below : Path}
  {followLast : Bool} {links : Nat}

/-- Every entry of a well-named folder is found by its name. -/
theorem WellNamed.named? (h : WellNamed (.folder entries)) {entry : Text × Node}
    (hentry : entry ∈ entries) : Node.named? entries entry.1 = some entry.2 := by
  cases h with
  | folder hnodup _ _ => rw [named?_eq_get?, Table.get?_of_mem hnodup hentry]

/-- An empty folder is well-named. -/
theorem WellNamed.nil : WellNamed (.folder []) := .folder .nil List.not_mem_nil nofun

/-- A folder is well-named with one more entry of another name. -/
theorem WellNamed.cons {name : Text} (hname : name ≠ upPart) (hnew : name ∉ entries.map Prod.fst)
    (hnode : node.WellNamed) (hrest : WellNamed (.folder entries)) :
    WellNamed (.folder ((name, node) :: entries)) := by
  cases hrest with
  | folder hnodup hup hentries =>
    refine .folder (List.nodup_cons.mpr ⟨hnew, hnodup⟩) (fun hmem => ?_)
      (List.forall_mem_cons.mpr ⟨hnode, hentries⟩)
    exact (List.mem_cons.mp hmem).elim (fun heq => hname heq.symm) hup

/-- What stands in a well-named tree is well-named. -/
theorem WellNamed.at? (h : root.WellNamed) (hthere : root.at? place = some node) :
    node.WellNamed := by
  induction place generalizing root with
  | nil => exact Option.some.inj hthere ▸ h
  | cons name rest ih =>
    rw [Node.at?] at hthere
    cases h with
    | file content => cases hthere
    | link target => cases hthere
    | folder hnodup hup hentries =>
      rename_i entries
      rw [child?] at hthere
      cases hchild : Node.named? entries name with
      | none =>
        rw [hchild] at hthere
        cases hthere
      | some child =>
        rw [hchild] at hthere
        rw [named?_eq_get?] at hchild
        exact ih (hentries _ (Table.mem_of_get? hchild)) hthere

/-- What a path leads to is what a walk comes to. -/
theorem exists_walk_of_lookup? (h : root.lookup? path = some node) :
    ∃ place, root.walk path = .ok (.taken place node) := by
  rw [lookup?] at h
  split at h
  · cases h
    exact ⟨_, ‹_›⟩
  · cases h

/-- What a path leads to in a well-named tree is well-named. -/
theorem WellNamed.lookup? (h : root.WellNamed) (hfound : root.lookup? path = some node) :
    node.WellNamed := by
  obtain ⟨place, hwalk⟩ := exists_walk_of_lookup? hfound
  exact h.at? (at?_of_walkWithin hwalk)

/-- A walk goes on to what stands below the place reached, unless it is a link. -/
theorem walkWithin_of_at? (hthere : root.at? (place ++ below) = some node)
    (hup : upPart ∉ below) (hlink : ∀ target, node ≠ .link target) :
    root.walkWithin followLast links place below = .ok (.taken (place ++ below) node) := by
  rcases List.eq_nil_or_concat below with rfl | ⟨parts, name, rfl⟩
  · rw [List.append_nil] at hthere ⊢
    rw [walkWithin_nil, hthere]
  · rw [List.concat_eq_append] at hthere hup ⊢
    have hshape : root.shapeAt (place ++ (parts ++ [name])) = some node.shape := by
      rw [shapeAt, hthere]
      rfl
    have hsolid : root.Solid (place ++ parts ++ [name]) := by
      refine ⟨node.shape, by rwa [List.append_assoc], fun target => ?_⟩
      cases node with
      | link other => exact absurd rfl (hlink other)
      | file content => simp [shape]
      | folder entries => simp [shape]
    have hfolder : root.shapeAt (place ++ parts) = some .folder := by
      rw [← List.append_assoc] at hshape
      exact shapeAt_of_shapeAt_append (List.cons_ne_nil name []) hshape
    rw [walkWithin_append_folders hfolder (fun part hpart hname => hup (by simp_all)),
      walkWithin_down hfolder (fun hname => hup (by simp_all)) hsolid, walkWithin_nil,
      List.append_assoc, hthere]

/-- So the path goes on to it. -/
theorem walk_append_of_at? (hwalk : root.walk path = .ok (.taken place node)) {found : Node}
    (hthere : node.at? below = some found) (hup : upPart ∉ below)
    (hlink : ∀ target, found ≠ .link target) :
    root.walk (path ++ below) = .ok (.taken (place ++ below) found) := by
  have hplace := at?_of_walkWithin hwalk
  have hbelow : root.at? (place ++ below) = some found := by
    rw [at?_append, hplace, Option.bind_some, hthere]
  rcases List.eq_nil_or_concat below with rfl | ⟨parts, name, rfl⟩
  · rw [List.append_nil] at hbelow ⊢
    rw [hwalk, List.append_nil]
    cases hplace.symm.trans hbelow
    rfl
  · obtain ⟨left, hleft⟩ := exists_walkWithin_append hwalk
    rw [walk, hleft true _ (by simp)]
    exact walkWithin_of_at? hbelow hup hlink

/-- The entries of a folder hold no more links than the folder. -/
theorem linkCount_le_of_named? {name : Text} (h : Node.named? entries name = some node) :
    node.linkCount ≤ linkCountOf entries := by
  induction entries with
  | nil => cases h
  | cons entry rest ih =>
    obtain ⟨other, first⟩ := entry
    rw [Node.named?] at h
    rw [linkCountOf]
    split at h
    · cases h
      exact Nat.le_add_right ..
    · exact Nat.le_trans (ih h) (Nat.le_add_left ..)

/-- In a tree that holds no links none stands anywhere. -/
theorem shapeAt_ne_link (hfree : root.linkCount = 0) (place : Path) (target : Text) :
    root.shapeAt place ≠ some (.link target) := by
  induction place generalizing root with
  | nil =>
    cases root with
    | link other => cases hfree
    | file content => simp [shapeAt, Node.at?, shape]
    | folder entries => simp [shapeAt, Node.at?, shape]
  | cons name rest ih =>
    cases root with
    | link other => cases hfree
    | file content => simp [shapeAt, Node.at?, child?]
    | folder entries =>
      rw [shapeAt_cons]
      cases hchild : Node.named? entries name with
      | none => simp
      | some child =>
        rw [linkCount] at hfree
        exact ih (Nat.le_zero.mp (hfree ▸ linkCount_le_of_named? hchild))

/-- Without links below the place reached and steps up in the path, a walk comes to the place that
the path spells. -/
theorem place_of_linkFree {reached : Path}
    (hfree : ∀ below target, root.shapeAt (reached ++ below) ≠ some (.link target))
    (hup : upPart ∉ path)
    (h : root.walkWithin true links reached path = .ok (.taken place node)) :
    place = reached ++ path := by
  induction links, reached, path using walk_induction root with
  | nil links reached =>
    rw [walkWithin_nil] at h
    split at h
    · cases h
      rw [List.append_nil]
    · cases h
  | stuck links reached part rest hreached =>
    rw [walkWithin_stuck hreached] at h
    cases h
  | up links reached part rest hfolder hpart ih => exact absurd (by simp [hpart]) hup
  | vacant links reached part rest hfolder hpart hnext =>
    rw [walkWithin_vacant hfolder hpart hnext] at h
    split at h <;> cases h
  | down links reached part rest hfolder hpart hnext ih =>
    rw [walkWithin_down hfolder hpart hnext] at h
    have hrest := ih (fun below target => ?_) (fun hmem => hup (List.mem_cons_of_mem _ hmem)) h
    · rwa [List.append_assoc] at hrest
    · rw [List.append_assoc]
      exact hfree (part :: below) target
  | link links reached part rest target hfolder hpart hnext ih =>
    exact absurd hnext (hfree [part] target)

end Named
end EnvFiles.Node
