import EnvFiles.Proofs.Tree.LinkFree
import EnvFiles.Proofs.Tree.Writing

/-!
# Taking things away from a file tree

Deleting takes away what stands at the place of a path and nothing else. What is taken away is the
end of a way: a file, or a link that leads to no folder. So a walk to a folder never comes past it,
and every other path keeps its place. Nothing can be found in the tree afterwards that was not found
before.
-/

namespace EnvFiles.Node

/-- What stands at a place leads to no folder. -/
structure DeadEnd (root : Node) (place : Path) : Prop where
  not_folder : root.shapeAt place ≠ some .folder
  not_toFolder : ∀ target, root.shapeAt place = some (.link target) → ∀ links reached node,
    root.walkWithin true links (linkStart place.dropLast target) (Path.components target) =
      .ok (.taken reached node) → root.shapeAt reached ≠ some .folder

/-- A tree without what stood at a place. -/
structure Removed (root : Node) (place : Path) (after : Node) : Prop where
  here : after.shapeAt place = none
  others : ∀ other, other ≠ place → after.shapeAt other = root.shapeAt other

/-- Deleting a path is about a place: the one of its last component in the folder that the rest
leads to. There is a dead end there, if anything. -/
inductive Unlinks (root : Node) : Path → Path → Prop
  | mk {front above : Path} {name : Text} {node : Node} :
      root.walk front = .ok (.taken above node) → root.shapeAt above = some .folder →
        name ≠ upPart → Path.hasNull (front ++ [name]) = false → root.DeadEnd (above ++ [name]) →
          Unlinks root (front ++ [name]) (above ++ [name])

section Shapes

variable {root after : Node} {above place other path : Path} {name : Text}
  {entries : List (Text × Node)}

/-- The entry of a name after all those of a name were taken away. -/
theorem named?_filter (entries : List (Text × Node)) (name other : Text) :
    named? (entries.filter fun entry => entry.1 != name) other =
      if other = name then none else named? entries other := by
  rw [named?_eq_get?, named?_eq_get?, Table.get?_filter entries fun key => key != name]
  by_cases h : other = name <;> simp [h]

/-- Taking a dead end away changes the shape there only. -/
theorem shapeAt_removeAt (habove : root.shapeAt above = some .folder)
    (hbelow : ∀ below, below ≠ [] → root.shapeAt (above ++ [name] ++ below) = none)
    (place : Path) :
    (removeAt (above ++ [name]) root).shapeAt place =
      if place = above ++ [name] then none else root.shapeAt place := by
  induction above generalizing root place with
  | nil =>
    cases root with
    | file content => cases habove
    | link target => cases habove
    | folder entries =>
      cases place with
      | nil => rfl
      | cons first rest =>
        rw [List.nil_append, removeAt, shapeAt_cons, named?_filter, shapeAt_cons]
        by_cases hname : first = name
        · subst hname
          rw [if_pos rfl, Option.bind_none]
          cases rest with
          | nil => rw [if_pos rfl]
          | cons second more =>
            have hnone := hbelow (second :: more) (List.cons_ne_nil _ _)
            rw [List.nil_append, List.singleton_append, shapeAt_cons] at hnone
            rw [if_neg (by simp), hnone]
        · rw [if_neg hname, if_neg (by simp [hname])]
  | cons first rest ih =>
    cases root with
    | file content => cases habove
    | link target => cases habove
    | folder entries =>
      rw [shapeAt_cons] at habove
      cases hchild : named? entries first with
      | none =>
        rw [hchild] at habove
        cases habove
      | some child =>
        rw [hchild, Option.bind_some] at habove
        have hbelow' : ∀ below, below ≠ [] → child.shapeAt (rest ++ [name] ++ below) = none := by
          intro below hne
          have hnone := hbelow below hne
          rwa [List.cons_append, List.cons_append, shapeAt_cons, hchild, Option.bind_some] at hnone
        have hstep : removeAt (first :: rest ++ [name]) (folder entries) =
            folder (upsert Prod.fst (first, removeAt (rest ++ [name]) child) entries) := by
          rw [List.cons_append]
          cases hrest : rest ++ [name] with
          | nil => simp at hrest
          | cons second more =>
            rw [removeAt, hchild]
            exact List.cons_ne_nil second more
        rw [hstep]
        cases place with
        | nil => rfl
        | cons second more =>
          rw [shapeAt_cons, named?_upsert, shapeAt_cons]
          by_cases hname : first = second
          · subst hname
            rw [if_pos rfl, Option.bind_some, ih habove hbelow', hchild, Option.bind_some]
            simp
          · rw [if_neg hname, if_neg (by simp [Ne.symm hname])]

/-- Nothing stands below a dead end. -/
theorem DeadEnd.shapeAt_append (h : root.DeadEnd place) {below : Path} (hbelow : below ≠ []) :
    root.shapeAt (place ++ below) = none := by
  cases hshape : root.shapeAt (place ++ below) with
  | none => rfl
  | some shape => exact absurd (shapeAt_of_shapeAt_append hbelow hshape) h.not_folder

/-- Taking a dead end away leaves the tree without it. -/
theorem removed_removeAt (habove : root.shapeAt above = some .folder)
    (hend : root.DeadEnd (above ++ [name])) :
    Removed root (above ++ [name]) (removeAt (above ++ [name]) root) := by
  have hshape := shapeAt_removeAt habove fun below hbelow => hend.shapeAt_append hbelow
  exact ⟨by rw [hshape, if_pos rfl], fun other hother => by rw [hshape, if_neg hother]⟩

/-- A tree without anything at a place is the same without it. -/
theorem Removed.of_none (h : root.shapeAt place = none) : Removed root place root :=
  ⟨h, fun _ _ => rfl⟩

/-- What stands somewhere afterwards stood there before. -/
theorem Removed.shapeAt_eq (h : Removed root place after) {shape : Shape}
    (hshape : after.shapeAt other = some shape) : root.shapeAt other = some shape := by
  by_cases hother : other = place
  · rw [hother, h.here] at hshape
    cases hshape
  · rwa [← h.others other hother]

/-- A folder is not taken away with a dead end. -/
theorem Removed.folder (h : Removed root place after) (hend : root.DeadEnd place)
    (hfolder : root.shapeAt other = some .folder) : after.shapeAt other = some .folder := by
  have hother : other ≠ place := by
    rintro rfl
    exact hend.not_folder hfolder
  rw [h.others other hother, hfolder]

/-- The tree grows when what was taken away is put back. -/
theorem Removed.grows (h : Removed root place after) : Grows after root := by
  refine .of_forall fun other => ?_
  by_cases hother : other = place
  · exact Or.inr (Or.inl (hother ▸ h.here))
  · exact Or.inl (h.others other hother).symm

/-- No name is new in the tree afterwards. -/
theorem Removed.nullFree (h : Removed root place after) (hroot : root.NullFree) :
    after.NullFree := by
  intro other node hthere
  have hshape : root.shapeAt other = some node.shape :=
    h.shapeAt_eq (by rw [shapeAt, hthere]; rfl)
  obtain ⟨before, hbefore, -⟩ := Option.map_eq_some_iff.mp hshape
  exact hroot other before hbefore

end Shapes

section Walks

variable {root after : Node} {followLast : Bool} {links : Nat}
  {reached above place other path : Path} {node : Node} {landing : Place}

/-- A walk to a folder starts at a folder. -/
theorem shapeAt_start (h : root.walkWithin followLast links reached path = .ok landing)
    (hfolder : root.shapeAt landing.path = some .folder) :
    root.shapeAt reached = some .folder := by
  cases path with
  | nil =>
    rw [walkWithin_nil] at h
    split at h
    · cases h
      exact hfolder
    · cases h
  | cons part rest =>
    by_contra hreached
    rw [walkWithin_stuck hreached] at h
    cases h

/-- A walk to a folder ends there also without a dead end. -/
theorem Removed.walkWithin_folder (h : Removed root place after) (hend : root.DeadEnd place)
    (hwalk : root.walkWithin true links reached path = .ok (.taken above node))
    (hfolder : root.shapeAt above = some .folder) :
    ∃ node', after.walkWithin true links reached path = .ok (.taken above node') := by
  induction links, reached, path using walk_induction root with
  | nil links reached =>
    rw [walkWithin_nil] at hwalk
    split at hwalk
    · cases hwalk
      exact walkWithin_nil_of_shapeAt (h.folder hend hfolder) true links
    · cases hwalk
  | stuck links reached part rest hreached =>
    rw [walkWithin_stuck hreached] at hwalk
    cases hwalk
  | up links reached part rest hreached hup ih =>
    rw [walkWithin_up (h.folder hend hreached) hup]
    exact ih (walkWithin_up hreached hup ▸ hwalk)
  | vacant links reached part rest hreached hup hnext =>
    rw [walkWithin_vacant hreached hup hnext] at hwalk
    split at hwalk <;> cases hwalk
  | down links reached part rest hreached hup hnext ih =>
    rw [walkWithin_down hreached hup hnext] at hwalk
    have hbelow := h.folder hend (shapeAt_start hwalk hfolder)
    rw [walkWithin_down (h.folder hend hreached) hup ⟨_, hbelow, by simp⟩]
    exact ih hwalk
  | link links reached part rest target hreached hup hnext ih =>
    rw [walkWithin_link hreached hup hnext, Bool.not_true, Bool.and_false] at hwalk
    cases links with
    | zero => cases hwalk
    | succ fewer =>
      -- The target of the link leads to a folder, so the link is not the dead end.
      have hother : reached ++ [part] ≠ place := by
        intro heq
        have hdead := hend.not_toFolder target (heq ▸ hnext) fewer
        rw [← heq, List.dropLast_concat] at hdead
        rcases List.eq_nil_or_concat rest with rfl | ⟨parts, last, rfl⟩
        · rw [List.append_nil] at hwalk
          exact hdead _ _ hwalk hfolder
        · obtain ⟨middle, there, hmiddle, hshape⟩ :=
            exists_walkWithin_of_append (by simp) hwalk
          exact hdead _ _ hmiddle hshape
      rw [walkWithin_link (h.folder hend hreached) hup (by rw [h.others _ hother, hnext]),
        Bool.not_true, Bool.and_false]
      exact ih fewer rfl hwalk

/-- What a walk finds afterwards it found before. -/
theorem Removed.walkWithin_taken (h : Removed root place after)
    (hwalk : after.walkWithin true links reached path = .ok (.taken above node)) :
    ∃ node', root.walkWithin true links reached path = .ok (.taken above node') ∧
      node'.shape = node.shape := by
  obtain ⟨node', hbefore⟩ := walkWithin_taken_of_grows h.grows hwalk
  have hshape : root.shapeAt above = some node.shape :=
    h.shapeAt_eq (by rw [shapeAt, at?_of_walkWithin hwalk]; rfl)
  rw [shapeAt, at?_of_walkWithin hbefore] at hshape
  exact ⟨node', hbefore, Option.some.inj hshape⟩

/-- A dead end is one also without another. -/
theorem Removed.deadEnd (h : Removed root place after) (hother : root.DeadEnd other) :
    after.DeadEnd other where
  not_folder hfolder := hother.not_folder (h.shapeAt_eq hfolder)
  not_toFolder target hlink links reached node hwalk hfolder := by
    obtain ⟨node', hbefore, -⟩ := h.walkWithin_taken hwalk
    exact hother.not_toFolder target (h.shapeAt_eq hlink) links reached node' hbefore
      (h.shapeAt_eq hfolder)

/-- A path keeps its place when a dead end is taken away. -/
theorem Removed.unlinks (h : Removed root place after) (hend : root.DeadEnd place)
    (hpath : root.Unlinks path other) : after.Unlinks path other := by
  cases hpath with
  | mk hwalk hfolder hname hnull hother =>
    obtain ⟨node', hafter⟩ := h.walkWithin_folder hend hwalk hfolder
    exact .mk hafter (h.folder hend hfolder) hname hnull (h.deadEnd hother)

/-- A file that is found afterwards was found before. -/
theorem Removed.hasFile (h : Removed root place after) (hfile : after.hasFile path = true) :
    root.hasFile path = true := by
  obtain ⟨node, hnode⟩ := Option.isSome_iff_exists.mp (Option.isSome_of_any hfile)
  obtain ⟨reached, hwalk⟩ := exists_walk_of_lookup? hnode
  obtain ⟨node', hbefore, hshape⟩ := h.walkWithin_taken hwalk
  rw [Node.hasFile, hnode] at hfile
  rw [Node.hasFile, lookup?_of_walk hbefore, Place.path, at?_of_walkWithin hbefore]
  cases node with
  | folder entries => cases hfile
  | link target => cases hfile
  | file content =>
    cases node' with
    | folder entries => cases hshape
    | link target => cases hshape
    | file content' => rfl

end Walks

section Unlinking

variable {root after : Node} {path place place' : Path}

/-- The place that deleting a path is about is in the folder that the rest of the path leads to. -/
theorem Unlinks.place_eq (front : Path) {above : Path} {name : Text} {node : Node}
    (h : root.Unlinks (front ++ [name]) place)
    (hfront : root.walk front = .ok (.taken above node)) :
    place = above ++ [name] := by
  generalize hpath : front ++ [name] = path at h
  cases h with
  | mk hwalk _ _ _ _ =>
    obtain ⟨rfl, hname⟩ := List.append_inj' hpath rfl
    cases hname
    cases hwalk.symm.trans hfront
    rfl

/-- Deleting a path is about one place only. -/
theorem Unlinks.unique (h : root.Unlinks path place) (h' : root.Unlinks path place') :
    place = place' := by
  cases h with
  | mk hwalk _ _ _ _ => exact (h'.place_eq _ hwalk).symm

/-- There is a dead end at the place of a path. -/
theorem Unlinks.deadEnd (h : root.Unlinks path place) : root.DeadEnd place := by
  cases h with
  | mk _ _ _ _ hend => exact hend

/-- Where nothing stands, no file is found. -/
theorem Unlinks.hasFile_eq_false (h : root.Unlinks path place) (hnone : root.shapeAt place = none) :
    root.hasFile path = false := by
  cases h with
  | @mk front above name node hwalk hfolder hname hnull hend =>
    obtain ⟨left, hleft⟩ := exists_walkWithin_append hwalk
    have hvacant : root.walk (front ++ [name]) = .ok (.vacant above name) := by
      rw [walk, hleft true [name] (List.cons_ne_nil _ _), walkWithin_vacant hfolder hname hnone]
      rfl
    rw [hasFile, lookup?, hvacant]
    rfl

/-- Deleting a path takes away what stands at its place. -/
theorem Unlinks.exists_delete (h : root.Unlinks path place) :
    ∃ after, root.delete path = (.ok (), after) ∧ Removed root place after := by
  cases h with
  | @mk front above name node hwalk hfolder hname hnull hend =>
    obtain ⟨left, hleft⟩ := exists_walkWithin_append hwalk
    have hstep : root.walkToLink (front ++ [name]) = root.walkWithin false left above [name] :=
      hleft false [name] (List.cons_ne_nil _ _)
    rw [delete, checkPath, hnull, hstep]
    cases hthere : root.at? (above ++ [name]) with
    | none =>
      have hnone : root.shapeAt (above ++ [name]) = none := by
        rw [shapeAt, hthere]
        rfl
      rw [walkWithin_vacant hfolder hname hnone]
      exact ⟨root, rfl, .of_none hnone⟩
    | some found =>
      have hshape : root.shapeAt (above ++ [name]) = some found.shape := by
        rw [shapeAt, hthere]
        rfl
      refine ⟨_, ?_, removed_removeAt hfolder hend⟩
      cases found with
      | folder entries => exact absurd hshape hend.not_folder
      | file content =>
        rw [walkWithin_down hfolder hname ⟨_, hshape, by simp [shape]⟩, walkWithin_nil, hthere]
        rfl
      | link target =>
        rw [walkWithin_link hfolder hname hshape]
        rfl

/-- A path to a file has a place at which something stands. -/
theorem exists_unlinks_of_hasFile (hroot : root.shapeAt [] = some .folder)
    (hnames : root.NullFree) (h : root.hasFile path = true) :
    ∃ place, root.Unlinks path place ∧ root.shapeAt place ≠ none := by
  obtain ⟨node, hnode⟩ := Option.isSome_iff_exists.mp (Option.isSome_of_any h)
  rw [hasFile, hnode, Option.any_some] at h
  obtain ⟨landing, hwalk⟩ := exists_walk_of_lookup? hnode
  have hnull := hnames.hasNull_eq hwalk
  have hfile : root.shapeAt landing ≠ some .folder := by
    rw [shapeAt, at?_of_walkWithin hwalk]
    cases node with
    | folder entries => cases h
    | file content => simp [shape]
    | link target => simp [shape]
  rcases List.eq_nil_or_concat path with rfl | ⟨front, name, rfl⟩
  · -- The empty path leads to the top, which is a folder.
    rw [walk, walkWithin_nil] at hwalk
    split at hwalk
    · cases hwalk
      exact absurd hroot hfile
    · cases hwalk
  · rw [List.concat_eq_append] at hwalk hnull ⊢
    obtain ⟨above, there, hfront, hfolder⟩ :=
      exists_walkWithin_of_append (List.cons_ne_nil name []) hwalk
    obtain ⟨left, hleft⟩ := exists_walkWithin_append hfront
    rw [walk, hleft true [name] (List.cons_ne_nil _ _)] at hwalk
    have hname : name ≠ upPart := by
      intro hup
      rw [walkWithin_up hfolder hup, walkWithin_nil] at hwalk
      split at hwalk
      · cases hwalk
        rcases List.eq_nil_or_concat above with rfl | ⟨upper, last, rfl⟩
        · exact hfile hroot
        · rw [List.concat_eq_append] at hfolder hfile
          rw [List.dropLast_concat] at hfile
          exact hfile (shapeAt_of_shapeAt_append (List.cons_ne_nil _ _) hfolder)
      · cases hwalk
    have hsome : root.shapeAt (above ++ [name]) ≠ none := by
      intro hnone
      rw [walkWithin_vacant hfolder hname hnone] at hwalk
      cases hwalk
    refine ⟨above ++ [name], .mk hfront hfolder hname hnull ⟨fun hshape => ?_, ?_⟩, hsome⟩
    · rw [walkWithin_down hfolder hname ⟨_, hshape, by simp⟩, walkWithin_nil] at hwalk
      split at hwalk
      · cases hwalk
        exact hfile hshape
      · cases hwalk
    · intro target hlink links reached other hother
      rw [List.dropLast_concat] at hother
      rw [walkWithin_link hfolder hname hlink, Bool.not_true, Bool.and_false] at hwalk
      cases left with
      | zero => cases hwalk
      | succ fewer =>
        -- Both walks through the target come to the same place.
        obtain ⟨used, hpasses⟩ := exists_passes_of_walkWithin
          (show root.walkWithin true fewer (linkStart above target)
            (Path.components target ++ []) = _ from hwalk)
        obtain ⟨used', hpasses'⟩ := exists_passes_of_walkWithin hother
        rw [List.append_nil] at hpasses
        obtain ⟨-, rfl⟩ := hpasses.unique hpasses'
        exact hfile

end Unlinking
end EnvFiles.Node
