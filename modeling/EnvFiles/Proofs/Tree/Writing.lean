import EnvFiles.Proofs.Tree.Walks
import EnvFiles.Tree.Change

/-!
# Writing into a file tree

Where a walk comes to a place, a write puts the file there and makes no folder. Where folders are
missing on the way down from one that is there, a write makes them first. In both cases the tree
grows: the file is at its place, folders may be new on the way to it, and all else stays. Where no
file can be, a write fails and changes nothing.
-/

namespace EnvFiles.Node

variable {root after : Node} {path place front above parts : Path} {name : Text}
  {content : ByteArray}

/-- A tree in which folders were made on the way to a place. -/
def Opened (root : Node) (place : Path) (after : Node) : Prop :=
  ∀ other, after.shapeAt other = root.shapeAt other ∨
    other <+: place ∧ other ≠ place ∧ root.shapeAt other = none ∧
      after.shapeAt other = some .folder

/-- A tree in which a file was written at a place. -/
structure Holds (root : Node) (place : Path) (content : ByteArray) (after : Node) : Prop where
  here : after.shapeAt place = some (.file content)
  others : ∀ other, other ≠ place → after.shapeAt other = root.shapeAt other ∨
    other <+: place ∧ root.shapeAt other = none ∧ after.shapeAt other = some .folder

/-- A tree is open as it is. -/
theorem Opened.refl (root : Node) (place : Path) : Opened root place root := fun _ => Or.inl rfl

/-- Making folders after others were made. -/
theorem Opened.trans {middle : Node} (h : Opened root place middle)
    (h' : Opened middle place after) : Opened root place after := by
  intro other
  rcases h' other with hsame | ⟨hway, hne, hnone, hfolder⟩
  · rw [hsame]
    exact h other
  · rcases h other with hsame' | ⟨-, -, -, hfolder'⟩
    · exact Or.inr ⟨hway, hne, hsame' ▸ hnone, hfolder⟩
    · rw [hfolder'] at hnone
      cases hnone

/-- Making folders lets a tree grow. -/
theorem Opened.grows (h : Opened root place after) : Grows root after :=
  .of_forall fun other => (h other).imp_right fun hmade => Or.inl hmade.2.2.1

/-- Putting a file at a place that takes one. -/
theorem holds_putAt (htakes : root.Takes place)
    (habove : ∀ above name, place = above ++ [name] → root.shapeAt above = some .folder)
    (content : ByteArray) : Holds root place content (putAt (file content) place root) := by
  rcases List.eq_nil_or_concat place with rfl | ⟨above, name, rfl⟩
  · refine ⟨rfl, fun other hother => Or.inl ?_⟩
    rw [putAt, shapeAt_file content hother]
    exact (htakes.shapeAt_append hother).symm
  · rw [List.concat_eq_append] at htakes habove ⊢
    have hshape := shapeAt_putAt (fun _ hbelow => shapeAt_file content hbelow)
      (habove above name rfl) htakes
    refine ⟨by rw [hshape, if_pos rfl]; rfl, fun other hother => Or.inl ?_⟩
    rw [hshape, if_neg hother]

/-- Putting a folder at a vacant place. -/
theorem opened_putAt (habove : root.shapeAt above = some .folder)
    (hnone : root.shapeAt (above ++ [name]) = none) (hway : above ++ [name] <+: place)
    (hne : above ++ [name] ≠ place) :
    Opened root place (putAt (folder []) (above ++ [name]) root) ∧
      (putAt (folder []) (above ++ [name]) root).shapeAt (above ++ [name]) = some .folder := by
  have hshape := shapeAt_putAt (fun _ hbelow => shapeAt_emptyFolder hbelow) habove
    (fun shape h => by rw [hnone] at h; cases h)
  refine ⟨fun other => ?_, by rw [hshape, if_pos rfl]; rfl⟩
  by_cases hother : other = above ++ [name]
  · subst hother
    exact Or.inr ⟨hway, hne, hnone, by rw [hshape, if_pos rfl]; rfl⟩
  · exact Or.inl (by rw [hshape, if_neg hother])

section Folders

/-- What making a folder hangs on. -/
theorem makeFolder_eq (root : Node) (hnull : path.hasNull = false) :
    root.makeFolder path = match root.walkToLink path with
      | .ok (.taken _ _) => .error .alreadyExists
      | .ok (.vacant above name) => .ok (putAt (folder []) (above ++ [name]) root)
      | .error failure => .error failure := by
  rw [makeFolder, checkPath, hnull]
  rcases root.walkToLink path with failure | ⟨place, node⟩ | ⟨above, name⟩ <;> rfl

/-- A folder above which nothing is missing, and which is there in some way, cannot be made. -/
theorem makeFolder_of_found (hnull : front.hasNull = false) (hparts : parts ≠ [])
    (hfound : root.walk (front ++ parts) ≠ .error .fileMissing) :
    ∃ failure, failure ≠ .fileMissing ∧ root.makeFolder front = .error failure := by
  rw [makeFolder_eq root hnull]
  rcases hwalk : root.walkToLink front with failure | ⟨place, node⟩ | ⟨above, name⟩
  · refine ⟨failure, ?_, rfl⟩
    rintro rfl
    exact hfound (walkWithin_append_of_missing hparts (Or.inl hwalk))
  · exact ⟨.alreadyExists, by simp, rfl⟩
  · exact absurd (walkWithin_append_of_missing hparts (Or.inr ⟨above, name, hwalk⟩)) hfound

/-- A folder that cannot be made is as it has to be if it is there. -/
theorem ensureFolder_of_makeFolder {failure : Failure} (hfailure : failure ≠ .fileMissing)
    (h : root.makeFolder front = .error failure) :
    root.ensureFolder front.reverse =
      if root.hasFolder front then .ok root else .error failure := by
  rw [ensureFolder, List.reverse_reverse, h]
  cases failure <;> first | rfl | exact absurd rfl hfailure

/-- With a folder that does not have to be made, or cannot be, no folder is made. -/
theorem ensureFolders_of_ensureFolder (hfront : front ≠ []) {result : Except Failure Unit}
    (hresult : result ≠ .error .fileMissing)
    (h : root.ensureFolder front.reverse = result.map fun _ => root) :
    root.ensureFolders front.reverse = (result, root) := by
  obtain ⟨name, init, hreversed⟩ :=
    List.exists_cons_of_ne_nil (mt List.reverse_eq_nil_iff.mp hfront)
  rw [hreversed] at h ⊢
  rw [ensureFolders, h]
  rcases result with failure | _
  · cases failure <;> first | rfl | exact absurd rfl hresult
  · rfl

/-- Above a path on which something was found no folder is made. -/
theorem ensureFolders_of_found (hnull : front.hasNull = false) (hparts : parts ≠ [])
    (hfound : root.walk (front ++ parts) ≠ .error .fileMissing) :
    ∃ result, root.ensureFolders front.reverse = (result, root) ∧
      (root.hasFolder front = true → result = .ok ()) := by
  by_cases hfront : front = []
  · subst hfront
    exact ⟨.ok (), rfl, fun _ => rfl⟩
  · obtain ⟨failure, hfailure, hmake⟩ := makeFolder_of_found hnull hparts hfound
    have hensure := ensureFolder_of_makeFolder hfailure hmake
    cases hfolder : root.hasFolder front with
    | true =>
      rw [hfolder, if_pos rfl] at hensure
      exact ⟨.ok (), ensureFolders_of_ensureFolder hfront (by simp) hensure, fun _ => rfl⟩
    | false =>
      rw [hfolder, if_neg (by simp)] at hensure
      have hresult : (Except.error failure : Except Failure Unit) ≠ .error .fileMissing :=
        fun h => hfailure (Except.error.inj h)
      exact ⟨_, ensureFolders_of_ensureFolder hfront hresult hensure, fun h => by cases h⟩

/-- A path that goes down from a folder, through folders that are there or can be made. -/
structure Descends (root : Node) (front above parts : Path) : Prop where
  walk : ∃ node, root.walk front = .ok (.taken above node)
  folder : root.shapeAt above = some .folder
  plain : ∀ part ∈ parts, part ≠ upPart
  folders : ∀ rest, rest <+: parts → root.shapeAt (above ++ rest) = none ∨
    root.shapeAt (above ++ rest) = some .folder

/-- A shorter way down. -/
theorem Descends.shorter {more : Path} (h : Descends root front above more)
    (hway : parts <+: more) : Descends root front above parts where
  walk := h.walk
  folder := h.folder
  plain part hpart := h.plain part (hway.subset hpart)
  folders rest hrest := h.folders rest (hrest.trans hway)

/-- The way down is there after folders were made. -/
theorem Descends.of_opened {middle : Node} (h : Descends root front above parts)
    (hopened : Opened root place middle) : Descends middle front above parts where
  walk := by
    obtain ⟨node, hwalk⟩ := h.walk
    exact walkWithin_taken_of_grows hopened.grows hwalk
  folder := hopened.grows.folder _ h.folder
  plain := h.plain
  folders rest hrest := by
    rcases hopened (above ++ rest) with hsame | ⟨-, -, -, hfolder⟩
    · rw [hsame]
      exact h.folders rest hrest
    · exact Or.inr hfolder

/-- Walking down through folders. -/
theorem Descends.walk_eq (h : Descends root front above parts)
    (hfolder : root.shapeAt (above ++ parts) = some .folder) :
    ∃ left, ∀ followLast more, more ≠ [] →
      root.walkWithin followLast linkLimit [] (front ++ parts ++ more) =
        root.walkWithin followLast left (above ++ parts) more := by
  obtain ⟨node, hwalk⟩ := h.walk
  obtain ⟨left, hleft⟩ := exists_walkWithin_append hwalk
  refine ⟨left, fun followLast more hmore => ?_⟩
  rw [List.append_assoc, hleft followLast (parts ++ more) (by simp [hmore])]
  exact walkWithin_append_folders hfolder h.plain followLast left more

/-- Walking down where a folder is missing. -/
theorem Descends.walk_missing (h : Descends root front above parts)
    (hnone : root.shapeAt (above ++ parts) = none) (followLast : Bool) {more : Path}
    (hmore : more ≠ []) :
    root.walkWithin followLast linkLimit [] (front ++ parts ++ more) = .error .fileMissing := by
  obtain ⟨node, hwalk⟩ := h.walk
  obtain ⟨left, hleft⟩ := exists_walkWithin_append hwalk
  rw [List.append_assoc, hleft followLast (parts ++ more) (by simp [hmore])]
  exact walkWithin_append_missing hmore h.folder h.folders h.plain hnone followLast left

/-- A step down from a folder that is there. -/
theorem Descends.walk_concat (h : Descends root front above parts)
    (hfolder : root.shapeAt (above ++ parts) = some .folder) (hname : name ≠ upPart)
    (hlink : ∀ target, root.shapeAt (above ++ parts ++ [name]) ≠ some (.link target))
    (followLast : Bool) :
    ∃ landing, root.walkWithin followLast linkLimit [] (front ++ parts ++ [name]) = .ok landing ∧
      landing.path = above ++ parts ++ [name] := by
  obtain ⟨left, hleft⟩ := h.walk_eq hfolder
  rw [hleft followLast [name] (by simp)]
  cases hnext : root.shapeAt (above ++ parts ++ [name]) with
  | none =>
    rw [walkWithin_vacant hfolder hname hnext]
    exact ⟨_, rfl, rfl⟩
  | some shape =>
    obtain ⟨node, hnode⟩ := walkWithin_nil_of_shapeAt hnext followLast left
    have hsolid : root.Solid (above ++ parts ++ [name]) := by
      refine ⟨shape, hnext, ?_⟩
      rintro target rfl
      exact hlink target hnext
    rw [walkWithin_down hfolder hname hsolid, hnode]
    exact ⟨_, rfl, rfl⟩

/-- What a path leads to stands at the place that its walk comes to. -/
theorem lookup?_of_walk {landing : Place} (h : root.walk path = .ok landing) :
    root.lookup? path = root.at? landing.path := by
  rw [lookup?, h]
  cases landing with
  | taken reached node => exact (at?_of_walkWithin h).symm
  | vacant above name => exact (Option.map_eq_none_iff.mp (shapeAt_of_walkWithin h).2).symm

/-- A path that comes to a folder leads to a folder. -/
theorem hasFolder_of_walk {landing : Place} (h : root.walk path = .ok landing)
    (hfolder : root.shapeAt landing.path = some .folder) : root.hasFolder path = true := by
  obtain ⟨node, hnode, hshape⟩ := Option.map_eq_some_iff.mp hfolder
  rw [hasFolder, lookup?_of_walk h, hnode]
  cases node with
  | folder entries => rfl
  | file content => cases hshape
  | link target => cases hshape

/-- One folder is made in a folder that is there, or is there already. -/
theorem Descends.ensureFolder (h : Descends root front above (parts ++ [name]))
    (hnull : (front ++ parts ++ [name]).hasNull = false)
    (hfolder : root.shapeAt (above ++ parts) = some .folder)
    (hway : above ++ parts ++ [name] <+: place) (hne : above ++ parts ++ [name] ≠ place) :
    ∃ after, root.ensureFolder (front ++ parts ++ [name]).reverse = .ok after ∧
      Opened root place after ∧ after.shapeAt (above ++ parts ++ [name]) = some .folder := by
  have hparts := h.shorter (List.prefix_append parts [name])
  have hname : name ≠ upPart := h.plain name (by simp)
  have hnext := h.folders _ (List.prefix_refl _)
  rw [← List.append_assoc] at hnext
  have hlink (target : Text) : root.shapeAt (above ++ parts ++ [name]) ≠ some (.link target) := by
    intro hlink
    rw [hlink] at hnext
    simp at hnext
  obtain ⟨landing, hwalk, hlanding⟩ := hparts.walk_concat hfolder hname hlink false
  have hmake := makeFolder_eq root hnull
  rw [walkToLink, hwalk] at hmake
  cases landing with
  | taken reached node =>
    have hthere : root.shapeAt (above ++ parts ++ [name]) = some .folder := by
      refine hnext.resolve_left fun hnone => ?_
      rw [← hlanding, Place.path, shapeAt, at?_of_walkWithin hwalk] at hnone
      cases hnone
    obtain ⟨landing', hwalk', hlanding'⟩ := hparts.walk_concat hfolder hname hlink true
    refine ⟨root, ?_, .refl root place, hthere⟩
    rw [Node.ensureFolder_of_makeFolder (by simp) hmake,
      if_pos (hasFolder_of_walk hwalk' (hlanding' ▸ hthere))]
  | vacant folderAbove folderName =>
    obtain ⟨habove, hnone⟩ := shapeAt_of_walkWithin hwalk
    change folderAbove ++ [folderName] = above ++ parts ++ [name] at hlanding
    rw [← hlanding] at hway hne ⊢
    refine ⟨_, ?_, opened_putAt habove hnone hway hne⟩
    rw [Node.ensureFolder, List.reverse_reverse, hmake]

/-- A folder that is there does not have to be made. -/
theorem Descends.ensureFolders_front (h : Descends root front above parts)
    (hnull : front.hasNull = false) : root.ensureFolders front.reverse = (.ok (), root) := by
  obtain ⟨node, hwalk⟩ := h.walk
  -- The way up from the folder is there, so nothing is missing on the way to it.
  have hup : root.shapeAt above.dropLast = some .folder := by
    rcases List.eq_nil_or_concat above with hnil | ⟨init, name, hconcat⟩
    · have hfolder := h.folder
      rwa [hnil] at hfolder ⊢
    · have hfolder := h.folder
      rw [hconcat, List.concat_eq_append] at hfolder ⊢
      rw [List.dropLast_concat]
      exact shapeAt_of_shapeAt_append (by simp) hfolder
  have hfound : root.walk (front ++ [upPart]) ≠ .error .fileMissing := by
    obtain ⟨left, hleft⟩ := exists_walkWithin_append hwalk
    obtain ⟨top, htop⟩ := walkWithin_nil_of_shapeAt hup true left
    rw [Node.walk, hleft true [upPart] (by simp), walkWithin_up h.folder rfl, htop]
    simp
  obtain ⟨result, hensure, hresult⟩ := ensureFolders_of_found hnull (by simp) hfound
  rw [hensure, hresult (hasFolder_of_walk hwalk h.folder)]

/-- The folders down to a place are made where they are missing. -/
theorem Descends.ensureFolders (h : Descends root front above parts)
    (hnull : (front ++ parts).hasNull = false) (hway : above ++ parts <+: place)
    (hne : above ++ parts ≠ place) :
    ∃ after, root.ensureFolders (front ++ parts).reverse = (.ok (), after) ∧
      Opened root place after ∧ after.shapeAt (above ++ parts) = some .folder := by
  induction parts using List.reverseRecOn with
  | nil =>
    rw [List.append_nil] at hnull ⊢
    rw [List.append_nil]
    exact ⟨root, h.ensureFolders_front hnull, .refl root place, h.folder⟩
  | append_singleton init name ih =>
    have hinit := h.shorter (List.prefix_append init [name])
    rw [← List.append_assoc] at hnull hway hne ⊢
    rw [← List.append_assoc]
    have hreversed : (front ++ init ++ [name]).reverse = name :: (front ++ init).reverse := by simp
    rcases h.folders init (List.prefix_append init [name]) with hnone | hfolder
    · have hmissing : root.ensureFolder (front ++ init ++ [name]).reverse =
          .error .fileMissing := by
        rw [Node.ensureFolder, List.reverse_reverse, makeFolder_eq root hnull, walkToLink,
          hinit.walk_missing hnone false (by simp)]
      have hnull' : (front ++ init).hasNull = false := by
        rw [hasNull_append, Bool.or_eq_false_iff] at hnull
        exact hnull.1
      have hne' : above ++ init ≠ place := by
        rintro rfl
        have hlength := hway.length_le
        simp only [List.length_append, List.length_singleton] at hlength
        omega
      obtain ⟨middle, hensure, hopened, hthere⟩ :=
        ih hinit hnull' ((List.prefix_append ..).trans hway) hne'
      obtain ⟨after, hensure', hopened', hthere'⟩ :=
        (h.of_opened hopened).ensureFolder hnull hthere hway hne
      refine ⟨after, ?_, hopened.trans hopened', hthere'⟩
      rw [hreversed] at hmissing hensure' ⊢
      rw [Node.ensureFolders, hmissing]
      simp only [hensure, hensure']
    · obtain ⟨after, hensure, hopened, hthere⟩ := h.ensureFolder hnull hfolder hway hne
      refine ⟨after, ?_, hopened, hthere⟩
      rw [hreversed] at hensure ⊢
      rw [Node.ensureFolders, hensure]

end Folders

section Files

/-- Writing at a place that a walk comes to. -/
theorem putFile_of_walk (hnull : path.hasNull = false) {landing : Place}
    (hwalk : root.walk path = .ok landing) (htakes : root.Takes landing.path)
    (content : ByteArray) :
    ∃ after, root.putFile path content = .ok after ∧ Holds root landing.path content after := by
  rw [putFile, checkPath, hnull, hwalk]
  cases landing with
  | vacant above name =>
    refine ⟨_, rfl, holds_putAt htakes (fun above' name' heq => ?_) content⟩
    obtain ⟨rfl, -⟩ := List.append_inj' (show above ++ [name] = above' ++ [name'] from heq) rfl
    exact (shapeAt_of_walkWithin hwalk).1
  | taken place node =>
    have hshape : root.shapeAt place = some node.shape := by
      rw [shapeAt, at?_of_walkWithin hwalk]
      rfl
    obtain ⟨content', hfile⟩ := htakes _ hshape
    cases node with
    | folder entries => cases hfile
    | link target => cases hfile
    | file content' =>
      refine ⟨_, rfl, holds_putAt htakes (fun above name heq => ?_) content⟩
      change place = above ++ [name] at heq
      rw [heq] at hshape
      exact shapeAt_of_shapeAt_append (by simp) hshape

/-- Nothing can be written where something other than a file stands, or a walk does not get
through. -/
theorem putFile_of_not_takes
    (h : ∀ landing, root.walk path = .ok landing → ¬ root.Takes landing.path)
    (content : ByteArray) : ∃ failure, root.putFile path content = .error failure := by
  rw [putFile]
  rcases checkPath path with failure | _
  · exact ⟨failure, rfl⟩
  · rcases hwalk : root.walk path with failure | ⟨place, node⟩ | ⟨above, name⟩
    · exact ⟨failure, rfl⟩
    · cases node with
      | folder entries => exact ⟨.isDirectory, rfl⟩
      | link target => exact ⟨.isDirectory, rfl⟩
      | file content' =>
        refine absurd (fun shape hshape => ⟨content', ?_⟩) (h _ hwalk)
        rw [Place.path, shapeAt, at?_of_walkWithin hwalk] at hshape
        exact (Option.some.inj hshape).symm
    · refine absurd (fun shape hshape => ?_) (h _ hwalk)
      rw [Place.path, (shapeAt_of_walkWithin hwalk).2] at hshape
      cases hshape

/-- Above a path on which something was found a write makes no folder. -/
theorem ensureFolders_parent (hnull : path.hasNull = false)
    (hfound : root.walk path ≠ .error .fileMissing) :
    ∃ result, root.ensureFolders path.parent.reverse = (result, root) := by
  rcases List.eq_nil_or_concat path with rfl | ⟨front, name, rfl⟩
  · exact ⟨.ok (), rfl⟩
  · rw [List.concat_eq_append] at hnull hfound ⊢
    rw [hasNull_append, Bool.or_eq_false_iff] at hnull
    obtain ⟨result, hensure, -⟩ := ensureFolders_of_found hnull.1 (by simp) hfound
    rw [Path.parent, List.dropLast_concat]
    exact ⟨result, hensure⟩

/-- A write to a place that a walk comes to writes there, or fails and changes nothing. -/
theorem write_of_walk (hnull : path.hasNull = false) {landing : Place}
    (hwalk : root.walk path = .ok landing) (htakes : root.Takes landing.path) (text : Text) :
    (∃ failure, root.write path text = (.error failure, root)) ∨
      ∃ after, root.write path text = (.ok (), after) ∧
        Holds root landing.path (encode text) after := by
  obtain ⟨result, hensure⟩ := ensureFolders_parent hnull (by rw [hwalk]; simp)
  rw [write, hensure]
  cases result with
  | error failure => exact Or.inl ⟨failure, rfl⟩
  | ok _ =>
    obtain ⟨after, hput, hholds⟩ := putFile_of_walk hnull hwalk htakes (encode text)
    exact Or.inr ⟨after, by simp only [hput], hholds⟩

/-- A file that a path leads to can be written again. -/
theorem write_of_walk_file (hnull : path.hasNull = false) {content : ByteArray}
    (hwalk : root.walk path = .ok (.taken place (.file content))) (text : Text) :
    ∃ after, root.write path text = (.ok (), after) ∧ Holds root place (encode text) after := by
  have hensure : root.ensureFolders path.parent.reverse = (.ok (), root) := by
    rcases List.eq_nil_or_concat path with rfl | ⟨front, name, rfl⟩
    · rfl
    · rw [List.concat_eq_append] at hnull hwalk ⊢
      rw [hasNull_append, Bool.or_eq_false_iff] at hnull
      obtain ⟨folder, node, hfront, hfolder⟩ := exists_walkWithin_of_append (by simp) hwalk
      obtain ⟨result, hensure, hthere⟩ := ensureFolders_of_found hnull.1 (by simp)
        (show root.walk (front ++ [name]) ≠ .error .fileMissing by rw [hwalk]; simp)
      rw [Path.parent, List.dropLast_concat, hensure, hthere (hasFolder_of_walk hfront hfolder)]
  have htakes : root.Takes place := fun shape hshape => by
    rw [shapeAt, at?_of_walkWithin hwalk] at hshape
    exact ⟨content, (Option.some.inj hshape).symm⟩
  obtain ⟨after, hput, hholds⟩ := putFile_of_walk hnull hwalk htakes (encode text)
  exact ⟨after, by rw [write, hensure]; simp only [hput], hholds⟩

/-- A write where no file can be fails and changes nothing. -/
theorem write_of_not_takes (hnull : path.hasNull = false)
    (hfound : root.walk path ≠ .error .fileMissing)
    (h : ∀ landing, root.walk path = .ok landing → ¬ root.Takes landing.path) (text : Text) :
    ∃ failure, root.write path text = (.error failure, root) := by
  obtain ⟨result, hensure⟩ := ensureFolders_parent hnull hfound
  rw [write, hensure]
  cases result with
  | error failure => exact ⟨failure, rfl⟩
  | ok _ =>
    obtain ⟨failure, hput⟩ := putFile_of_not_takes h (encode text)
    exact ⟨failure, by simp only [hput]⟩

/-- A write down from a folder makes the folders that are missing, and writes. -/
theorem Descends.write (h : Descends root front above parts) (hname : name ≠ upPart)
    (hnull : (front ++ parts ++ [name]).hasNull = false)
    (htakes : root.Takes (above ++ parts ++ [name])) (text : Text) :
    ∃ after, root.write (front ++ parts ++ [name]) text = (.ok (), after) ∧
      Holds root (above ++ parts ++ [name]) (encode text) after := by
  have hnull' : (front ++ parts).hasNull = false := by
    rw [hasNull_append, Bool.or_eq_false_iff] at hnull
    exact hnull.1
  have hne : above ++ parts ≠ above ++ parts ++ [name] := by simp
  obtain ⟨middle, hensure, hopened, hthere⟩ :=
    h.ensureFolders hnull' (List.prefix_append ..) hne
  have hplace : middle.shapeAt (above ++ parts ++ [name]) =
      root.shapeAt (above ++ parts ++ [name]) :=
    (hopened _).resolve_right fun hmade => hmade.2.1 rfl
  have hlink (target : Text) :
      middle.shapeAt (above ++ parts ++ [name]) ≠ some (.link target) := by
    rw [hplace]
    intro hlink
    obtain ⟨content, hfile⟩ := htakes _ hlink
    cases hfile
  obtain ⟨landing, hwalk, hlanding⟩ := (h.of_opened hopened).walk_concat hthere hname hlink true
  have htakes' : middle.Takes landing.path := by
    rw [hlanding]
    intro shape hshape
    exact htakes shape (hplace ▸ hshape)
  obtain ⟨after, hput, hholds⟩ := putFile_of_walk hnull hwalk htakes' (encode text)
  rw [hlanding] at hholds
  refine ⟨after, ?_, hholds.here, fun other hother => ?_⟩
  · rw [Node.write, Path.parent, List.dropLast_concat, hensure]
    simp only [hput]
  · rcases hholds.others other hother with hsame | ⟨hway, hnone, hfolder⟩
    · rw [hsame]
      exact (hopened other).imp_right fun hmade => ⟨hmade.1, hmade.2.2⟩
    · rcases hopened other with hsame | ⟨-, -, -, hfolder'⟩
      · exact Or.inr ⟨hway, hsame ▸ hnone, hfolder⟩
      · rw [hfolder'] at hnone
        cases hnone

end Files

end EnvFiles.Node
