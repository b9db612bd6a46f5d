import EnvFiles.Proofs.Store.View
import EnvFiles.Proofs.Tree.Writing
import EnvFiles.Store.OnTree

/-!
# The store on a file tree

In a file tree reading a file back gives what was last written, as long as the paths of a run lead
where a `Layout` says. A path leads to a place if a walk comes to it, through links or not, or if
it goes down to it through folders that are there or can be made. A path may also be blocked, and
then nothing is read from it and nothing can be written to it. Every write leaves such a tree, so
the tree stays one for a whole run.
-/

namespace EnvFiles

namespace Node

variable {root after : Node} {path other place written : Path} {content : ByteArray}

/-- A path whose file is, or can be made, at a place: a walk comes to the place, or the path goes
down to it from a folder. -/
inductive Leads (root : Node) : Path → Path → Prop
  | there {path : Path} {landing : Place} : root.walk path = .ok landing →
      root.Takes landing.path → Leads root path landing.path
  | below {front above parts : Path} {name : Text} : root.Descends front above parts →
      name ≠ upPart → root.Takes (above ++ parts ++ [name]) →
        Leads root (front ++ parts ++ [name]) (above ++ parts ++ [name])

/-- A path at which no file can be: a walk does not get through, or comes to something else. -/
structure Blocked (root : Node) (path : Path) : Prop where
  found : root.walk path ≠ .error .fileMissing
  not_takes : ∀ landing, root.walk path = .ok landing → ¬ root.Takes landing.path

/-- The text of the file at a place. -/
def contentAt (root : Node) (place : Path) : Except Failure (Option Text) :=
  match root.shapeAt place with
  | some (.file content) => (decode content).map fun text => some (Text.unifyNewlines text)
  | _ => .ok none

/-- A written text decodes to itself. -/
theorem decode_encode (text : Text) : decode (encode text) = .ok text := by
  have hbytes : encode text = text.utf8Encode := by simp [encode]
  rw [decode, hbytes, List.utf8Decode?_utf8Encode]

/-- Writing a file at a place that takes one lets the tree grow. -/
theorem Holds.grows (h : Holds root place content after) (htakes : root.Takes place) :
    Grows root after := by
  refine .of_forall fun other => ?_
  by_cases hother : other = place
  · subst hother
    cases hshape : root.shapeAt other with
    | none => exact Or.inr (Or.inl rfl)
    | some shape =>
      obtain ⟨content', rfl⟩ := htakes shape hshape
      exact Or.inr (Or.inr ⟨content', content, rfl, h.here⟩)
  · exact (h.others other hother).imp_right fun hmade => Or.inl hmade.2.1

/-- A place off the way to a written file holds what it held. -/
theorem Holds.shapeAt_eq (h : Holds root written content after) (hne : place ≠ written)
    (hway : ¬ place <+: written) : after.shapeAt place = root.shapeAt place :=
  (h.others place hne).resolve_right fun hmade => hway hmade.1

/-- Places that lie apart: neither is on the way to the other, unless they are the same. -/
def ApartPlaces (place written : Path) : Prop :=
  (place <+: written → place = written) ∧ (written <+: place → place = written)

/-- A place takes a file after one was written there or apart from it. -/
theorem Holds.takes (h : Holds root written content after) (htakes : root.Takes place)
    (hapart : ApartPlaces place written) : after.Takes place := by
  intro shape hshape
  by_cases hplace : place = written
  · subst hplace
    rw [h.here] at hshape
    exact ⟨content, (Option.some.inj hshape).symm⟩
  · rw [h.shapeAt_eq hplace fun hway => hplace (hapart.1 hway)] at hshape
    exact htakes shape hshape

/-- No link is put by a write. -/
theorem Holds.not_link (h : Holds root written content after)
    (hnone : root.shapeAt place = none) (target : Text) :
    after.shapeAt place ≠ some (.link target) := by
  intro hlink
  by_cases hplace : place = written
  · rw [hplace, h.here] at hlink
    cases hlink
  · rcases h.others place hplace with hsame | ⟨-, -, hfolder⟩
    · rw [hsame, hnone] at hlink
      cases hlink
    · rw [hfolder] at hlink
      cases hlink

/-- A walk that found something ends as before after a file was written somewhere. -/
theorem Holds.walk_eq (h : Holds root written content after) (htakes : root.Takes written)
    (hfound : root.walk path ≠ .error .fileMissing) :
    (after.walk path).map Place.path = (root.walk path).map Place.path :=
  walkWithin_of_grows (h.grows htakes) rfl hfound fun _ _ hnone => h.not_link hnone

/-- A path leads to its place after a file was written there or apart from it. -/
theorem Leads.of_holds (h : root.Leads path place) (hholds : Holds root written content after)
    (htakes : root.Takes written) (hapart : ApartPlaces place written) :
    after.Leads path place := by
  have hgrows := hholds.grows htakes
  cases h with
  | @there _ landing hwalk hplace =>
    have hsame := hholds.walk_eq htakes (by rw [hwalk]; simp : root.walk path ≠ _)
    rw [hwalk] at hsame
    cases hafter : after.walk path with
    | error failure =>
      rw [hafter] at hsame
      cases hsame
    | ok landing' =>
      rw [hafter] at hsame
      have hpath : landing'.path = landing.path := Except.ok.inj hsame
      have htakes' := hholds.takes hplace hapart
      rw [← hpath] at htakes' ⊢
      exact .there hafter htakes'
  | @below front above parts name hdescends hname hplace =>
    refine .below ⟨?_, hgrows.folder _ hdescends.folder, hdescends.plain, fun rest hrest => ?_⟩
      hname (hholds.takes hplace hapart)
    · obtain ⟨node, hwalk⟩ := hdescends.walk
      exact walkWithin_taken_of_grows hgrows hwalk
    · have hne : above ++ rest ≠ written := by
        rintro rfl
        have hway : above ++ rest <+: above ++ parts ++ [name] := by
          rw [List.append_assoc]
          exact (List.prefix_append_right_inj above).mpr
            (hrest.trans (List.prefix_append parts [name]))
        have hlength := congrArg List.length (hapart.2 hway)
        have hshort := hrest.length_le
        simp only [List.length_append, List.length_singleton] at hlength
        omega
      rcases hholds.others _ hne with hsame | ⟨-, -, hfolder⟩
      · rw [hsame]
        exact hdescends.folders rest hrest
      · exact Or.inr hfolder

/-- A blocked path is blocked after a file was written somewhere. -/
theorem Blocked.of_holds (h : root.Blocked path) (hholds : Holds root written content after)
    (htakes : root.Takes written) : after.Blocked path := by
  have hsame := hholds.walk_eq htakes h.found
  constructor
  · intro hmissing
    rw [hmissing] at hsame
    cases hwalk : root.walk path with
    | error failure =>
      rw [hwalk] at hsame
      exact h.found (hwalk.trans (congrArg Except.error (Except.error.inj hsame).symm))
    | ok landing =>
      rw [hwalk] at hsame
      cases hsame
  · intro landing hlanding htakes'
    rw [hlanding] at hsame
    cases hwalk : root.walk path with
    | error failure =>
      rw [hwalk] at hsame
      cases hsame
    | ok landing' =>
      rw [hwalk] at hsame
      have hpath : landing.path = landing'.path := Except.ok.inj hsame
      refine h.not_takes landing' hwalk fun shape hshape => ?_
      rw [← hpath] at hshape
      cases shape with
      | file content' => exact ⟨content', rfl⟩
      | folder => exact htakes' _ ((hholds.grows htakes).folder _ hshape)
      | link target => exact htakes' _ ((hholds.grows htakes).link _ _ hshape)

end Node

section Reading

variable {root : Node} {path place : Path}

/-- A path that comes to a node comes to its place. -/
theorem Node.walk_eq_taken {landing : Place} {node : Node} (hwalk : root.walk path = .ok landing)
    (hnode : root.at? landing.path = some node) :
    root.walk path = .ok (.taken landing.path node) := by
  cases landing with
  | taken reached other =>
    have hother : root.at? reached = some other := at?_of_walkWithin hwalk
    rw [hwalk, Place.path, Option.some.inj (hother.symm.trans hnode)]
  | vacant above name =>
    have hnone := (shapeAt_of_walkWithin hwalk).2
    rw [shapeAt] at hnone
    rw [Place.path] at hnode
    rw [hnode] at hnone
    cases hnone

/-- A path that comes to a file reads as its text. -/
theorem readText_of_walk (hnull : path.hasNull = false) {content : ByteArray}
    (hwalk : root.walk path = .ok (.taken place (.file content))) :
    root.readText path = (Node.decode content).map Text.unifyNewlines := by
  rw [Node.readText, Node.checkPath, hnull, hwalk]
  change (Node.decode content >>= fun text => pure (Text.unifyNewlines text)) = _
  cases Node.decode content <;> rfl

/-- A path that comes to a place reads as the place. -/
theorem readFile_of_walk (hnull : path.hasNull = false) {landing : Place}
    (hwalk : root.walk path = .ok landing) (htakes : root.Takes landing.path) :
    readFile root path = root.contentAt landing.path := by
  rw [readFile, Node.hasFile, Node.lookup?_of_walk hwalk, Node.contentAt, Node.shapeAt]
  cases hnode : root.at? landing.path with
  | none => rfl
  | some node =>
    obtain ⟨content, hfile⟩ := htakes node.shape (by rw [Node.shapeAt, hnode]; rfl)
    cases node with
    | folder entries => cases hfile
    | link target => cases hfile
    | file content =>
      change (root.readText path).map some = (Node.decode content).map _
      rw [readText_of_walk hnull (Node.walk_eq_taken hwalk hnode)]
      cases Node.decode content <;> rfl

/-- A path that leads to no file holds nothing. -/
theorem readFile_of_lookup? (h : ∀ node, root.lookup? path = some node → node.isFile = false) :
    readFile root path = .ok none := by
  rw [readFile, Node.hasFile]
  cases hnode : root.lookup? path with
  | none => rfl
  | some node => rw [Option.any_some, h node hnode, if_neg (by simp)]

/-- A path reads as the place to which it leads. -/
theorem readFile_of_leads (hnull : path.hasNull = false) (h : root.Leads path place) :
    readFile root path = root.contentAt place := by
  cases h with
  | there hwalk htakes => exact readFile_of_walk hnull hwalk htakes
  | @below front above parts name hdescends hname htakes =>
    rcases hdescends.folders parts (List.prefix_refl _) with hnone | hfolder
    · have hmissing : root.walk (front ++ parts ++ [name]) = .error .fileMissing :=
        hdescends.walk_missing hnone true (by simp)
      have hplace : root.shapeAt (above ++ parts ++ [name]) = none := by
        cases hshape : root.shapeAt (above ++ parts ++ [name]) with
        | none => rfl
        | some shape =>
          rw [Node.shapeAt_of_shapeAt_append (by simp) hshape] at hnone
          cases hnone
      rw [Node.contentAt, hplace]
      refine readFile_of_lookup? fun node hnode => ?_
      rw [Node.lookup?, hmissing] at hnode
      cases hnode
    · have hlink (target : Text) :
          root.shapeAt (above ++ parts ++ [name]) ≠ some (.link target) := by
        intro hlink
        obtain ⟨content, hfile⟩ := htakes _ hlink
        cases hfile
      obtain ⟨landing, hwalk, hlanding⟩ := hdescends.walk_concat hfolder hname hlink true
      rw [← hlanding] at htakes ⊢
      exact readFile_of_walk hnull hwalk htakes

/-- A blocked path holds nothing. -/
theorem readFile_of_blocked (h : root.Blocked path) : readFile root path = .ok none := by
  refine readFile_of_lookup? fun node hnode => ?_
  cases hwalk : root.walk path with
  | error failure =>
    rw [Node.lookup?, hwalk] at hnode
    cases hnode
  | ok landing =>
    rw [Node.lookup?_of_walk hwalk] at hnode
    cases node with
    | folder entries => rfl
    | link target => rfl
    | file content =>
      refine absurd (fun shape hshape => ⟨content, ?_⟩) (h.not_takes landing hwalk)
      rw [Node.shapeAt, hnode] at hshape
      exact (Option.some.inj hshape).symm

end Reading

/-- Which paths a run works with, and at which places their files are. A path without a place
leads nowhere where a file can be. No place is on the way to another. -/
structure Layout where
  covers : Path → Prop
  place? : Path → Option Path
  eq_of_isPrefixOf : ∀ first second, covers first → covers second → ∀ place place',
    place? first = some place → place? second = some place' → place <+: place' → place = place'

namespace Layout

variable {layout : Layout} {root after : Node} {path other : Path}

/-- A path leads where the layout says. -/
def Places (layout : Layout) (root : Node) (path : Path) : Prop :=
  path.hasNull = false ∧ match layout.place? path with
    | some place => root.Leads path place
    | none => root.Blocked path

/-- A tree in which every path leads where the layout says. -/
def Fits (layout : Layout) (root : Node) : Prop :=
  ∀ path, layout.covers path → layout.Places root path

/-- What tells the file of a path: its place, or the path itself. -/
def key (layout : Layout) (path : Path) : Path ⊕ Path :=
  match layout.place? path with
  | some place => .inr place
  | none => .inl path

/-- What a path holds is told by its key. -/
theorem Places.readFile_eq (h : layout.Places root path) :
    readFile root path = match layout.key path with
      | .inr place => root.contentAt place
      | .inl _ => .ok none := by
  obtain ⟨hnull, hplace⟩ := h
  rw [key]
  cases hplace? : layout.place? path with
  | some place =>
    rw [hplace?] at hplace
    exact readFile_of_leads hnull hplace
  | none =>
    rw [hplace?] at hplace
    exact readFile_of_blocked hplace

/-- A write to a path writes at its place, or fails and changes nothing. -/
theorem Places.write (h : layout.Places root path) (text : Text) :
    (∃ failure, root.write path text = (.error failure, root)) ∨
      ∃ place after, layout.place? path = some place ∧ root.write path text = (.ok (), after) ∧
        root.Takes place ∧ root.Holds place (Node.encode text) after := by
  obtain ⟨hnull, hplace⟩ := h
  cases hplace? : layout.place? path with
  | none =>
    rw [hplace?] at hplace
    exact Or.inl (Node.write_of_not_takes hnull hplace.found hplace.not_takes text)
  | some place =>
    rw [hplace?] at hplace
    cases hplace with
    | there hwalk htakes =>
      rcases Node.write_of_walk hnull hwalk htakes text with hfailed | ⟨after, hwrite, hholds⟩
      · exact Or.inl hfailed
      · exact Or.inr ⟨_, after, rfl, hwrite, htakes, hholds⟩
    | below hdescends hname htakes =>
      obtain ⟨after, hwrite, hholds⟩ := hdescends.write hname hnull htakes text
      exact Or.inr ⟨_, after, rfl, hwrite, htakes, hholds⟩

/-- A file is read back as it was written, with line feeds for all its line ends. -/
theorem contentAt_of_holds {root after : Node} {place : Path} {text : Text}
    (h : root.Holds place (Node.encode text) after) :
    after.contentAt place = .ok (some (Text.unifyNewlines text)) := by
  rw [Node.contentAt, h.here]
  change (Node.decode (Node.encode text)).map _ = _
  rw [Node.decode_encode]
  rfl

/-- Places that a layout knows lie apart. -/
theorem apartPlaces {first second place place' : Path} (hfirst : layout.covers first)
    (hsecond : layout.covers second) (hplace : layout.place? first = some place)
    (hplace' : layout.place? second = some place') : Node.ApartPlaces place place' :=
  ⟨layout.eq_of_isPrefixOf first second hfirst hsecond place place' hplace hplace',
    fun hway => (layout.eq_of_isPrefixOf second first hsecond hfirst place' place hplace' hplace
      hway).symm⟩

/-- A write leaves every path where the layout says. -/
theorem Fits.write (h : layout.Fits root) (hpath : layout.covers path) (text : Text) :
    layout.Fits (root.write path text).2 := by
  rcases (h path hpath).write text with ⟨failure, hwrite⟩ | ⟨place, after, hplace, hwrite, htakes,
    hholds⟩
  · rwa [hwrite]
  · rw [hwrite]
    intro other hother
    obtain ⟨hnull, hleads⟩ := h other hother
    refine ⟨hnull, ?_⟩
    cases hplace' : layout.place? other with
    | none =>
      rw [hplace'] at hleads
      exact hleads.of_holds hholds htakes
    | some place' =>
      rw [hplace'] at hleads
      exact hleads.of_holds hholds htakes (layout.apartPlaces hother hpath hplace' hplace)

/-- A write to a path is read back from the paths with its key. -/
theorem Fits.readFile_write (h : layout.Fits root) (hpath : layout.covers path)
    (hother : layout.covers other) (text : Text) (hkey : layout.key path = layout.key other)
    (hanswer : (root.write path text).1 = .ok ()) :
    readFile (root.write path text).2 other = .ok (some (Text.unifyNewlines text)) := by
  have hfits := h.write hpath text
  rcases (h path hpath).write text with ⟨failure, hwrite⟩ | ⟨place, after, hplace, hwrite, htakes,
    hholds⟩
  · rw [hwrite] at hanswer
    cases hanswer
  · rw [hwrite] at hfits ⊢
    have hkey' : layout.key other = .inr place := by rw [← hkey, key, hplace]
    rw [(hfits other hother).readFile_eq, hkey']
    exact contentAt_of_holds hholds

/-- A write leaves what the paths with other keys hold. -/
theorem Fits.readFile_write_other (h : layout.Fits root) (hpath : layout.covers path)
    (hother : layout.covers other) (text : Text) (hkey : layout.key path ≠ layout.key other) :
    readFile (root.write path text).2 other = readFile root other := by
  have hfits := h.write hpath text
  rcases (h path hpath).write text with ⟨failure, hwrite⟩ | ⟨place, after, hplace, hwrite, htakes,
    hholds⟩
  · rw [hwrite]
  · rw [hwrite] at hfits ⊢
    rw [(hfits other hother).readFile_eq, (h other hother).readFile_eq]
    cases hplace' : layout.place? other with
    | none => rw [key, hplace']
    | some place' =>
      have hne : place' ≠ place := by
        rintro rfl
        exact hkey (by rw [key, key, hplace, hplace'])
      have hapart := layout.apartPlaces hother hpath hplace' hplace
      have hsame := hholds.shapeAt_eq hne fun hway => hne (hapart.1 hway)
      simp only [key, hplace', Node.contentAt, hsame]

/-- A write that fails changes nothing. -/
theorem Places.write_failed (h : layout.Places root path) {text : Text} {failure : Failure}
    (hanswer : (root.write path text).1 = .error failure) : (root.write path text).2 = root := by
  rcases h.write text with ⟨failure, hwrite⟩ | ⟨place, after, hplace, hwrite, htakes, hholds⟩
  · rw [hwrite]
  · rw [hwrite] at hanswer
    cases hanswer

end Layout

/-- There is a layout for every tree and all paths that lead somewhere or are blocked in it, as long
as none of their places is on the way to another. -/
theorem exists_layout (root : Node) (covers : Path → Prop)
    (hnull : ∀ path, covers path → path.hasNull = false)
    (hclear : ∀ path, covers path → (∃ place, root.Leads path place) ∨ root.Blocked path)
    (hapart : ∀ first second, covers first → covers second → ∀ place place',
      root.Leads first place → root.Leads second place' → place <+: place' → place = place') :
    ∃ layout : Layout, layout.covers = covers ∧ layout.Fits root := by
  classical
  let place? (path : Path) : Option Path :=
    if h : ∃ place, root.Leads path place then some h.choose else none
  have hleads : ∀ path place, place? path = some place → root.Leads path place := by
    intro path place hplace
    simp only [place?] at hplace
    split at hplace
    · rename_i h
      rw [← Option.some.inj hplace]
      exact h.choose_spec
    · cases hplace
  refine ⟨⟨covers, place?, fun first second hfirst hsecond place place' hplace hplace' =>
    hapart first second hfirst hsecond place place' (hleads _ _ hplace) (hleads _ _ hplace')⟩,
    rfl, fun path hpath => ⟨hnull path hpath, ?_⟩⟩
  cases hplace : place? path with
  | some place => simpa only [hplace] using hleads path place hplace
  | none =>
    have hnowhere : ¬ ∃ place, root.Leads path place := by
      intro h
      simp only [place?, dif_pos h] at hplace
      cases hplace
    simpa only [hplace] using (hclear path hpath).resolve_left hnowhere

/-- The store on a file tree, for trees in which the paths of a run lead where a layout says. -/
def treeView (layout : Layout) : StoreView treeStore where
  covers := layout.covers
  sameFile path other := layout.key path = layout.key other
  valid := layout.Fits
  files := readFile
  sameFile_equivalence := ⟨fun _ => rfl, Eq.symm, Eq.trans⟩
  files_congr root first second hvalid hfirst hsecond hsame := by
    rw [(hvalid first hfirst).readFile_eq, (hvalid second hsecond).readFile_eq, hsame]
  answer_read _ _ _ := rfl
  valid_read _ _ hvalid := hvalid
  files_read _ _ _ := rfl
  valid_write _ _ text hvalid hcovers := hvalid.write hcovers text
  files_write _ _ text _ hvalid hcovers hother hanswer hsame :=
    ⟨_, hvalid.readFile_write hcovers hother text hsame hanswer, Or.inr rfl⟩
  files_write_other _ _ text _ hvalid hcovers hother hne :=
    hvalid.readFile_write_other hcovers hother text hne
  files_write_failed root path text other failure hvalid hcovers _ hanswer := by
    change readFile (root.write path text).2 other = readFile root other
    rw [(hvalid path hcovers).write_failed hanswer]

end EnvFiles
