import EnvFiles.Proofs.Tree.Shape
import EnvFiles.Tree.Walk

/-!
# Walks in a growing tree

A tree grows when its folders and links stay and its files stay files. A walk then ends as before:
it comes to the same place, or cannot get through for the same reason. Only a walk that found
nothing may find something. The lemmas at the end take a walk apart at a folder on its way.
-/

namespace EnvFiles

/-- The place itself, whether or not something stands there. -/
def Place.path : Place → Path
  | .taken path _ => path
  | .vacant above name => above ++ [name]

namespace Node

/-- Going on at a link. -/
def followLink (root : Node) (followLast : Bool) (links : Nat) (above path : Path) :
    Except Failure Place :=
  match links with
  | 0 => .error .tooManyLinks
  | fewer + 1 => root.walkWithin followLast fewer above path

/-- A place where something stands that is not a link. -/
def Solid (root : Node) (place : Path) : Prop :=
  ∃ shape, root.shapeAt place = some shape ∧ ∀ target, shape ≠ .link target

/-- The null character stands in a path if it stands in one of its parts. -/
theorem hasNull_append {first second : Path} :
    (first ++ second).hasNull = (first.hasNull || second.hasNull) :=
  List.any_append

section Steps

variable {root : Node} {followLast : Bool} {links : Nat} {reached : Path} {part : Text}
  {rest : Path}

/-- A walk is at its end. -/
theorem walkWithin_nil (root : Node) (followLast : Bool) (links : Nat) (reached : Path) :
    root.walkWithin followLast links reached [] = match root.at? reached with
      | some node => .ok (.taken reached node)
      | none => .error .fileMissing := by
  cases links <;> rfl

/-- A step of a walk hangs on what stands at the place reached and at the next one. -/
theorem walkWithin_cons (root : Node) (followLast : Bool) (links : Nat) (reached : Path)
    (part : Text) (rest : Path) :
    root.walkWithin followLast links reached (part :: rest) = match root.shapeAt reached with
      | some .folder =>
        if part = upPart then root.walkWithin followLast links reached.dropLast rest
        else match root.shapeAt (reached ++ [part]) with
          | none => if rest.isEmpty then .ok (.vacant reached part) else .error .fileMissing
          | some (.link target) =>
            if rest.isEmpty && !followLast then .ok (.taken (reached ++ [part]) (.link target))
            else root.followLink followLast links (linkStart reached target)
              (Path.components target ++ rest)
          | some _ => root.walkWithin followLast links (reached ++ [part]) rest
      | some _ => .error .notDirectory
      | none => .error .fileMissing := by
  rw [shapeAt, shapeAt, at?_concat]
  cases links <;>
  · rw [walkWithin, walkWith]
    cases root.at? reached with
    | none => rfl
    | some node =>
      cases node with
      | file content => rfl
      | link target => rfl
      | folder entries =>
        simp only [Option.map_some, shape, Option.bind_some, child?]
        split
        · rfl
        · cases named? entries part with
          | none => rfl
          | some child => cases child <;> rfl

/-- A walk at its end where something stands. -/
theorem walkWithin_nil_of_shapeAt {shape : Shape} (h : root.shapeAt reached = some shape)
    (followLast : Bool) (links : Nat) :
    ∃ node, root.walkWithin followLast links reached [] = .ok (.taken reached node) := by
  obtain ⟨node, hnode, -⟩ := Option.map_eq_some_iff.mp h
  exact ⟨node, by rw [walkWithin_nil, hnode]⟩

/-- No step can be taken but from a folder. -/
theorem walkWithin_stuck (h : root.shapeAt reached ≠ some .folder) :
    root.walkWithin followLast links reached (part :: rest) =
      .error (if (root.shapeAt reached).isNone then .fileMissing else .notDirectory) := by
  rw [walkWithin_cons]
  cases hreached : root.shapeAt reached with
  | none => rfl
  | some shape =>
    cases shape with
    | folder => exact absurd hreached h
    | file content => rfl
    | link target => rfl

/-- A step up. -/
theorem walkWithin_up (hfolder : root.shapeAt reached = some .folder) (hup : part = upPart) :
    root.walkWithin followLast links reached (part :: rest) =
      root.walkWithin followLast links reached.dropLast rest := by
  rw [walkWithin_cons, hfolder]
  exact if_pos hup

/-- A step down. -/
theorem walkWithin_down (hfolder : root.shapeAt reached = some .folder) (hup : part ≠ upPart)
    (hnext : root.Solid (reached ++ [part])) :
    root.walkWithin followLast links reached (part :: rest) =
      root.walkWithin followLast links (reached ++ [part]) rest := by
  obtain ⟨shape, hshape, hlink⟩ := hnext
  rw [walkWithin_cons, hfolder]
  simp only [hup, if_false, hshape]

/-- A step to a link. -/
theorem walkWithin_link (hfolder : root.shapeAt reached = some .folder) (hup : part ≠ upPart)
    {target : Text} (hnext : root.shapeAt (reached ++ [part]) = some (.link target)) :
    root.walkWithin followLast links reached (part :: rest) =
      if rest.isEmpty && !followLast then .ok (.taken (reached ++ [part]) (.link target))
      else root.followLink followLast links (linkStart reached target)
        (Path.components target ++ rest) := by
  rw [walkWithin_cons, hfolder]
  simp only [hup, if_false, hnext]

/-- A step to where nothing stands. -/
theorem walkWithin_vacant (hfolder : root.shapeAt reached = some .folder) (hup : part ≠ upPart)
    (hnext : root.shapeAt (reached ++ [part]) = none) :
    root.walkWithin followLast links reached (part :: rest) =
      if rest.isEmpty then .ok (.vacant reached part) else .error .fileMissing := by
  rw [walkWithin_cons, hfolder]
  simp only [hup, if_false, hnext]

/-- What can be said of the walks on from every place can be shown step by step, and at a link for
every walk that may follow fewer of them. -/
theorem walk_induction (root : Node) {motive : Nat → Path → Path → Prop}
    (nil : ∀ links reached, motive links reached [])
    (stuck : ∀ links reached part rest, root.shapeAt reached ≠ some .folder →
      motive links reached (part :: rest))
    (up : ∀ links reached part rest, root.shapeAt reached = some .folder → part = upPart →
      motive links reached.dropLast rest → motive links reached (part :: rest))
    (vacant : ∀ links reached part rest, root.shapeAt reached = some .folder → part ≠ upPart →
      root.shapeAt (reached ++ [part]) = none → motive links reached (part :: rest))
    (down : ∀ links reached part rest, root.shapeAt reached = some .folder → part ≠ upPart →
      root.Solid (reached ++ [part]) → motive links (reached ++ [part]) rest →
        motive links reached (part :: rest))
    (link : ∀ links reached part rest target, root.shapeAt reached = some .folder →
      part ≠ upPart → root.shapeAt (reached ++ [part]) = some (.link target) →
        (∀ fewer, links = fewer + 1 →
          motive fewer (linkStart reached target) (Path.components target ++ rest)) →
          motive links reached (part :: rest))
    (links : Nat) (reached path : Path) : motive links reached path := by
  induction links using Nat.strongRecOn generalizing reached path with
  | ind links ihLinks =>
    induction path generalizing reached with
    | nil => exact nil links reached
    | cons part rest ih =>
      by_cases hfolder : root.shapeAt reached = some .folder
      · by_cases hup : part = upPart
        · exact up _ _ _ _ hfolder hup (ih _)
        · cases hnext : root.shapeAt (reached ++ [part]) with
          | none => exact vacant _ _ _ _ hfolder hup hnext
          | some shape =>
            cases shape with
            | folder => exact down _ _ _ _ hfolder hup ⟨_, hnext, by simp⟩ (ih _)
            | file content => exact down _ _ _ _ hfolder hup ⟨_, hnext, by simp⟩ (ih _)
            | link target =>
              exact link _ _ _ _ target hfolder hup hnext fun fewer hfewer =>
                ihLinks fewer (by omega) _ _
      · exact stuck _ _ _ _ hfolder

end Steps

section Walks

variable {root after : Node} {followLast : Bool} {links : Nat} {reached path place above : Path}
  {name : Text} {node : Node}

/-- What a walk comes to stands there. -/
theorem at?_of_walkWithin
    (h : root.walkWithin followLast links reached path = .ok (.taken place node)) :
    root.at? place = some node := by
  induction links, reached, path using walk_induction root with
  | nil links reached =>
    rw [walkWithin_nil] at h
    cases hthere : root.at? reached with
    | none => simp [hthere] at h
    | some there =>
      simp only [hthere, Except.ok.injEq, Place.taken.injEq] at h
      obtain ⟨rfl, rfl⟩ := h
      exact hthere
  | stuck links reached part rest hreached =>
    rw [walkWithin_stuck hreached] at h
    cases h
  | up links reached part rest hfolder hup ih => exact ih (walkWithin_up hfolder hup ▸ h)
  | vacant links reached part rest hfolder hup hnext =>
    rw [walkWithin_vacant hfolder hup hnext] at h
    split at h <;> cases h
  | down links reached part rest hfolder hup hnext ih =>
    exact ih (walkWithin_down hfolder hup hnext ▸ h)
  | link links reached part rest target hfolder hup hnext ih =>
    rw [walkWithin_link hfolder hup hnext] at h
    split at h
    · cases h
      obtain ⟨child, hchild, hshape⟩ := Option.map_eq_some_iff.mp hnext
      cases child with
      | link other =>
        cases hshape
        exact hchild
      | file content => cases hshape
      | folder entries => cases hshape
    · cases links with
      | zero => cases h
      | succ fewer => exact ih fewer rfl h

/-- A walk that comes to a vacant place stops in a folder without that name. -/
theorem shapeAt_of_walkWithin
    (h : root.walkWithin followLast links reached path = .ok (.vacant above name)) :
    root.shapeAt above = some .folder ∧ root.shapeAt (above ++ [name]) = none := by
  induction links, reached, path using walk_induction root with
  | nil links reached =>
    rw [walkWithin_nil] at h
    split at h <;> cases h
  | stuck links reached part rest hreached =>
    rw [walkWithin_stuck hreached] at h
    cases h
  | up links reached part rest hfolder hup ih => exact ih (walkWithin_up hfolder hup ▸ h)
  | vacant links reached part rest hfolder hup hnext =>
    rw [walkWithin_vacant hfolder hup hnext] at h
    split at h
    · cases h
      exact ⟨hfolder, hnext⟩
    · cases h
  | down links reached part rest hfolder hup hnext ih =>
    exact ih (walkWithin_down hfolder hup hnext ▸ h)
  | link links reached part rest target hfolder hup hnext ih =>
    rw [walkWithin_link hfolder hup hnext] at h
    split at h
    · cases h
    · cases links with
      | zero => cases h
      | succ fewer => exact ih fewer rfl h

/-- A tree in which folders and links stayed, and files stayed files. -/
structure Grows (root after : Node) : Prop where
  folder : ∀ place, root.shapeAt place = some .folder → after.shapeAt place = some .folder
  link : ∀ place target, root.shapeAt place = some (.link target) →
    after.shapeAt place = some (.link target)
  file : ∀ place content, root.shapeAt place = some (.file content) →
    ∃ content', after.shapeAt place = some (.file content')

/-- A tree grows where nothing stood, and where a file stays a file. -/
theorem Grows.of_forall (h : ∀ place, after.shapeAt place = root.shapeAt place ∨
    root.shapeAt place = none ∨ ∃ content content', root.shapeAt place = some (.file content) ∧
      after.shapeAt place = some (.file content')) : Grows root after where
  folder place hplace := by
    rcases h place with hsame | hnone | ⟨content, content', hfile, -⟩
    · rw [hsame, hplace]
    · simp [hnone] at hplace
    · simp [hfile] at hplace
  link place target hplace := by
    rcases h place with hsame | hnone | ⟨content, content', hfile, -⟩
    · rw [hsame, hplace]
    · simp [hnone] at hplace
    · simp [hfile] at hplace
  file place content hplace := by
    rcases h place with hsame | hnone | ⟨-, content', -, hfile⟩
    · exact ⟨content, by rw [hsame, hplace]⟩
    · simp [hnone] at hplace
    · exact ⟨content', hfile⟩

/-- What is no link stays and becomes no link. -/
theorem Grows.solid (h : Grows root after) (hsolid : root.Solid place) : after.Solid place := by
  obtain ⟨shape, hshape, hlink⟩ := hsolid
  cases shape with
  | link target => exact absurd rfl (hlink target)
  | folder => exact ⟨_, h.folder _ hshape, by simp⟩
  | file content =>
    obtain ⟨content', hfile⟩ := h.file _ _ hshape
    exact ⟨_, hfile, by simp⟩

/-- What stood at a place still stands there in some way. -/
theorem Grows.exists_shapeAt (h : Grows root after) {shape : Shape}
    (hshape : root.shapeAt place = some shape) : ∃ shape', after.shapeAt place = some shape' := by
  cases shape with
  | link target => exact ⟨_, h.link _ _ hshape⟩
  | folder => exact ⟨_, h.folder _ hshape⟩
  | file content =>
    obtain ⟨content', hfile⟩ := h.file _ _ hshape
    exact ⟨_, hfile⟩

/-- In a grown tree a walk ends as before, unless it found nothing, or a link was put where nothing
stood. -/
theorem walkWithin_of_grows (hgrows : Grows root after) {result : Except Failure Place}
    (h : root.walkWithin followLast links reached path = result)
    (hfound : result ≠ .error .fileMissing)
    (hlink : ∀ landing, result = .ok landing → root.shapeAt landing.path = none →
      ∀ target, after.shapeAt landing.path ≠ some (.link target)) :
    (after.walkWithin followLast links reached path).map Place.path = result.map Place.path := by
  induction links, reached, path using walk_induction root with
  | nil links reached =>
    rw [walkWithin_nil] at h
    cases hthere : root.at? reached with
    | none =>
      rw [hthere] at h
      exact absurd h.symm hfound
    | some there =>
      have hshape : root.shapeAt reached = some there.shape := by rw [shapeAt, hthere]; rfl
      obtain ⟨shape', hshape'⟩ := hgrows.exists_shapeAt hshape
      obtain ⟨node, hnode⟩ := walkWithin_nil_of_shapeAt hshape' followLast links
      rw [hthere] at h
      rw [hnode, ← h]
      rfl
  | stuck links reached part rest hreached =>
    rw [walkWithin_stuck hreached] at h
    cases hshape : root.shapeAt reached with
    | none =>
      rw [hshape] at h
      exact absurd h.symm hfound
    | some shape =>
      have hafter : after.shapeAt reached ≠ some .folder ∧
          (after.shapeAt reached).isNone = false := by
        cases shape with
        | folder => exact absurd hshape hreached
        | link target => simp [hgrows.link _ _ hshape]
        | file content =>
          obtain ⟨content', hfile⟩ := hgrows.file _ _ hshape
          simp [hfile]
      rw [walkWithin_stuck hafter.1, ← h, hshape, hafter.2]
      rfl
  | up links reached part rest hfolder hup ih =>
    rw [walkWithin_up (hgrows.folder _ hfolder) hup]
    exact ih (walkWithin_up hfolder hup ▸ h)
  | vacant links reached part rest hfolder hup hnext =>
    rw [walkWithin_vacant hfolder hup hnext] at h
    by_cases hlast : rest = []
    · subst hlast
      have hfree := hlink _ h.symm hnext
      rw [← h]
      cases hafter : after.shapeAt (reached ++ [part]) with
      | none => rw [walkWithin_vacant (hgrows.folder _ hfolder) hup hafter]
      | some shape =>
        obtain ⟨node, hnode⟩ := walkWithin_nil_of_shapeAt hafter followLast links
        have hsolid : after.Solid (reached ++ [part]) := by
          refine ⟨shape, hafter, ?_⟩
          rintro target rfl
          exact hfree target hafter
        rw [walkWithin_down (hgrows.folder _ hfolder) hup hsolid, hnode]
        rfl
    · simp only [List.isEmpty_iff, hlast, if_false] at h
      exact absurd h.symm hfound
  | down links reached part rest hfolder hup hnext ih =>
    rw [walkWithin_down (hgrows.folder _ hfolder) hup (hgrows.solid hnext)]
    exact ih (walkWithin_down hfolder hup hnext ▸ h)
  | link links reached part rest target hfolder hup hnext ih =>
    rw [walkWithin_link hfolder hup hnext] at h
    rw [walkWithin_link (hgrows.folder _ hfolder) hup (hgrows.link _ _ hnext)]
    split
    · rename_i hlast
      rw [if_pos hlast] at h
      rw [← h]
    · rename_i hlast
      rw [if_neg hlast] at h
      cases links with
      | zero => rw [← h]; rfl
      | succ fewer => exact ih fewer rfl h

/-- What a walk came to it comes to in a grown tree. -/
theorem walkWithin_taken_of_grows (hgrows : Grows root after)
    (h : root.walkWithin followLast links reached path = .ok (.taken place node)) :
    ∃ node', after.walkWithin followLast links reached path = .ok (.taken place node') := by
  have hshape : root.shapeAt place = some node.shape := by rw [shapeAt, at?_of_walkWithin h]; rfl
  have hsame := walkWithin_of_grows hgrows h (by simp) fun landing hlanding hnone => by
    cases hlanding
    rw [Place.path, hshape] at hnone
    cases hnone
  rcases hafter : after.walkWithin followLast links reached path with
    failure | ⟨place', node'⟩ | ⟨above, name⟩
  · rw [hafter] at hsame
    cases hsame
  · rw [hafter] at hsame
    cases hsame
    exact ⟨node', rfl⟩
  · rw [hafter] at hsame
    have hplace : above ++ [name] = place := Except.ok.inj hsame
    obtain ⟨shape, hthere⟩ := hgrows.exists_shapeAt hshape
    rw [← hplace, (shapeAt_of_walkWithin hafter).2] at hthere
    cases hthere

/-- A path on which nothing was found at a place before its end leads nowhere. -/
theorem walkWithin_append_of_missing {more : Path} (hmore : more ≠ [])
    (h : root.walkWithin false links reached path = .error .fileMissing ∨
      ∃ above name, root.walkWithin false links reached path = .ok (.vacant above name)) :
    root.walkWithin true links reached (path ++ more) = .error .fileMissing := by
  induction links, reached, path using walk_induction root with
  | nil links reached =>
    obtain ⟨part, rest, rfl⟩ := List.exists_cons_of_ne_nil hmore
    have hnone : root.shapeAt reached = none := by
      rw [walkWithin_nil] at h
      rw [shapeAt]
      cases hthere : root.at? reached with
      | none => rfl
      | some node => simp [hthere] at h
    rw [List.nil_append, walkWithin_stuck (by simp [hnone]), hnone]
    rfl
  | stuck links reached part rest hreached =>
    rw [walkWithin_stuck hreached] at h
    rw [List.cons_append, walkWithin_stuck hreached]
    simpa using h
  | up links reached part rest hfolder hup ih =>
    rw [walkWithin_up hfolder hup] at h
    rw [List.cons_append, walkWithin_up hfolder hup]
    exact ih h
  | vacant links reached part rest hfolder hup hnext =>
    rw [List.cons_append, walkWithin_vacant hfolder hup hnext]
    simp [hmore]
  | down links reached part rest hfolder hup hnext ih =>
    rw [walkWithin_down hfolder hup hnext] at h
    rw [List.cons_append, walkWithin_down hfolder hup hnext]
    exact ih h
  | link links reached part rest target hfolder hup hnext ih =>
    rw [walkWithin_link hfolder hup hnext] at h
    rw [List.cons_append, walkWithin_link hfolder hup hnext]
    by_cases hlast : rest = []
    · simp [hlast] at h
    · simp only [List.isEmpty_iff, hlast, Bool.not_false, Bool.and_true, Bool.not_true,
        Bool.and_false] at h ⊢
      cases links with
      | zero => simp [followLink] at h
      | succ fewer =>
        have hmissing := ih fewer rfl h
        rw [List.append_assoc] at hmissing
        exact hmissing

/-- A walk that gets through came to a folder before its end. -/
theorem exists_walkWithin_of_append {more : Path} (hmore : more ≠ []) {landing : Place}
    (h : root.walkWithin true links reached (path ++ more) = .ok landing) :
    ∃ folder node, root.walkWithin true links reached path = .ok (.taken folder node) ∧
      root.shapeAt folder = some .folder := by
  induction links, reached, path using walk_induction root with
  | nil links reached =>
    obtain ⟨part, rest, rfl⟩ := List.exists_cons_of_ne_nil hmore
    by_cases hfolder : root.shapeAt reached = some .folder
    · obtain ⟨node, hnode⟩ := walkWithin_nil_of_shapeAt hfolder true links
      exact ⟨reached, node, hnode, hfolder⟩
    · rw [List.nil_append, walkWithin_stuck hfolder] at h
      cases h
  | stuck links reached part rest hreached =>
    rw [List.cons_append, walkWithin_stuck hreached] at h
    cases h
  | up links reached part rest hfolder hup ih =>
    rw [walkWithin_up hfolder hup]
    exact ih (walkWithin_up hfolder hup ▸ h)
  | vacant links reached part rest hfolder hup hnext =>
    rw [List.cons_append, walkWithin_vacant hfolder hup hnext, if_neg (by simp [hmore])] at h
    cases h
  | down links reached part rest hfolder hup hnext ih =>
    rw [walkWithin_down hfolder hup hnext]
    exact ih (walkWithin_down hfolder hup hnext ▸ h)
  | link links reached part rest target hfolder hup hnext ih =>
    rw [List.cons_append, walkWithin_link hfolder hup hnext, Bool.not_true, Bool.and_false] at h
    rw [walkWithin_link hfolder hup hnext, Bool.not_true, Bool.and_false]
    cases links with
    | zero => cases h
    | succ fewer => exact ih fewer rfl (by rw [List.append_assoc]; exact h)

/-- Where a walk came to a place it goes on from there. -/
theorem exists_walkWithin_append
    (h : root.walkWithin true links reached path = .ok (.taken place node)) :
    ∃ left, ∀ followLast more, more ≠ [] →
      root.walkWithin followLast links reached (path ++ more) =
        root.walkWithin followLast left place more := by
  induction links, reached, path using walk_induction root with
  | nil links reached =>
    rw [walkWithin_nil] at h
    split at h
    · cases h
      exact ⟨links, fun _ _ _ => rfl⟩
    · cases h
  | stuck links reached part rest hreached =>
    rw [walkWithin_stuck hreached] at h
    cases h
  | up links reached part rest hfolder hup ih =>
    obtain ⟨left, hleft⟩ := ih (walkWithin_up hfolder hup ▸ h)
    refine ⟨left, fun followLast more hmore => ?_⟩
    rw [List.cons_append, walkWithin_up hfolder hup, hleft followLast more hmore]
  | vacant links reached part rest hfolder hup hnext =>
    rw [walkWithin_vacant hfolder hup hnext] at h
    split at h <;> cases h
  | down links reached part rest hfolder hup hnext ih =>
    obtain ⟨left, hleft⟩ := ih (walkWithin_down hfolder hup hnext ▸ h)
    refine ⟨left, fun followLast more hmore => ?_⟩
    rw [List.cons_append, walkWithin_down hfolder hup hnext, hleft followLast more hmore]
  | link links reached part rest target hfolder hup hnext ih =>
    rw [walkWithin_link hfolder hup hnext, Bool.not_true, Bool.and_false] at h
    cases links with
    | zero => cases h
    | succ fewer =>
      obtain ⟨left, hleft⟩ := ih fewer rfl h
      refine ⟨left, fun followLast more hmore => ?_⟩
      rw [← hleft followLast more hmore, List.cons_append, walkWithin_link hfolder hup hnext]
      simp [hmore, followLink]

/-- A walk goes on through folders. -/
theorem walkWithin_append_folders {parts : Path}
    (hfolder : root.shapeAt (place ++ parts) = some .folder)
    (hplain : ∀ part ∈ parts, part ≠ upPart) (followLast : Bool) (links : Nat) (more : Path) :
    root.walkWithin followLast links place (parts ++ more) =
      root.walkWithin followLast links (place ++ parts) more := by
  induction parts generalizing place with
  | nil => rw [List.append_nil, List.nil_append]
  | cons part rest ih =>
    obtain ⟨hpart, hrest⟩ := List.forall_mem_cons.mp hplain
    have hplace := shapeAt_of_shapeAt_append (List.cons_ne_nil part rest) hfolder
    rw [← List.singleton_append, ← List.append_assoc] at hfolder
    have hnext : root.shapeAt (place ++ [part]) = some .folder := by
      cases rest with
      | nil => rwa [List.append_nil] at hfolder
      | cons second after => exact shapeAt_of_shapeAt_append (List.cons_ne_nil second after) hfolder
    rw [List.cons_append, walkWithin_down hplace hpart ⟨_, hnext, by simp⟩, ih hfolder hrest,
      List.append_assoc, List.singleton_append]

/-- A walk that goes on through folders finds nothing if one is missing before its end. -/
theorem walkWithin_append_missing {parts more : Path} (hmore : more ≠ [])
    (hplace : root.shapeAt place = some .folder)
    (hfolders : ∀ front, front <+: parts → root.shapeAt (place ++ front) = none ∨
      root.shapeAt (place ++ front) = some .folder)
    (hplain : ∀ part ∈ parts, part ≠ upPart) (hmissing : root.shapeAt (place ++ parts) = none)
    (followLast : Bool) (links : Nat) :
    root.walkWithin followLast links place (parts ++ more) = .error .fileMissing := by
  induction parts generalizing place with
  | nil =>
    rw [List.append_nil, hplace] at hmissing
    cases hmissing
  | cons part rest ih =>
    obtain ⟨hpart, hrest⟩ := List.forall_mem_cons.mp hplain
    rw [List.cons_append]
    rcases hfolders [part] (by simp) with hnone | hfolder
    · rw [walkWithin_vacant hplace hpart hnone]
      simp [hmore]
    · rw [walkWithin_down hplace hpart ⟨_, hfolder, by simp⟩]
      refine ih hfolder (fun front hfront => ?_) hrest ?_
      · have hlonger := hfolders (part :: front) (List.cons_prefix_cons.mpr ⟨rfl, hfront⟩)
        rwa [List.append_assoc]
      · rwa [List.append_assoc]

end Walks
end Node
end EnvFiles
