import EnvFiles.Proofs.Tree.Walks
import Mathlib.Data.List.Perm.Subperm

/-!
# Resolved paths

A path is resolved link by link, each through the resolution of its target. The links on whose
targets one is at work are open, and to meet one of them again ends the resolution. A walk that
comes to a place never meets an open link: on the way through the target of a link it would follow
as many links as for the whole target. So a path that leads to a place is resolved to that place.
-/

namespace EnvFiles.Node

mutual

/-- The places of the links of a tree. -/
def linkPlaces : Node → List Path
  | .file _ => []
  | .link _ => [[]]
  | .folder entries => linkPlacesOf entries

/-- The places of the links below the entries of a folder. -/
def linkPlacesOf : List (Text × Node) → List Path
  | [] => []
  | (name, node) :: rest => node.linkPlaces.map (fun place => name :: place) ++ linkPlacesOf rest

end

mutual

/-- Each link of a tree has a place. -/
theorem length_linkPlaces : (node : Node) → node.linkPlaces.length = node.linkCount
  | .file _ => rfl
  | .link _ => rfl
  | .folder entries => length_linkPlacesOf entries

/-- Each link below the entries of a folder has a place. -/
theorem length_linkPlacesOf :
    (entries : List (Text × Node)) → (linkPlacesOf entries).length = linkCountOf entries
  | [] => rfl
  | (_, node) :: rest => by
    rw [linkPlacesOf, linkCountOf, List.length_append, List.length_map, length_linkPlaces node,
      length_linkPlacesOf rest]

end

/-- A walk goes from one place to another, following a number of links on its way. At a link it
comes to where the target leads, and goes on from there. -/
inductive Passes (root : Node) : Nat → Path → Path → Path → Prop
  | here {place : Path} : Passes root 0 place [] place
  | up {used : Nat} {reached rest place : Path} :
      Passes root used reached.dropLast rest place → Passes root used reached (upPart :: rest) place
  | down {used : Nat} {reached rest place : Path} {part : Text} : part ≠ upPart →
      root.Solid (reached ++ [part]) → Passes root used (reached ++ [part]) rest place →
        Passes root used reached (part :: rest) place
  | link {inner outer : Nat} {reached rest middle place : Path} {part target : Text} :
      part ≠ upPart → root.shapeAt (reached ++ [part]) = some (.link target) →
        Passes root inner (linkStart reached target) (Path.components target) middle →
          Passes root outer middle rest place →
            Passes root (inner + 1 + outer) reached (part :: rest) place

/-- Links that can be open when a walk has the given number of links to follow: for each of them
the whole target takes at least as many. -/
structure CanBeOpen (root : Node) (opened : List Path) (used : Nat) : Prop where
  nodup : opened.Nodup
  links : ∀ place ∈ opened, ∃ target, root.shapeAt place = some (.link target)
  takes : ∀ above part target inner middle, above ++ [part] ∈ opened →
    root.shapeAt (above ++ [part]) = some (.link target) →
      root.Passes inner (linkStart above target) (Path.components target) middle → used ≤ inner

section Links

variable {root : Node} {entries : List (Text × Node)} {place : Path} {target : Text}

/-- The place of a link that an entry holds is one of those below the entries. -/
theorem mem_linkPlacesOf {name : Text} {node : Node} (h : named? entries name = some node)
    (hplace : place ∈ node.linkPlaces) : name :: place ∈ linkPlacesOf entries := by
  induction entries with
  | nil => cases h
  | cons entry rest ih =>
    obtain ⟨other, first⟩ := entry
    rw [named?] at h
    rw [linkPlacesOf, List.mem_append]
    split at h
    · rename_i heq
      cases h
      subst heq
      exact .inl (List.mem_map_of_mem hplace)
    · exact .inr (ih h)

/-- Where a link stands is one of the places of links. -/
theorem mem_linkPlaces (h : root.shapeAt place = some (.link target)) :
    place ∈ root.linkPlaces := by
  induction place generalizing root with
  | nil =>
    cases root with
    | file content => simp [shapeAt, at?, shape] at h
    | link other => simp [linkPlaces]
    | folder entries => simp [shapeAt, at?, shape] at h
  | cons name rest ih =>
    cases root with
    | file content => simp [shapeAt, at?, child?] at h
    | link other => simp [shapeAt, at?, child?] at h
    | folder entries =>
      rw [shapeAt_cons] at h
      cases hchild : named? entries name with
      | none => simp [hchild] at h
      | some child =>
        rw [hchild] at h
        exact mem_linkPlacesOf hchild (ih h)

end Links

section Passing

variable {root : Node} {used used' links : Nat} {reached path front back place place' : Path}

/-- A walk along two paths goes along one and then along the other. -/
theorem Passes.exists_of_append (h : root.Passes used reached (front ++ back) place) :
    ∃ inner outer middle,
      root.Passes inner reached front middle ∧ root.Passes outer middle back place := by
  induction front generalizing used reached with
  | nil => exact ⟨0, used, reached, .here, h⟩
  | cons part rest ih =>
    rw [List.cons_append] at h
    cases h with
    | up hrest =>
      obtain ⟨inner, outer, middle, hfront, hback⟩ := ih hrest
      exact ⟨inner, outer, middle, .up hfront, hback⟩
    | down hup hsolid hrest =>
      obtain ⟨inner, outer, middle, hfront, hback⟩ := ih hrest
      exact ⟨inner, outer, middle, .down hup hsolid hfront, hback⟩
    | link hup hlink htarget hrest =>
      obtain ⟨inner, outer, middle, hfront, hback⟩ := ih hrest
      exact ⟨_, outer, middle, .link hup hlink htarget hfront, hback⟩

/-- A walk comes to one place only, and follows one number of links. -/
theorem Passes.unique (h : root.Passes used reached path place)
    (h' : root.Passes used' reached path place') : used = used' ∧ place = place' := by
  induction h generalizing used' place' with
  | here =>
    cases h'
    exact ⟨rfl, rfl⟩
  | up _ ih =>
    cases h' with
    | up hrest => exact ih hrest
    | down hup _ _ => exact absurd rfl hup
    | link hup _ _ _ => exact absurd rfl hup
  | down hup hsolid _ ih =>
    cases h' with
    | up _ => exact absurd rfl hup
    | down _ _ hrest => exact ih hrest
    | link _ hlink _ _ =>
      obtain ⟨shape, hshape, hno⟩ := hsolid
      exact absurd (Option.some.inj (hshape.symm.trans hlink)) (hno _)
  | link hup hlink _ _ ihTarget ih =>
    cases h' with
    | up _ => exact absurd rfl hup
    | down _ hsolid _ =>
      obtain ⟨shape, hshape, hno⟩ := hsolid
      exact absurd (Option.some.inj (hshape.symm.trans hlink)) (hno _)
    | link _ hlink' htarget hrest =>
      cases hlink.symm.trans hlink'
      obtain ⟨rfl, rfl⟩ := ihTarget htarget
      obtain ⟨rfl, rfl⟩ := ih hrest
      exact ⟨rfl, rfl⟩

/-- What is come to by following some links at most is come to. -/
theorem exists_passes_of_walkWithin {node : Node}
    (h : root.walkWithin true links reached path = .ok (.taken place node)) :
    ∃ used, root.Passes used reached path place := by
  induction links, reached, path using walk_induction root with
  | nil links reached =>
    rw [walkWithin_nil] at h
    split at h
    · cases h
      exact ⟨0, .here⟩
    · cases h
  | stuck links reached part rest hreached =>
    rw [walkWithin_stuck hreached] at h
    cases h
  | up links reached part rest hfolder hup ih =>
    subst hup
    obtain ⟨used, hrest⟩ := ih (walkWithin_up hfolder rfl ▸ h)
    exact ⟨used, .up hrest⟩
  | vacant links reached part rest hfolder hup hnext =>
    rw [walkWithin_vacant hfolder hup hnext] at h
    split at h <;> cases h
  | down links reached part rest hfolder hup hnext ih =>
    obtain ⟨used, hrest⟩ := ih (walkWithin_down hfolder hup hnext ▸ h)
    exact ⟨used, .down hup hnext hrest⟩
  | link links reached part rest target hfolder hup hnext ih =>
    rw [walkWithin_link hfolder hup hnext, Bool.not_true, Bool.and_false] at h
    cases links with
    | zero => cases h
    | succ fewer =>
      obtain ⟨used, hall⟩ := ih fewer rfl h
      obtain ⟨inner, outer, middle, htarget, hrest⟩ := hall.exists_of_append
      exact ⟨_, .link hup hnext htarget hrest⟩

end Passing

section Open

variable {root : Node} {opened : List Path} {used fewer : Nat}

/-- No links need to be open. -/
theorem CanBeOpen.nil (root : Node) (used : Nat) : root.CanBeOpen [] used :=
  ⟨.nil, nofun, nofun⟩

/-- What can be open can still be when fewer links are left to follow. -/
theorem CanBeOpen.mono (h : root.CanBeOpen opened used) (hfewer : fewer ≤ used) :
    root.CanBeOpen opened fewer where
  nodup := h.nodup
  links := h.links
  takes above part target inner middle hmem hlink hpasses :=
    Nat.le_trans hfewer (h.takes above part target inner middle hmem hlink hpasses)

/-- The open links are at most all links. -/
theorem CanBeOpen.length_le (h : root.CanBeOpen opened used) : opened.length ≤ root.linkCount := by
  rw [← length_linkPlaces]
  apply List.Subperm.length_le
  apply h.nodup.subperm
  intro place hplace
  obtain ⟨target, hlink⟩ := h.links place hplace
  exact mem_linkPlaces hlink

variable {inner outer : Nat} {reached middle : Path} {part target : Text}

/-- A link that is met is not open. -/
theorem CanBeOpen.notMem (h : root.CanBeOpen opened (inner + 1 + outer))
    (hlink : root.shapeAt (reached ++ [part]) = some (.link target))
    (htarget : root.Passes inner (linkStart reached target) (Path.components target) middle) :
    reached ++ [part] ∉ opened := by
  intro hmem
  have htakes := h.takes reached part target inner middle hmem hlink htarget
  omega

/-- A link that is met can be opened for its target. -/
theorem CanBeOpen.cons (h : root.CanBeOpen opened (inner + 1 + outer))
    (hlink : root.shapeAt (reached ++ [part]) = some (.link target))
    (htarget : root.Passes inner (linkStart reached target) (Path.components target) middle) :
    root.CanBeOpen ((reached ++ [part]) :: opened) inner where
  nodup := List.nodup_cons.mpr ⟨h.notMem hlink htarget, h.nodup⟩
  links := List.forall_mem_cons.mpr ⟨⟨target, hlink⟩, h.links⟩
  takes above other target' inner' middle' hmem hlink' hpasses := by
    rcases List.mem_cons.mp hmem with heq | hmem
    · obtain ⟨rfl, hpart⟩ := List.append_inj' heq rfl
      cases hpart
      cases hlink.symm.trans hlink'
      exact Nat.le_of_eq (htarget.unique hpasses).1
    · have htakes := h.takes above other target' inner' middle' hmem hlink' hpasses
      omega

end Open

section Resolving

variable {root : Node} {depth : Nat} {opened : List Path} {reached rest : Path} {part : Text}

/-- A resolution is at its end. -/
theorem resolveWithin_nil (root : Node) (depth : Nat) (opened : List Path) (reached : Path) :
    root.resolveWithin depth opened reached [] = .ok reached := by
  cases depth <;> rfl

/-- A resolution goes up. -/
theorem resolveWithin_up (root : Node) (depth : Nat) (opened : List Path) (reached rest : Path) :
    root.resolveWithin depth opened reached (upPart :: rest) =
      root.resolveWithin depth opened reached.dropLast rest := by
  cases depth <;> rfl

/-- A resolution goes on to the next place where no link stands, even if nothing does. -/
theorem resolveWithin_next (hup : part ≠ upPart)
    (hlink : ∀ target, root.shapeAt (reached ++ [part]) ≠ some (.link target)) :
    root.resolveWithin depth opened reached (part :: rest) =
      root.resolveWithin depth opened (reached ++ [part]) rest := by
  -- This decides what is done at the next place.
  have hnode (target : Text) : root.at? (reached ++ [part]) ≠ some (.link target) := by
    intro hthere
    apply hlink target
    rw [shapeAt, hthere]
    rfl
  cases depth <;> simp only [resolveWithin, resolveWith, if_neg hup]

/-- A resolution goes down where something other than a link stands. -/
theorem resolveWithin_down (hup : part ≠ upPart) (hsolid : root.Solid (reached ++ [part])) :
    root.resolveWithin depth opened reached (part :: rest) =
      root.resolveWithin depth opened (reached ++ [part]) rest := by
  obtain ⟨shape, hshape, hno⟩ := hsolid
  apply resolveWithin_next hup
  intro target hlink
  exact hno target (Option.some.inj (hshape.symm.trans hlink))

/-- A resolution goes on from where the target of a link is resolved to. -/
theorem resolveWithin_link {target : Text} {middle : Path} (hup : part ≠ upPart)
    (hlink : root.shapeAt (reached ++ [part]) = some (.link target))
    (hnew : reached ++ [part] ∉ opened)
    (htarget : root.resolveWithin depth ((reached ++ [part]) :: opened) (linkStart reached target)
      (Path.components target) = .ok middle) :
    root.resolveWithin (depth + 1) opened reached (part :: rest) =
      root.resolveWithin (depth + 1) opened middle rest := by
  obtain ⟨node, hthere, hshape⟩ := Option.map_eq_some_iff.mp hlink
  have hnode : node = .link target := by
    cases node with
    | link other =>
      cases hshape
      rfl
    | file content => cases hshape
    | folder entries => cases hshape
  subst hnode
  simp only [resolveWithin, resolveWith, if_neg hup, hthere, if_neg hnew, htarget]

/-- A path that leads to a place is resolved to it, inside the resolution of links that can be open,
if as many more may be opened as there are others. -/
theorem resolveWithin_of_passes {used : Nat} {path place : Path}
    (h : root.Passes used reached path place) (hopen : root.CanBeOpen opened used)
    (hdepth : root.linkCount < opened.length + depth) :
    root.resolveWithin depth opened reached path = .ok place := by
  induction h generalizing opened depth with
  | here => exact resolveWithin_nil ..
  | up _ ih =>
    rw [resolveWithin_up]
    exact ih hopen hdepth
  | down hup hsolid _ ih =>
    rw [resolveWithin_down hup hsolid]
    exact ih hopen hdepth
  | link hup hlink htarget _ ihTarget ih =>
    have hinner := hopen.cons hlink htarget
    have hlength := hinner.length_le
    rw [List.length_cons] at hlength
    obtain ⟨fewer, rfl⟩ : ∃ fewer, depth = fewer + 1 := ⟨depth - 1, by omega⟩
    have hfewer : root.linkCount < opened.length + 1 + fewer := by omega
    have hmiddle := ihTarget hinner hfewer
    rw [resolveWithin_link hup hlink (hopen.notMem hlink htarget) hmiddle]
    exact ih (hopen.mono (Nat.le_add_left ..)) hdepth

/-- A path that leads to something is resolved to its place. -/
theorem resolve_of_walk {path place : Path} {node : Node} (hnull : path.hasNull = false)
    (h : root.walk path = .ok (.taken place node)) : root.resolve path = .ok place := by
  obtain ⟨used, hpasses⟩ := exists_passes_of_walkWithin h
  have hresolved : root.resolveWithin (root.linkCount + 1) [] [] path = .ok place :=
    resolveWithin_of_passes hpasses (.nil root used) (by simp)
  simp [resolve, checkPath, hnull, hresolved]

end Resolving
end EnvFiles.Node
