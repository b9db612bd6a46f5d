import EnvFiles.Proofs.Tree.Named
import EnvFiles.Proofs.Tree.Resolving

/-!
# Trees without links

Where no links are, a path stands for what it spells: each step up takes away the component before
it, whether or not anything is there. A path that leads to something is made of names in the tree
and of steps up, so it holds no character that no name holds.
-/

namespace EnvFiles.Node

/-- No name in the tree holds the null character. -/
def NullFree (root : Node) : Prop :=
  ∀ place node, root.at? place = some node → Path.hasNull place = false

section Names

variable {root node : Node} {entries : List (Text × Node)} {links : Nat}
  {reached path place : Path}

/-- The null character stands in a path if it stands in its first component or after it. -/
theorem hasNull_cons (part : Text) (rest : Path) :
    Path.hasNull (part :: rest) = (part.contains '\x00' || Path.hasNull rest) := rfl

/-- There are no names in a file. -/
theorem NullFree.file (content : ByteArray) : NullFree (.file content) := by
  intro place node h
  cases place with
  | nil => rfl
  | cons name rest => cases h

/-- There are no names in a link. -/
theorem NullFree.link (target : Text) : NullFree (.link target) := by
  intro place node h
  cases place with
  | nil => rfl
  | cons name rest => cases h

/-- A folder adds the names of its entries. -/
theorem NullFree.folder
    (h : ∀ entry ∈ entries, entry.1.contains '\x00' = false ∧ entry.2.NullFree) :
    NullFree (.folder entries) := by
  intro place node hthere
  cases place with
  | nil => rfl
  | cons name rest =>
    rw [at?, child?] at hthere
    cases hchild : named? entries name with
    | none =>
      rw [hchild] at hthere
      cases hthere
    | some child =>
      rw [hchild] at hthere
      rw [named?_eq_get?] at hchild
      obtain ⟨hname, hrest⟩ := h _ (Table.mem_of_get? hchild)
      rw [hasNull_cons, hname, hrest rest node hthere]
      rfl

/-- A component at the end of a place in the tree holds no null character. -/
theorem NullFree.contains_eq (h : root.NullFree) {part : Text} {shape : Shape}
    (hshape : root.shapeAt (reached ++ [part]) = some shape) : part.contains '\x00' = false := by
  obtain ⟨node, hthere, -⟩ := Option.map_eq_some_iff.mp hshape
  have hplace := h _ _ hthere
  rw [hasNull_append, hasNull_cons] at hplace
  simp_all

/-- What leads to something in the tree holds no null character. -/
theorem NullFree.hasNull_eq (h : root.NullFree)
    (hwalk : root.walkWithin true links reached path = .ok (.taken place node)) :
    Path.hasNull path = false := by
  induction links, reached, path using walk_induction root with
  | nil => rfl
  | stuck links reached part rest hreached =>
    rw [walkWithin_stuck hreached] at hwalk
    cases hwalk
  | up links reached part rest hfolder hup ih =>
    rw [hasNull_cons, ih (walkWithin_up hfolder hup ▸ hwalk), hup]
    rfl
  | vacant links reached part rest hfolder hup hnext =>
    rw [walkWithin_vacant hfolder hup hnext] at hwalk
    split at hwalk <;> cases hwalk
  | down links reached part rest hfolder hup hnext ih =>
    have hrest := ih (walkWithin_down hfolder hup hnext ▸ hwalk)
    obtain ⟨shape, hshape, -⟩ := hnext
    rw [hasNull_cons, h.contains_eq hshape, hrest]
    rfl
  | link links reached part rest target hfolder hup hnext ih =>
    rw [walkWithin_link hfolder hup hnext, Bool.not_true, Bool.and_false] at hwalk
    cases links with
    | zero => cases hwalk
    | succ fewer =>
      have hall := ih fewer rfl hwalk
      rw [hasNull_append, Bool.or_eq_false_iff] at hall
      rw [hasNull_cons, h.contains_eq hnext, hall.2]
      rfl

end Names

section Resolving

variable {root : Node}

/-- Without links a resolution spells the path out from the place reached. -/
theorem resolveWithin_of_linkFree (hfree : root.linkCount = 0) (depth : Nat) (opened : List Path)
    (reached path : Path) :
    root.resolveWithin depth opened reached path = .ok (path.foldl (fun result part =>
      if part = upPart then result.dropLast else result ++ [part]) reached) := by
  induction path generalizing reached with
  | nil => exact resolveWithin_nil ..
  | cons part rest ih =>
    rw [List.foldl_cons]
    by_cases hup : part = upPart
    · rw [if_pos hup, hup, resolveWithin_up, ih]
    · rw [if_neg hup, resolveWithin_next hup (fun target => shapeAt_ne_link hfree _ target), ih]

/-- Without links a path stands for what it spells. -/
theorem resolve_of_linkFree (hfree : root.linkCount = 0) {path : Path}
    (hnull : path.hasNull = false) : root.resolve path = .ok (withoutUp path) := by
  rw [resolve, checkPath, hnull, resolveWithin_of_linkFree hfree]
  rfl

end Resolving
end EnvFiles.Node
