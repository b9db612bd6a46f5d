import EnvFiles.Proofs.Table
import EnvFiles.Tree.Node

/-!
# The shape of a file tree

What stands at each place of a tree, without what is below it, is its shape, and this is all that
a walk asks for. Putting a file or an empty folder where nothing stands, or a file in the place of
a file, changes the shape at that place only.
-/

namespace EnvFiles.Node

/-- What stands at a place, without what is below it. -/
inductive Shape
  | file (content : ByteArray)
  | link (target : Text)
  | folder

/-- A node without what is below it. -/
def shape : Node → Shape
  | .file content => .file content
  | .link target => .link target
  | .folder _ => .folder

/-- The shape of a tree at a place. -/
def shapeAt (root : Node) (place : Path) : Option Shape := (root.at? place).map shape

/-- A place that holds a file, or where nothing stands. -/
def Takes (root : Node) (place : Path) : Prop :=
  ∀ shape, root.shapeAt place = some shape → ∃ content, shape = .file content

section Entries

variable {entries : List (Text × Node)} {name other : Text} {node : Node}

/-- The entries of a folder are a table. -/
theorem named?_eq_get? (entries : List (Text × Node)) (name : Text) :
    named? entries name = Table.get? entries name := by
  induction entries with
  | nil => rfl
  | cons entry rest ih =>
    obtain ⟨other, node⟩ := entry
    rw [named?, Table.get?, ih]

/-- The entry of a name after one was put. -/
theorem named?_upsert :
    named? (upsert Prod.fst (name, node) entries) other =
      if name = other then some node else named? entries other := by
  rw [named?_eq_get?, named?_eq_get?]
  exact Table.get?_put entries name other node

end Entries

section Places

variable {root : Node} {above below place : Path} {name : Text}

/-- What stands at a place is seen from any place above it. -/
theorem at?_append (root : Node) (above below : Path) :
    root.at? (above ++ below) = (root.at? above).bind fun node => node.at? below := by
  induction above generalizing root with
  | nil => rfl
  | cons name rest ih =>
    rw [List.cons_append, at?, at?]
    cases root.child? name with
    | none => rfl
    | some child => exact ih child

/-- What stands at a place is an entry of the folder above it. -/
theorem at?_concat (root : Node) (above : Path) (name : Text) :
    root.at? (above ++ [name]) = (root.at? above).bind fun node => node.child? name := by
  rw [at?_append]
  refine congrArg (Option.bind _) (funext fun node => ?_)
  rw [at?]
  cases node.child? name <;> rfl

/-- Above anything stands a folder. -/
theorem shapeAt_of_shapeAt_append {shape : Shape} (hbelow : below ≠ [])
    (h : root.shapeAt (above ++ below) = some shape) : root.shapeAt above = some .folder := by
  obtain ⟨name, rest, rfl⟩ := List.exists_cons_of_ne_nil hbelow
  rw [shapeAt, at?_append] at h
  rw [shapeAt]
  cases habove : root.at? above with
  | none =>
    rw [habove] at h
    cases h
  | some node =>
    rw [habove] at h
    cases node with
    | folder entries => rfl
    | file content => cases h
    | link target => cases h

/-- Below nothing, and below a file, nothing stands. -/
theorem Takes.shapeAt_append (h : root.Takes place) (hbelow : below ≠ []) :
    root.shapeAt (place ++ below) = none := by
  cases hshape : root.shapeAt (place ++ below) with
  | none => rfl
  | some shape =>
    obtain ⟨content, hfile⟩ := h _ (shapeAt_of_shapeAt_append hbelow hshape)
    cases hfile

/-- A place below a place. -/
theorem shapeAt_cons (entries : List (Text × Node)) (name : Text) (rest : Path) :
    (folder entries).shapeAt (name :: rest) =
      (named? entries name).bind fun node => node.shapeAt rest := by
  rw [shapeAt, at?, child?]
  cases named? entries name <;> rfl

/-- Putting a node with nothing below it in a folder changes the shape there only. -/
theorem shapeAt_putAt {node : Node} (hleaf : ∀ below, below ≠ [] → node.shapeAt below = none)
    (habove : root.shapeAt above = some .folder) (htakes : root.Takes (above ++ [name]))
    (place : Path) :
    (putAt node (above ++ [name]) root).shapeAt place =
      if place = above ++ [name] then some node.shape else root.shapeAt place := by
  induction above generalizing root place with
  | nil =>
    cases root with
    | file content => cases habove
    | link target => cases habove
    | folder entries =>
      rw [List.nil_append] at htakes ⊢
      cases place with
      | nil => rfl
      | cons first rest =>
        rw [putAt, putAt, shapeAt_cons, named?_upsert, shapeAt_cons]
        by_cases hname : name = first
        · subst hname
          rw [if_pos rfl, Option.bind_some]
          cases rest with
          | nil => simp [shapeAt, at?]
          | cons second more =>
            have hbelow := htakes.shapeAt_append (List.cons_ne_nil second more)
            rw [List.singleton_append, shapeAt_cons] at hbelow
            rw [hleaf _ (List.cons_ne_nil _ _), if_neg (by simp), hbelow]
        · rw [if_neg hname, if_neg (by simp [Ne.symm hname])]
  | cons first rest ih =>
    cases root with
    | file content => cases habove
    | link target => cases habove
    | folder entries =>
      rw [shapeAt_cons] at habove
      rw [List.cons_append] at htakes ⊢
      cases hchild : named? entries first with
      | none =>
        rw [hchild] at habove
        cases habove
      | some child =>
        rw [hchild, Option.bind_some] at habove
        have htakes' : child.Takes (rest ++ [name]) := by
          intro shape hshape
          apply htakes shape
          rw [shapeAt_cons, hchild, Option.bind_some, hshape]
        cases place with
        | nil => rfl
        | cons second more =>
          rw [putAt, shapeAt_cons, named?_upsert, shapeAt_cons, hchild, Option.getD_some]
          by_cases hname : first = second
          · subst hname
            rw [if_pos rfl, Option.bind_some, ih habove htakes', hchild, Option.bind_some]
            simp
          · rw [if_neg hname, if_neg (by simp [Ne.symm hname])]

/-- Below a file nothing stands. -/
theorem shapeAt_file (content : ByteArray) (hbelow : below ≠ []) :
    (file content).shapeAt below = none := by
  obtain ⟨name, rest, rfl⟩ := List.exists_cons_of_ne_nil hbelow
  rfl

/-- Below an empty folder nothing stands. -/
theorem shapeAt_emptyFolder (hbelow : below ≠ []) : (folder []).shapeAt below = none := by
  obtain ⟨name, rest, rfl⟩ := List.exists_cons_of_ne_nil hbelow
  rfl

end Places
end EnvFiles.Node
