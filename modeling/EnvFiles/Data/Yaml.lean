import EnvFiles.Data.Yaml.Part
import EnvFiles.Data.Yaml.Scalar

/-!
# Reading YAML

The whole text is one document, or none, which stands for nothing. A key of a mapping must not be
a collection. A key that comes again keeps its place and takes the later value. The entries of
the mappings behind merge keys come first; of several mappings in a list the first one counts
most. An alias stands for the value of the part it names, and inside that part for the whole. Of
several faults the one that lies in the fewest collections is reported, and of those the first.
-/

namespace EnvFiles.Yaml

namespace Document

/-- The part that an alias stands for; any other part is its own. -/
def resolve (document : Document) : Part → Part
  | .alias name => (document.named.get? name).getD Part.empty
  | part => part

/-- Whether a key asks for the entries of other mappings. -/
def isMergeKey (document : Document) (key : Part) : Bool :=
  match document.resolve key with
  | .plain text => text == ("<<" : Text)
  | _ => false

/-- The entries of a mapping with those of the mappings behind its merge keys before its own. A
mapping that is looked at already gives its own ones only. The first number bounds the mappings
behind one another. -/
def mergedEntries (document : Document) :
    Nat → List Nat → List (Part × Part) → ReadResult (List (Part × Part))
  | 0, _, _ => .error .malformed
  | steps + 1, around, entries => do
    let (asked, own) := entries.partition fun entry => document.isMergeKey entry.1
    let ofMapping (part : Part) : ReadResult (List (Part × Part)) :=
      match document.resolve part with
      | .mapping number inner =>
        if around.contains number then
          .ok (inner.filter fun entry => !document.isMergeKey entry.1)
        else mergedEntries document steps (number :: around) inner
      | _ => .error .malformed
    let merged ← asked.mapM fun entry =>
      match document.resolve entry.2 with
      | .sequence _ items => do return (← items.reverse.mapM ofMapping).flatten
      | part => ofMapping part
    return merged.flatten ++ own

end Document

/-- A fault and the number of collections that it lies in. -/
structure PlacedFault where
  depth : Nat
  fault : ReadFault

/-- A value, the numbers of the enclosing collections that it refers to, and whether there is a
cycle in it. -/
structure OpenData where
  data : Data
  free : List Nat := []
  hasCycle : Bool := false

/-- What a part gives. -/
abbrev Valued (α : Type) := Except PlacedFault α

/-- Two results together; of two faults the less deep one, or else the first. -/
def Valued.both {α β γ : Type} (combine : α → β → γ) : Valued α → Valued β → Valued γ
  | .ok a, .ok b => .ok (combine a b)
  | .error first, .error second => .error (if second.depth < first.depth then second else first)
  | .error fault, .ok _ => .error fault
  | .ok _, .error fault => .error fault

/-- All results together. -/
def Valued.all {α : Type} : List (Valued α) → Valued (List α)
  | [] => .ok []
  | result :: rest => Valued.both List.cons result (Valued.all rest)

/-- A result at a depth. -/
def Valued.at {α : Type} (depth : Nat) (result : ReadResult α) : Valued α :=
  result.mapError fun fault => ⟨depth, fault⟩

/-- A result found at depth zero, at another depth. -/
def Valued.below {α : Type} (depth : Nat) (result : Valued α) : Valued α :=
  result.mapError fun placed => { placed with depth := depth + placed.depth }

/-- The numbers that any of several values refers to. -/
def freeNumbers (values : List OpenData) : List Nat :=
  values.foldl (fun numbers value =>
    numbers ++ value.free.filter fun number => !numbers.contains number) []

/-- A collection with a number and the values in it. It is a cycle if any of these refers to it or
to what is around it. -/
def closed (number : Nat) (body : Data) (values : List OpenData) : OpenData :=
  let free := freeNumbers values
  if free.isEmpty then { data := body, hasCycle := values.any OpenData.hasCycle }
  else { data := .cyclic number body, free := free.filter (· != number), hasCycle := true }

/-- The value of a key, which must not be a collection. A lone equals sign is a text here. -/
def keyValue (document : Document) (key : Part) : ReadResult Data :=
  match document.resolve key with
  | .plain text => if text = "=" then .ok (.text text) else plainValue text
  | .quoted codes => .ok (.ofCodes codes)
  | _ => .error .malformed

/-- Set entries in order. -/
def entriesOf (entries : List (Data × Data)) : List (Data × Data) :=
  entries.foldl (fun result entry => Data.putEntry entry.1 entry.2 result) []

/-- The value of a part within the collections around it. Values without cycles that are known by
name are not read again. The first number bounds the collections and aliases that lead to a part. -/
def valueOf (document : Document) (known : Table Text (Valued Data)) :
    Nat → List Nat → Nat → Part → Valued OpenData
  | 0, _, depth, _ => .error ⟨depth, .malformed⟩
  | steps + 1, around, depth, part =>
    match part with
    | .plain text => (Valued.at depth (plainValue text)).map fun data => { data }
    | .quoted codes => .ok { data := .ofCodes codes }
    | .alias name =>
      match known.get? name with
      | some found => (found.below depth).map fun data => { data }
      | none => valueOf document known steps around depth (document.resolve part)
    | .sequence number items =>
      if around.contains number then .ok { data := .again number false, free := [number] }
      else
        let found := items.map (valueOf document known steps (number :: around) (depth + 1))
        (Valued.all found).map fun values =>
          closed number (.list (values.map OpenData.data)) values
    | .mapping number entries =>
      if around.contains number then .ok { data := .again number true, free := [number] }
      else do
        let merged ← Valued.at (depth + 1)
          (document.mergedEntries (document.collections + 1) [number] entries)
        let found := merged.map fun (key, value) =>
          Valued.both Prod.mk (Valued.at (depth + 1) (keyValue document key))
            (valueOf document known steps (number :: around) (depth + 1) value)
        let pairs ← Valued.all found
        return closed number
          (.mapping (entriesOf (pairs.map fun (key, value) => (key, value.data))))
          (pairs.map Prod.snd)

/-- The number of collections and aliases that can lead to a part. -/
def Document.depthBound (document : Document) : Nat := 2 * document.collections + 3

/-- The values without cycles of the named parts, in the order in which these are complete. -/
def knownValues (document : Document) : Table Text (Valued Data) :=
  document.named.foldl (fun known (name, part) =>
    match valueOf document known document.depthBound [] 0 part with
    | .ok found => if found.hasCycle then known else known.put name (.ok found.data)
    | .error fault => known.put name (.error fault)) []

/-- The value of a document. -/
def Document.value (document : Document) : ReadResult Data :=
  match valueOf document (knownValues document) document.depthBound [] 0 document.root with
  | .ok found => .ok found.data
  | .error placed => .error placed.fault

/-- The value that a text is, if it follows the format. -/
def read (text : Text) : ReadResult Data := do
  match ← Document.ofTokens (← .ofOption (tokens? text)) with
  | none => return .null
  | some document => document.value

end EnvFiles.Yaml
