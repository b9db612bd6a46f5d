import Mathlib
import EnvFiles.Proofs.Scan.Diagnosis
import EnvFiles.Proofs.Scan.Sightings

/-!
# Whole names and names cut off

A name in quotes is found only as a whole. A name after a dot is read as far as capital letters,
digits and underscores go, so it is the whole name of the property unless a small letter follows.
Then the name is cut off: a scan records it although the line does not have it, and a diagnosis
takes it for a name that the source refers to.
-/

namespace EnvFiles

/-- Characters of the names of properties: letters, digits and underscores. -/
def isIdentifierChar (c : Char) : Bool := c.isAlphanum || c == '_'

/-- What the names of properties come after. -/
def dottedStarts : List Text := ["process.env.", "import.meta.env."]

/-- A line refers to a name at a position, with the text that refers to it: as the whole name of a
property, or as a key in brackets and quotes. -/
inductive RefersTo (line : Text) (position : Nat) (name : Text) : (matched : Text) → Prop
  | property {start rest : Text} : start ∈ dottedStarts →
      line.drop position = start ++ name ++ rest →
      (∀ c, rest.head? = some c → isIdentifierChar c = false) →
      RefersTo line position name (start ++ name)
  | key {opening closing : Char} {rest : Text} : isQuote opening = true → isQuote closing = true →
      line.drop position = "process.env[" ++ (opening :: name) ++ (closing :: "]") ++ rest →
      RefersTo line position name ("process.env[" ++ (opening :: name) ++ (closing :: "]"))

/-- At a position of a line the name of a property goes on with a small letter, and the given name
is what comes before that. -/
def CutsOff (line : Text) (position : Nat) (name matched : Text) : Prop :=
  ∃ start c rest, start ∈ dottedStarts ∧ c.isLower = true ∧ matched = start ++ name ∧
    line.drop position = matched ++ c :: rest

/-- Some line of the files visited refers to the name. -/
def Refers (visits : List Visit) (name : Text) : Prop :=
  ∃ visit ∈ visits, ∃ line ∈ visit.lines, ∃ position matched, RefersTo line position name matched

/-- On some line of the files visited the name is what is left of a name that is cut off. -/
def Cuts (visits : List Visit) (name : Text) : Prop :=
  ∃ visit ∈ visits, ∃ line ∈ visit.lines, ∃ position matched, CutsOff line position name matched

section Lines

variable {line name matched rest file : Text} {c : Char} {position number : Nat}

/-- A small letter does not go on a reference. -/
theorem isReferenceChar_of_isLower (h : c.isLower = true) : isReferenceChar c = false := by
  have hupper : c.isUpper = false := Bool.not_eq_true _ ▸ Char.not_isUpper_of_isLower h
  have hdigit : c.isDigit = false := by grind [Char.isLower, Char.isDigit]
  have hne : c ≠ '_' := by
    rintro rfl
    cases h
  simp [isReferenceChar, hupper, hdigit, hne]

/-- It goes on the name of a property. -/
theorem isIdentifierChar_of_isLower (h : c.isLower = true) : isIdentifierChar c = true := by
  simp [isIdentifierChar, Char.isAlphanum, Char.isAlpha, h]

/-- A character does not go on a reference if it does not go on the name of a property, or is a
small letter. -/
theorem isReferenceChar_eq_false_iff :
    isReferenceChar c = false ↔ isIdentifierChar c = false ∨ c.isLower = true := by
  constructor
  · intro h
    rw [isReferenceChar, Bool.or_eq_false_iff, Bool.or_eq_false_iff] at h
    cases hlower : c.isLower with
    | true => exact Or.inr rfl
    | false => simp [isIdentifierChar, Char.isAlphanum, Char.isAlpha, h, hlower]
  · rintro (h | h)
    · simp_all [isIdentifierChar, isReferenceChar, Char.isAlphanum, Char.isAlpha]
    · exact isReferenceChar_of_isLower h

/-- A reference stops where the name of the property stops, or before a small letter. -/
theorem stopsName_iff :
    StopsName rest ↔ (∀ c, rest.head? = some c → isIdentifierChar c = false) ∨
      ∃ c more, c.isLower = true ∧ rest = c :: more := by
  cases rest with
  | nil => simp [StopsName]
  | cons c more => simp [StopsName, isReferenceChar_eq_false_iff]

/-- At one position a name that is cut off is not referred to. -/
theorem CutsOff.not_refersTo (h : CutsOff line position name matched) :
    ¬ RefersTo line position name matched := by
  obtain ⟨start, c, rest, hstart, hlower, rfl, hline⟩ := h
  intro hrefers
  generalize hmatched : start ++ name = matched at hrefers
  cases hrefers with
  | property _ hline' hstops =>
    rw [hline, hmatched] at hline'
    have hhead := hstops c (List.append_cancel_left hline' ▸ rfl)
    rw [isIdentifierChar_of_isLower hlower] at hhead
    cases hhead
  | key =>
    rw [dottedStarts, List.mem_cons, List.mem_singleton] at hstart
    rcases hstart with rfl | rfl <;> simp at hmatched

/-- The forms are those of properties and that of keys. -/
theorem mem_referenceForms_iff {form : ReferenceForm} :
    form ∈ referenceForms ↔
      (∃ start ∈ dottedStarts, form = propertyForm start) ∨ form = keyForm "process.env" := by
  simp only [referenceForms, dottedStarts, List.mem_cons, List.not_mem_nil, or_false,
    exists_eq_or_imp, exists_eq_left]
  tauto

/-- What the forms find at a position is referred to there, or cut off. -/
theorem exists_fits_iff :
    (∃ form ∈ referenceForms, ∃ found, form (line.drop position) = some found ∧
      found.name = name ∧ found.matched = matched) ↔
        IsReferenceName name ∧
          (RefersTo line position name matched ∨ CutsOff line position name matched) := by
  constructor
  · rintro ⟨form, hform, ⟨name, matched, rest⟩, hfound, rfl, rfl⟩
    rcases mem_referenceForms_iff.mp hform with ⟨start, hstart, rfl⟩ | rfl
    · obtain ⟨hname, hstops, hmatched, hline⟩ := propertyForm_eq_some_iff.mp hfound
      dsimp only at hname hstops hmatched hline ⊢
      subst hmatched
      refine ⟨hname, ?_⟩
      -- The character after the name decides whether it is whole.
      rcases stopsName_iff.mp hstops with hstops | ⟨c, more, hlower, rfl⟩
      · exact Or.inl (.property hstart hline hstops)
      · exact Or.inr ⟨start, c, more, hstart, hlower, rfl, hline⟩
    · obtain ⟨hname, opening, closing, hopening, hclosing, hmatched, hline⟩ :=
        keyForm_eq_some_iff.mp hfound
      dsimp only at hname hmatched hline ⊢
      subst hmatched
      exact ⟨hname, Or.inl (.key hopening hclosing hline)⟩
  · rintro ⟨hname, hrefers | hcuts⟩
    · cases hrefers with
      | property hstart hline hstops =>
        exact ⟨_, mem_referenceForms_iff.mpr (Or.inl ⟨_, hstart, rfl⟩), ⟨_, _, _⟩,
          propertyForm_eq_some_iff.mpr ⟨hname, stopsName_iff.mpr (Or.inl hstops), rfl, hline⟩,
          rfl, rfl⟩
      | key hopening hclosing hline =>
        exact ⟨_, mem_referenceForms_iff.mpr (Or.inr rfl), ⟨_, _, _⟩,
          keyForm_eq_some_iff.mpr ⟨hname, _, _, hopening, hclosing, rfl, hline⟩, rfl, rfl⟩
    · obtain ⟨start, c, rest, hstart, hlower, rfl, hline⟩ := hcuts
      have hstops := stopsName_iff.mpr (Or.inr ⟨c, rest, hlower, rfl⟩)
      exact ⟨_, mem_referenceForms_iff.mpr (Or.inl ⟨_, hstart, rfl⟩), ⟨_, _, _⟩,
        propertyForm_eq_some_iff.mpr ⟨hname, hstops, rfl, hline⟩, rfl, rfl⟩

/-- A line is searched for the names that it refers to and those that are cut off in it. -/
theorem mem_usagesOn_iff {usage : Usage} :
    (name, usage) ∈ usagesOn line number file ↔ usage.file = file ∧ usage.line = number ∧
      IsReferenceName name ∧ ∃ position, RefersTo line position name usage.matched ∨
        CutsOff line position name usage.matched := by
  obtain ⟨path, count, matched⟩ := usage
  rw [usagesOn_eq [] file number line, ← exists_and_left]
  simp only [← exists_fits_iff, List.mem_map, mem_sightingsOn_iff, Sighting.recordedIn,
    Prod.mk.injEq, Usage.mk.injEq]
  constructor
  · rintro ⟨sighting, ⟨-, rfl, form, hform, hfound⟩, rfl, rfl, rfl, rfl⟩
    exact ⟨rfl, rfl, _, form, List.mem_of_getElem? hform, _, hfound, rfl, rfl⟩
  · rintro ⟨rfl, rfl, position, form, hform, found, hfound, rfl, rfl⟩
    obtain ⟨index, hindex⟩ := List.getElem?_of_mem hform
    exact ⟨⟨[], count, index, position, found⟩, ⟨rfl, rfl, form, hindex, hfound⟩, rfl, rfl, rfl,
      rfl⟩

/-- Everything found on a line is referred to there exactly if no name is cut off on the line. -/
theorem forall_refersTo_iff (path : Path) (number : Nat) (line : Text) :
    (∀ sighting ∈ sightingsOn path number line,
      RefersTo line sighting.position sighting.found.name sighting.found.matched) ↔
        ∀ position name matched, IsReferenceName name →
          ¬ CutsOff line position name matched := by
  constructor
  · intro hall position name matched hname hcuts
    obtain ⟨form, hform, found, hfound, rfl, rfl⟩ := exists_fits_iff.mpr ⟨hname, Or.inr hcuts⟩
    obtain ⟨index, hindex⟩ := List.getElem?_of_mem hform
    exact hcuts.not_refersTo (hall ⟨path, number, index, position, found⟩
      (mem_sightingsOn_iff.mpr ⟨rfl, rfl, form, hindex, hfound⟩))
  · intro hnone sighting hsighting
    obtain ⟨-, -, form, hform, hfound⟩ := mem_sightingsOn_iff.mp hsighting
    obtain ⟨hname, hrefers | hcuts⟩ :=
      exists_fits_iff.mp ⟨form, List.mem_of_getElem? hform, _, hfound, rfl, rfl⟩
    · exact hrefers
    · exact absurd hcuts (hnone _ _ _ hname)

end Lines

section Diagnoses

variable {result : ScanResult} {visits : List Visit} {name : Text}

/-- A visit records the names that the lines of its file refer to and those cut off on them. -/
theorem mem_map_references_iff {visit : Visit} :
    name ∈ visit.references.map Prod.fst ↔ IsReferenceName name ∧ ∃ line ∈ visit.lines,
      ∃ position matched, RefersTo line position name matched ∨
        CutsOff line position name matched := by
  rw [Visit.references, usagesOfLines_eq, List.mem_map]
  constructor
  · rintro ⟨⟨name, usage⟩, hmem, rfl⟩
    obtain ⟨⟨line, number⟩, hline, hmem⟩ := List.mem_flatMap.mp hmem
    obtain ⟨-, -, hname, position, hfound⟩ := mem_usagesOn_iff.mp hmem
    exact ⟨hname, line, List.fst_mem_of_mem_zipIdx hline, position, _, hfound⟩
  · rintro ⟨hname, line, hline, position, matched, hfound⟩
    rw [← List.zipIdx_map_fst 1 visit.lines] at hline
    obtain ⟨⟨line, number⟩, hmem, rfl⟩ := List.mem_map.mp hline
    exact ⟨(name, ⟨visit.file, number, matched⟩), List.mem_flatMap.mpr
      ⟨_, hmem, mem_usagesOn_iff.mpr ⟨rfl, rfl, hname, position, hfound⟩⟩, rfl⟩

/-- The names that scans find are those referred to or cut off in the files visited. -/
theorem ScanResult.Tells.mem_keys_iff (h : result.Tells visits) :
    name ∈ result.usages.keys ↔
      IsReferenceName name ∧ (Refers visits name ∨ Cuts visits name) := by
  rw [h.usages.keys, mem_firstOccurrences, List.map_flatMap]
  simp only [List.mem_flatMap, mem_map_references_iff, Refers, Cuts]
  constructor
  · rintro ⟨visit, hvisit, hname, line, hline, position, matched, hrefers | hcuts⟩
    · exact ⟨hname, Or.inl ⟨visit, hvisit, line, hline, position, matched, hrefers⟩⟩
    · exact ⟨hname, Or.inr ⟨visit, hvisit, line, hline, position, matched, hcuts⟩⟩
  · rintro ⟨hname, ⟨visit, hvisit, line, hline, position, matched, hrefers⟩ |
      ⟨visit, hvisit, line, hline, position, matched, hcuts⟩⟩
    · exact ⟨visit, hvisit, hname, line, hline, position, matched, Or.inl hrefers⟩
    · exact ⟨visit, hvisit, hname, line, hline, position, matched, Or.inr hcuts⟩

/-- What is found on a line is referred to there, or cut off before a small letter, and all of it
is referred to exactly if no name is cut off on the line. After scans, which tell of their visits,
a name is missing exactly if it is neither declared nor provided and the files visited refer to it
or have it cut off. So each missing name is referred to exactly if there is a reference, too, to
every name cut off that is neither declared nor provided. A name that is only cut off also passes
for used. -/
theorem diagnose_names (h : result.Tells visits) (declared ignoreMissing ignoreUnused : List Text)
    (path : Path) (file : Text) (number : Nat) (line : Text) :
    usagesOn line number file = (sightingsOn path number line).map (Sighting.recordedIn file) ∧
    ((∀ sighting ∈ sightingsOn path number line,
        RefersTo line sighting.position sighting.found.name sighting.found.matched) ↔
      ∀ position name matched, IsReferenceName name → ¬ CutsOff line position name matched) ∧
    (∀ name usage, (name, usage) ∈ usagesOn line number file ↔
      usage.file = file ∧ usage.line = number ∧ IsReferenceName name ∧
        ∃ position, RefersTo line position name usage.matched ∨
          CutsOff line position name usage.matched) ∧
    (∀ name, name ∈ (diagnose result.usages declared ignoreMissing ignoreUnused).missing.keys ↔
      name ∉ declared ∧ name ∉ ignoreMissing ∧
        IsReferenceName name ∧ (Refers visits name ∨ Cuts visits name)) ∧
    (∀ name, name ∈ (diagnose result.usages declared ignoreMissing ignoreUnused).unused ↔
      name ∈ declared ∧ name ∉ ignoreUnused ∧
        ¬ (IsReferenceName name ∧ (Refers visits name ∨ Cuts visits name))) ∧
    ((∀ name ∈ (diagnose result.usages declared ignoreMissing ignoreUnused).missing.keys,
        Refers visits name) ↔
      ∀ name, IsReferenceName name → Cuts visits name → name ∉ declared → name ∉ ignoreMissing →
        Refers visits name) := by
  have hmissing (name : Text) :
      name ∈ (diagnose result.usages declared ignoreMissing ignoreUnused).missing.keys ↔
        name ∉ declared ∧ name ∉ ignoreMissing ∧
          IsReferenceName name ∧ (Refers visits name ∨ Cuts visits name) := by
    rw [mem_missing_iff, h.mem_keys_iff]
  refine ⟨usagesOn_eq path file number line, forall_refersTo_iff path number line,
    fun name usage => mem_usagesOn_iff, hmissing, fun name => ?_, ?_⟩
  · rw [mem_unused_iff, h.mem_keys_iff]
  · constructor
    · intro hall name hname hcuts hdeclared hignored
      exact hall name ((hmissing name).mpr ⟨hdeclared, hignored, hname, Or.inr hcuts⟩)
    · intro hall name hmem
      obtain ⟨hdeclared, hignored, hname, hrefers | hcuts⟩ := (hmissing name).mp hmem
      · exact hrefers
      · exact hall name hname hcuts hdeclared hignored

end Diagnoses

/-- A source file that refers to one name. -/
def keyTree : Node := .folder [("a.ts", .file (Node.encode "process.env.API_KEY"))]

/-- The whole name is missing there if nothing declares it. -/
theorem diagnose_names_whole :
    ∃ result after, (scan {} keyTree []).runFrom {} = (.ok result, after) ∧
      RefersTo "process.env.API_KEY" 0 "API_KEY" "process.env.API_KEY" ∧
      ("API_KEY" : Text) ∈ (diagnose result.usages []).missing.keys := by
  have hbase : ∀ file ∈ filesUnder {} keyTree [], [] <+: file.1 := fun _ _ => List.nil_prefix
  obtain ⟨result, after, hrun, htells⟩ :=
    (endsIn_scanFiles keyTree hbase ScanResult.Tells.empty).returns
  have hrefers : RefersTo "process.env.API_KEY" 0 "API_KEY" "process.env.API_KEY" :=
    @RefersTo.property _ _ _ "process.env." [] (by decide) rfl nofun
  have hname : IsReferenceName "API_KEY" := ⟨'A', "PI_KEY", rfl, rfl, List.all_eq_true.mp rfl⟩
  have hvisits : [] ++ visitsOf keyTree [] (filesUnder {} keyTree []) =
      [⟨["a.ts"], "a.ts", "process.env.API_KEY"⟩] := by decide +kernel
  rw [hvisits] at htells
  obtain ⟨-, -, -, hmissing, -⟩ :=
    diagnose_names htells [] providedNames [] [] "a.ts" 1 "process.env.API_KEY"
  refine ⟨result, after, hrun, hrefers, (hmissing "API_KEY").mpr ⟨nofun, by decide, hname, ?_⟩⟩
  exact Or.inl ⟨_, List.mem_singleton_self _, "process.env.API_KEY", by decide, 0, _, hrefers⟩

/-- A name with small letters is cut off before them. The line does not refer to what is left of it,
yet that is missing although the whole name is declared. -/
theorem diagnose_names_cutOff :
    usagesOn "process.env.API_Key" 1 "a.ts" =
      [(("API_K" : Text), ⟨"a.ts", 1, "process.env.API_K"⟩)] ∧
    (∀ position matched, ¬ RefersTo "process.env.API_Key" position "API_K" matched) ∧
    (diagnose (scanText "a.ts" "process.env.API_Key").usages ["API_Key"]).missing.keys =
      ["API_K"] := by
  have husages : usagesOn "process.env.API_Key" 1 "a.ts" =
      [(("API_K" : Text), ⟨"a.ts", 1, "process.env.API_K"⟩)] := by decide +kernel
  refine ⟨husages, fun position matched hrefers => ?_, by decide +kernel⟩
  have hname : IsReferenceName "API_K" := ⟨'A', "PI_K", rfl, rfl, List.all_eq_true.mp rfl⟩
  have hmem : (("API_K" : Text), (⟨"a.ts", 1, matched⟩ : Usage)) ∈
      usagesOn "process.env.API_Key" 1 "a.ts" :=
    mem_usagesOn_iff.mpr ⟨rfl, rfl, hname, position, Or.inl hrefers⟩
  rw [husages, List.mem_singleton, Prod.mk.injEq, Usage.mk.injEq] at hmem
  obtain ⟨-, -, -, hmatched⟩ := hmem
  cases hrefers with
  | key => simp at hmatched
  | @property _ rest _ hline hstops =>
    rw [hmatched] at hline
    have hlength := congrArg List.length hline
    have hposition : position < 3 := by
      simp only [List.length_drop, List.length_append, String.length_toList] at hlength
      have hline : ("process.env.API_Key" : String).length = 19 := rfl
      have hfound : ("process.env.API_K" : String).length = 17 := rfl
      omega
    obtain rfl | rfl | rfl : position = 0 ∨ position = 1 ∨ position = 2 := by omega
    · have hrest : ['e', 'y'] = rest := by simpa using hline
      exact absurd (hstops 'e' (by rw [← hrest]; rfl)) (by decide)
    · simp at hline
    · simp at hline

end EnvFiles
