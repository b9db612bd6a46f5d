import EnvFiles.Scan.Usage
import Mathlib.Data.List.Basic
import Mathlib.Data.List.TakeWhile

/-!
# Where a line refers to variables

A form of reference is a start, a name and for a key what closes it. The name is as long as it can
be. No form begins again inside one of its own references, since the letter it begins with does
not come again there. So the references that are found from left to right without overlap are
those at all positions where the form fits.
-/

namespace EnvFiles

/-- A name that a reference can give. -/
def IsReferenceName (name : Text) : Prop :=
  ∃ c rest, name = c :: rest ∧ c.isUpper = true ∧ ∀ d ∈ rest, isReferenceChar d = true

/-- A text that does not go on with a name before it. -/
def StopsName (rest : Text) : Prop := ∀ c, rest.head? = some c → isReferenceChar c = false

section Names

variable {text start name rest : Text} {found : Reference} {c : Char}

/-- A name is made of characters that can continue a name. -/
theorem IsReferenceName.isReferenceChar (h : IsReferenceName name) :
    ∀ c ∈ name, EnvFiles.isReferenceChar c = true := by
  obtain ⟨c, rest, rfl, hupper, hrest⟩ := h
  refine List.forall_mem_cons.mpr ⟨?_, hrest⟩
  simp [EnvFiles.isReferenceChar, hupper]

/-- A name is read to its end. -/
theorem referenceName?_eq_some_iff :
    referenceName? text = some (name, rest) ↔
      IsReferenceName name ∧ StopsName rest ∧ text = name ++ rest := by
  constructor
  · intro h
    cases text with
    | nil => cases h
    | cons c more =>
      rw [referenceName?] at h
      split at h
      · rename_i hupper
        cases h
        refine ⟨⟨c, _, rfl, hupper, fun d hd => List.mem_takeWhile_imp hd⟩, fun d hd => ?_, ?_⟩
        · have hnot := List.head?_dropWhile_not isReferenceChar more
          rw [hd] at hnot
          simpa using hnot
        · simp [List.takeWhile_append_dropWhile]
      · cases h
  · rintro ⟨⟨c, more, rfl, hupper, hmore⟩, hstops, rfl⟩
    rw [List.cons_append, referenceName?, if_pos hupper]
    have htake : rest.takeWhile isReferenceChar = [] := by
      cases rest with
      | nil => rfl
      | cons d rest => simp [hstops d rfl]
    have hdrop : rest.dropWhile isReferenceChar = rest := by
      cases rest with
      | nil => rfl
      | cons d rest => simp [hstops d rfl]
    rw [List.takeWhile_append_of_pos hmore, List.dropWhile_append_of_pos hmore, htake, hdrop,
      List.append_nil]

/-- A property is its start and a name. -/
theorem propertyForm_eq_some_iff :
    propertyForm start text = some found ↔ IsReferenceName found.name ∧ StopsName found.rest ∧
      found.matched = start ++ found.name ∧ text = found.matched ++ found.rest := by
  obtain ⟨name, matched, rest⟩ := found
  dsimp only
  rw [propertyForm]
  constructor
  · intro h
    obtain ⟨after, hafter, h⟩ := Option.bind_eq_some_iff.mp h
    obtain ⟨⟨other, more⟩, hname, h⟩ := Option.bind_eq_some_iff.mp h
    cases h
    obtain ⟨hother, hstops, rfl⟩ := referenceName?_eq_some_iff.mp hname
    refine ⟨hother, hstops, rfl, ?_⟩
    rw [Text.dropStart?_eq_some_iff.mp hafter, List.append_assoc]
  · rintro ⟨hname, hstops, rfl, rfl⟩
    refine Option.bind_eq_some_iff.mpr ⟨name ++ rest, ?_, ?_⟩
    · rw [Text.dropStart?_eq_some_iff, List.append_assoc]
    · exact Option.bind_eq_some_iff.mpr
        ⟨(name, rest), referenceName?_eq_some_iff.mpr ⟨hname, hstops, rfl⟩, rfl⟩

/-- A quote does not continue a name. -/
theorem isReferenceChar_of_isQuote (h : isQuote c = true) : isReferenceChar c = false := by
  rw [isQuote, Bool.or_eq_true, beq_iff_eq, beq_iff_eq] at h
  rcases h with rfl | rfl <;> rfl

/-- A key is its start, and a name between quotes in brackets. -/
theorem keyForm_eq_some_iff :
    keyForm start text = some found ↔ IsReferenceName found.name ∧
      ∃ opening closing, isQuote opening = true ∧ isQuote closing = true ∧
        found.matched = start ++ "[" ++ (opening :: found.name) ++ (closing :: "]") ∧
          text = found.matched ++ found.rest := by
  obtain ⟨name, matched, rest⟩ := found
  dsimp only
  constructor
  · intro h
    rw [keyForm] at h
    split at h
    · rename_i opening inner hdrop
      split at h
      · rename_i hopening
        split at h
        · rename_i other closing more hname
          split at h
          · rename_i hclosing
            cases h
            obtain ⟨hother, -, rfl⟩ := referenceName?_eq_some_iff.mp hname
            refine ⟨hother, opening, closing, hopening, hclosing, rfl, ?_⟩
            rw [Text.dropStart?_eq_some_iff.mp hdrop]
            simp
          · cases h
        · cases h
      · cases h
    · cases h
  · rintro ⟨hname, opening, closing, hopening, hclosing, rfl, rfl⟩
    have hdrop : Text.dropStart? (start ++ "[")
        (start ++ "[" ++ (opening :: name) ++ (closing :: "]") ++ rest) =
          some (opening :: (name ++ closing :: ']' :: rest)) := by
      rw [Text.dropStart?_eq_some_iff]
      simp
    have hread : referenceName? (name ++ closing :: ']' :: rest) =
        some (name, closing :: ']' :: rest) := by
      refine referenceName?_eq_some_iff.mpr ⟨hname, fun c hc => ?_, rfl⟩
      obtain rfl := Option.some.inj hc
      exact isReferenceChar_of_isQuote hclosing
    rw [keyForm, hdrop]
    simp [hopening, hread, hclosing]

end Names

/-- A form whose references begin with a letter that does not come again in them. -/
def ReferenceForm.IsMarked (form : ReferenceForm) (mark : Char) : Prop :=
  ∀ text found, form text = some found → text = found.matched ++ found.rest ∧
    ∃ tail, found.matched = mark :: tail ∧ mark ∉ tail

/-- Where a form of reference fits on a line, and what is found there. -/
def foundIn (form : ReferenceForm) (line : Text) : List (Nat × Reference) :=
  (List.range line.length).filterMap fun position =>
    (form (line.drop position)).map fun found => (position, found)

section Forms

variable {form : ReferenceForm} {mark : Char} {start line : Text}

/-- A property is marked by a letter that does not come again in its start. -/
theorem isMarked_propertyForm (hstart : mark ∉ start) (hmark : isReferenceChar mark = false) :
    ReferenceForm.IsMarked (propertyForm (mark :: start)) mark := by
  intro text found h
  obtain ⟨hname, -, hmatched, htext⟩ := propertyForm_eq_some_iff.mp h
  refine ⟨htext, start ++ found.name, hmatched, fun hmem => ?_⟩
  rcases List.mem_append.mp hmem with hmem | hmem
  · exact hstart hmem
  · rw [hname.isReferenceChar mark hmem] at hmark
    cases hmark

/-- So is a key, if the letter is no quote or bracket either. -/
theorem isMarked_keyForm (hstart : mark ∉ start) (hmark : isReferenceChar mark = false)
    (hquote : isQuote mark = false) (hbrackets : mark ∉ ("[]" : Text)) :
    ReferenceForm.IsMarked (keyForm (mark :: start)) mark := by
  intro text found h
  obtain ⟨hname, opening, closing, hopening, hclosing, hmatched, htext⟩ := keyForm_eq_some_iff.mp h
  refine ⟨htext, _, hmatched, fun hmem => ?_⟩
  have hne {c : Char} (hc : isQuote c = true) : mark ≠ c := by
    rintro rfl
    rw [hc] at hquote
    cases hquote
  have hnot : mark ∉ found.name := fun hmem => by
    rw [hname.isReferenceChar mark hmem] at hmark
    cases hmark
  simp_all

/-- Every form is marked. -/
theorem exists_isMarked (h : form ∈ referenceForms) :
    ∃ mark, ReferenceForm.IsMarked form mark := by
  simp only [referenceForms, List.mem_cons, List.not_mem_nil, or_false] at h
  rcases h with rfl | rfl | rfl
  · exact ⟨'p', isMarked_propertyForm (by decide) rfl⟩
  · exact ⟨'p', isMarked_keyForm (by decide) rfl rfl (by decide)⟩
  · exact ⟨'i', isMarked_propertyForm (by decide) rfl⟩

/-- What the references of each form begin with. -/
def formStarts : List Text := ["process.env.", "process.env[", "import.meta.env."]

/-- A form fits only a text with its start. -/
theorem exists_formStart {index : Nat} {text : Text} {found : Reference}
    (hform : referenceForms[index]? = some form) (h : form text = some found) :
    ∃ start, formStarts[index]? = some start ∧ start <+: text := by
  have hproperty {start : Text} (h : propertyForm start text = some found) : start <+: text := by
    obtain ⟨-, -, hmatched, htext⟩ := propertyForm_eq_some_iff.mp h
    rw [htext, hmatched, List.append_assoc]
    exact List.prefix_append start _
  match index with
  | 0 =>
    obtain rfl := Option.some.inj hform
    exact ⟨_, rfl, hproperty h⟩
  | 1 =>
    obtain rfl := Option.some.inj hform
    obtain ⟨-, opening, closing, -, -, hmatched, htext⟩ := keyForm_eq_some_iff.mp h
    refine ⟨_, rfl, ?_⟩
    rw [htext, hmatched, List.append_assoc, List.append_assoc]
    exact List.prefix_append _ _
  | 2 =>
    obtain rfl := Option.some.inj hform
    exact ⟨_, rfl, hproperty h⟩
  | index + 3 => cases hform

/-- So no two forms fit at one position. -/
theorem form_unique {index index' : Nat} {other : ReferenceForm} {text : Text}
    {found found' : Reference} (hform : referenceForms[index]? = some form)
    (hother : referenceForms[index']? = some other) (h : form text = some found)
    (h' : other text = some found') : index = index' := by
  have hapart : ∀ a ∈ formStarts.zipIdx, ∀ b ∈ formStarts.zipIdx, a.1 <+: b.1 → a.2 = b.2 := by
    decide
  obtain ⟨start, hstart, hprefix⟩ := exists_formStart hform h
  obtain ⟨start', hstart', hprefix'⟩ := exists_formStart hother h'
  have hmem := List.mk_mem_zipIdx_iff_getElem?.mpr hstart
  have hmem' := List.mk_mem_zipIdx_iff_getElem?.mpr hstart'
  rcases List.prefix_or_prefix_of_prefix hprefix hprefix' with hle | hle
  · exact hapart _ hmem _ hmem' hle
  · exact (hapart _ hmem' _ hmem hle).symm

/-- A marked form fits only where its letter stands. -/
theorem ReferenceForm.IsMarked.eq_none (h : form.IsMarked mark) {text : Text}
    (hhead : text.head? ≠ some mark) : form text = none := by
  cases hform : form text with
  | none => rfl
  | some found =>
    obtain ⟨htext, tail, hmatched, -⟩ := h text found hform
    rw [htext, hmatched] at hhead
    exact absurd rfl hhead

/-- A form fits at the beginning of a line, or later on. -/
theorem foundIn_cons (form : ReferenceForm) (c : Char) (line : Text) :
    foundIn form (c :: line) = ((form (c :: line)).map fun found => (0, found)).toList ++
      (foundIn form line).map fun found => (found.1 + 1, found.2) := by
  have hlater : (foundIn form line).map (fun found => (found.1 + 1, found.2)) =
      ((List.range line.length).map Nat.succ).filterMap fun position =>
        (form ((c :: line).drop position)).map fun found => (position, found) := by
    rw [foundIn, List.map_filterMap, List.filterMap_map]
    congr 1
    funext position
    simp [Option.map_map, Function.comp_def]
  rw [hlater, foundIn, List.length_cons, List.range_succ_eq_map]
  cases h : form (c :: line) <;> simp [h]

/-- The references found from left to right are those at the positions where the form fits. -/
theorem referencesFrom_eq (h : form.IsMarked mark) (skipped : Nat) (line : Text)
    (hskipped : mark ∉ line.take skipped) :
    referencesFrom form skipped line = (foundIn form line).map Prod.snd := by
  induction line generalizing skipped with
  | nil => cases skipped <;> rfl
  | cons c rest ih =>
    rw [foundIn_cons, List.map_append, List.map_map]
    cases skipped with
    | succ skipped =>
      -- What is passed over does not hold the mark, so the form does not fit there.
      rw [List.take_succ_cons, List.mem_cons, not_or] at hskipped
      have hnone : form (c :: rest) = none := h.eq_none (by simpa using Ne.symm hskipped.1)
      rw [referencesFrom, ih skipped hskipped.2, hnone]
      rfl
    | zero =>
      rw [referencesFrom]
      cases hform : form (c :: rest) with
      | none =>
        dsimp only
        rw [ih 0 (by simp)]
        rfl
      | some found =>
        obtain ⟨htext, tail, hmatched, hmark⟩ := h _ found hform
        have hrest : rest.take (found.matched.length - 1) = tail := by
          rw [hmatched, List.cons_append] at htext
          rw [hmatched, (List.cons.inj htext).2]
          simp
        dsimp only
        rw [ih _ (hrest.symm ▸ hmark)]
        rfl

/-- A form fits at a position exactly if it is found there. -/
theorem mem_foundIn_iff (hform : form ∈ referenceForms) {position : Nat} {found : Reference} :
    (position, found) ∈ foundIn form line ↔ form (line.drop position) = some found := by
  obtain ⟨mark, hmark⟩ := exists_isMarked hform
  simp only [foundIn, List.mem_filterMap, List.mem_range, Option.map_eq_some_iff, Prod.mk.injEq]
  constructor
  · rintro ⟨_, -, _, hfound, rfl, rfl⟩
    exact hfound
  · intro hfound
    refine ⟨position, ?_, found, hfound, rfl, rfl⟩
    by_contra hlength
    rw [List.drop_of_length_le (Nat.le_of_not_lt hlength), hmark.eq_none (by simp)] at hfound
    cases hfound

/-- It is found at the positions in their order. -/
theorem pairwise_foundIn (form : ReferenceForm) (line : Text) :
    (foundIn form line).Pairwise fun first second => first.1 < second.1 := by
  refine List.Pairwise.filterMap _ (fun first second hlt found hfound other hother => ?_)
    List.pairwise_lt_range
  obtain ⟨_, -, rfl⟩ := Option.map_eq_some_iff.mp hfound
  obtain ⟨_, -, rfl⟩ := Option.map_eq_some_iff.mp hother
  exact hlt

end Forms
end EnvFiles
