import EnvFiles.Proofs.Text.Parts

/-!
# How often a bracketed part occurs

The places at which a bracketed part without further brackets starts are kept by everything that
is done to a description: joining blanks, cutting blanks off at the ends, and erasing another
text in brackets, which takes away no more of them than it holds itself. Such a part has its
opening bracket at its start and its closing bracket at its end alone, so none of its places
reaches over a bracket.
-/

namespace EnvFiles.Text

/-- How many places of a text a part starts at. -/
def occurrences (part text : Text) : Nat := text.tails.countP part.isPrefixOf

/-- A part starts at the first place of a text or at a later one. -/
theorem occurrences_cons (part : Text) (c : Char) (text : Text) :
    occurrences part (c :: text) =
      occurrences part text + if part <+: c :: text then 1 else 0 := by
  simp only [occurrences, List.tails_cons, List.countP_cons, List.isPrefixOf_iff_prefix]

/-- A text goes on after a beginning, or the beginning reaches into what goes on. -/
theorem prefix_append_cases {part rest : Text} (first : Text) (h : part <+: first ++ rest) :
    part <+: first ∨ ∃ c more, part = first ++ c :: more ∧ c :: more <+: rest := by
  rcases List.prefix_or_prefix_of_prefix h (List.prefix_append first rest) with hpart | hfirst
  · exact Or.inl hpart
  · obtain ⟨more, rfl⟩ := hfirst
    cases more with
    | nil => exact Or.inl (by rw [List.append_nil])
    | cons c more => exact Or.inr ⟨c, more, rfl, (List.prefix_append_right_inj first).mp h⟩

section Bracketed

variable {inner : Text}

/-- A bracketed part does not start where the empty text does. -/
theorem occurrences_nil : occurrences (bracketed inner) [] = 0 := rfl

/-- A bracketed part starts at a bracket. -/
theorem occurrences_cons_of_ne {c : Char} (hc : c ≠ '[') (text : Text) :
    occurrences (bracketed inner) (c :: text) = occurrences (bracketed inner) text := by
  have hhere : ¬ bracketed inner <+: c :: text := fun h => hc (List.cons_prefix_cons.mp h).1.symm
  rw [occurrences_cons, if_neg hhere, Nat.add_zero]

/-- What occurs in two texts occurs in them together. -/
theorem occurrences_append_le (inner first rest : Text) :
    occurrences (bracketed inner) first + occurrences (bracketed inner) rest ≤
      occurrences (bracketed inner) (first ++ rest) := by
  induction first with
  | nil => rw [occurrences_nil, Nat.zero_add, List.nil_append]
  | cons c first ih =>
    rw [List.cons_append, occurrences_cons, occurrences_cons]
    have hhere : bracketed inner <+: c :: first → bracketed inner <+: c :: (first ++ rest) :=
      fun h => h.trans (List.prefix_append (c :: first) rest)
    split
    · rename_i hfirst
      rw [if_pos (hhere hfirst)]
      omega
    · omega

/-- A bracketed part that starts before an opening bracket ends before it. -/
theorem bracketed_prefix_open (hinner : '[' ∉ inner) {c : Char} {first rest : Text} :
    bracketed inner <+: c :: (first ++ '[' :: rest) ↔ bracketed inner <+: c :: first := by
  refine ⟨fun h => ?_, fun h => h.trans (List.prefix_append (c :: first) ('[' :: rest))⟩
  rcases prefix_append_cases (c :: first) h with hfirst | ⟨d, more, hpart, hmore⟩
  · exact hfirst
  · obtain ⟨rfl, -⟩ := List.cons_prefix_cons.mp hmore
    have htail : inner ++ [']'] = first ++ '[' :: more := (List.cons.inj hpart).2
    have hmem : '[' ∈ inner ++ [']'] := htail ▸ by simp
    exact absurd hmem (by simpa using hinner)

/-- A bracketed part that starts before a closing bracket ends with it or before it. -/
theorem bracketed_prefix_close (hinner : ']' ∉ inner) {c : Char} {first rest : Text} :
    bracketed inner <+: c :: (first ++ ']' :: rest) ↔
      bracketed inner <+: c :: (first ++ [']']) := by
  refine ⟨fun h => ?_, fun h => h.trans ⟨rest, by simp⟩⟩
  rcases prefix_append_cases (c :: first) h with hfirst | ⟨d, more, hpart, hmore⟩
  · exact hfirst.trans (List.prefix_append (c :: first) [']'])
  · obtain ⟨rfl, -⟩ := List.cons_prefix_cons.mp hmore
    rcases List.eq_nil_or_concat more with rfl | ⟨more, last, rfl⟩
    · rw [hpart]
      exact List.prefix_rfl
    · -- The closing bracket would stand before the end of the part.
      have hlast : bracketed inner = ('[' :: inner) ++ [']'] := rfl
      rw [hlast, List.concat_eq_append, ← List.cons_append, ← List.append_assoc] at hpart
      have hbefore := (List.append_inj' hpart rfl).1
      have hmem : ']' ∈ '[' :: inner := hbefore ▸ by simp
      exact absurd hmem (by simpa using hinner)

/-- No place of a bracketed part reaches over an opening bracket. -/
theorem occurrences_append_open (hinner : '[' ∉ inner) (first rest : Text) :
    occurrences (bracketed inner) (first ++ '[' :: rest) =
      occurrences (bracketed inner) first + occurrences (bracketed inner) ('[' :: rest) := by
  induction first with
  | nil => rw [occurrences_nil, Nat.zero_add, List.nil_append]
  | cons c first ih =>
    rw [List.cons_append, occurrences_cons, occurrences_cons, ih]
    simp only [bracketed_prefix_open hinner]
    omega

/-- No place of a bracketed part reaches over a closing bracket. -/
theorem occurrences_append_close (hinner : ']' ∉ inner) (first rest : Text) :
    occurrences (bracketed inner) (first ++ ']' :: rest) =
      occurrences (bracketed inner) (first ++ [']']) + occurrences (bracketed inner) rest := by
  induction first with
  | nil =>
    rw [List.nil_append, List.nil_append, occurrences_cons_of_ne (by decide),
      occurrences_cons_of_ne (by decide), occurrences_nil, Nat.zero_add]
  | cons c first ih =>
    rw [List.cons_append, List.cons_append, occurrences_cons, occurrences_cons, ih]
    simp only [bracketed_prefix_close hinner]
    omega

/-- Erasing a text from bracket to bracket, whatever it holds, takes away no more places of a
bracketed part than it holds. -/
theorem occurrences_le_eraseFirst (hinner : IsPlain inner) {raw : Text}
    (hraw : raw = [] ∨ ∃ held, raw = bracketed held) (text : Text) :
    occurrences (bracketed inner) text ≤
      occurrences (bracketed inner) (eraseFirst raw text) + occurrences (bracketed inner) raw := by
  rcases eraseFirst_cases raw text with hkept | ⟨before, after, rfl, hleft⟩
  · rw [hkept]
    exact Nat.le_add_right ..
  rw [hleft]
  have happend := occurrences_append_le inner before after
  rcases hraw with rfl | ⟨held, rfl⟩
  · rw [List.append_nil]
    exact Nat.le_add_right ..
  · have hsplit : before ++ bracketed held ++ after =
        before ++ '[' :: (held ++ ']' :: after) := by simp [bracketed]
    have hclose := occurrences_append_close hinner.2 ('[' :: held) after
    rw [List.cons_append] at hclose
    rw [hsplit, occurrences_append_open hinner.1, hclose]
    change _ + (occurrences _ (bracketed held) + _) ≤ _
    omega

section Blanks

/-- A character that is not blank ends a run of blanks. -/
theorem collapseFrom_append_cons {c : Char} (hc : isBlank c = false) (inRun : Bool)
    (first rest : Text) :
    collapseFrom inRun (first ++ c :: rest) =
      collapseFrom inRun first ++ c :: collapseFrom false rest := by
  induction first generalizing inRun with
  | nil =>
    change collapseFrom inRun (c :: rest) = c :: collapseFrom false rest
    rw [collapseFrom, hc, if_neg Bool.false_ne_true]
  | cons d first ih =>
    rw [List.cons_append, collapseFrom, collapseFrom]
    split
    · split
      · exact ih true
      · exact congrArg (' ' :: ·) (ih true)
    · exact congrArg (d :: ·) (ih false)

/-- Joining the blanks of a bracketed text joins those inside. -/
theorem normaliseBlanks_bracketed (inner : Text) :
    normaliseBlanks (bracketed inner) = bracketed (collapseFrom false inner) := by
  have hcollapse : collapseFrom false (bracketed inner) = bracketed (collapseFrom false inner) := by
    have hopen := collapseFrom_append_cons (c := '[') (by decide) false [] (inner ++ [']'])
    have hclose := collapseFrom_append_cons (c := ']') (by decide) false inner []
    rw [hclose] at hopen
    exact hopen
  rw [normaliseBlanks, hcollapse]
  exact trimEnd_append_cons (c := ']') (by decide) ('[' :: collapseFrom false inner) []

/-- A blank is no opening bracket. -/
theorem ne_of_isBlank {c : Char} (h : isBlank c = true) : c ≠ '[' := by
  rintro rfl
  exact absurd h (by decide)

/-- Joining blanks keeps the places of a bracketed part. -/
theorem occurrences_le_collapseFrom (inRun : Bool) (text : Text) :
    occurrences (bracketed inner) text ≤
      occurrences (bracketed (collapseFrom false inner)) (collapseFrom inRun text) := by
  induction text generalizing inRun with
  | nil => exact Nat.zero_le _
  | cons c text ih =>
    rw [collapseFrom]
    split
    · rename_i hblank
      rw [occurrences_cons_of_ne (ne_of_isBlank hblank)]
      split
      · exact ih true
      · rw [occurrences_cons_of_ne (by decide)]
        exact ih true
    · have hhere : bracketed inner <+: c :: text →
          bracketed (collapseFrom false inner) <+: c :: collapseFrom false text := by
        rintro ⟨more, hmore⟩
        obtain ⟨rfl, htail⟩ := List.cons.inj hmore
        have htext : inner ++ ']' :: more = text := (List.append_assoc ..).symm.trans htail
        have hclose := collapseFrom_append_cons (c := ']') (by decide) false inner more
        rw [← htext, hclose]
        exact ⟨collapseFrom false more, congrArg ('[' :: ·) (List.append_assoc ..)⟩
      rw [occurrences_cons, occurrences_cons]
      refine Nat.add_le_add (ih false) ?_
      split
      · rename_i hfirst
        rw [if_pos (hhere hfirst)]
      · exact Nat.zero_le _

/-- Cutting blanks off at the end keeps the places of a bracketed part. -/
theorem occurrences_le_trimEnd (text : Text) :
    occurrences (bracketed inner) text ≤ occurrences (bracketed inner) (trimEnd text) := by
  induction text with
  | nil => exact le_rfl
  | cons c text ih =>
    rw [trimEnd_cons]
    split
    · rename_i hblank
      rw [hblank.1] at ih
      rwa [occurrences_cons_of_ne (ne_of_isBlank hblank.2)]
    · rename_i hkept
      have hhere : bracketed inner <+: c :: text → bracketed inner <+: c :: trimEnd text := by
        rintro ⟨more, hmore⟩
        have hcut := trimEnd_append_cons (c := ']') (by decide) ('[' :: inner) more
        have htext : ('[' :: inner) ++ ']' :: more = c :: text :=
          (List.append_assoc ('[' :: inner) [']'] more).symm.trans hmore
        rw [htext, trimEnd_cons, if_neg hkept] at hcut
        exact ⟨trimEnd more, (List.append_assoc ('[' :: inner) [']'] _).trans hcut.symm⟩
      rw [occurrences_cons, occurrences_cons]
      refine Nat.add_le_add ih ?_
      split
      · rename_i hfirst
        rw [if_pos (hhere hfirst)]
      · exact Nat.zero_le _

/-- Cutting blanks off at the start keeps the places of a bracketed part. -/
theorem occurrences_trimStart (text : Text) :
    occurrences (bracketed inner) (trimStart text) = occurrences (bracketed inner) text := by
  induction text with
  | nil => rfl
  | cons c text ih =>
    rw [trimStart]
    by_cases hblank : isBlank c = true
    · rw [List.dropWhile_cons_of_pos hblank, occurrences_cons_of_ne (ne_of_isBlank hblank)]
      exact ih
    · rw [List.dropWhile_cons_of_neg hblank]

/-- Joining the blanks of a text keeps the places of a bracketed part, with its blanks joined as
well. -/
theorem occurrences_le_normaliseBlanks (text : Text) :
    occurrences (bracketed inner) text ≤
      occurrences (normaliseBlanks (bracketed inner)) (normaliseBlanks text) := by
  rw [normaliseBlanks_bracketed, normaliseBlanks, trim]
  calc occurrences (bracketed inner) text
      ≤ occurrences (bracketed (collapseFrom false inner)) (collapseFrom false text) :=
        occurrences_le_collapseFrom false text
    _ = occurrences (bracketed (collapseFrom false inner))
          (trimStart (collapseFrom false text)) := (occurrences_trimStart _).symm
    _ ≤ _ := occurrences_le_trimEnd _

end Blanks

end Bracketed

end EnvFiles.Text
