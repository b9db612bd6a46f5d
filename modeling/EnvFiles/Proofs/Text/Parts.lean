import EnvFiles.Proofs.Assignment

/-!
# Texts put together from words and bracketed parts

A text whose parts are free of brackets or enclosed in one pair of them can only be searched for a
tag at the start of its bracketed parts. Erasing such a part leaves the others, and an empty part
in its place. Once blanks are normalised, only the words are left.
-/

namespace EnvFiles.Text

variable {ι α : Type}

/-- A text without brackets. -/
def IsPlain (text : Text) : Prop := '[' ∉ text ∧ ']' ∉ text

instance (text : Text) : Decidable (IsPlain text) :=
  inferInstanceAs (Decidable ('[' ∉ text ∧ ']' ∉ text))

/-- A text in brackets. -/
def bracketed (inner : Text) : Text := '[' :: (inner ++ [']'])

/-- A part without brackets, or one in brackets with none inside. -/
def IsPart (part : Text) : Prop := IsPlain part ∨ ∃ inner, IsPlain inner ∧ part = bracketed inner

/-- Parts joined by single spaces. -/
def spaced (parts : List Text) : Text := join " " parts

/-- One part before others. -/
theorem spaced_cons_cons (part next : Text) (rest : List Text) :
    spaced (part :: next :: rest) = part ++ ' ' :: spaced (next :: rest) := rfl

/-- No opening bracket follows the first character of a bracketed text. -/
theorem notMem_tail_bracketed {inner : Text} (h : IsPlain inner) : '[' ∉ inner ++ [']'] := by
  simpa using h.1

/-- An attempt that finds nothing at the start of a text without a bracket there. -/
structure StartsAtBracket (attempt : Text → Option α) : Prop where
  nil : attempt [] = none
  cons : ∀ c rest, c ≠ '[' → attempt (c :: rest) = none

/-- A search finds what is found at the first place at which something is. -/
theorem firstMatch_eq_some_iff {attempt : Text → Option α} {text : Text} {found : α} :
    firstMatch attempt text = some found ↔
      ∃ before rest, text = before ++ rest ∧ attempt rest = some found ∧
        ∀ start after, text = start ++ after → start.length < before.length →
          attempt after = none := by
  induction text with
  | nil =>
    constructor
    · exact fun h => ⟨[], [], rfl, h, fun _ _ _ hlength => absurd hlength (Nat.not_lt_zero _)⟩
    · rintro ⟨before, rest, htext, hfound, -⟩
      rwa [(List.append_eq_nil_iff.mp htext.symm).2] at hfound
  | cons c text ih =>
    rw [firstMatch, Option.or_eq_some_iff, ih]
    constructor
    · rintro (hhere | ⟨hnone, before, rest, htext, hfound, hfirst⟩)
      · exact ⟨[], c :: text, rfl, hhere, fun _ _ _ hlength =>
          absurd hlength (Nat.not_lt_zero _)⟩
      · refine ⟨c :: before, rest, congrArg (c :: ·) htext, hfound, ?_⟩
        intro start after hafter hlt
        cases start with
        | nil => exact (List.nil_append after ▸ hafter) ▸ hnone
        | cons d start =>
          exact hfirst start after (List.cons.inj hafter).2 (Nat.lt_of_succ_lt_succ hlt)
    · rintro ⟨before, rest, htext, hfound, hfirst⟩
      cases before with
      | nil => exact Or.inl (by rwa [htext])
      | cons d before =>
        refine Or.inr ⟨hfirst [] (c :: text) rfl (Nat.zero_lt_succ _), before, rest,
          (List.cons.inj htext).2, hfound, fun start after hafter hlt => ?_⟩
        exact hfirst (c :: start) after (congrArg (c :: ·) hafter) (Nat.succ_lt_succ hlt)

/-- A search finds nothing when nothing is found at any place. -/
theorem firstMatch_eq_none_iff {attempt : Text → Option α} {text : Text} :
    firstMatch attempt text = none ↔
      ∀ start after, text = start ++ after → attempt after = none := by
  induction text with
  | nil =>
    refine ⟨fun h start after htext => ?_, fun h => h [] [] rfl⟩
    rwa [(List.append_eq_nil_iff.mp htext.symm).2]
  | cons c text ih =>
    rw [firstMatch, Option.or_eq_none_iff, ih]
    refine ⟨fun h start after htext => ?_, fun h => ⟨h [] _ rfl, fun start after htext => ?_⟩⟩
    · cases start with
      | nil => exact (List.nil_append after ▸ htext) ▸ h.1
      | cons d start => exact h.2 start after (List.cons.inj htext).2
    · exact h (c :: start) after (congrArg (c :: ·) htext)

section Searching

variable {attempt : Text → Option α} (hbracket : StartsAtBracket attempt)

include hbracket

/-- Nothing is found at the start of a text without brackets. -/
theorem StartsAtBracket.eq_none {part : Text} (hplain : IsPlain part) : attempt part = none := by
  cases part with
  | nil => exact hbracket.nil
  | cons c part => exact hbracket.cons c part fun h => hplain.1 (h ▸ List.mem_cons_self ..)

/-- A search for what starts with a bracket passes over other characters. -/
theorem firstMatch_append {first : Text} (hfirst : '[' ∉ first) (rest : Text) :
    firstMatch attempt (first ++ rest) = firstMatch attempt rest := by
  induction first with
  | nil => rfl
  | cons c first ih =>
    rw [List.mem_cons, not_or] at hfirst
    rw [List.cons_append, firstMatch, hbracket.cons c _ (Ne.symm hfirst.1), Option.none_or,
      ih hfirst.2]

/-- A search for what starts with a bracket finds the first of the parts at whose start it
succeeds, provided that what follows a bracketed part does not matter to it. -/
theorem firstMatch_spaced {parts : List Text} (hparts : ∀ part ∈ parts, IsPart part)
    (hlocal : ∀ inner, bracketed inner ∈ parts → ∀ rest,
      attempt (bracketed inner ++ rest) = attempt (bracketed inner)) :
    firstMatch attempt (spaced parts) = parts.findSome? attempt := by
  have hpart (part : Text) (hpart : IsPart part) (hlocal : ∀ inner, bracketed inner = part →
      ∀ rest, attempt (bracketed inner ++ rest) = attempt (bracketed inner)) (rest : Text) :
      firstMatch attempt (part ++ rest) = (attempt part).or (firstMatch attempt rest) := by
    rcases hpart with hplain | ⟨inner, hinner, rfl⟩
    · rw [firstMatch_append hbracket hplain.1, hbracket.eq_none hplain, Option.none_or]
    · have hstart := hlocal inner rfl rest
      rw [bracketed, List.cons_append] at hstart
      rw [bracketed, List.cons_append, firstMatch, hstart,
        firstMatch_append hbracket (notMem_tail_bracketed hinner)]
  induction parts with
  | nil => exact hbracket.nil
  | cons part rest ih =>
    have hmem : part ∈ part :: rest := List.mem_cons_self ..
    have ih' := ih (fun other hother => hparts other (List.mem_cons_of_mem _ hother))
      fun inner hinner => hlocal inner (List.mem_cons_of_mem _ hinner)
    have hfirst := hpart part (hparts part hmem) fun inner heq => hlocal inner (heq ▸ hmem)
    have hcons : (part :: rest).findSome? attempt =
        (attempt part).or (rest.findSome? attempt) := by
      rw [List.findSome?_cons]
      cases attempt part <;> rfl
    rw [hcons, ← ih']
    cases rest with
    | nil =>
      have hend := hfirst []
      rwa [List.append_nil] at hend
    | cons next rest =>
      have hspace : firstMatch attempt ([' '] ++ spaced (next :: rest)) = _ :=
        firstMatch_append hbracket (by decide) _
      rw [spaced_cons_cons, hfirst, ← hspace]
      rfl

end Searching

section Erasing

/-- Erasing nothing changes nothing. -/
theorem eraseFirst_nil (text : Text) : eraseFirst [] text = text := by cases text <;> rfl

/-- A text from which a part is erased stays as it is, or the part stands in it and is cut out. -/
theorem eraseFirst_cases (part text : Text) :
    eraseFirst part text = text ∨
      ∃ before after, text = before ++ part ++ after ∧ eraseFirst part text = before ++ after := by
  induction text with
  | nil => exact Or.inl rfl
  | cons c text ih =>
    rw [eraseFirst]
    split
    · rename_i after hafter
      exact Or.inr ⟨[], after, dropStart?_eq_some_iff.mp hafter, rfl⟩
    · rcases ih with hkept | ⟨before, after, htext, hleft⟩
      · exact Or.inl (congrArg (c :: ·) hkept)
      · exact Or.inr ⟨c :: before, after, congrArg (c :: ·) htext, congrArg (c :: ·) hleft⟩

/-- Erasing a bracketed part passes over what has no opening bracket. -/
theorem eraseFirst_append {first : Text} (hfirst : '[' ∉ first) (inner rest : Text) :
    eraseFirst (bracketed inner) (first ++ rest) =
      first ++ eraseFirst (bracketed inner) rest := by
  induction first with
  | nil => rfl
  | cons c first ih =>
    rw [List.mem_cons, not_or] at hfirst
    rw [List.cons_append, eraseFirst, bracketed, dropStart?, if_neg hfirst.1, ← bracketed,
      ih hfirst.2, List.cons_append]

/-- A bracketed part at the start is erased. -/
theorem eraseFirst_self (inner rest : Text) :
    eraseFirst (bracketed inner) (bracketed inner ++ rest) = rest := by
  have hdrop : dropStart? (bracketed inner) (bracketed inner ++ rest) = some rest :=
    dropStart?_eq_some_iff.mpr rfl
  rw [bracketed, List.cons_append] at hdrop ⊢
  rw [eraseFirst, hdrop]

/-- A bracketed text starts with another one only if they are the same. -/
theorem eq_of_bracketed_append {inner other rest rest' : Text} (hinner : ']' ∉ inner)
    (hother : ']' ∉ other) (h : bracketed other ++ rest = bracketed inner ++ rest') :
    other = inner := by
  simp only [bracketed, List.cons_append, List.append_assoc, List.nil_append, List.cons.injEq,
    true_and] at h
  have htake {text : Text} (htext : ']' ∉ text) (rest : Text) :
      (text ++ ']' :: rest).takeWhile (· != ']') = text :=
    (takeWhile_append_stop (fun c hc => bne_iff_ne.mpr fun heq => htext (by rwa [← heq]))
      fun c hc => by simp [← Option.some.inj hc]).1
  rw [← htake hother rest, h, htake hinner]

/-- Another bracketed part is passed over. -/
theorem eraseFirst_append_of_ne {inner other : Text} (hinner : ']' ∉ inner)
    (hother : IsPlain other) (hne : other ≠ inner) (rest : Text) :
    eraseFirst (bracketed inner) (bracketed other ++ rest) =
      bracketed other ++ eraseFirst (bracketed inner) rest := by
  have hdrop : dropStart? (bracketed inner) (bracketed other ++ rest) = none := by
    rw [Option.eq_none_iff_forall_ne_some]
    intro after hafter
    exact hne (eq_of_bracketed_append hinner hother.2 (dropStart?_eq_some_iff.mp hafter))
  have hcons : bracketed other ++ rest = '[' :: ((other ++ [']']) ++ rest) := rfl
  rw [hcons] at hdrop ⊢
  rw [eraseFirst, hdrop, eraseFirst_append (notMem_tail_bracketed hother)]
  rfl

/-- Erasing the text of the one item to be dropped leaves an empty part in its place. -/
theorem eraseFirst_spaced {text : ι → Text} {drop : ι → Bool} {inner : Text}
    (hinner : ']' ∉ inner) {items : List ι} (hparts : ∀ item ∈ items, IsPart (text item))
    (hdrop : ∀ item ∈ items, drop item = true ↔ text item = bracketed inner)
    (hone : (items.filter drop).length ≤ 1) :
    eraseFirst (bracketed inner) (spaced (items.map text)) =
      spaced (items.map fun item => if drop item then [] else text item) := by
  induction items with
  | nil => rfl
  | cons item rest ih =>
    have hitem := hdrop item (List.mem_cons_self ..)
    have hrest : ∀ other ∈ rest, drop other = true ↔ text other = bracketed inner :=
      fun other hother => hdrop other (List.mem_cons_of_mem _ hother)
    by_cases hfirst : drop item = true
    · -- The item is the only one to be dropped, so the others keep their texts.
      have hkept : rest.map (fun other => if drop other then [] else text other) =
          rest.map text := by
        rw [List.filter_cons_of_pos hfirst, List.length_cons] at hone
        have hnone : rest.filter drop = [] := List.eq_nil_of_length_eq_zero (by omega)
        refine List.map_congr_left fun other hother => if_neg fun hother' => ?_
        exact absurd (hnone ▸ List.mem_filter.mpr ⟨hother, hother'⟩) List.not_mem_nil
      rw [List.map_cons, List.map_cons, hkept, if_pos hfirst, hitem.mp hfirst]
      cases rest.map text with
      | nil =>
        have hself := eraseFirst_self inner []
        rwa [List.append_nil] at hself
      | cons next more => exact eraseFirst_self inner _
    · have hpass (after : Text) : eraseFirst (bracketed inner) (text item ++ after) =
          text item ++ eraseFirst (bracketed inner) after := by
        rcases hparts item (List.mem_cons_self ..) with hplain | ⟨other, hother, heq⟩
        · exact eraseFirst_append hplain.1 inner after
        · rw [heq]
          refine eraseFirst_append_of_ne hinner hother (fun hsame => hfirst ?_) after
          exact hitem.mpr (hsame ▸ heq)
      rw [List.filter_cons_of_neg hfirst] at hone
      have ih' := ih (fun other hother => hparts other (List.mem_cons_of_mem _ hother)) hrest hone
      rw [List.map_cons, List.map_cons, if_neg hfirst]
      cases rest with
      | nil =>
        have hend := hpass []
        rwa [List.append_nil, eraseFirst, List.append_nil] at hend
      | cons next more =>
        rw [List.map_cons, List.map_cons] at ih' ⊢
        rw [spaced_cons_cons, spaced_cons_cons, hpass, ← ih']
        have hspace : eraseFirst (bracketed inner) ([' '] ++ spaced (text next :: more.map text)) =
            _ := eraseFirst_append (by decide) inner _
        exact congrArg (text item ++ ·) hspace

end Erasing

section Blanks

/-- A word by itself: it has characters and none of them is blank. -/
def IsWord (word : Text) : Prop := word ≠ [] ∧ ∀ c ∈ word, isBlank c = false

instance (word : Text) : Decidable (IsWord word) :=
  @instDecidableAnd _ _ inferInstance (List.decidableBAll (fun c => isBlank c = false) word)

/-- Inside a run of blanks no blank is left at the start. -/
theorem trimStart_collapseFrom_true (text : Text) :
    trimStart (collapseFrom true text) = collapseFrom true text := by
  induction text with
  | nil => rfl
  | cons c rest ih =>
    rw [collapseFrom]
    split
    · exact ih
    · rename_i hblank
      rw [trimStart, List.dropWhile_cons_of_neg hblank]

/-- Without the blanks at its start a collapsed text is one collapsed inside a run of blanks. -/
theorem trimStart_collapseFrom (text : Text) :
    trimStart (collapseFrom false text) = collapseFrom true text := by
  cases text with
  | nil => rfl
  | cons c rest =>
    rw [collapseFrom, collapseFrom]
    split
    · exact trimStart_collapseFrom_true rest
    · rename_i hblank
      rw [trimStart, List.dropWhile_cons_of_neg hblank]

/-- A word is left as it is. -/
theorem collapseFrom_append {word : Text} (hword : ∀ c ∈ word, isBlank c = false) (inRun : Bool)
    (rest : Text) :
    collapseFrom inRun (word ++ rest) =
      word ++ collapseFrom (inRun && word.isEmpty) rest := by
  induction word generalizing inRun with
  | nil => simp
  | cons c word ih =>
    obtain ⟨hc, hrest⟩ := List.forall_mem_cons.mp hword
    rw [List.cons_append, collapseFrom, hc, if_neg Bool.false_ne_true, ih hrest]
    simp

/-- A word has no blank to be cut off at its end. -/
theorem trimEnd_of_forall {word : Text} (hword : ∀ c ∈ word, isBlank c = false) :
    trimEnd word = word := by
  induction word with
  | nil => rfl
  | cons c word ih =>
    obtain ⟨hc, hrest⟩ := List.forall_mem_cons.mp hword
    rw [trimEnd_cons_of_not_blank hc, ih hrest]

/-- Words joined by spaces are empty only if there are none. -/
theorem spaced_eq_nil_iff {words : List Text} (hwords : ∀ word ∈ words, word ≠ []) :
    spaced words = [] ↔ words = [] := by
  cases words with
  | nil => exact iff_of_true rfl rfl
  | cons word rest =>
    refine iff_of_false (fun h => ?_) (List.cons_ne_nil _ _)
    cases rest with
    | nil => exact hwords word (List.mem_singleton_self _) h
    | cons next rest =>
      rw [spaced_cons_cons] at h
      exact List.cons_ne_nil _ _ (List.append_eq_nil_iff.mp h).2

/-- Of words and empty parts that are joined by spaces, normalising blanks leaves the words. -/
theorem normaliseBlanks_spaced {parts : List Text}
    (hparts : ∀ part ∈ parts, part = [] ∨ IsWord part) :
    normaliseBlanks (spaced parts) = spaced (parts.filter (· ≠ [])) := by
  rw [normaliseBlanks, trim, trimStart_collapseFrom]
  induction parts with
  | nil => rfl
  | cons part rest ih =>
    have ih' := ih fun other hother => hparts other (List.mem_cons_of_mem _ hother)
    rcases hparts part (List.mem_cons_self ..) with rfl | ⟨hne, hword⟩
    · rw [List.filter_cons_of_neg (by simp), ← ih']
      cases rest with
      | nil => rfl
      | cons next rest => rfl
    · rw [List.filter_cons_of_pos (by simpa using hne)]
      have hcollapse (after : Text) :
          collapseFrom true (part ++ after) = part ++ collapseFrom false after := by
        rw [collapseFrom_append hword, Bool.true_and, List.isEmpty_eq_false_iff.mpr hne]
      cases rest with
      | nil =>
        have hend := hcollapse []
        rw [List.append_nil, collapseFrom, List.append_nil] at hend
        exact (congrArg trimEnd hend).trans (trimEnd_of_forall hword)
      | cons next rest =>
        have hblank : collapseFrom false (' ' :: spaced (next :: rest)) =
            ' ' :: collapseFrom true (spaced (next :: rest)) := rfl
        rw [spaced_cons_cons, hcollapse, hblank, trimEnd_append, trimEnd_cons, ih']
        have hwords : ∀ word ∈ (next :: rest).filter (· ≠ []), word ≠ [] := fun word hmem => by
          simpa using (List.mem_filter.mp hmem).2
        cases hkept : (next :: rest).filter (· ≠ []) with
        | nil =>
          rw [if_pos (if_pos ⟨rfl, rfl⟩)]
          exact trimEnd_of_forall hword
        | cons word words =>
          rw [hkept] at hwords
          have hne' : ¬ (spaced (word :: words) = [] ∧ isBlank ' ' = true) := fun h =>
            List.cons_ne_nil _ _ ((spaced_eq_nil_iff hwords).mp h.1)
          rw [if_neg hne', if_neg (List.cons_ne_nil _ _)]
          rfl

end Blanks

end EnvFiles.Text
