import EnvFiles.Comment.Meaning
import EnvFiles.Proofs.Comment.Tag

/-!
# Comments are read as they are written

A comment is written as words and tags in any order with single spaces between them, at most one
of the tags for a requirement level and at most one for a directive. Reading it back gives the
level, the directive with its arguments, and the words. Each search finds its tag and nothing
else, because opening brackets stand at the start of tags only; and erasing the two tags leaves
the words and blanks.
-/

namespace EnvFiles

open Text

/-- A piece of a comment. A tag comes with the spelling of its keyword. -/
inductive CommentPiece
  | word (text : Text)
  | requirement (level : Requirement) (spelling : Text)
  | directive (tag : DirectiveTag) (spelling : Text)
  deriving DecidableEq, Repr

namespace CommentPiece

/-- How a piece is written. -/
def text : CommentPiece → Text
  | word text => text
  | requirement _ spelling => writtenTag spelling []
  | directive tag spelling => writtenTag spelling tag.arguments

/-- A word has characters, none of them a blank or a bracket, and does not start with a hash; the
keyword of a tag is spelled with capital and small letters, and its arguments are well formed. -/
def WellFormed : CommentPiece → Prop
  | word text => IsWord text ∧ IsPlain text ∧ text.head? ≠ some '#'
  | requirement level spelling => (TagKeyword.ofLevel level).Spelled spelling
  | directive tag spelling => tag.WellFormed ∧ tag.keyword.Spelled spelling

instance : DecidablePred WellFormed
  | word text => inferInstanceAs (Decidable (IsWord text ∧ IsPlain text ∧ text.head? ≠ some '#'))
  | requirement level spelling =>
    inferInstanceAs (Decidable ((TagKeyword.ofLevel level).Spelled spelling))
  | directive tag spelling =>
    inferInstanceAs (Decidable (tag.WellFormed ∧ tag.keyword.Spelled spelling))

/-- The word that a piece is. -/
def word? : CommentPiece → Option Text
  | word text => some text
  | _ => none

/-- The requirement level that a piece names. -/
def level? : CommentPiece → Option Requirement
  | requirement level _ => some level
  | _ => none

/-- The directive that a piece names. -/
def directive? : CommentPiece → Option Directive
  | directive tag _ => some tag.directive
  | _ => none

/-- Whether a piece names a requirement level. -/
def isRequirement (piece : CommentPiece) : Bool := piece.level?.isSome

/-- Whether a piece names a directive. -/
def isDirective (piece : CommentPiece) : Bool := piece.directive?.isSome

/-- A piece is free of brackets or in one pair of them. -/
theorem WellFormed.isPart {piece : CommentPiece} (h : piece.WellFormed) : IsPart piece.text := by
  cases piece with
  | word text => exact Or.inl h.2.1
  | requirement level spelling =>
    refine Or.inr ⟨spelling ++ [], ?_, rfl⟩
    rw [List.append_nil]
    exact TagKeyword.Spelled.isPlain h
  | directive tag spelling =>
    have hspelling := TagKeyword.Spelled.isPlain h.2
    have harguments := DirectiveTag.WellFormed.isPlain h.1
    refine Or.inr ⟨spelling ++ tag.arguments, ?_, rfl⟩
    simpa [IsPlain] using And.intro ⟨hspelling.1, harguments.1⟩ ⟨hspelling.2, harguments.2⟩

/-- What the search for a requirement tag finds in a piece. -/
def foundLevel? : CommentPiece → Option (Found Text)
  | requirement _ spelling => some ⟨writtenTag spelling [], spelling⟩
  | _ => none

/-- No word is in brackets. -/
theorem WellFormed.not_bracketed {text inner : Text} (h : (word text).WellFormed) :
    text ≠ bracketed inner := fun heq => h.2.1.1 (heq ▸ List.mem_cons_self ..)

/-- A requirement tag is found where it is written, whatever follows it. -/
theorem WellFormed.requirementTag_append {piece : CommentPiece} (h : piece.WellFormed)
    {inner : Text} (hinner : piece.text = bracketed inner) (rest : Text) :
    requirementTag (piece.text ++ rest) = piece.foundLevel? := by
  cases piece with
  | word text => exact absurd hinner h.not_bracketed
  | requirement level spelling => exact requirementTag_written h rest
  | directive tag spelling =>
    refine requirementTag_of_ne h.2 (fun level => ?_) tag.arguments rest
    cases tag <;> cases level <;> rintro ⟨⟩

/-- A requirement tag is found in the piece that is one. -/
theorem WellFormed.requirementTag_text {piece : CommentPiece} (h : piece.WellFormed) :
    requirementTag piece.text = piece.foundLevel? := by
  rcases h.isPart with hplain | ⟨inner, -, hinner⟩
  · rw [startsAtBracket_requirementTag.eq_none hplain]
    cases piece with
    | word text => rfl
    | _ => exact absurd (List.mem_cons_self ..) hplain.1
  · have hfound := h.requirementTag_append hinner []
    rwa [List.append_nil] at hfound

/-- What a directive pattern finds in brackets does not depend on what follows. -/
theorem WellFormed.directiveTag_append {piece : CommentPiece} (h : piece.WellFormed)
    {inner : Text} (hinner : piece.text = bracketed inner) {attempt : Text → Option (Found Directive)}
    (hattempt : attempt ∈ directiveTags) (rest : Text) :
    attempt (piece.text ++ rest) = attempt piece.text := by
  cases piece with
  | word text => exact absurd hinner h.not_bracketed
  | requirement level spelling =>
    have hnone (rest : Text) : attempt (writtenTag spelling [] ++ rest) = none :=
      directiveTags_of_notMem h (by cases level <;> decide) [] rest attempt hattempt
    have hself := hnone []
    rw [List.append_nil] at hself
    exact (hnone rest).trans hself.symm
  | directive tag spelling =>
    have hmap (rest : Text) := map_directiveTags h.2 rest h.1
    have hsame := (hmap rest).trans (hmap []).symm
    have hself := List.map_inj_left.mp hsame attempt hattempt
    rwa [List.append_nil] at hself

/-- A directive pattern finds nothing in a piece that names no directive. -/
theorem WellFormed.directiveTag_eq_none {piece : CommentPiece} (h : piece.WellFormed)
    (hpiece : piece.isDirective = false) {attempt : Text → Option (Found Directive)}
    (hattempt : attempt ∈ directiveTags) : attempt piece.text = none := by
  cases piece with
  | word text => exact (startsAtBracket_directiveTags attempt hattempt).eq_none h.2.1
  | requirement level spelling =>
    have hnone := directiveTags_of_notMem h (by cases level <;> decide) [] [] attempt hattempt
    rwa [List.append_nil] at hnone
  | directive tag spelling => cases hpiece

end CommentPiece

/-- A comment written from its pieces. -/
def renderComment (pieces : List CommentPiece) : Text := spaced (pieces.map CommentPiece.text)

section Unique

variable {ι α : Type} {p : ι → Bool} {items : List ι}

/-- At most one item is as asked for. -/
theorem filter_eq_nil_or (h : (items.filter p).length ≤ 1) :
    items.filter p = [] ∨ ∃ item, items.filter p = [item] := by
  cases hfound : items.filter p with
  | nil => exact Or.inl rfl
  | cons item rest =>
    rw [hfound, List.length_cons] at h
    obtain rfl : rest = [] := List.eq_nil_of_length_eq_zero (by omega)
    exact Or.inr ⟨item, rfl⟩

/-- A search may leave out items at which it fails. -/
theorem findSome?_filter {function : ι → Option α}
    (h : ∀ item ∈ items, p item = false → function item = none) :
    items.findSome? function = (items.filter p).findSome? function := by
  induction items with
  | nil => rfl
  | cons item rest ih =>
    obtain ⟨hitem, hrest⟩ := List.forall_mem_cons.mp h
    rw [List.findSome?_cons, ih hrest]
    cases hp : p item with
    | true => rw [List.filter_cons_of_pos hp, List.findSome?_cons]
    | false => rw [List.filter_cons_of_neg (by rw [hp]; exact Bool.false_ne_true), hitem hp]

/-- The one item that is as asked for. -/
theorem eq_of_filter_eq {item : ι} (h : items.filter p = [item]) :
    item ∈ items ∧ p item = true ∧ ∀ other ∈ items, p other = true → other = item := by
  have hmem (other : ι) : other ∈ items ∧ p other = true ↔ other = item := by
    rw [← List.mem_filter, h, List.mem_singleton]
  exact ⟨((hmem item).mpr rfl).1, ((hmem item).mpr rfl).2, fun other hother hp =>
    (hmem other).mp ⟨hother, hp⟩⟩

end Unique

section Reading

variable {pieces : List CommentPiece} (hpieces : ∀ piece ∈ pieces, piece.WellFormed)

include hpieces

/-- Every part of a written comment is free of brackets or in one pair of them. -/
theorem isPart_of_mem_map : ∀ part ∈ pieces.map CommentPiece.text, IsPart part := by
  intro part hpart
  obtain ⟨piece, hpiece, rfl⟩ := List.mem_map.mp hpart
  exact (hpieces piece hpiece).isPart

/-- A search in a written comment finds what it finds in the first piece at which it can succeed. -/
theorem firstMatch_renderComment {α : Type} {attempt : Text → Option α}
    (hbracket : StartsAtBracket attempt) {p : CommentPiece → Bool}
    (hlocal : ∀ piece ∈ pieces, ∀ inner, piece.text = bracketed inner → ∀ rest,
      attempt (piece.text ++ rest) = attempt piece.text)
    (hnone : ∀ piece ∈ pieces, p piece = false → attempt piece.text = none) :
    firstMatch attempt (renderComment pieces) =
      (pieces.filter p).findSome? fun piece => attempt piece.text := by
  rw [renderComment, firstMatch_spaced hbracket (isPart_of_mem_map hpieces)
    fun inner hinner rest => ?_, List.findSome?_map]
  · exact findSome?_filter hnone
  · obtain ⟨piece, hpiece, htext⟩ := List.mem_map.mp hinner
    rw [← htext, hlocal piece hpiece inner htext]

/-- The requirement tag of a written comment is that of the piece that is one. -/
theorem firstMatch_requirementTag : firstMatch requirementTag (renderComment pieces) =
    (pieces.filter CommentPiece.isRequirement).findSome? fun piece =>
      requirementTag piece.text := by
  refine firstMatch_renderComment hpieces startsAtBracket_requirementTag
    (fun piece hpiece inner hinner rest => ?_) fun piece hpiece hnone => ?_
  · rw [(hpieces piece hpiece).requirementTag_append hinner,
      (hpieces piece hpiece).requirementTag_text]
  · rw [(hpieces piece hpiece).requirementTag_text]
    cases piece with
    | requirement level spelling => cases hnone
    | _ => rfl

/-- The directive of a written comment is that of the piece that names one. -/
theorem findDirective_renderComment
    (hone : (pieces.filter CommentPiece.isDirective).length ≤ 1) :
    findDirective [] (renderComment pieces) =
      ((pieces.findSome? CommentPiece.directive?).getD .placeholder,
        (pieces.filter CommentPiece.isDirective).head?.map CommentPiece.text) := by
  have hsearch (attempt : Text → Option (Found Directive)) (hattempt : attempt ∈ directiveTags) :=
    firstMatch_renderComment hpieces (p := CommentPiece.isDirective)
      (startsAtBracket_directiveTags attempt hattempt)
      (fun piece hpiece inner hinner rest =>
        (hpieces piece hpiece).directiveTag_append hinner hattempt rest)
      fun piece hpiece hnone => (hpieces piece hpiece).directiveTag_eq_none hnone hattempt
  have hdirective : pieces.findSome? CommentPiece.directive? =
      (pieces.filter CommentPiece.isDirective).findSome? CommentPiece.directive? :=
    findSome?_filter fun piece _ hpiece => by
      cases piece with
      | directive tag spelling => cases hpiece
      | _ => rfl
  have hbuiltin : directiveTags.findSome? (fun attempt =>
      (firstMatch attempt (renderComment pieces)).map fun found =>
        (found.meaning, some found.matched)) =
      (directiveTags.map fun attempt => firstMatch attempt (renderComment pieces)).findSome?
        fun found => found.map fun found => (found.meaning, some found.matched) := by
    rw [List.findSome?_map]
    rfl
  rw [hdirective]
  simp only [findDirective, List.findSome?_nil, Option.none_or, hbuiltin]
  rcases filter_eq_nil_or hone with hnil | ⟨piece, hpiece⟩
  · rw [hnil, List.map_congr_left fun attempt hattempt => (hsearch attempt hattempt).trans
      (by rw [hnil, List.findSome?_nil])]
    rfl
  · obtain ⟨hmem, hnamed, -⟩ := eq_of_filter_eq hpiece
    cases piece with
    | directive tag spelling =>
      have hwritten := map_directiveTags (hpieces _ hmem).2 [] (hpieces _ hmem).1
      simp only [List.append_nil] at hwritten
      rw [hpiece, List.map_congr_left fun attempt hattempt => (hsearch attempt hattempt).trans
        (by rw [hpiece, List.findSome?_singleton]), CommentPiece.text, hwritten]
      cases tag <;> rfl
    | _ => cases hnamed

end Reading

/-- A piece after its requirement tag was erased. -/
def CommentPiece.withoutLevel (piece : CommentPiece) : Text :=
  if piece.isRequirement then [] else piece.text

/-- What is left of a piece after tags were erased. -/
def CommentPiece.wordText (piece : CommentPiece) : Text := piece.word?.getD []

section Erasing

variable {pieces : List CommentPiece} (hpieces : ∀ piece ∈ pieces, piece.WellFormed)

include hpieces

/-- The words are what is left that is not empty. -/
theorem filter_wordText : (pieces.map CommentPiece.wordText).filter (· ≠ []) =
    pieces.filterMap CommentPiece.word? := by
  induction pieces with
  | nil => rfl
  | cons piece rest ih =>
    obtain ⟨hpiece, hrest⟩ := List.forall_mem_cons.mp hpieces
    rw [List.map_cons]
    cases piece with
    | word text =>
      have hne : text ≠ [] := hpiece.1.1
      change (text :: rest.map CommentPiece.wordText).filter (· ≠ []) = _
      rw [List.filter_cons_of_pos (by simpa using hne), ih hrest]
      rfl
    | _ => exact ih hrest

/-- Words and empty parts do not start with a hash. -/
theorem head?_spaced_wordText : (spaced (pieces.map CommentPiece.wordText)).head? ≠ some '#' := by
  cases pieces with
  | nil => exact nofun
  | cons piece rest =>
    have hpiece := hpieces piece (List.mem_cons_self ..)
    have hhead (after : Text) (hafter : after.head? ≠ some '#') :
        (piece.wordText ++ after).head? ≠ some '#' := by
      cases piece with
      | word text =>
        change (text ++ after).head? ≠ some '#'
        rw [List.head?_append_of_ne_nil _ hpiece.1.1]
        exact hpiece.2.2
      | _ => exact hafter
    cases rest with
    | nil =>
      have hend := hhead [] nofun
      rwa [List.append_nil] at hend
    | cons next rest => exact hhead _ nofun

/-- Cleaning the words and blanks that are left gives the words. -/
theorem cleanDescription_wordText : cleanDescription (spaced (pieces.map CommentPiece.wordText)) =
    spaced (pieces.filterMap CommentPiece.word?) := by
  have hhead := head?_spaced_wordText hpieces
  have hwords : ∀ part ∈ pieces.map CommentPiece.wordText, part = [] ∨ IsWord part := by
    intro part hpart
    obtain ⟨piece, hpiece, rfl⟩ := List.mem_map.mp hpart
    cases piece with
    | word text => exact Or.inr (hpieces _ hpiece).1
    | _ => exact Or.inl rfl
  rw [← filter_wordText hpieces, ← normaliseBlanks_spaced hwords, cleanDescription]
  intro rest heq
  rw [heq] at hhead
  exact hhead rfl

/-- Erasing the requirement tag leaves an empty part in its place. -/
theorem eraseFirst_level {level : Requirement} {spelling : Text}
    (hpiece : pieces.filter CommentPiece.isRequirement = [.requirement level spelling]) :
    eraseFirst (writtenTag spelling []) (renderComment pieces) =
      spaced (pieces.map CommentPiece.withoutLevel) := by
  obtain ⟨hmem, -, honly⟩ := eq_of_filter_eq hpiece
  have hplain := TagKeyword.Spelled.isPlain (hpieces _ hmem)
  rw [← List.append_nil spelling] at hplain
  refine eraseFirst_spaced hplain.2 (fun piece hpiece => (hpieces piece hpiece).isPart)
    (fun piece hpiece => ⟨fun hnamed => ?_, fun htext => ?_⟩) (by rw [hpiece]; rfl)
  · rw [honly piece hpiece hnamed]
    rfl
  · -- Only a requirement tag is found where one is written.
    have hfound := (hpieces piece hpiece).requirementTag_text
    have hwritten := (hpieces _ hmem).requirementTag_text
    rw [htext] at hfound
    rw [show (CommentPiece.requirement level spelling).text = bracketed (spelling ++ []) from rfl,
      hfound] at hwritten
    cases piece with
    | requirement other written => rfl
    | _ => cases hwritten

/-- Erasing the directive tag as well leaves the words. -/
theorem eraseFirst_directive {tag : DirectiveTag} {spelling : Text}
    (hpiece : pieces.filter CommentPiece.isDirective = [.directive tag spelling]) :
    eraseFirst (writtenTag spelling tag.arguments) (spaced (pieces.map CommentPiece.withoutLevel)) =
      spaced (pieces.map CommentPiece.wordText) := by
  obtain ⟨hmem, -, honly⟩ := eq_of_filter_eq hpiece
  obtain ⟨inner, hinner, htext⟩ : ∃ inner, IsPlain inner ∧
      writtenTag spelling tag.arguments = bracketed inner := by
    rcases (hpieces _ hmem).isPart with hplain | hbracketed
    · exact absurd (List.mem_cons_self ..) hplain.1
    · exact hbracketed
  have hwords : pieces.map CommentPiece.wordText =
      pieces.map fun piece => if piece.isDirective then [] else piece.withoutLevel :=
    List.map_congr_left fun piece _ => by cases piece <;> rfl
  rw [htext, hwords]
  refine eraseFirst_spaced hinner.2 (fun piece hpiece => ?_)
    (fun piece hpiece => ⟨fun hnamed => ?_, fun heq => ?_⟩) (by rw [hpiece]; rfl)
  · cases piece with
    | requirement level written => exact Or.inl ⟨List.not_mem_nil, List.not_mem_nil⟩
    | _ => exact (hpieces _ hpiece).isPart
  · rw [honly piece hpiece hnamed]
    exact htext
  · cases piece with
    | word text => exact absurd heq (hpieces _ hpiece).not_bracketed
    | requirement level written => cases heq
    | directive other written => rfl

/-- Erasing the directive tag, if there is one, and cleaning what is left gives the words. -/
theorem cleanDescription_withoutLevel
    (hone : (pieces.filter CommentPiece.isDirective).length ≤ 1) :
    cleanDescription
      (match (pieces.filter CommentPiece.isDirective).head?.map CommentPiece.text with
        | some raw => eraseFirst raw (spaced (pieces.map CommentPiece.withoutLevel))
        | none => spaced (pieces.map CommentPiece.withoutLevel)) =
      spaced (pieces.filterMap CommentPiece.word?) := by
  rw [← cleanDescription_wordText hpieces]
  rcases filter_eq_nil_or hone with hnil | ⟨piece, hpiece⟩
  · have hkept : pieces.map CommentPiece.withoutLevel = pieces.map CommentPiece.wordText := by
      refine List.map_congr_left fun piece hpiece => ?_
      have hnamed := List.filter_eq_nil_iff.mp hnil piece hpiece
      cases piece with
      | directive tag spelling => exact absurd rfl hnamed
      | _ => rfl
    rw [hnil, hkept]
    rfl
  · obtain ⟨-, hnamed, -⟩ := eq_of_filter_eq hpiece
    cases piece with
    | directive tag spelling =>
      rw [← eraseFirst_directive hpieces hpiece, hpiece]
      rfl
    | _ => cases hnamed

end Erasing

/-- Reading a comment inverts writing it. Let a comment be written from words, at most one
requirement tag and at most one built-in directive tag, in any order with single spaces between
them, the keywords in any letter case. Without plugins it is read as the level (optional without a
tag), the directive with its arguments as they were written (placeholder without a tag), and the
words with single spaces between them. -/
theorem readComment_renderComment (pieces : List CommentPiece)
    (hpieces : ∀ piece ∈ pieces, piece.WellFormed)
    (hlevel : (pieces.filter CommentPiece.isRequirement).length ≤ 1)
    (hdirective : (pieces.filter CommentPiece.isDirective).length ≤ 1) :
    readComment [] (renderComment pieces) = .ok
      { requirement := (pieces.findSome? CommentPiece.level?).getD .optional
        directive := (pieces.findSome? CommentPiece.directive?).getD .placeholder
        description := spaced (pieces.filterMap CommentPiece.word?) } := by
  have hlevels : pieces.findSome? CommentPiece.level? =
      (pieces.filter CommentPiece.isRequirement).findSome? CommentPiece.level? :=
    findSome?_filter fun piece _ hpiece => by
      cases piece with
      | requirement level spelling => cases hpiece
      | _ => rfl
  have hdescription := cleanDescription_withoutLevel hpieces hdirective
  rw [readComment, firstMatch_requirementTag hpieces,
    findDirective_renderComment hpieces hdirective, hlevels]
  rcases filter_eq_nil_or hlevel with hnil | ⟨piece, hpiece⟩
  · have hkept : renderComment pieces = spaced (pieces.map CommentPiece.withoutLevel) := by
      refine congrArg spaced (List.map_congr_left fun piece hpiece => ?_)
      exact (if_neg (List.filter_eq_nil_iff.mp hnil piece hpiece)).symm
    rw [hnil, ← hdescription, ← hkept]
    rfl
  · obtain ⟨hmem, hnamed, -⟩ := eq_of_filter_eq hpiece
    cases piece with
    | requirement level spelling =>
      have hspelled := hpieces _ hmem
      have hword : lower spelling = level.word := by
        rw [lower_of_ascii (TagKeyword.Spelled.ascii hspelled), ← TagKeyword.word_ofLevel]
        exact hspelled
      rw [hpiece, List.findSome?_singleton, hspelled.requirementTag_text, ← hdescription,
        ← eraseFirst_level hpieces hpiece]
      simp only [CommentPiece.foundLevel?, hword, Requirement.ofWord?_word]
      rfl
    | _ => cases hnamed

/-- A yes/no tag before the words and a requirement tag between them. -/
theorem readComment_renderComment_mixed :
    let pieces : List CommentPiece := [.directive (.literals "a b" "n/a") "Boolean", .word "Use",
      .requirement .required "REQUIRED", .word "it"]
    (renderComment pieces = "[Boolean:a b/n/a] Use [REQUIRED] it" ∧
      (∀ piece ∈ pieces, piece.WellFormed) ∧
      (pieces.filter CommentPiece.isRequirement).length ≤ 1 ∧
      (pieces.filter CommentPiece.isDirective).length ≤ 1) ∧
    readComment [] (renderComment pieces) = .ok ⟨.required, .boolean "a b" "n/a", "Use it"⟩ := by
  intro pieces
  have hpieces : ∀ piece ∈ pieces, piece.WellFormed := by decide +kernel
  have hlevel : (pieces.filter CommentPiece.isRequirement).length ≤ 1 := by decide
  have hdirective : (pieces.filter CommentPiece.isDirective).length ≤ 1 := by decide
  refine ⟨⟨by decide +kernel, hpieces, hlevel, hdirective⟩, ?_⟩
  rw [readComment_renderComment pieces hpieces hlevel hdirective]
  decide +kernel

end EnvFiles
