import Mathlib.Data.List.Basic
import Mathlib.Data.List.TakeWhile
import ControlledEnglish.Word

namespace ControlledEnglish

theorem unquote_eq_some_iff {text inner : List Char} :
    unquote? text = some inner ↔ text = '"' :: (inner ++ ['"']) := by
  constructor
  · intro unquoted
    rw [unquote?.eq_def] at unquoted
    split at unquoted
    · next rest =>
        split at unquoted
        · next closed =>
            obtain rfl := Option.some.inj unquoted
            rw [List.dropLast_append_getLast? _ closed]
        · cases unquoted
    · cases unquoted
  · rintro rfl
    simp [unquote?]

section Cut

variable {mark : Char} {inner before behind before' behind' : List Char}

theorem cut_at_mark_iff :
    inner.takeWhile (· != mark) = before ∧ inner.dropWhile (· != mark) = mark :: behind ↔
      mark ∉ before ∧ inner = before ++ mark :: behind := by
  constructor
  · rintro ⟨rfl, rest⟩
    refine ⟨fun member => ?_, ?_⟩
    · simpa using List.mem_takeWhile_imp member
    · rw [← rest, List.takeWhile_append_dropWhile]
  · rintro ⟨none, rfl⟩
    have all : ∀ c ∈ before, (c != mark) = true := by
      rintro c member
      rw [bne_iff_ne]
      rintro rfl
      exact none member
    rw [List.takeWhile_append_of_pos all, List.dropWhile_append_of_pos all]
    simp

theorem cut_at_mark_inj (none : mark ∉ before) (none' : mark ∉ before')
    (same : before ++ mark :: behind = before' ++ mark :: behind') :
    before = before' ∧ behind = behind' := by
  have cut := cut_at_mark_iff.mpr ⟨none, Eq.refl (before ++ mark :: behind)⟩
  have cut' := cut_at_mark_iff.mpr ⟨none', same⟩
  have first : before = before' := cut.1.symm.trans cut'.1
  have rest : mark :: behind = mark :: behind' := cut.2.symm.trans cut'.2
  exact ⟨first, (List.cons.inj rest).2⟩

end Cut

namespace Literal

variable {word : String} {literal : Literal}

theorem to_list_spelling (literal : Literal) : literal.spelling.toList =
    '"' :: (literal.category.tag.toList ++ ':' :: literal.text.toList ++ ['"']) := by
  simp [spelling]

/-- Any text that is not empty is read back. -/
theorem of_spelling_spelling (nonempty : literal.text ≠ "") :
    ofSpelling? literal.spelling = some literal := by
  have inner : unquote? literal.spelling.toList =
      some (literal.category.tag.toList ++ ':' :: literal.text.toList) :=
    unquote_eq_some_iff.mpr literal.to_list_spelling
  have cut : _ = literal.category.tag.toList ∧ _ = ':' :: literal.text.toList :=
    cut_at_mark_iff.mpr ⟨literal.category.colon_not_mem_tag, rfl⟩
  obtain ⟨c, rest, text⟩ := List.exists_cons_of_ne_nil (mt String.toList_eq_nil_iff.mp nonempty)
  rw [ofSpelling?, inner]
  simp only [Option.bind_eq_bind, Option.bind_some, cut, String.ofList_toList,
    Category.ofTag?_tag]
  simp only [text]
  rw [← text, String.ofList_toList]

theorem spelling_of_spelling (spells : ofSpelling? word = some literal) :
    literal.text ≠ "" ∧ literal.spelling = word := by
  simp only [ofSpelling?, Option.bind_eq_bind, Option.bind_eq_some_iff] at spells
  obtain ⟨inner, unquoted, category, tagged, behind⟩ := spells
  split at behind
  · next c text rest =>
      obtain rfl := Option.some.inj behind
      have before : inner.takeWhile (· != ':') = category.tag.toList := by
        rw [Category.of_tag_eq_some_iff.mp tagged, String.toList_ofList]
      have whole := (cut_at_mark_iff.mp ⟨before, rest⟩).2
      refine ⟨by simp, String.toList_inj.mp ?_⟩
      rw [to_list_spelling, unquote_eq_some_iff.mp unquoted, whole, String.toList_ofList]
  · cases behind

end Literal

/-- Spelling and reading of literals are inverse to each other. A word is read as a literal exactly
if the literal has a text and is written like the word, and as none if it is no such spelling. -/
theorem literal_spellings :
    (∀ (word : String) (literal : Literal), Literal.ofSpelling? word = some literal ↔
      literal.text ≠ "" ∧ (Word.literal literal).spelling = word) ∧
    ∀ word : String, Literal.ofSpelling? word = none ↔
      ¬∃ literal : Literal, literal.text ≠ "" ∧ (Word.literal literal).spelling = word := by
  have spelled (word : String) (literal : Literal) : Literal.ofSpelling? word = some literal ↔
      literal.text ≠ "" ∧ (Word.literal literal).spelling = word := by
    constructor
    · exact Literal.spelling_of_spelling
    · rintro ⟨nonempty, rfl⟩
      exact Literal.of_spelling_spelling nonempty
  refine ⟨spelled, fun word => ?_⟩
  simp only [← spelled, ← Option.isSome_iff_exists, Bool.not_eq_true, Option.isSome_eq_false_iff,
    Option.isNone_iff_eq_none]

/-- The first colon counts, and the outermost quotes. -/
example : Literal.ofSpelling? "\"n:a: \"b\"\"" = some ⟨.noun, "a: \"b\""⟩ := by cbv

end ControlledEnglish
