import ControlledEnglish.Proofs.Canonical.Governed
import ControlledEnglish.Proofs.Grammar.Content
import ControlledEnglish.Proofs.Reading

namespace ControlledEnglish

/-- The words that say the conditions of a sentence. -/
def conditionWords : List Word → List Word
  | .plain "if" :: rest => rest.takeWhile (· ≠ .plain "then")
  | words => (words.dropWhile (· ≠ .plain "if")).tail

section Words

variable {vs ws : List Word}

theorem condition_words_leading (no_then : .plain "then" ∉ vs) :
    conditionWords (.plain "if" :: vs ++ .plain "then" :: ws) = vs := by
  have all : ∀ w ∈ vs, decide (w ≠ .plain "then") = true := by
    intro w member
    rw [decide_eq_true_iff]
    rintro rfl
    exact no_then member
  have none : (Word.plain "then" :: ws).takeWhile (fun w => decide (w ≠ .plain "then")) = [] := by
    simp
  rw [List.cons_append, conditionWords, List.takeWhile_append_of_pos all, none, List.append_nil]

theorem condition_words_of_not_leading (other : ws.head? ≠ some (.plain "if")) :
    conditionWords ws = (ws.dropWhile (· ≠ .plain "if")).tail := by
  rw [conditionWords.eq_def]
  split
  · exact absurd rfl other
  · rfl

theorem drop_while_of_no_if (no_if : .plain "if" ∉ vs) :
    (vs ++ ws).dropWhile (· ≠ .plain "if") = ws.dropWhile (· ≠ .plain "if") := by
  apply List.dropWhile_append_of_pos
  intro w member
  rw [decide_eq_true_iff]
  rintro rfl
  exact no_if member

theorem condition_words_trailing (no_if : .plain "if" ∉ vs) (some : vs ≠ []) :
    conditionWords (vs ++ .plain "if" :: ws) = ws := by
  have other : (vs ++ .plain "if" :: ws).head? ≠ .some (.plain "if") := by
    rcases List.exists_cons_of_ne_nil some with ⟨v, rest, rfl⟩
    intro same
    cases same
    exact no_if List.mem_cons_self
  have here : (Word.plain "if" :: ws).dropWhile (· ≠ Word.plain "if") = .plain "if" :: ws := by
    simp
  rw [condition_words_of_not_leading other, drop_while_of_no_if no_if, here, List.tail_cons]

theorem condition_words_none (no_if : .plain "if" ∉ ws) : conditionWords ws = [] := by
  have other : ws.head? ≠ some (.plain "if") := by
    intro same
    exact no_if (List.mem_of_head? same)
  have all : (ws ++ []).dropWhile (· ≠ Word.plain "if") = [] := drop_while_of_no_if no_if
  rw [List.append_nil] at all
  rw [condition_words_of_not_leading other, all, List.tail_nil]

end Words

variable {lexicon : Lexicon} {production : Production} {ws : List Word} {as : List Attr}

/-- A phrase says something exactly if one of its words is no keyword. -/
theorem Derives.attrs_ne_nil_iff (avoids : lexicon.AvoidsKeywords)
    (h : Derives lexicon production ws as) : as ≠ [] ↔ ∃ w ∈ ws, w.isContent = true := by
  rw [← List.countP_pos_iff, h.content_eq avoids]
  constructor
  · intro some
    exact Nat.pos_of_ne_zero fun none => some (Attr.eq_nil_of_sizes none)
  · rintro positive rfl
    exact absurd positive (by decide)

theorem DerivesRules.body_ne_nil_iff (avoids : lexicon.AvoidsKeywords) {rules : List Rule}
    (h : DerivesRules lexicon ws rules) :
    ∀ rule ∈ rules, rule.body ≠ [] ↔ ∃ w ∈ conditionWords ws, w.isContent = true := by
  intro rule member
  cases h with
  | conditional conditions conclusions =>
      rcases List.mem_map.mp member with ⟨head, -, rfl⟩
      rw [condition_words_leading (conditions.outer_not_mem avoids (by decide))]
      exact conditions.attrs_ne_nil_iff avoids
  | trailing conclusion conditions =>
      rcases List.mem_map.mp member with ⟨head, -, rfl⟩
      have no_if := conclusion.outer_not_mem avoids (show "if" ∈ ["if", "then"] by decide)
      rw [condition_words_trailing no_if (conclusion.ne_nil rfl)]
      exact conditions.attrs_ne_nil_iff avoids
  | fact claim =>
      rcases List.mem_map.mp member with ⟨head, -, rfl⟩
      rw [condition_words_none (claim.outer_not_mem avoids (by decide))]
      simp

/-- A sentence becomes rules with conditions exactly if some word of its conditions is no keyword,
whichever of its readings is taken. -/
theorem read_all_conditional_iff {source : Source} {words : List Word} {readings : List (List Rule)}
    {rules : List Rule} (avoids : lexicon.AvoidsKeywords) (given : source.words = .ok words)
    (read : readAll source lexicon = .ok readings) (member : rules ∈ readings) :
    ∀ rule ∈ rules, rule.body ≠ [] ↔ ∃ w ∈ conditionWords words, w.isContent = true :=
  (meaning_of_read_all given read member).2.body_ne_nil_iff avoids

section Marsh

theorem marsh_has_it : Derives Lexicon.marsh Phrase.verbPhrase [.plain "has", .plain "it"] [] :=
  .possession (by decide) (.single .it)

theorem read_all_conditional_one_empty_condition :
    let words := ["if", "it", "has", "it", "and", "it", "eats", "then", "heron", "eats"]
    let rules : List Rule :=
      [⟨⟨.hasA, "heron", [⟨.does, "eats", []⟩]⟩, [⟨.does, "eats", []⟩]⟩]
    Lexicon.marsh.AvoidsKeywords ∧
      ∃ readings, readAll (.text "if it has it and it eats then heron eats") Lexicon.marsh =
          .ok readings ∧ rules ∈ readings ∧
        ∀ rule ∈ rules, rule.body ≠ [] ↔ ∃ w ∈ conditionWords (plain words), w.isContent = true := by
  intro words rules
  have avoids := Lexicon.marsh_clean.avoids
  have given : Source.words (.text "if it has it and it eats then heron eats") = .ok (plain words) := by cbv
  have recognized : Utterance.check ⟨plain words, Lexicon.marsh⟩ = .ok () := Lexicon.marsh_check _ (by decide)
  have heron := Lexicon.marsh_noun (w := "heron") (by simp) .noDeterminer
  have eats := Lexicon.marsh_eats .noItems
  have conditions := Derives.several (.itSentence marsh_has_it) (.single (.itSentence eats))
  have conclusion := Derives.subject heron (List.cons_ne_nil _ _) eats
  have meant := DerivesRules.conditional conditions (.single conclusion)
  rcases exists_read_all given avoids.unlisted_it recognized meant (List.cons_ne_nil _ _) with
    ⟨readings, read, member⟩
  exact ⟨avoids, readings, read, member, read_all_conditional_iff avoids given read member⟩

/-- Where no condition says anything, what is claimed under it is claimed without it. -/
theorem read_all_conditional_without_content :
    let words := ["if", "it", "has", "it", "then", "it", "eats"]
    Lexicon.marsh.AvoidsKeywords ∧
      Source.words (.text "if it has it then it eats") = .ok (plain words) ∧ .plain "if" ∈ plain words ∧
      ∃ readings, readAll (.text "if it has it then it eats") Lexicon.marsh = .ok readings ∧
        ∃ rules ∈ readings, ∃ rule ∈ rules, rule.body = [] := by
  intro words
  have avoids := Lexicon.marsh_clean.avoids
  have given : Source.words (.text "if it has it then it eats") = .ok (plain words) := by cbv
  have recognized : Utterance.check ⟨plain words, Lexicon.marsh⟩ = .ok () := Lexicon.marsh_check _ (by decide)
  have meant := DerivesRules.conditional (.single (.itSentence marsh_has_it))
    (.single (.itSentence (Lexicon.marsh_eats .noItems)))
  rcases exists_read_all given avoids.unlisted_it recognized meant (List.cons_ne_nil _ _) with
    ⟨readings, read, member⟩
  exact ⟨avoids, given, List.mem_cons_self, readings, read, _, member, _, List.mem_cons_self, rfl⟩

end Marsh

end ControlledEnglish
