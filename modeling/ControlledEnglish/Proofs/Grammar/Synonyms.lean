import ControlledEnglish.Proofs.Grammar.Interchangeable
import ControlledEnglish.Proofs.Literals

namespace ControlledEnglish

/-- Both words are the same, or both are a possession verb, both a copula or both a determiner. -/
inductive Synonymous : Word → Word → Prop where
  | same (w : Word) : Synonymous w w
  | inGroup {group : List String} (known : group ∈ [possessionVerbs, copulas, determiners])
      {w w' : String} (listed : w ∈ group) (listed' : w' ∈ group) :
      Synonymous (.plain w) (.plain w')

/-- Both words are the same, or the second is the spelling of the first, which is no word of the
lexicon. -/
inductive Respelled (lexicon : Lexicon) : Word → Word → Prop where
  | same (w : Word) : Respelled lexicon w w
  | spelled {literal : Literal} (nonempty : literal.text ≠ "")
      (unknown : lexicon.knows literal.spelling = false) :
      Respelled lexicon (.literal literal) (.plain literal.spelling)

section Words

variable {lexicon : Lexicon}

theorem Word.texts_keyword (avoids : lexicon.AvoidsKeywords) {w : String} (keyword : w ∈ keywords)
    (category : Category) : (Word.plain w).texts lexicon category = [] := by
  have unlisted : lexicon.lookup w category = false :=
    Bool.eq_false_iff.mpr fun known => avoids w category known keyword
  rw [Word.texts, unlisted, of_spelling_eq_none (is_bare_of_mem_keywords keyword).unquoted]
  rfl

theorem contains_of_group {group : List String}
    (known : group ∈ [possessionVerbs, copulas, determiners]) {w w' : String} (listed : w ∈ group)
    (listed' : w' ∈ group) : ∀ other ∈ keywordGroups, other.contains w = other.contains w' := by
  have all : ∀ group ∈ [possessionVerbs, copulas, determiners], ∀ w ∈ group, ∀ w' ∈ group,
      ∀ other ∈ keywordGroups, other.contains w = other.contains w' := by decide
  exact all group known w listed w' listed'

theorem Synonymous.interchangeable (avoids : lexicon.AvoidsKeywords) {w w' : Word}
    (alike : Synonymous w w') : Interchangeable lexicon w w' := by
  cases alike with
  | same => exact .refl lexicon w
  | inGroup known listed listed' =>
      have keyword : ∀ group ∈ [possessionVerbs, copulas, determiners], group ⊆ keywords := by
        decide
      have first := keyword _ known listed
      have second := keyword _ known listed'
      refine ⟨contains_of_group known listed listed', fun category => ?_,
        .inr ⟨.keyword first, .keyword second⟩⟩
      rw [Word.texts_keyword avoids first, Word.texts_keyword avoids second]

theorem Respelled.interchangeable {w w' : Word} (alike : Respelled lexicon w w') :
    Interchangeable lexicon w w' := by
  cases alike with
  | same => exact .refl lexicon w
  | @spelled literal nonempty unknown =>
      have spells := Literal.of_spelling_spelling nonempty
      refine ⟨fun group listed => ?_, fun category => ?_, .inr ⟨.literal _, .spelled spells⟩⟩
      · have known : ∀ group ∈ keywordGroups, group ⊆ keywords := by decide
        refine (Bool.eq_false_iff.mpr fun contained => ?_).symm
        -- a keyword is written without quotes
        have keyword := known group listed (List.contains_iff_mem.mp contained)
        rw [of_spelling_eq_none (is_bare_of_mem_keywords keyword).unquoted] at spells
        cases spells
      · simp only [Word.texts, spells, Lexicon.knows_eq_false_iff.mp unknown, Bool.false_eq_true,
          if_false, List.nil_append]

end Words

section Sources

variable {lexicon : Lexicon} {words words' : List Word} {source other : Source}

/-- Keywords of one group are interchangeable, at any number of places at once. -/
theorem synonyms_interchangeable (avoids : lexicon.AvoidsKeywords)
    (given : source.words = .ok words) (given' : other.words = .ok words')
    (synonymous : List.Forall₂ Synonymous words words') : ReadAlike lexicon source other words' :=
  read_alike_of_interchangeable given given'
    (synonymous.imp fun _ _ => (·.interchangeable avoids))

theorem synonyms_interchangeable_three_words :
    let words := plain ["the", "heron", "has", "a", "frog"]
    let words' := plain ["a", "heron", "contains", "the", "frog"]
    List.Forall₂ Synonymous words words' ∧
      ∃ readings, [⟨⟨.hasA, "heron", [⟨.hasA, "frog", []⟩]⟩, []⟩] ∈ readings ∧
        readAll (.text "the heron has a frog") Lexicon.marsh = .ok readings ∧
        readAll (.text "a heron contains the frog") Lexicon.marsh = .ok readings := by
  intro words words'
  have avoids := Lexicon.marsh_clean.avoids
  have given : Source.words (.text "the heron has a frog") = .ok words := by cbv
  have given' : Source.words (.text "a heron contains the frog") = .ok words' := by cbv
  have groups : determiners ∈ [possessionVerbs, copulas, determiners] ∧
      possessionVerbs ∈ [possessionVerbs, copulas, determiners] := by decide
  have synonymous : List.Forall₂ Synonymous words words' :=
    .cons (.inGroup groups.1 (by decide) (by decide)) <|
    .cons (.same _) <|
    .cons (.inGroup groups.2 (by decide) (by decide)) <|
    .cons (.inGroup groups.1 (by decide) (by decide)) <|
    .cons (.same _) .nil
  have recognized : Utterance.check ⟨words, Lexicon.marsh⟩ = .ok () :=
    Lexicon.marsh_check _ (by decide)
  have heron := Lexicon.marsh_noun (w := "heron") (by simp) (.determiner (w := "the") (by decide))
  have frog := Lexicon.marsh_noun (w := "frog") (by simp) (.determiner (w := "a") (by decide))
  have has_frog := Derives.possession (w := "has") (by decide) (.single frog)
  have meant := Derives.subject heron (List.cons_ne_nil _ _) has_frog
  obtain ⟨readings, read, member⟩ := exists_read_all given avoids.unlisted_it recognized
    (.fact meant) (List.cons_ne_nil _ _)
  have again := (synonyms_interchangeable avoids given given' synonymous).all
  rw [read] at again
  exact ⟨synonymous, readings, member, read, again⟩

/-- A literal and its spelling are interchangeable, at any number of places at once. -/
theorem spellings_interchangeable (given : source.words = .ok words)
    (given' : other.words = .ok words') (respelled : List.Forall₂ (Respelled lexicon) words words') :
    ReadAlike lexicon source other words' :=
  read_alike_of_interchangeable given given' (respelled.imp fun _ _ => (·.interchangeable))

theorem spellings_interchangeable_in_text :
    let goose : Literal := ⟨.noun, "canada goose"⟩
    let words := [.literal goose, .plain "eats"]
    let words' := [.plain goose.spelling, .plain "eats"]
    List.Forall₂ (Respelled Lexicon.marsh) words words' ∧
      ∃ readings, [⟨⟨.hasA, "canada goose", [⟨.does, "eats", []⟩]⟩, []⟩] ∈ readings ∧
        readAll (.items [.word (.literal goose), .word (.plain "eats")]) Lexicon.marsh =
          .ok readings ∧
        readAll (.text "\"n:canada goose\" eats") Lexicon.marsh = .ok readings := by
  intro goose words words'
  have given : Source.words (.items [.word (.literal goose), .word (.plain "eats")]) =
      .ok words := by cbv
  have given' : Source.words (.text "\"n:canada goose\" eats") = .ok words' := by cbv
  have unknown : Lexicon.marsh.knows goose.spelling = false := by
    rw [Lexicon.knows_eq_false_iff]
    simp [goose, Literal.spelling, Category.tag]
  have respelled : List.Forall₂ (Respelled Lexicon.marsh) words words' :=
    .cons (.spelled (by decide) unknown) (.cons (.same _) .nil)
  have recognized : Utterance.check ⟨words, Lexicon.marsh⟩ = .ok () := by
    rw [Utterance.check_ok_iff]
    simp [words, Utterance.recognizes, Lexicon.marsh_knows]
  have subject : Derives Lexicon.marsh Phrase.nounPhrase [.literal goose]
      [⟨.isA, "canada goose", []⟩] :=
    .noun .noDeterminer .noAdjectives (.word (.literal _))
  have meant := Derives.subject subject (List.cons_ne_nil _ _) (Lexicon.marsh_eats .noItems)
  obtain ⟨readings, read, member⟩ := exists_read_all given
    Lexicon.marsh_clean.unlisted_it recognized (.fact meant) (List.cons_ne_nil _ _)
  have again := (spellings_interchangeable given given' respelled).all
  rw [read] at again
  exact ⟨respelled, readings, member, read, again⟩

end Sources

end ControlledEnglish
