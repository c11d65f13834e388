import ControlledEnglish.Proofs.Grammar.Taught

namespace ControlledEnglish

/-- The second words are the first without some of the determiners among them. -/
inductive DropsDeterminers : List Word → List Word → Prop where
  | nil : DropsDeterminers [] []
  | keep (w : Word) {ws vs : List Word} (rest : DropsDeterminers ws vs) :
      DropsDeterminers (w :: ws) (w :: vs)
  | drop {w : String} (determiner : w ∈ determiners) {ws vs : List Word}
      (rest : DropsDeterminers ws vs) : DropsDeterminers (.plain w :: ws) vs

namespace DropsDeterminers

variable {us ws vs : List Word}

theorem subset (drops : DropsDeterminers ws vs) : vs ⊆ ws := by
  induction drops with
  | nil => exact List.Subset.refl _
  | keep w _ ih => exact List.cons_subset_cons w ih
  | drop _ _ ih => exact List.subset_cons_of_subset _ ih

theorem of_append (drops : DropsDeterminers (us ++ ws) vs) :
    ∃ first rest, vs = first ++ rest ∧ DropsDeterminers us first ∧ DropsDeterminers ws rest := by
  induction us generalizing vs with
  | nil => exact ⟨[], vs, rfl, .nil, drops⟩
  | cons u us ih =>
      cases drops with
      | keep _ drops =>
          obtain ⟨first, rest, rfl, before, behind⟩ := ih drops
          exact ⟨u :: first, rest, rfl, .keep u before, behind⟩
      | drop determiner drops =>
          obtain ⟨first, rest, rfl, before, behind⟩ := ih drops
          exact ⟨first, rest, rfl, .drop determiner before, behind⟩

theorem of_three_parts {ms : List Word} (drops : DropsDeterminers (us ++ ms ++ ws) vs) :
    ∃ first middle rest, vs = first ++ middle ++ rest ∧ DropsDeterminers us first ∧
      DropsDeterminers ms middle ∧ DropsDeterminers ws rest := by
  obtain ⟨front, rest, rfl, leading, behind⟩ := drops.of_append
  obtain ⟨first, middle, rfl, before, between⟩ := leading.of_append
  exact ⟨first, middle, rest, rfl, before, between, behind⟩

theorem of_nil (drops : DropsDeterminers [] vs) : vs = [] := by
  cases drops
  rfl

theorem of_cons {w : Word} (stays : ∀ text ∈ determiners, w ≠ .plain text)
    (drops : DropsDeterminers (w :: ws) vs) :
    ∃ rest, vs = w :: rest ∧ DropsDeterminers ws rest := by
  cases drops with
  | keep _ drops => exact ⟨_, rfl, drops⟩
  | drop determiner _ => exact absurd rfl (stays _ determiner)

theorem of_keyword {w : String} {options : List String} (listed : w ∈ options)
    (stay : ∀ keyword ∈ options, keyword ∉ determiners)
    (drops : DropsDeterminers (.plain w :: ws) vs) :
    ∃ rest, vs = .plain w :: rest ∧ DropsDeterminers ws rest := by
  apply drops.of_cons
  rintro text determiner same
  cases same
  exact stay w listed determiner

end DropsDeterminers

section Phrases

variable {lexicon : Lexicon} (avoids : lexicon.AvoidsKeywords) {ws vs : List Word}

include avoids

theorem Reads.not_determiner {category : Category} {w : Word} {text : String}
    (reads : Reads lexicon category w text) : ∀ determiner ∈ determiners, w ≠ .plain determiner := by
  have known : determiners ⊆ keywords := by decide
  rintro determiner listed rfl
  exact avoids.not_reads_keyword (known listed) reads

/-- A phrase means what it meant. -/
theorem Derives.drops_determiners {production : Production} {as : List Attr}
    (h : Derives lexicon production ws as) (drops : DropsDeterminers ws vs) :
    Derives lexicon production vs as := by
  induction h generalizing vs with
  | word reads =>
      obtain ⟨rest, rfl, behind⟩ := drops.of_cons (reads.not_determiner avoids)
      cases behind.of_nil
      exact .word reads
  | noDeterminer =>
      cases drops.of_nil
      exact .noDeterminer
  | determiner listed =>
      cases drops with
      | keep _ rest =>
          cases rest.of_nil
          exact .determiner listed
      -- A determiner that is left out is the one that there need not be.
      | drop _ rest =>
          cases rest.of_nil
          exact .noDeterminer
  | adverb _ ih => exact .adverb (ih drops)
  | adverbs _ _ first_ih rest_ih =>
      obtain ⟨first, rest, rfl, before, behind⟩ := drops.of_append
      exact .adverbs (first_ih before) (rest_ih behind)
  | adverbGroup _ ih => exact .adverbGroup (ih drops)
  | noAdverbs =>
      cases drops.of_nil
      exact .noAdverbs
  | someAdverbs _ ih => exact .someAdverbs (ih drops)
  | adjectivePhrase _ _ adverbs_ih adjective_ih =>
      obtain ⟨first, rest, rfl, before, behind⟩ := drops.of_append
      exact .adjectivePhrase (adverbs_ih before) (adjective_ih behind)
  | noAdjectives =>
      cases drops.of_nil
      exact .noAdjectives
  | adjectives _ _ first_ih rest_ih =>
      obtain ⟨first, rest, rfl, before, behind⟩ := drops.of_append
      exact .adjectives (first_ih before) (rest_ih behind)
  | relativeClause _ ih =>
      obtain ⟨rest, rfl, behind⟩ := drops.of_keyword (List.mem_singleton_self _) (by decide)
      exact .relativeClause (ih behind)
  | it =>
      obtain ⟨rest, rfl, behind⟩ := drops.of_keyword (List.mem_singleton_self _) (by decide)
      cases behind.of_nil
      exact .it
  | noun _ _ _ determiner_ih adjectives_ih noun_ih =>
      obtain ⟨first, middle, last, rfl, before, between, behind⟩ := drops.of_three_parts
      exact .noun (determiner_ih before) (adjectives_ih between) (noun_ih behind)
  | nounClause _ _ _ _ determiner_ih adjectives_ih noun_ih clause_ih =>
      obtain ⟨name, clause, rfl, naming, describing⟩ := drops.of_append
      obtain ⟨first, middle, last, rfl, before, between, behind⟩ := naming.of_three_parts
      exact .nounClause (determiner_ih before) (adjectives_ih between) (noun_ih behind)
        (clause_ih describing)
  | possession verb _ ih =>
      obtain ⟨rest, rfl, behind⟩ := drops.of_keyword verb (by decide)
      exact .possession verb (ih behind)
  | likeness copula _ ih =>
      obtain ⟨rest, rfl, behind⟩ := drops.of_keyword copula (by decide)
      exact .likeness copula (ih behind)
  | identity copula _ ih =>
      obtain ⟨rest, rfl, behind⟩ := drops.of_keyword copula (by decide)
      exact .identity copula (ih behind)
  | action _ _ _ adverbs_ih verb_ih objects_ih =>
      obtain ⟨first, middle, last, rfl, before, between, behind⟩ := drops.of_three_parts
      exact .action (adverbs_ih before) (verb_ih between) (objects_ih behind)
  | manner _ _ verb_ih adverbs_ih =>
      obtain ⟨first, rest, rfl, before, behind⟩ := drops.of_append
      exact .manner (verb_ih before) (adverbs_ih behind)
  | itSentence _ ih =>
      obtain ⟨rest, rfl, behind⟩ := drops.of_keyword (List.mem_singleton_self _) (by decide)
      exact .itSentence (ih behind)
  | subject _ real _ subject_ih predicate_ih =>
      obtain ⟨first, rest, rfl, before, behind⟩ := drops.of_append
      exact .subject (subject_ih before) real (predicate_ih behind)
  | single _ ih => exact .single (ih drops)
  | several _ _ first_ih rest_ih =>
      obtain ⟨first, rest, rfl, before, second⟩ := drops.of_append
      obtain ⟨rest, rfl, behind⟩ := second.of_keyword (List.mem_singleton_self _) (by decide)
      exact .several (first_ih before) (rest_ih behind)
  | noItems =>
      cases drops.of_nil
      exact .noItems
  | items _ ih => exact .items (ih drops)

theorem DerivesRules.drops_determiners {rules : List Rule} (h : DerivesRules lexicon ws rules)
    (drops : DropsDeterminers ws vs) : DerivesRules lexicon vs rules := by
  cases h with
  | conditional conditions conclusions =>
      obtain ⟨first, rest, rfl, opening, turn⟩ := drops.of_append
      obtain ⟨first, rfl, before⟩ := opening.of_keyword (List.mem_singleton_self _) (by decide)
      obtain ⟨rest, rfl, behind⟩ := turn.of_keyword (List.mem_singleton_self _) (by decide)
      exact .conditional (conditions.drops_determiners avoids before)
        (conclusions.drops_determiners avoids behind)
  | trailing conclusion conditions =>
      obtain ⟨first, rest, rfl, before, second⟩ := drops.of_append
      obtain ⟨rest, rfl, behind⟩ := second.of_keyword (List.mem_singleton_self _) (by decide)
      exact .trailing (conclusion.drops_determiners avoids before)
        (conditions.drops_determiners avoids behind)
  | fact claim => exact .fact (claim.drops_determiners avoids drops)

end Phrases

section Sources

variable {lexicon : Lexicon} {ws vs : List Word}

theorem check_drops_determiners (drops : DropsDeterminers ws vs)
    (recognized : Utterance.check ⟨ws, lexicon⟩ = .ok ()) :
    Utterance.check ⟨vs, lexicon⟩ = .ok () := by
  rw [Utterance.check_ok_iff] at recognized ⊢
  intro word member
  exact recognized word (drops.subset member)

theorem readings_drops_determiners (avoids : lexicon.AvoidsKeywords)
    (drops : DropsDeterminers ws vs) :
    Utterance.readings ⟨ws, lexicon⟩ ⊆ Utterance.readings ⟨vs, lexicon⟩ := by
  intro rules member
  rw [Utterance.mem_readings_iff avoids.unlisted_it] at member ⊢
  exact member.imp_right fun meant => meant.drops_determiners avoids drops

/-- Determiners have no effect: whatever is read with them is read without any of them, too. -/
theorem read_all_without_determiners (avoids : lexicon.AvoidsKeywords)
    (drops : DropsDeterminers ws vs) {source other : Source} (given : source.words = .ok ws)
    (given' : other.words = .ok vs) {readings : List (List Rule)}
    (read : readAll source lexicon = .ok readings) :
    ∃ others, readAll other lexicon = .ok others ∧ readings ⊆ others :=
  read_all_subset given given' (check_drops_determiners drops)
    (readings_drops_determiners avoids drops) read

theorem read_all_without_one_determiner :
    let rules : List Rule :=
      [⟨⟨.hasA, "heron", [⟨.does, "eats", [⟨.isA, "frog", []⟩]⟩]⟩, []⟩]
    DropsDeterminers (plain ["the", "heron", "eats", "a", "frog"])
        (plain ["heron", "eats", "a", "frog"]) ∧
      ∃ readings others, readAll (.text "the heron eats a frog") Lexicon.marsh = .ok readings ∧
        rules ∈ readings ∧ readAll (.text "heron eats a frog") Lexicon.marsh = .ok others ∧
          rules ∈ others := by
  intro rules
  have avoids := Lexicon.marsh_clean.avoids
  have given : Source.words (.text "the heron eats a frog") =
      .ok (plain ["the", "heron", "eats", "a", "frog"]) := by cbv
  have given' : Source.words (.text "heron eats a frog") =
      .ok (plain ["heron", "eats", "a", "frog"]) := by cbv
  have drops : DropsDeterminers (plain ["the", "heron", "eats", "a", "frog"])
      (plain ["heron", "eats", "a", "frog"]) :=
    .drop (by decide) (.keep _ (.keep _ (.keep _ (.keep _ .nil))))
  have recognized : Utterance.check
      ⟨plain ["the", "heron", "eats", "a", "frog"], Lexicon.marsh⟩ = .ok () :=
    Lexicon.marsh_check _ (by decide)
  have heron := Lexicon.marsh_noun (w := "heron") (by simp) (.determiner (w := "the") (by decide))
  have frog := Lexicon.marsh_noun (w := "frog") (by simp) (.determiner (w := "a") (by decide))
  have eats_frog := Lexicon.marsh_eats (.items (.single frog))
  have meant := Derives.subject heron (List.cons_ne_nil _ _) eats_frog
  obtain ⟨readings, read, member⟩ := exists_read_all given avoids.unlisted_it recognized
    (.fact meant) (List.cons_ne_nil _ _)
  obtain ⟨others, read', subset⟩ := read_all_without_determiners avoids drops given given' read
  exact ⟨drops, readings, others, read, member, read', subset member⟩

end Sources

end ControlledEnglish
