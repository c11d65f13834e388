import ControlledEnglish.Proofs.Canonical.Sentences
import ControlledEnglish.Proofs.Grammar.Content

namespace ControlledEnglish

namespace Canonical

variable {lexicon : Lexicon} {vs : List Word} {as : List Attr}

def AreUsed (lexicon : Lexicon) (vs : List Word) : Prop :=
  ∀ w ∈ vs, ∃ word, w = .plain word ∧ IsUsed lexicon word

theorem are_used_append {ws : List Word} :
    AreUsed lexicon (vs ++ ws) ↔ AreUsed lexicon vs ∧ AreUsed lexicon ws :=
  List.forall_mem_append

theorem AreUsed.of_cons {w : Word} (used : AreUsed lexicon (w :: vs)) : AreUsed lexicon vs :=
  (List.forall_mem_cons.mp used).2

theorem AreUsed.keyword {w : String} (used : AreUsed lexicon (.plain w :: vs))
    (clean : lexicon.IsClean) (known : w ∈ keywords) : w ∈ innerKeywords := by
  rcases (List.forall_mem_cons.mp used).1 with ⟨word, same, inner | ⟨category, listed⟩⟩
  · cases same
    exact inner
  · cases same
    exact absurd known (clean.no_keyword _ _ listed)

theorem AreUsed.outer_not_mem (used : AreUsed lexicon vs) (clean : lexicon.IsClean)
    {keyword : String} (known : keyword ∈ keywords) (outer : keyword ∉ innerKeywords) :
    .plain keyword ∉ vs := by
  intro member
  rcases used _ member with ⟨word, same, word_used⟩
  cases same
  exact word_used.not_outer clean outer known

section Clean

variable (clean : lexicon.IsClean)

include clean

theorem recover_word {category : Category} (h : Derives lexicon (Phrase.word category) vs as)
    (used : AreUsed lexicon vs) :
    ∃ w : Listed lexicon category, vs = plain [w.text] ∧ as = [w.attr []] := by
  cases h with
  | word reads =>
      rcases used _ (List.mem_singleton_self _) with ⟨word, rfl, word_used⟩
      rcases reads.of_bare (word_used.bare clean.writable) with ⟨rfl, listed⟩
      exact ⟨⟨_, listed⟩, rfl, rfl⟩

theorem recover_run (h : Derives lexicon Phrase.adverbRun vs as) (used : AreUsed lexicon vs) :
    ∃ adverbs : List (Listed lexicon .adverb), adverbs ≠ [] ∧ vs = plain (adverbWords adverbs) ∧
      as = adverbs.map (Listed.attr · []) := by
  generalize same : Production.one Phrase.adverbRun = production at h
  induction h with
  | adverb adverb =>
      rcases recover_word clean adverb used with ⟨w, rfl, rfl⟩
      exact ⟨[w], List.cons_ne_nil _ _, rfl, rfl⟩
  | adverbs first rest _ ih =>
      rcases are_used_append.mp used with ⟨first_used, rest_used⟩
      rcases recover_word clean first first_used with ⟨w, rfl, rfl⟩
      rcases ih rest_used rfl with ⟨adverbs, -, rfl, rfl⟩
      exact ⟨w :: adverbs, List.cons_ne_nil _ _, rfl, rfl⟩
  | _ => cases same

theorem recover_manner (h : Derives lexicon Phrase.adverbGroup vs as) (used : AreUsed lexicon vs) :
    ∃ manner : Manner lexicon, vs = plain (adverbWords manner.adverbs) ∧
      as = adverbAttrs manner.adverbs := by
  cases h with
  | adverbGroup run =>
      rcases recover_run clean run used with ⟨adverbs, some, rfl, rfl⟩
      exact ⟨⟨adverbs, some⟩, rfl, rfl⟩

theorem recover_quality (h : Derives lexicon Phrase.adjectivePhrase vs as)
    (used : AreUsed lexicon vs) :
    ∃ quality : Quality lexicon, vs = plain quality.words ∧ as = [quality.attr] := by
  cases h with
  | adjectivePhrase adverbs adjective =>
      rcases are_used_append.mp used with ⟨adverbs_used, adjective_used⟩
      rcases recover_word clean adjective adjective_used with ⟨w, rfl, rfl⟩
      cases adverbs with
      | noAdverbs => exact ⟨⟨[], w⟩, rfl, rfl⟩
      | someAdverbs group =>
          rcases recover_manner clean group adverbs_used with ⟨manner, rfl, rfl⟩
          refine ⟨⟨manner.adverbs, w⟩, ?_, rfl⟩
          rw [Quality.words, plain_append]

theorem recover_qualities (h : Derives lexicon Phrase.adjectivePhrases vs as)
    (used : AreUsed lexicon vs) :
    ∃ qualities : List (Quality lexicon), vs = plain (qualityWords qualities) ∧
      as = qualities.map Quality.attr := by
  generalize same : Production.one Phrase.adjectivePhrases = production at h
  induction h with
  | noAdjectives => exact ⟨[], rfl, rfl⟩
  | adjectives first rest _ ih =>
      rcases are_used_append.mp used with ⟨first_used, rest_used⟩
      rcases recover_quality clean first first_used with ⟨quality, rfl, rfl⟩
      rcases ih rest_used rfl with ⟨qualities, rfl, rfl⟩
      refine ⟨quality :: qualities, ?_, rfl⟩
      exact (plain_append ..).symm
  | _ => cases same

theorem recover_manners (h : Derives lexicon (.joined .adverbGroup) vs as)
    (used : AreUsed lexicon vs) :
    ∃ manners : List (Manner lexicon), manners ≠ [] ∧ vs = plain (mannerWords manners) ∧
      as = mannerAttrs manners := by
  generalize same : Production.joined Phrase.adverbGroup = production at h
  induction h with
  | single one =>
      cases same
      rcases recover_manner clean one used with ⟨manner, rfl, rfl⟩
      refine ⟨[manner], List.cons_ne_nil _ _, ?_, ?_⟩
      · rw [mannerWords, List.map_singleton, and_joined_singleton]
      · rw [mannerAttrs, List.flatMap_singleton]
  | several first rest _ ih =>
      cases same
      rcases are_used_append.mp used with ⟨first_used, rest_used⟩
      rcases recover_manner clean first first_used with ⟨manner, rfl, rfl⟩
      rcases ih rest_used.of_cons rfl with ⟨manners, some, rfl, rfl⟩
      refine ⟨manner :: manners, List.cons_ne_nil _ _, ?_, ?_⟩
      · cases manners with
        | nil => exact absurd rfl some
        | cons next others => simp [mannerWords]
      · rw [mannerAttrs, mannerAttrs, List.flatMap_cons]
  | _ => cases same

theorem recover_manners_opt (h : Derives lexicon (.joinedOpt .adverbGroup) vs as)
    (used : AreUsed lexicon vs) :
    ∃ manners : List (Manner lexicon), vs = plain (mannerWords manners) ∧
      as = mannerAttrs manners := by
  cases h with
  | noItems => exact ⟨[], rfl, rfl⟩
  | items joined =>
      rcases recover_manners clean joined used with ⟨manners, -, rfl, rfl⟩
      exact ⟨manners, rfl, rfl⟩

theorem recover_noun (h : Derives lexicon Phrase.nounPhrase vs as) (used : AreUsed lexicon vs) :
    ∃ name : Name lexicon, (vs = plain name.words ∧ as = [name.attr []]) ∨
      ∃ ws bs, vs = plain name.words ++ .plain "that" :: ws ∧
        Derives lexicon Phrase.verbPhrase ws bs ∧ as = [name.attr bs] := by
  have named {ds vs ws : List Word} {ns as bs : List Attr}
      (determiner : Derives lexicon Phrase.determiner ds ns)
      (adjectives : Derives lexicon Phrase.adjectivePhrases vs as)
      (noun : Derives lexicon (Phrase.word .noun) ws bs) (used : AreUsed lexicon (ds ++ vs ++ ws)) :
      ∃ name : Name lexicon, ds ++ vs ++ ws = plain name.words ∧ attach bs as = [name.attr []] := by
    rcases are_used_append.mp used with ⟨used, noun_used⟩
    rcases are_used_append.mp used with ⟨determiner_used, adjectives_used⟩
    rcases recover_word clean noun noun_used with ⟨w, rfl, rfl⟩
    rcases recover_qualities clean adjectives adjectives_used with ⟨qualities, rfl, rfl⟩
    have none : ds = [] := by
      cases determiner with
      | noDeterminer => rfl
      | determiner listed =>
          have known : determiners ⊆ keywords := by decide
          have outside : ∀ w ∈ determiners, w ∉ innerKeywords := by decide
          exact absurd (determiner_used.keyword clean (known listed)) (outside _ listed)
    subst none
    refine ⟨⟨qualities, w⟩, ?_, ?_⟩
    · rw [List.nil_append, Name.words, plain_append]
    · simp [attach, Name.attr, Listed.attr]
  cases h with
  | it => exact absurd (used.keyword clean (by decide)) (by decide)
  | noun determiner adjectives noun =>
      rcases named determiner adjectives noun used with ⟨name, words, attrs⟩
      exact ⟨name, .inl ⟨words, attrs⟩⟩
  | nounClause determiner adjectives noun clause =>
      rcases are_used_append.mp used with ⟨name_used, clause_used⟩
      rcases named determiner adjectives noun name_used with ⟨name, words, attrs⟩
      cases clause with
      | relativeClause clause =>
          refine ⟨name, .inr ⟨_, _, by rw [words], clause, ?_⟩⟩
          rw [attrs]
          simp [attach, Name.attr, Listed.attr]

theorem recover_joined_qualities (h : Derives lexicon (.joined .adjectivePhrase) vs as)
    (used : AreUsed lexicon vs) :
    ∃ qualities : List (Quality lexicon), qualities ≠ [] ∧
      vs = plain (Gloss.andJoined (qualities.map Quality.words)) ∧
      as = qualities.map Quality.attr := by
  generalize same : Production.joined Phrase.adjectivePhrase = production at h
  induction h with
  | single one =>
      cases same
      rcases recover_quality clean one used with ⟨quality, rfl, rfl⟩
      refine ⟨[quality], List.cons_ne_nil _ _, ?_, rfl⟩
      rw [List.map_singleton, and_joined_singleton]
  | several first rest _ ih =>
      cases same
      rcases are_used_append.mp used with ⟨first_used, rest_used⟩
      rcases recover_quality clean first first_used with ⟨quality, rfl, rfl⟩
      rcases ih rest_used.of_cons rfl with ⟨qualities, some, rfl, rfl⟩
      refine ⟨quality :: qualities, List.cons_ne_nil _ _, ?_, rfl⟩
      cases qualities with
      | nil => exact absurd rfl some
      | cons next others => simp
  | _ => cases same

end Clean

/-- Verb phrases of used words, canonical but for what they have inside: a likeness may be of more
than one quality, and manners may come behind the verb. -/
inductive VerbCase (lexicon : Lexicon) : List Word → List Attr → Prop where
  | has {ws objects} (given : Derives lexicon (.joined .nounPhrase) ws objects) :
      VerbCase lexicon (.plain "has" :: ws) (toHasA objects)
  | like {qualities : List (Quality lexicon)} (some : qualities ≠ []) :
      VerbCase lexicon (.plain "is" :: plain (Gloss.andJoined (qualities.map Quality.words)))
        (qualities.map Quality.attr)
  | is {ws nouns} (given : Derives lexicon (.joined .nounPhrase) ws nouns) :
      VerbCase lexicon (.plain "is" :: ws) nouns
  | acts (action : Action lexicon) : VerbCase lexicon (plain action.words) [action.attr []]
  | actsOn (action : Action lexicon) {ws objects}
      (given : Derives lexicon (.joined .nounPhrase) ws objects) :
      VerbCase lexicon (plain action.words ++ ws) [action.attr objects]
  | behind {manners : List (Manner lexicon)} (verb : Listed lexicon .verb) (some : manners ≠ []) :
      VerbCase lexicon (plain (verb.text :: mannerWords manners))
        [Action.attr ⟨manners, verb⟩ []]

theorem recover_verb (clean : lexicon.IsClean) (h : Derives lexicon Phrase.verbPhrase vs as)
    (used : AreUsed lexicon vs) : VerbCase lexicon vs as := by
  have attr_eq (manners : List (Manner lexicon)) (verb : Listed lexicon .verb) (attrs : List Attr) :
      attach [verb.attr []] (mannerAttrs manners ++ attrs) = [Action.attr ⟨manners, verb⟩ attrs] := by
    simp [attach, Action.attr, Listed.attr]
  have words_eq (manners : List (Manner lexicon)) (verb : Listed lexicon .verb) :
      plain (mannerWords manners) ++ plain [verb.text] = plain (Action.words ⟨manners, verb⟩) :=
    (plain_append ..).symm
  cases h with
  | possession verb objects =>
      have only : ∀ w ∈ possessionVerbs, w ∈ innerKeywords → w = "has" := by decide
      have known : possessionVerbs ⊆ keywords := by decide
      rcases only _ verb (used.keyword clean (known verb)) with rfl
      exact .has objects
  | likeness copula adjectives =>
      have only : ∀ w ∈ copulas, w ∈ innerKeywords → w = "is" := by decide
      have known : copulas ⊆ keywords := by decide
      rcases only _ copula (used.keyword clean (known copula)) with rfl
      rcases recover_joined_qualities clean adjectives used.of_cons with ⟨qualities, some, rfl, rfl⟩
      exact .like some
  | identity copula nouns =>
      have only : ∀ w ∈ copulas, w ∈ innerKeywords → w = "is" := by decide
      have known : copulas ⊆ keywords := by decide
      rcases only _ copula (used.keyword clean (known copula)) with rfl
      exact .is nouns
  | action adverbs verb objects =>
      rcases are_used_append.mp used with ⟨used, objects_used⟩
      rcases are_used_append.mp used with ⟨adverbs_used, verb_used⟩
      rcases recover_manners_opt clean adverbs adverbs_used with ⟨manners, rfl, rfl⟩
      rcases recover_word clean verb verb_used with ⟨w, rfl, rfl⟩
      rw [attr_eq, words_eq]
      cases objects with
      | noItems =>
          rw [List.append_nil]
          exact .acts _
      | items given => exact .actsOn _ given
  | manner verb adverbs =>
      rcases are_used_append.mp used with ⟨verb_used, adverbs_used⟩
      rcases recover_manners clean adverbs adverbs_used with ⟨manners, some, rfl, rfl⟩
      rcases recover_word clean verb verb_used with ⟨w, rfl, rfl⟩
      have attrs := attr_eq manners w []
      rw [List.append_nil] at attrs
      rw [attrs]
      exact .behind w some

end Canonical

end ControlledEnglish
