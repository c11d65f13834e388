import Mathlib.Data.List.Chain
import ControlledEnglish.Proofs.Canonical.Clean

namespace ControlledEnglish

variable {lexicon : Lexicon} {production : Production} {ws : List Word} {as : List Attr}

def Phrase.isModifier : Phrase → Bool
  | .word _ | .determiner | .adverbRun | .adverbGroup | .adverbsOpt | .adjectivePhrase
  | .adjectivePhrases => true
  | .relativeClause | .nounPhrase | .verbPhrase | .sentence => false

/-- Phrases that end with a noun, a verb, an adjective or "it", if they do not end with a manner. -/
def Phrase.isWhole : Phrase → Bool
  | .adjectivePhrase | .relativeClause | .nounPhrase | .verbPhrase => true
  | _ => false

theorem Derives.keyword_not_mem (clean : lexicon.IsClean) {keyword : String}
    (h : Derives lexicon production ws as) (modifier : production.item.isModifier = true)
    (known : keyword ∈ keywords) (no_determiner : keyword ∉ determiners)
    (no_and : keyword ≠ "and") : .plain keyword ∉ ws := by
  induction h with
  | word reads =>
      rw [List.mem_singleton]
      intro same
      exact clean.not_reads_keyword known (same ▸ reads)
  | noDeterminer | noAdverbs | noAdjectives | noItems => exact List.not_mem_nil
  | determiner listed =>
      rw [List.mem_singleton]
      intro same
      cases same
      exact no_determiner listed
  | adverb _ ih | adverbGroup _ ih | someAdverbs _ ih => exact ih rfl
  | adverbs _ _ first_ih rest_ih | adjectives _ _ first_ih rest_ih
  | adjectivePhrase _ _ first_ih rest_ih =>
      exact List.not_mem_append (first_ih rfl) (rest_ih rfl)
  | single _ ih | items _ ih => exact ih modifier
  | several _ _ first_ih rest_ih =>
      have not_and : (.plain keyword : Word) ≠ .plain "and" := fun same => no_and (by cases same; rfl)
      exact List.not_mem_append (first_ih modifier)
        (List.not_mem_cons_of_ne_of_not_mem not_and (rest_ih modifier))
  | relativeClause | it | noun | nounClause | possession | likeness | identity | action | manner
  | itSentence | subject => cases modifier

theorem Derives.outer_not_mem (avoids : lexicon.AvoidsKeywords) {keyword : String}
    (h : Derives lexicon production ws as) (outer : keyword ∈ ["if", "then"]) :
    .plain keyword ∉ ws := by
  have known : ["if", "then"] ⊆ keywords := by decide
  have after {word : String} {options : List String} {ws : List Word} (listed : word ∈ options)
      (inner : ∀ keyword ∈ ["if", "then"], keyword ∉ options) (rest : .plain keyword ∉ ws) :
      .plain keyword ∉ .plain word :: ws := by
    refine List.not_mem_cons_of_ne_of_not_mem ?_ rest
    intro same
    cases same
    exact inner keyword outer listed
  induction h with
  | word reads =>
      rw [List.mem_singleton]
      intro same
      exact avoids.not_reads_keyword (known outer) (same ▸ reads)
  | noDeterminer | noAdverbs | noAdjectives | noItems => exact List.not_mem_nil
  | determiner listed => exact after listed (by decide) List.not_mem_nil
  | adverb _ ih | adverbGroup _ ih | someAdverbs _ ih | single _ ih | items _ ih => exact ih
  | adverbs _ _ first_ih rest_ih | adjectives _ _ first_ih rest_ih
  | adjectivePhrase _ _ first_ih rest_ih | manner _ _ first_ih rest_ih
  | subject _ _ _ first_ih rest_ih => exact List.not_mem_append first_ih rest_ih
  | relativeClause _ ih | itSentence _ ih => exact after (List.mem_singleton_self _) (by decide) ih
  | it => exact after (List.mem_singleton_self _) (by decide) List.not_mem_nil
  | noun _ _ _ first_ih next_ih last_ih | action _ _ _ first_ih next_ih last_ih =>
      exact List.not_mem_append (List.not_mem_append first_ih next_ih) last_ih
  | nounClause _ _ _ _ first_ih next_ih noun_ih clause_ih =>
      have before := List.not_mem_append (List.not_mem_append first_ih next_ih) noun_ih
      exact List.not_mem_append before clause_ih
  | possession verb _ ih => exact after verb (by decide) ih
  | likeness copula _ ih | identity copula _ ih => exact after copula (by decide) ih
  | several _ _ first_ih rest_ih =>
      exact List.not_mem_append first_ih (after (List.mem_singleton_self _) (by decide) rest_ih)

def ItEnds (v w : Word) : Prop := v = .plain "it" → w = .plain "and"

theorem it_ends_of_not_mem {vs : List Word} (no_it : .plain "it" ∉ vs)
    (rest : ws.IsChain ItEnds) : (vs ++ ws).IsChain ItEnds := by
  induction vs with
  | nil => exact rest
  | cons v vs ih =>
      rw [List.mem_cons, not_or] at no_it
      rw [List.cons_append, List.isChain_cons]
      exact ⟨fun w _ same => absurd same.symm no_it.1, ih no_it.2⟩

theorem it_ends_of_no_it (no_it : .plain "it" ∉ ws) : ws.IsChain ItEnds := by
  have chain := it_ends_of_not_mem no_it List.IsChain.nil
  rwa [List.append_nil] at chain

theorem it_ends_after {w : String} {options : List String} (listed : w ∈ options)
    (no_it : "it" ∉ options) (rest : ws.IsChain ItEnds) : (.plain w :: ws).IsChain ItEnds := by
  refine rest.cons fun v _ same => ?_
  cases same
  exact absurd listed no_it

theorem Derives.it_ends (clean : lexicon.IsClean) (h : Derives lexicon production ws as)
    (phrase : production.item ≠ .sentence) : ws.IsChain ItEnds := by
  have free {production ws as} (h : Derives lexicon production ws as)
      (modifier : production.item.isModifier = true) : .plain "it" ∉ ws :=
    h.keyword_not_mem clean modifier (by decide) (by decide) (by decide)
  induction h with
  | word reads => exact it_ends_of_no_it (free (.word reads) rfl)
  | noDeterminer | noAdverbs | noAdjectives | noItems => exact List.IsChain.nil
  | determiner listed => exact it_ends_of_no_it (free (.determiner listed) rfl)
  | adverb adverb => exact it_ends_of_no_it (free adverb rfl)
  | adverbs first rest => exact it_ends_of_no_it (free (.adverbs first rest) rfl)
  | adverbGroup run => exact it_ends_of_no_it (free run rfl)
  | someAdverbs group => exact it_ends_of_no_it (free group rfl)
  | adjectivePhrase adverbs adjective =>
      exact it_ends_of_no_it (free (.adjectivePhrase adverbs adjective) rfl)
  | adjectives first rest => exact it_ends_of_no_it (free (.adjectives first rest) rfl)
  | relativeClause clause ih =>
      exact it_ends_after (List.mem_singleton_self _) (by decide) (ih (by decide))
  | it => exact List.IsChain.singleton _
  | noun determiner adjectives noun =>
      have before := List.not_mem_append (free determiner rfl) (free adjectives rfl)
      exact it_ends_of_no_it (List.not_mem_append before (free noun rfl))
  | nounClause determiner adjectives noun clause _ _ _ clause_ih =>
      have before := List.not_mem_append (free determiner rfl) (free adjectives rfl)
      exact it_ends_of_not_mem (List.not_mem_append before (free noun rfl)) (clause_ih (by decide))
  | possession verb objects ih => exact it_ends_after verb (by decide) (ih (by decide))
  | likeness copula adjectives ih => exact it_ends_after copula (by decide) (ih (by decide))
  | identity copula nouns ih => exact it_ends_after copula (by decide) (ih (by decide))
  | action adverbs verb objects _ _ objects_ih =>
      exact it_ends_of_not_mem (List.not_mem_append (free adverbs rfl) (free verb rfl))
        (objects_ih (by decide))
  | manner verb adverbs =>
      exact it_ends_of_no_it (List.not_mem_append (free verb rfl) (free adverbs rfl))
  | single one ih => exact ih phrase
  | several first rest first_ih rest_ih =>
      have after := it_ends_after (List.mem_singleton_self "and") (by decide) (rest_ih phrase)
      refine (first_ih phrase).append after fun v _ w next _ => ?_
      exact (Option.some.inj next).symm
  | items joined ih => exact ih phrase
  | itSentence | subject => exact absurd rfl phrase

def IsManner (lexicon : Lexicon) (w : Word) : Prop :=
  w = .plain "and" ∨ ∃ text, Reads lexicon .adverb w text

def IsHead (lexicon : Lexicon) (w : Word) : Prop :=
  (∃ text ∈ possessionVerbs ++ copulas, w = .plain text) ∨ ∃ text, Reads lexicon .verb w text

/-- Whether, behind the words, a verb phrase may have its head. -/
def Ruled (lexicon : Lexicon) (before : Prop) : List Word → Prop
  | [] => before
  | w :: ws =>
      Ruled lexicon (w = .plain "that" ∨ w = .plain "it" ∨ before ∧ IsManner lexicon w) ws

/-- Every head has only manners between it and a "that" or an "it". -/
def Governed (lexicon : Lexicon) (before : Prop) : List Word → Prop
  | [] => True
  | w :: ws => (IsHead lexicon w → before) ∧
      Governed lexicon (w = .plain "that" ∨ w = .plain "it" ∨ before ∧ IsManner lexicon w) ws

section Rules

variable {before : Prop} {vs : List Word}

theorem ruled_append :
    Ruled lexicon before (vs ++ ws) ↔ Ruled lexicon (Ruled lexicon before vs) ws := by
  induction vs generalizing before with
  | nil => rfl
  | cons v vs ih => exact ih

theorem governed_append : Governed lexicon before (vs ++ ws) ↔
    Governed lexicon before vs ∧ Governed lexicon (Ruled lexicon before vs) ws := by
  induction vs generalizing before with
  | nil => exact (and_iff_right trivial).symm
  | cons v vs ih => rw [List.cons_append, Governed, Governed, ih, and_assoc]; rfl

theorem before_of_ruled (no_that : .plain "that" ∉ ws) (no_it : .plain "it" ∉ ws)
    (ruled : Ruled lexicon before ws) : before := by
  induction ws generalizing before with
  | nil => exact ruled
  | cons w ws ih =>
      rw [List.mem_cons, not_or] at no_that no_it
      rcases ih no_that.2 no_it.2 ruled with same | same | still
      · exact absurd same.symm no_that.1
      · exact absurd same.symm no_it.1
      · exact still.1

theorem governed_of_no_head (no_head : ∀ w ∈ ws, ¬IsHead lexicon w) :
    Governed lexicon before ws := by
  induction ws generalizing before with
  | nil => trivial
  | cons w ws ih =>
      rw [List.forall_mem_cons] at no_head
      exact ⟨fun head => absurd head no_head.1, ih no_head.2⟩

theorem ruled_of_manners (manners : ∀ w ∈ ws, IsManner lexicon w) (given : before) :
    Ruled lexicon before ws := by
  induction ws generalizing before with
  | nil => exact given
  | cons w ws ih =>
      rw [List.forall_mem_cons] at manners
      exact ih manners.2 (.inr (.inr ⟨given, manners.1⟩))

theorem not_head_of_reads (clean : lexicon.IsClean) {category : Category} {w : Word}
    {text : String} (reads : Reads lexicon category w text) (no_verb : category ≠ .verb) :
    ¬IsHead lexicon w := by
  have known : possessionVerbs ++ copulas ⊆ keywords := by decide
  intro head
  rcases head with ⟨keyword, listed, same⟩ | ⟨other, verb⟩
  · subst same
    exact clean.not_reads_keyword (known listed) reads
  · exact no_verb (clean.category_eq reads verb)

theorem not_head_of_keyword (clean : lexicon.IsClean) {keyword : String}
    (known : keyword ∈ keywords) (no_head : keyword ∉ possessionVerbs ++ copulas) :
    ¬IsHead lexicon (.plain keyword) := by
  intro head
  rcases head with ⟨other, listed, same⟩ | ⟨text, verb⟩
  · cases same
    exact no_head listed
  · exact clean.not_reads_keyword known verb

theorem not_ruled_concat {w : Word} (no_that : w ≠ .plain "that") (no_it : w ≠ .plain "it")
    (no_manner : ¬IsManner lexicon w) : ¬Ruled lexicon before (vs ++ [w]) := by
  rw [ruled_append]
  rintro (same | same | still)
  · exact no_that same
  · exact no_it same
  · exact no_manner still.2

theorem not_manner_of_reads (clean : lexicon.IsClean) {category : Category} {w : Word}
    {text : String} (reads : Reads lexicon category w text) (no_adverb : category ≠ .adverb) :
    ¬IsManner lexicon w := by
  rintro (rfl | ⟨other, adverb⟩)
  · exact clean.not_reads_keyword (by decide) reads
  · exact no_adverb (clean.category_eq reads adverb)

theorem not_ruled_of_reads (clean : lexicon.IsClean) {category : Category} {w : Word}
    {text : String} (reads : Reads lexicon category w text) (no_adverb : category ≠ .adverb) :
    ¬Ruled lexicon before (vs ++ [w]) := by
  refine not_ruled_concat ?_ ?_ (not_manner_of_reads clean reads no_adverb)
  · rintro rfl
    exact clean.not_reads_keyword (by decide) reads
  · rintro rfl
    exact clean.not_reads_keyword (by decide) reads

theorem Derives.before_of_governed (clean : lexicon.IsClean)
    (h : Derives lexicon Phrase.verbPhrase ws as) (governed : Governed lexicon before ws) :
    before := by
  cases h with
  | possession verb objects =>
      exact governed.1 (.inl ⟨_, List.mem_append_left _ verb, rfl⟩)
  | likeness copula adjectives => exact governed.1 (.inl ⟨_, List.mem_append_right _ copula, rfl⟩)
  | identity copula nouns => exact governed.1 (.inl ⟨_, List.mem_append_right _ copula, rfl⟩)
  | action adverbs verb objects =>
      obtain ⟨w, text, reads, rfl, -⟩ := verb.exists_eq_singleton
      rw [List.append_assoc, governed_append] at governed
      have ruled := governed.2.1 (.inr ⟨text, reads⟩)
      exact before_of_ruled (adverbs.keyword_not_mem clean rfl (by decide) (by decide) (by decide))
        (adverbs.keyword_not_mem clean rfl (by decide) (by decide) (by decide)) ruled
  | manner verb adverbs =>
      obtain ⟨w, text, reads, rfl, -⟩ := verb.exists_eq_singleton
      exact governed.1 (.inr ⟨text, reads⟩)

theorem last_of_append {w : Word} (last : ws.getLast? = some w) : (vs ++ ws).getLast? = some w := by
  rw [List.getLast?_append, last]
  rfl

theorem last_of_cons {v w : Word} (last : ws.getLast? = some w) :
    (v :: ws).getLast? = some w := by
  rw [List.getLast?_cons, last]
  rfl

theorem Derives.last_it (clean : lexicon.IsClean) (h : Derives lexicon production ws as)
    (whole : production.item.isWhole = true) (some : ws ≠ [])
    (ruled : Ruled lexicon before ws) : ws.getLast? = .some (.plain "it") := by
  induction h generalizing before with
  | adjectivePhrase adverbs adjective =>
      obtain ⟨w, text, reads, rfl, -⟩ := adjective.exists_eq_singleton
      exact absurd ruled (not_ruled_of_reads clean reads (by decide))
  | it => rfl
  | noun determiner adjectives noun =>
      obtain ⟨w, text, reads, rfl, -⟩ := noun.exists_eq_singleton
      exact absurd ruled (not_ruled_of_reads clean reads (by decide))
  | nounClause determiner adjectives noun clause _ _ _ clause_ih =>
      rw [ruled_append] at ruled
      exact last_of_append (clause_ih rfl (clause.ne_nil rfl) ruled)
  | relativeClause clause ih =>
      exact last_of_cons (ih rfl (clause.ne_nil rfl) ruled)
  | possession verb objects ih =>
      exact last_of_cons (ih rfl (objects.ne_nil rfl) ruled)
  | likeness copula adjectives ih =>
      exact last_of_cons (ih rfl (adjectives.ne_nil rfl) ruled)
  | identity copula nouns ih =>
      exact last_of_cons (ih rfl (nouns.ne_nil rfl) ruled)
  | @action hs vs ws as bs cs adverbs verb objects _ _ objects_ih =>
      obtain ⟨w, text, reads, rfl, -⟩ := verb.exists_eq_singleton
      by_cases none : ws = []
      · subst none
        rw [List.append_nil] at ruled
        exact absurd ruled (not_ruled_of_reads clean reads (by decide))
      · rw [ruled_append] at ruled
        exact last_of_append (objects_ih rfl none ruled)
  | manner verb adverbs =>
      obtain ⟨w, text, reads, rfl, -⟩ := verb.exists_eq_singleton
      rw [ruled_append] at ruled
      have verb_ruled := before_of_ruled
        (adverbs.keyword_not_mem clean rfl (by decide) (by decide) (by decide))
        (adverbs.keyword_not_mem clean rfl (by decide) (by decide) (by decide)) ruled
      rw [← List.nil_append [w]] at verb_ruled
      exact absurd verb_ruled (not_ruled_of_reads clean reads (by decide))
  | single one ih => exact ih whole some ruled
  | @several item vs ws as bs first rest _ rest_ih =>
      have advances : item.advances = true := by
        cases item <;> first | rfl | cases whole
      have split : vs ++ .plain "and" :: ws = vs ++ [.plain "and"] ++ ws := by simp
      rw [split, ruled_append] at ruled
      rw [split]
      exact last_of_append (rest_ih whole (rest.ne_nil advances) ruled)
  | items joined ih => exact ih whole some ruled
  | noItems => exact absurd rfl some
  | _ => cases whole

theorem Derives.subject_last_it (clean : lexicon.IsClean) {bs : List Attr}
    (subject : Derives lexicon Phrase.nounPhrase vs as)
    (predicate : Derives lexicon Phrase.verbPhrase ws bs)
    (governed : Governed lexicon before (vs ++ ws)) : vs.getLast? = some (.plain "it") := by
  rw [governed_append] at governed
  have ruled := predicate.before_of_governed clean governed.2
  exact subject.last_it clean rfl (subject.ne_nil rfl) ruled

theorem Derives.it_mem_sentence (clean : lexicon.IsClean)
    (h : Derives lexicon Phrase.sentence ws as) (governed : Governed lexicon before ws) :
    .plain "it" ∈ ws := by
  cases h with
  | itSentence => exact List.mem_cons_self
  | subject subject real predicate =>
      have last := subject.subject_last_it clean predicate governed
      exact List.mem_append_left _ (List.mem_of_getLast? last)

theorem Derives.it_mem (clean : lexicon.IsClean)
    (h : Derives lexicon (.joined .sentence) ws as) (governed : Governed lexicon before ws) :
    .plain "it" ∈ ws := by
  cases h with
  | single one => exact one.it_mem_sentence clean governed
  | several first rest =>
      rw [governed_append] at governed
      exact List.mem_append_left _ (first.it_mem_sentence clean governed.1)

end Rules

end ControlledEnglish
