import ControlledEnglish.Proofs.Canonical.Recovered

namespace ControlledEnglish

open Canonical

variable {lexicon : Lexicon} {production : Production} {vs ws : List Word} {as : List Attr}

def EndsContent (ws : List Word) : Prop := ∃ w, ws.getLast? = some w ∧ w.isContent = true

theorem ends_content_of_append (rest : EndsContent ws) : EndsContent (vs ++ ws) := by
  rcases rest with ⟨w, last, content⟩
  exact ⟨w, by rw [List.getLast?_append, last]; rfl, content⟩

theorem ends_content_append (first : vs ≠ [] → EndsContent vs) (rest : ws ≠ [] → EndsContent ws)
    (some : vs ++ ws ≠ []) : EndsContent (vs ++ ws) := by
  by_cases none : ws = []
  · subst none
    rw [List.append_nil] at some ⊢
    exact first some
  · exact ends_content_of_append (rest none)

theorem ends_content_cons {w : Word} (rest : EndsContent ws) : EndsContent (w :: ws) := by
  rw [← List.singleton_append]
  exact ends_content_of_append rest

def Production.isProper : Production → Bool
  | .one _ => true
  | .joined item | .joinedOpt item => item.advances

theorem Derives.ends_content (clean : lexicon.IsClean) (h : Derives lexicon production ws as)
    (proper : production.isProper = true) (used : AreUsed lexicon ws) (some : ws ≠ []) :
    EndsContent ws := by
  induction h with
  | word reads => exact ⟨_, rfl, reads.is_content clean.avoids⟩
  | noDeterminer | noAdverbs | noAdjectives | noItems => exact absurd rfl some
  | determiner listed =>
      have known : determiners ⊆ keywords := by decide
      have outside : ∀ w ∈ determiners, w ∉ innerKeywords := by decide
      exact absurd (used.keyword clean (known listed)) (outside _ listed)
  | it => exact absurd (used.keyword clean (by decide)) (by decide)
  | adverb _ ih | adverbGroup _ ih | someAdverbs _ ih | single _ ih => exact ih rfl used some
  | items _ ih => exact ih proper used some
  | adverbs _ _ first_ih rest_ih | adjectives _ _ first_ih rest_ih
  | adjectivePhrase _ _ first_ih rest_ih | manner _ _ first_ih rest_ih
  | subject _ _ _ first_ih rest_ih =>
      rcases are_used_append.mp used with ⟨first_used, rest_used⟩
      exact ends_content_append (first_ih rfl first_used) (rest_ih rfl rest_used) some
  | relativeClause clause ih => exact ends_content_cons (ih rfl used.of_cons (clause.ne_nil rfl))
  | itSentence predicate ih =>
      exact ends_content_cons (ih rfl used.of_cons (predicate.ne_nil rfl))
  | possession _ objects ih => exact ends_content_cons (ih rfl used.of_cons (objects.ne_nil rfl))
  | likeness _ adjectives ih =>
      exact ends_content_cons (ih rfl used.of_cons (adjectives.ne_nil rfl))
  | identity _ nouns ih => exact ends_content_cons (ih rfl used.of_cons (nouns.ne_nil rfl))
  | noun _ _ _ first_ih next_ih last_ih | action _ _ _ first_ih next_ih last_ih =>
      rcases are_used_append.mp used with ⟨before_used, last_used⟩
      rcases are_used_append.mp before_used with ⟨first_used, next_used⟩
      have before := ends_content_append (first_ih rfl first_used) (next_ih rfl next_used)
      exact ends_content_append before (last_ih rfl last_used) some
  | nounClause _ _ _ clause _ _ _ clause_ih =>
      have clause_used := (are_used_append.mp used).2
      exact ends_content_of_append (clause_ih rfl clause_used (clause.ne_nil rfl))
  | several first rest _ rest_ih =>
      rcases are_used_append.mp used with ⟨-, rest_used⟩
      apply ends_content_of_append
      exact ends_content_cons (rest_ih proper rest_used.of_cons (rest.ne_nil proper))

theorem Derives.attrs_ne_nil (clean : lexicon.IsClean) (h : Derives lexicon production ws as)
    (proper : production.isProper = true) (used : AreUsed lexicon ws) (some : ws ≠ []) :
    as ≠ [] := by
  intro silent
  rcases h.ends_content clean proper used some with ⟨w, last, content⟩
  have positive := List.countP_pos_iff.mpr ⟨w, List.mem_of_getLast? last, content⟩
  rw [h.content_eq clean.avoids, silent] at positive
  cases positive

def StartsNoun (ws : List Word) : Prop :=
  ∃ w, ws.head? = some w ∧
    (w.isContent = true ∨ ∃ keyword ∈ "it" :: determiners, w = .plain keyword)

theorem StartsNoun.append (starts : StartsNoun vs) (ws : List Word) : StartsNoun (vs ++ ws) := by
  rcases starts with ⟨w, head, options⟩
  exact ⟨w, by rw [List.head?_append, head]; rfl, options⟩

theorem StartsNoun.content (clean : lexicon.IsClean) (starts : StartsNoun vs)
    (used : AreUsed lexicon vs) : ∃ w, vs.head? = some w ∧ w.isContent = true := by
  rcases starts with ⟨w, head, content | ⟨keyword, listed, rfl⟩⟩
  · exact ⟨w, head, content⟩
  · have known : "it" :: determiners ⊆ keywords := by decide
    have outer : ∀ keyword ∈ "it" :: determiners, keyword ∉ innerKeywords := by decide
    cases vs with
    | nil => cases head
    | cons v vs =>
        cases head
        exact absurd (used.keyword clean (known listed)) (outer keyword listed)

theorem Derives.noun_phrase_starts (clean : lexicon.IsClean)
    (h : Derives lexicon Phrase.nounPhrase ws as) : StartsNoun ws := by
  have named {ds vs ws : List Word} {ns as bs : List Attr}
      (determiner : Derives lexicon Phrase.determiner ds ns)
      (adjectives : Derives lexicon Phrase.adjectivePhrases vs as)
      (noun : Derives lexicon (Phrase.word .noun) ws bs) : StartsNoun (ds ++ vs ++ ws) := by
    cases determiner with
    | determiner listed => exact ⟨_, rfl, .inr ⟨_, List.mem_cons_of_mem _ listed, rfl⟩⟩
    | noDeterminer =>
        cases vs with
        | nil =>
            rcases noun.exists_eq_singleton with ⟨w, text, reads, rfl, -⟩
            exact ⟨w, rfl, .inl (reads.is_content clean.avoids)⟩
        | cons v vs =>
            rcases adjectives.reads rfl v List.mem_cons_self with ⟨category, -, text, reads⟩
            exact ⟨v, rfl, .inl (reads.is_content clean.avoids)⟩
  cases h with
  | it => exact ⟨_, rfl, .inr ⟨"it", List.mem_cons_self, rfl⟩⟩
  | noun determiner adjectives noun => exact named determiner adjectives noun
  | nounClause determiner adjectives noun clause => exact (named determiner adjectives noun).append _

theorem Derives.sentence_starts (clean : lexicon.IsClean)
    (h : Derives lexicon Phrase.sentence ws as) : StartsNoun ws := by
  cases h with
  | itSentence => exact ⟨_, rfl, .inr ⟨"it", List.mem_cons_self, rfl⟩⟩
  | subject subject => exact (subject.noun_phrase_starts clean).append _

theorem Derives.joined_starts {item : Phrase}
    (starts : ∀ vs as, Derives lexicon item vs as → StartsNoun vs)
    (h : Derives lexicon (.joined item) ws as) : StartsNoun ws := by
  cases h with
  | single one => exact starts _ _ one
  | several first rest => exact (starts _ _ first).append _

theorem append_cons_cases {α : Type} {member : α} {as bs cs ds : List α}
    (same : as ++ member :: bs = cs ++ member :: ds) :
    (as = cs ∧ bs = ds) ∨
      (∃ between, cs = as ++ member :: between ∧ bs = between ++ member :: ds) ∨
      ∃ between, as = cs ++ member :: between ∧ ds = between ++ member :: bs := by
  rcases List.append_eq_append_iff.mp same with ⟨between, before, behind⟩ | ⟨between, before, behind⟩
  · cases between with
    | nil =>
        rw [List.append_nil] at before
        exact .inl ⟨before.symm, (List.cons.inj behind).2⟩
    | cons first between =>
        rcases List.cons.inj behind with ⟨rfl, rest⟩
        exact .inr (.inl ⟨between, before, rest⟩)
  · cases between with
    | nil =>
        rw [List.append_nil] at before
        exact .inl ⟨before, (List.cons.inj behind).2.symm⟩
    | cons first between =>
        rcases List.cons.inj behind with ⟨rfl, rest⟩
        exact .inr (.inr ⟨between, before, rest⟩)

/-- Words that are divided at an "and" after as many words with content are divided alike. -/
theorem divided_alike {vs' ws' : List Word}
    (same : vs ++ .plain "and" :: ws = vs' ++ .plain "and" :: ws')
    (counts : vs.countP Word.isContent = vs'.countP Word.isContent) (last : EndsContent vs)
    (first : ∃ w, ws.head? = some w ∧ w.isContent = true) : vs = vs' ∧ ws = ws' := by
  have no_content : (Word.plain "and").isContent = false := not_content_of_keyword (by decide)
  rcases append_cons_cases same with equal | ⟨between, before, rest⟩ | ⟨between, before, -⟩
  · exact equal
  · exfalso
    have none : between.countP Word.isContent = 0 := by
      rw [before, List.countP_append, List.countP_cons] at counts
      omega
    rcases first with ⟨v, head, content⟩
    rw [rest] at head
    cases between with
    | nil =>
        cases head
        rw [no_content] at content
        cases content
    | cons u between =>
        cases head
        exact List.countP_eq_zero.mp none v List.mem_cons_self content
  · exfalso
    have none : (Word.plain "and" :: between).countP Word.isContent = 0 := by
      rw [before, List.countP_append] at counts
      omega
    rcases last with ⟨v, ends, content⟩
    rw [before, List.getLast?_append] at ends
    have inside : v ∈ Word.plain "and" :: between := by
      apply List.mem_of_getLast?
      simpa using ends
    exact List.countP_eq_zero.mp none v inside content

end ControlledEnglish
