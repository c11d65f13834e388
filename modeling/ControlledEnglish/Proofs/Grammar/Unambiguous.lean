import ControlledEnglish.Proofs.Canonical.Governed
import ControlledEnglish.Proofs.Grammar.Content
import ControlledEnglish.Proofs.Reading

/-! Phrases that can be taken in one way only.

Where every word has one use, the alternatives of the grammar compete only over "and" and over what
a clause belongs to. A phrase without "and" has one meaning: its head is its first word, or the
first verb behind its adverbs, or the first noun behind its adjectives, and the head tells how the
phrase goes on. A sentence about "it" starts with a phrase that nothing can be taken into. -/

namespace ControlledEnglish

theorem append_cons_unique {α : Type} {p : α → Prop} {l l' r r' : List α} {a a' : α}
    (same : l ++ a :: r = l' ++ a' :: r') (before : ∀ x ∈ l, p x) (here : ¬p a)
    (before' : ∀ x ∈ l', p x) (here' : ¬p a') : l = l' ∧ a = a' ∧ r = r' := by
  rcases List.append_eq_append_iff.mp same with ⟨between, rfl, rest⟩ | ⟨between, rfl, rest⟩
  · cases between with
    | nil =>
        cases rest
        exact ⟨(List.append_nil l).symm, rfl, rfl⟩
    | cons first between =>
        obtain ⟨rfl, -⟩ := List.cons.inj rest
        exact absurd (before' a (by simp)) here
  · cases between with
    | nil =>
        cases rest
        exact ⟨List.append_nil l', rfl, rfl⟩
    | cons first between =>
        obtain ⟨rfl, -⟩ := List.cons.inj rest
        exact absurd (before a' (by simp)) here'

variable {lexicon : Lexicon} {ws : List Word} {as bs : List Attr}

def Bears (lexicon : Lexicon) (category : Category) (w : Word) : Prop :=
  ∃ text, Reads lexicon category w text

section Words

variable (one : lexicon.IsUnambiguous) {category other : Category} {w : Word}

include one

theorem not_bears_other (bears : Bears lexicon category w) (differ : category ≠ other) :
    ¬Bears lexicon other w := by
  rintro ⟨text', again⟩
  obtain ⟨text, reads⟩ := bears
  exact differ (one.reads_unique reads again).1

theorem not_bears_keyword {keyword : String} (known : keyword ∈ keywords) :
    ¬Bears lexicon category (.plain keyword) :=
  fun ⟨_, reads⟩ => one.avoids.not_reads_keyword known reads

end Words

theorem Derives.bears {category : Category} (h : Derives lexicon (Phrase.word category) ws as) :
    ∃ w, Bears lexicon category w ∧ ws = [w] := by
  obtain ⟨w, text, reads, rfl, -⟩ := h.exists_eq_singleton
  exact ⟨w, ⟨text, reads⟩, rfl⟩

theorem Derives.bear_adverb {item : Phrase} (h : Derives lexicon item ws as)
    (plain : item.categories? = some [.adverb]) : ∀ w ∈ ws, Bears lexicon .adverb w := by
  intro w member
  obtain ⟨category, listed, text, reads⟩ := h.reads plain w member
  cases List.mem_singleton.mp listed
  exact ⟨text, reads⟩

theorem Derives.run_cases {w : Word} (h : Derives lexicon Phrase.adverbRun (w :: ws) as) :
    ∃ first, Derives lexicon (Phrase.word .adverb) [w] first ∧
      ((ws = [] ∧ as = first) ∨
        ∃ rest, Derives lexicon Phrase.adverbRun ws rest ∧ as = first ++ rest) := by
  generalize text : w :: ws = words at h
  cases h with
  | adverb first =>
      obtain ⟨v, -, rfl⟩ := first.bears
      cases text
      exact ⟨as, first, .inl ⟨rfl, rfl⟩⟩
  | adverbs first rest =>
      obtain ⟨v, -, rfl⟩ := first.bears
      cases text
      exact ⟨_, first, .inr ⟨_, rest, rfl⟩⟩

theorem Derives.adjective_last (h : Derives lexicon Phrase.adjectivePhrase ws as) :
    ∃ hs a, ws = hs ++ [a] ∧ (∀ w ∈ hs, Bears lexicon .adverb w) ∧ Bears lexicon .adjective a := by
  cases h with
  | adjectivePhrase adverbs adjective =>
      obtain ⟨a, bears, rfl⟩ := adjective.bears
      exact ⟨_, a, rfl, adverbs.bear_adverb rfl, bears⟩

section Joined

variable {item : Phrase} (no_and : .plain "and" ∉ ws)

include no_and

theorem Derives.of_joined (h : Derives lexicon (.joined item) ws as) :
    Derives lexicon item ws as := by
  cases h with
  | single one => exact one
  | several first rest => simp at no_and

theorem Derives.of_joined_opt (h : Derives lexicon (.joinedOpt item) ws as) :
    (ws = [] ∧ as = []) ∨ Derives lexicon item ws as := by
  cases h with
  | noItems => exact .inl ⟨rfl, rfl⟩
  | items joined => exact .inr (joined.of_joined no_and)

end Joined

theorem Derives.attrs_nil (avoids : lexicon.AvoidsKeywords) {production : Production}
    (h : Derives lexicon production [] as) : as = [] := by
  apply Attr.eq_nil_of_sizes
  rw [← h.content_eq avoids]
  rfl

section Unique

variable (one : lexicon.IsUnambiguous)

include one

theorem Derives.word_unique {category : Category} (h : Derives lexicon (Phrase.word category) ws as)
    (again : Derives lexicon (Phrase.word category) ws bs) : as = bs := by
  obtain ⟨w, text, reads, rfl, rfl⟩ := h.exists_eq_singleton
  obtain ⟨w', text', reads', same, rfl⟩ := again.exists_eq_singleton
  cases same
  rw [(one.reads_unique reads reads').2]

theorem Lexicon.IsUnambiguous.adjectives_divided {vs vs' ws' : List Word}
    (first : Derives lexicon Phrase.adjectivePhrase vs as)
    (first' : Derives lexicon Phrase.adjectivePhrase vs' bs) (same : vs ++ ws = vs' ++ ws') :
    vs = vs' ∧ ws = ws' := by
  have no_adverb {a : Word} (bears : Bears lexicon .adjective a) : ¬Bears lexicon .adverb a :=
    not_bears_other one bears (by decide)
  obtain ⟨hs, a, rfl, adverbs, adjective⟩ := first.adjective_last
  obtain ⟨hs', a', rfl, adverbs', adjective'⟩ := first'.adjective_last
  simp only [List.append_assoc, List.singleton_append] at same
  obtain ⟨rfl, rfl, rfl⟩ := append_cons_unique same adverbs (no_adverb adjective) adverbs'
    (no_adverb adjective')
  exact ⟨rfl, rfl⟩

theorem Derives.modifier_unique {production : Production} (h : Derives lexicon production ws as)
    (modifier : production.item.isModifier = true) (no_and : .plain "and" ∉ ws)
    (again : Derives lexicon production ws bs) : as = bs := by
  induction h generalizing bs with
  | word reads => exact (Derives.word reads).word_unique one again
  | noDeterminer | noAdverbs | noAdjectives | noItems => exact (again.attrs_nil one.avoids).symm
  | determiner listed => exact again.determiner_attrs.1.symm
  | adverb first ih =>
      obtain ⟨w, -, rfl⟩ := first.bears
      obtain ⟨attrs, first', ⟨-, rfl⟩ | ⟨more, rest', -⟩⟩ := again.run_cases
      · exact ih rfl no_and first'
      · exact absurd rfl (rest'.ne_nil rfl)
  | adverbs first rest first_ih rest_ih =>
      simp only [List.mem_append, not_or] at no_and
      obtain ⟨w, -, rfl⟩ := first.bears
      obtain ⟨attrs, first', ⟨rfl, -⟩ | ⟨more, rest', rfl⟩⟩ := again.run_cases
      · exact absurd rfl (rest.ne_nil rfl)
      · rw [first_ih rfl no_and.1 first', rest_ih rfl no_and.2 rest']
  | adverbGroup run ih =>
      cases again with
      | adverbGroup run' => rw [ih rfl no_and run']
  | someAdverbs group ih =>
      cases again with
      | noAdverbs => exact group.attrs_nil one.avoids
      | someAdverbs group' => exact ih rfl no_and group'
  | adjectivePhrase adverbs adjective adverbs_ih adjective_ih =>
      simp only [List.mem_append, not_or] at no_and
      obtain ⟨a, -, rfl⟩ := adjective.bears
      generalize text : _ ++ [a] = words at again
      cases again with
      | adjectivePhrase adverbs' adjective' =>
          obtain ⟨a', -, rfl⟩ := adjective'.bears
          obtain ⟨rfl, same⟩ := List.append_inj' text rfl
          cases same
          rw [adverbs_ih rfl no_and.1 adverbs', adjective_ih rfl no_and.2 adjective']
  | @adjectives vs ws cs ds first rest first_ih rest_ih =>
      simp only [List.mem_append, not_or] at no_and
      generalize text : vs ++ ws = words at again
      cases again with
      | noAdjectives => exact absurd (List.append_eq_nil_iff.mp text).1 (first.ne_nil rfl)
      | adjectives first' rest' =>
          obtain ⟨rfl, rfl⟩ := one.adjectives_divided first first' text
          rw [first_ih rfl no_and.1 first', rest_ih rfl no_and.2 rest']
  | single item ih => exact ih modifier no_and (again.of_joined no_and)
  | several first rest => simp at no_and
  | items joined ih =>
      cases again with
      | noItems => exact joined.attrs_nil one.avoids
      | items joined' => exact ih modifier no_and joined'
  | relativeClause | it | noun | nounClause | possession | likeness | identity | action | manner
  | itSentence | subject => cases modifier

theorem Lexicon.IsUnambiguous.no_noun_before {ds vs : List Word} {ns : List Attr}
    (determiner : Derives lexicon Phrase.determiner ds ns)
    (adjectives : Derives lexicon Phrase.adjectivePhrases vs as) :
    ∀ w ∈ ds ++ vs, ¬Bears lexicon .noun w := by
  have known : determiners ⊆ keywords := by decide
  intro w member
  rcases List.mem_append.mp member with before | behind
  · cases determiner with
    | noDeterminer => cases before
    | determiner listed =>
        cases List.mem_singleton.mp before
        exact not_bears_keyword one (known listed)
  · obtain ⟨category, listed, reads⟩ := adjectives.reads rfl w behind
    refine not_bears_other one reads ?_
    rintro rfl
    exact absurd listed (by decide)

theorem Lexicon.IsUnambiguous.adjectives_after {ds vs ds' vs' : List Word} {ns ns' : List Attr}
    (determiner : Derives lexicon Phrase.determiner ds ns)
    (determiner' : Derives lexicon Phrase.determiner ds' ns')
    (adjectives : Derives lexicon Phrase.adjectivePhrases vs as)
    (adjectives' : Derives lexicon Phrase.adjectivePhrases vs' bs) (same : ds ++ vs = ds' ++ vs') :
    vs = vs' := by
  have known : determiners ⊆ keywords := by decide
  have not_inside {w : String} {ws : List Word} {cs : List Attr} (listed : w ∈ determiners)
      (adjectives : Derives lexicon Phrase.adjectivePhrases (.plain w :: ws) cs) : False := by
    obtain ⟨category, -, reads⟩ := adjectives.reads rfl _ List.mem_cons_self
    exact not_bears_keyword one (known listed) reads
  cases determiner with
  | noDeterminer =>
      cases determiner' with
      | noDeterminer => exact same
      | determiner listed =>
          subst same
          exact absurd adjectives (not_inside listed)
  | determiner listed =>
      cases determiner' with
      | noDeterminer =>
          subst same
          exact absurd adjectives' (not_inside listed)
      | determiner => exact (List.cons.inj same).2

theorem Lexicon.IsUnambiguous.name_divided {ds vs xs ds' vs' xs' : List Word} {n n' : Word}
    {ns ns' : List Attr} (determiner : Derives lexicon Phrase.determiner ds ns)
    (adjectives : Derives lexicon Phrase.adjectivePhrases vs as) (noun : Bears lexicon .noun n)
    (determiner' : Derives lexicon Phrase.determiner ds' ns')
    (adjectives' : Derives lexicon Phrase.adjectivePhrases vs' bs) (noun' : Bears lexicon .noun n')
    (same : ds ++ vs ++ n :: xs = ds' ++ vs' ++ n' :: xs') : vs = vs' ∧ n = n' ∧ xs = xs' := by
  have before := one.no_noun_before determiner adjectives
  have before' := one.no_noun_before determiner' adjectives'
  obtain ⟨front, rfl, rfl⟩ := append_cons_unique same before (not_not_intro noun) before'
    (not_not_intro noun')
  exact ⟨one.adjectives_after determiner determiner' adjectives adjectives' front, rfl, rfl⟩

theorem Derives.of_name {ds vs ns xs : List Word} {cs es fs : List Attr}
    (h : Derives lexicon Phrase.nounPhrase (ds ++ vs ++ ns ++ xs) as)
    (determiner : Derives lexicon Phrase.determiner ds cs)
    (adjectives : Derives lexicon Phrase.adjectivePhrases vs es)
    (noun : Derives lexicon (Phrase.word .noun) ns fs) :
    ∃ adjectives name, Derives lexicon Phrase.adjectivePhrases vs adjectives ∧
      Derives lexicon (Phrase.word .noun) ns name ∧
      ((xs = [] ∧ as = attach name adjectives) ∨
        ∃ clause, Derives lexicon Phrase.relativeClause xs clause ∧
          as = attach (attach name adjectives) clause) := by
  have no_it := Derives.ne_it_of_noun one.avoids.unlisted_it determiner adjectives noun
  obtain ⟨n, bears, rfl⟩ := noun.bears
  generalize text : ds ++ vs ++ [n] ++ xs = words at h
  cases h with
  | it =>
      have member : n ∈ [Word.plain "it"] := by
        rw [← text]
        simp
      exact absurd (List.mem_singleton.mp member) (no_it n (by simp))
  | noun determiner' adjectives' noun' =>
      obtain ⟨n', bears', rfl⟩ := noun'.bears
      rw [← List.append_cons] at text
      obtain ⟨rfl, rfl, rfl⟩ := one.name_divided determiner adjectives bears determiner' adjectives'
        bears' text
      exact ⟨_, _, adjectives', noun', .inl ⟨rfl, rfl⟩⟩
  | nounClause determiner' adjectives' noun' clause' =>
      obtain ⟨n', bears', rfl⟩ := noun'.bears
      rw [← List.append_cons, ← List.append_cons] at text
      obtain ⟨rfl, rfl, rfl⟩ := one.name_divided determiner adjectives bears determiner' adjectives'
        bears' text
      exact ⟨_, _, adjectives', noun', .inr ⟨_, clause', rfl⟩⟩

theorem Lexicon.IsUnambiguous.head_not_keyword {hs ws rest : List Word} {v : Word}
    (adverbs : ∀ w ∈ hs, Bears lexicon .adverb w) (verb : Bears lexicon .verb v) {keyword : String}
    (text : hs ++ v :: ws = .plain keyword :: rest) : keyword ∉ keywords := by
  intro known
  cases hs with
  | nil =>
      obtain ⟨rfl, -⟩ := List.cons.inj text
      exact not_bears_keyword one known verb
  | cons first hs =>
      obtain ⟨rfl, -⟩ := List.cons.inj text
      exact not_bears_keyword one known (adverbs _ List.mem_cons_self)

end Unique

theorem Derives.manner_words {hs : List Word} (no_and : .plain "and" ∉ hs)
    (h : Derives lexicon (.joinedOpt .adverbGroup) hs as) : ∀ w ∈ hs, Bears lexicon .adverb w := by
  rcases h.of_joined_opt no_and with ⟨rfl, -⟩ | group
  · exact List.forall_mem_nil _
  · exact group.bear_adverb rfl

inductive Acts (lexicon : Lexicon) (hs : List Word) (v : Word) (ws : List Word) : List Attr → Prop
  | action {manners action things : List Attr}
      (adverbs : Derives lexicon (.joinedOpt .adverbGroup) hs manners)
      (verb : Derives lexicon (Phrase.word .verb) [v] action)
      (objects : Derives lexicon (.joinedOpt .nounPhrase) ws things) :
      Acts lexicon hs v ws (attach action (manners ++ things))
  | manner {manners action : List Attr} (none : hs = [])
      (verb : Derives lexicon (Phrase.word .verb) [v] action)
      (adverbs : Derives lexicon (.joined .adverbGroup) ws manners) :
      Acts lexicon hs v ws (attach action manners)

section Predicates

variable (one : lexicon.IsUnambiguous) {hs : List Word} {w : String} {v : Word}

include one

theorem Derives.of_verb (adverbs : ∀ w ∈ hs, Bears lexicon .adverb w) (verb : Bears lexicon .verb v)
    (no_and : .plain "and" ∉ hs ++ v :: ws)
    (h : Derives lexicon Phrase.verbPhrase (hs ++ v :: ws) as) : Acts lexicon hs v ws as := by
  have no_adverb {v : Word} (bears : Bears lexicon .verb v) : ¬Bears lexicon .adverb v :=
    not_bears_other one bears (by decide)
  have keyword {w : String} {rest : List Word} {options : List String} (listed : w ∈ options)
      (known : options ⊆ keywords) (text : hs ++ v :: ws = .plain w :: rest) : False :=
    one.head_not_keyword adverbs verb text (known listed)
  generalize text : hs ++ v :: ws = words at h no_and
  cases h with
  | possession listed => exact absurd text (keyword listed (by decide))
  | likeness listed => exact absurd text (keyword listed (by decide))
  | identity listed => exact absurd text (keyword listed (by decide))
  | action adverbs' verb' objects' =>
      obtain ⟨v', bears', rfl⟩ := verb'.bears
      simp only [List.mem_append, not_or] at no_and
      rw [← List.append_cons] at text
      obtain ⟨rfl, rfl, rfl⟩ := append_cons_unique text adverbs (no_adverb verb)
        (adverbs'.manner_words no_and.1.1) (no_adverb bears')
      exact .action adverbs' verb' objects'
  | manner verb' adverbs' =>
      obtain ⟨v', bears', rfl⟩ := verb'.bears
      rw [List.singleton_append, ← List.nil_append (v' :: _)] at text
      obtain ⟨rfl, rfl, rfl⟩ := append_cons_unique text adverbs (no_adverb verb)
        (List.forall_mem_nil _) (no_adverb bears')
      exact .manner rfl verb' adverbs'

theorem Derives.of_keyword (known : w ∈ keywords) (no_and : .plain "and" ∉ .plain w :: ws)
    (h : Derives lexicon Phrase.verbPhrase (.plain w :: ws) as) :
    (w ∈ possessionVerbs ∧ ∃ things, Derives lexicon Phrase.nounPhrase ws things ∧
      as = toHasA things) ∨
    (w ∈ copulas ∧
      (Derives lexicon Phrase.adjectivePhrase ws as ∨
        Derives lexicon Phrase.nounPhrase ws as)) := by
  generalize text : Word.plain w :: ws = words at h no_and
  cases h with
  | possession listed objects =>
      cases text
      rw [List.mem_cons, not_or] at no_and
      exact .inl ⟨listed, _, objects.of_joined no_and.2, rfl⟩
  | likeness listed adjectives =>
      cases text
      rw [List.mem_cons, not_or] at no_and
      exact .inr ⟨listed, .inl (adjectives.of_joined no_and.2)⟩
  | identity listed nouns =>
      cases text
      rw [List.mem_cons, not_or] at no_and
      exact .inr ⟨listed, .inr (nouns.of_joined no_and.2)⟩
  | action adverbs verb objects =>
      obtain ⟨v, bears, rfl⟩ := verb.bears
      simp only [List.mem_append, not_or] at no_and
      rw [← List.append_cons] at text
      exact absurd known (one.head_not_keyword (adverbs.manner_words no_and.1.1) bears text.symm)
  | manner verb adverbs =>
      obtain ⟨v, bears, rfl⟩ := verb.bears
      exact absurd known (one.head_not_keyword (List.forall_mem_nil _) bears text.symm)

theorem Derives.not_noun_phrase {item : Phrase} {categories : List Category}
    (h : Derives lexicon item ws as) (plain : item.categories? = some categories)
    (no_noun : .noun ∉ categories) : ¬Derives lexicon Phrase.nounPhrase ws bs := by
  have each : ∀ w ∈ ws, w ≠ .plain "it" ∧ ¬Bears lexicon .noun w := by
    intro w member
    obtain ⟨category, listed, text, reads⟩ := h.reads plain w member
    refine ⟨reads.ne_it one.avoids.unlisted_it, not_bears_other one ⟨text, reads⟩ ?_⟩
    rintro rfl
    exact no_noun listed
  intro phrase
  cases phrase with
  | it => exact (each _ List.mem_cons_self).1 rfl
  | noun determiner adjectives noun =>
      obtain ⟨n, bears, rfl⟩ := noun.bears
      exact (each n (by simp)).2 bears
  | nounClause determiner adjectives noun clause =>
      obtain ⟨n, bears, rfl⟩ := noun.bears
      exact (each n (by simp)).2 bears

end Predicates

section Whole

variable (one : lexicon.IsUnambiguous)

include one

/-- A phrase without "and" that is no sentence says one thing. -/
theorem Derives.whole_unique {production : Production} (h : Derives lexicon production ws as)
    (whole : production.item.isModifier = false) (phrase : production.item ≠ .sentence)
    (no_and : .plain "and" ∉ ws) (again : Derives lexicon production ws bs) : as = bs := by
  have possession_known : possessionVerbs ⊆ keywords := by decide
  have copulas_known : copulas ⊆ keywords := by decide
  have apart : ∀ w ∈ possessionVerbs, w ∉ copulas := by decide
  -- The induction is on phrases that may hold a clause; modifiers hold none. In each case the head
  -- of the phrase tells how it was derived `again`.
  induction h generalizing bs with
  | word | noDeterminer | determiner | adverb | adverbs | adverbGroup | noAdverbs | someAdverbs
  | adjectivePhrase | noAdjectives | adjectives => cases whole
  | relativeClause clause ih =>
      rw [List.mem_cons, not_or] at no_and
      cases again with
      | relativeClause clause' => exact ih rfl (by decide) no_and.2 clause'
  | it =>
      apply Eq.symm
      apply Attr.eq_nil_of_sizes
      rw [← again.content_eq one.avoids]
      decide
  | @noun ds vs ns cs es fs determiner adjectives noun =>
      rw [← List.append_nil (ds ++ vs ++ ns)] at again
      simp only [List.mem_append, not_or] at no_and
      obtain ⟨es', fs', adjectives', noun', ⟨-, rfl⟩ | ⟨gs, clause, -⟩⟩ :=
        again.of_name one determiner adjectives noun
      · rw [adjectives.modifier_unique one rfl no_and.1.2 adjectives', noun.word_unique one noun']
      · exact absurd rfl (clause.ne_nil rfl)
  | nounClause determiner adjectives noun clause determiner_ih adjectives_ih noun_ih clause_ih =>
      simp only [List.mem_append, not_or] at no_and
      obtain ⟨es', fs', adjectives', noun', ⟨none, -⟩ | ⟨gs', clause', rfl⟩⟩ :=
        again.of_name one determiner adjectives noun
      · exact absurd none (clause.ne_nil rfl)
      · rw [adjectives.modifier_unique one rfl no_and.1.1.2 adjectives',
          noun.word_unique one noun', clause_ih rfl (by decide) no_and.2 clause']
  | possession listed objects ih =>
      rcases again.of_keyword one (possession_known listed) no_and with
        ⟨-, things, objects', rfl⟩ | ⟨copula, -⟩
      · rw [List.mem_cons, not_or] at no_and
        rw [ih rfl (by decide) no_and.2 (.single objects')]
      · exact absurd copula (apart _ listed)
  | likeness listed adjectives ih =>
      have alone := adjectives.of_joined (List.not_mem_of_not_mem_cons no_and)
      rcases again.of_keyword one (copulas_known listed) no_and with
        ⟨verb, -⟩ | ⟨-, adjectives' | nouns⟩
      · exact absurd listed (apart _ verb)
      · exact alone.modifier_unique one rfl (List.not_mem_of_not_mem_cons no_and) adjectives'
      · exact absurd nouns (alone.not_noun_phrase one rfl (by decide))
  | identity listed nouns ih =>
      have alone := nouns.of_joined (List.not_mem_of_not_mem_cons no_and)
      rcases again.of_keyword one (copulas_known listed) no_and with
        ⟨verb, -⟩ | ⟨-, adjectives | nouns'⟩
      · exact absurd listed (apart _ verb)
      · exact absurd alone (adjectives.not_noun_phrase one rfl (by decide))
      · exact ih rfl (by decide) (List.not_mem_of_not_mem_cons no_and) (.single nouns')
  | action adverbs verb objects adverbs_ih verb_ih objects_ih =>
      obtain ⟨v, bears, rfl⟩ := verb.bears
      rw [← List.append_cons] at again no_and
      have apart_and := no_and
      simp only [List.mem_append, List.mem_cons, not_or] at apart_and
      cases again.of_verb one (adverbs.manner_words apart_and.1) bears no_and with
      | action adverbs' verb' objects' =>
          rw [adverbs.modifier_unique one rfl apart_and.1 adverbs', verb.word_unique one verb',
            objects_ih rfl (by decide) apart_and.2.2 objects']
      | manner none verb' adverbs' =>
          have run := adverbs'.of_joined apart_and.2.2
          rcases objects.of_joined_opt apart_and.2.2 with ⟨rfl, -⟩ | nouns
          · exact absurd rfl (run.ne_nil rfl)
          · exact absurd nouns (run.not_noun_phrase one rfl (by decide))
  | @manner vs ws _ _ verb adverbs verb_ih adverbs_ih =>
      obtain ⟨v, bears, rfl⟩ := verb.bears
      have apart_and := no_and
      simp only [List.mem_append, List.mem_cons, not_or] at apart_and
      have acts : Acts lexicon [] v ws bs :=
        again.of_verb one (List.forall_mem_nil _) bears no_and
      cases acts with
      | action adverbs' verb' objects' =>
          have run := adverbs.of_joined apart_and.2
          rcases objects'.of_joined_opt apart_and.2 with ⟨rfl, -⟩ | nouns
          · exact absurd rfl (run.ne_nil rfl)
          · exact absurd nouns (run.not_noun_phrase one rfl (by decide))
      | manner none verb' adverbs' =>
          rw [adverbs.modifier_unique one rfl apart_and.2 adverbs', verb.word_unique one verb']
  | itSentence | subject => exact absurd rfl phrase
  | single item ih => exact ih whole phrase no_and (again.of_joined no_and)
  | several first rest => simp at no_and
  | noItems => exact (again.attrs_nil one.avoids).symm
  | items joined ih =>
      cases again with
      | noItems => exact joined.attrs_nil one.avoids
      | items joined' => exact ih whole phrase no_and joined'

omit one in
theorem Derives.attrs_of_it (unlisted : lexicon.knows "it" = false)
    (h : Derives lexicon Phrase.nounPhrase (.plain "it" :: ws) as) : as = [] := by
  generalize text : Word.plain "it" :: ws = words at h
  have not_first {ns behind : List Word} (some : ns ≠ []) (no_it : ∀ w ∈ ns, w ≠ .plain "it") :
      .plain "it" :: ws ≠ ns ++ behind := by
    obtain ⟨w, rest, rfl⟩ := List.exists_cons_of_ne_nil some
    intro same
    exact no_it w List.mem_cons_self (List.cons.inj same).1.symm
  cases h with
  | it => rfl
  | noun determiner adjectives noun =>
      have no_it := ne_it_of_noun unlisted determiner adjectives noun
      rw [← List.append_nil (_ ++ _ ++ _)] at text
      exact absurd text (not_first (List.append_ne_nil_of_right_ne_nil _ (noun.ne_nil rfl)) no_it)
  | nounClause determiner adjectives noun clause =>
      have no_it := ne_it_of_noun unlisted determiner adjectives noun
      exact absurd text (not_first (List.append_ne_nil_of_right_ne_nil _ (noun.ne_nil rfl)) no_it)

theorem Derives.of_it (h : Derives lexicon Phrase.sentence (.plain "it" :: ws) as) :
    Derives lexicon Phrase.verbPhrase ws as := by
  generalize text : Word.plain "it" :: ws = words at h
  cases h with
  | itSentence predicate =>
      cases text
      exact predicate
  | subject subject real predicate =>
      obtain ⟨first, rest, rfl⟩ := List.exists_cons_of_ne_nil (subject.ne_nil rfl)
      obtain ⟨rfl, -⟩ := List.cons.inj text
      exact absurd (subject.attrs_of_it one.avoids.unlisted_it) real

theorem Derives.sentence_unique (h : Derives lexicon (.joined .sentence) ws as)
    (it : ws.head? = some (.plain "it")) (no_and : .plain "and" ∉ ws)
    (again : Derives lexicon (.joined .sentence) ws bs) : as = bs := by
  have alone := h.of_joined no_and
  have alone' := again.of_joined no_and
  obtain ⟨rest, rfl⟩ := List.head?_eq_some_iff.mp it
  rw [List.mem_cons, not_or] at no_and
  exact (alone.of_it one).whole_unique one rfl (by decide) no_and.2 (alone'.of_it one)

end Whole

/-- Where a sentence of a text may start: where the text does, unless that is an "if", and behind
every "if" and every "then". -/
def IsSentenceStart (words : List Word) : Nat → Prop
  | 0 => words[0]? ≠ some (.plain "if")
  | i + 1 => words[i]? = some (.plain "if") ∨ words[i]? = some (.plain "then")

/-- Every sentence of the text is about "it". -/
def AboutIt (words : List Word) : Prop :=
  ∀ i w, IsSentenceStart words i → words[i]? = some w → w = .plain "it"

instance (words : List Word) : (i : Nat) → Decidable (IsSentenceStart words i)
  | 0 => inferInstanceAs (Decidable (_ ≠ _))
  | _ + 1 => inferInstanceAs (Decidable (_ ∨ _))

theorem about_it_iff {words : List Word} : AboutIt words ↔
    ∀ i < words.length, IsSentenceStart words i → words[i]? = some (.plain "it") := by
  constructor
  · intro about i inside start
    have found := List.getElem?_eq_getElem inside
    rw [found, about i _ start found]
  · intro all i w start found
    have inside := (List.getElem?_eq_some_iff.mp found).1
    rw [all i inside start] at found
    exact (Option.some.inj found).symm

instance (words : List Word) : Decidable (AboutIt words) := decidable_of_iff _ about_it_iff.symm

namespace AboutIt

variable {sentence : List Word} (some : sentence ≠ [])

include some

theorem first (behind : List Word) (about : AboutIt (sentence ++ behind))
    (no_if : .plain "if" ∉ sentence) :
    sentence.head? = .some (.plain "it") := by
  obtain ⟨w, rest, rfl⟩ := List.exists_cons_of_ne_nil some
  rw [List.mem_cons, not_or] at no_if
  have start : IsSentenceStart (w :: rest ++ behind) 0 := by
    intro same
    exact no_if.1 (Option.some.inj same).symm
  rw [about 0 w start rfl]
  rfl

theorem after (before behind : List Word) {keyword : String} (outer : keyword ∈ ["if", "then"])
    (about : AboutIt (before ++ .plain keyword :: (sentence ++ behind))) :
    sentence.head? = .some (.plain "it") := by
  obtain ⟨w, rest, rfl⟩ := List.exists_cons_of_ne_nil some
  have turn : (before ++ .plain keyword :: (w :: rest ++ behind))[before.length]? =
      .some (.plain keyword) := by simp
  have here : (before ++ .plain keyword :: (w :: rest ++ behind))[before.length + 1]? =
      .some w := by simp
  have start : IsSentenceStart (before ++ .plain keyword :: (w :: rest ++ behind))
      (before.length + 1) := by
    rw [IsSentenceStart, turn]
    simpa using outer
  rw [about _ w start here]
  rfl

end AboutIt

section Rules

variable {vs : List Word} {rules rules' : List Rule} (avoids : lexicon.AvoidsKeywords)

theorem divided_at_keyword {v : Word} {vs' ws' : List Word}
    (same : vs ++ v :: ws = vs' ++ v :: ws') (no_v : v ∉ vs) (no_v' : v ∉ vs') :
    vs = vs' ∧ ws = ws' := by
  have before : ∀ w ∈ vs, w ≠ v := fun w member same => no_v (same ▸ member)
  have before' : ∀ w ∈ vs', w ≠ v := fun w member same => no_v' (same ▸ member)
  obtain ⟨rfl, -, rfl⟩ := append_cons_unique same before (not_not_intro rfl) before'
    (not_not_intro rfl)
  exact ⟨rfl, rfl⟩

include avoids

theorem DerivesRules.of_if (no_then : .plain "then" ∉ vs)
    (h : DerivesRules lexicon (.plain "if" :: vs ++ .plain "then" :: ws) rules) :
    ∃ body heads, Derives lexicon (.joined .sentence) vs body ∧
      Derives lexicon (.joined .sentence) ws heads ∧ rules = buildRules body heads := by
  generalize text : Word.plain "if" :: vs ++ .plain "then" :: ws = words at h
  cases h with
  | conditional conditions conclusions =>
      obtain ⟨-, same⟩ := List.cons.inj text
      obtain ⟨rfl, rfl⟩ := divided_at_keyword same no_then
        (conditions.outer_not_mem avoids (by decide))
      exact ⟨_, _, conditions, conclusions, rfl⟩
  | trailing conclusion conditions =>
      obtain ⟨first, rest, rfl⟩ := List.exists_cons_of_ne_nil (conclusion.ne_nil rfl)
      obtain ⟨rfl, -⟩ := List.cons.inj text
      exact absurd List.mem_cons_self (conclusion.outer_not_mem avoids (by decide))
  | fact claim =>
      subst text
      exact absurd List.mem_cons_self (claim.outer_not_mem avoids (by decide))

theorem DerivesRules.of_trailing (some : vs ≠ []) (no_if : .plain "if" ∉ vs)
    (h : DerivesRules lexicon (vs ++ .plain "if" :: ws) rules) :
    ∃ body heads, Derives lexicon Phrase.sentence vs heads ∧
      Derives lexicon (.joined .sentence) ws body ∧ rules = buildRules body heads := by
  generalize text : vs ++ .plain "if" :: ws = words at h
  cases h with
  | conditional conditions conclusions =>
      obtain ⟨first, rest, rfl⟩ := List.exists_cons_of_ne_nil some
      obtain ⟨rfl, -⟩ := List.cons.inj text
      exact absurd List.mem_cons_self no_if
  | trailing conclusion conditions =>
      obtain ⟨rfl, rfl⟩ := divided_at_keyword text no_if
        (conclusion.outer_not_mem avoids (by decide))
      exact ⟨_, _, conclusion, conditions, rfl⟩
  | fact claim =>
      subst text
      have inside : Word.plain "if" ∈ vs ++ .plain "if" :: ws := by simp
      exact absurd inside (claim.outer_not_mem avoids (by decide))

omit avoids in
theorem DerivesRules.of_fact (no_if : .plain "if" ∉ ws) (h : DerivesRules lexicon ws rules) :
    ∃ heads, Derives lexicon Phrase.sentence ws heads ∧ rules = buildRules [] heads := by
  cases h with
  | conditional | trailing => simp at no_if
  | fact claim => exact ⟨_, claim, rfl⟩

end Rules

/-- A text without "and" whose sentences are all about "it" means one thing. -/
theorem DerivesRules.unique {rules rules' : List Rule} (one : lexicon.IsUnambiguous)
    (no_and : .plain "and" ∉ ws) (about : AboutIt ws) (h : DerivesRules lexicon ws rules)
    (again : DerivesRules lexicon ws rules') : rules = rules' := by
  have no_if {production : Production} {vs : List Word} {as : List Attr}
      (derives : Derives lexicon production vs as) : .plain "if" ∉ vs :=
    derives.outer_not_mem one.avoids (by decide)
  have if_outer : "if" ∈ ["if", "then"] := by decide
  have then_outer : "then" ∈ ["if", "then"] := by decide
  cases h with
  | @conditional vs ws _ _ conditions conclusions =>
      have no_then := conditions.outer_not_mem one.avoids then_outer
      obtain ⟨body, heads, conditions', conclusions', rfl⟩ := again.of_if one.avoids no_then
      have body_it := AboutIt.after (conditions.ne_nil rfl) [] (.plain "then" :: ws) if_outer about
      have heads_it := AboutIt.after (conclusions.ne_nil rfl) (.plain "if" :: vs) [] then_outer
        (by rwa [List.append_nil])
      simp only [List.mem_cons, List.cons_append, List.mem_append, not_or] at no_and
      rw [conditions.sentence_unique one body_it no_and.2.1 conditions',
        conclusions.sentence_unique one heads_it no_and.2.2.2 conclusions']
  | @trailing vs ws _ _ conclusion conditions =>
      obtain ⟨body, heads, conclusion', conditions', rfl⟩ :=
        again.of_trailing one.avoids (conclusion.ne_nil rfl) (no_if conclusion)
      have heads_it := AboutIt.first (conclusion.ne_nil rfl) (.plain "if" :: ws) about
        (no_if conclusion)
      have body_it := AboutIt.after (conditions.ne_nil rfl) vs [] if_outer
        (by rwa [List.append_nil])
      simp only [List.mem_cons, List.mem_append, not_or] at no_and
      rw [Derives.sentence_unique one (.single conclusion) heads_it no_and.1 (.single conclusion'),
        conditions.sentence_unique one body_it no_and.2.2 conditions']
  | fact claim =>
      obtain ⟨heads, claim', rfl⟩ := again.of_fact (no_if claim)
      have heads_it := AboutIt.first (claim.ne_nil rfl) [] (by rwa [List.append_nil]) (no_if claim)
      rw [Derives.sentence_unique one (.single claim) heads_it no_and (.single claim')]

theorem length_le_one_of_unique {α : Type} {l : List α} (nodup : l.Nodup)
    (same : ∀ a ∈ l, ∀ b ∈ l, a = b) : l.length ≤ 1 := by
  cases l with
  | nil => exact Nat.zero_le 1
  | cons a l =>
      cases l with
      | nil => exact Nat.le_refl 1
      | cons b l =>
          have differ := (List.nodup_cons.mp nodup).1
          have equal := same a List.mem_cons_self b (by simp)
          exact absurd (equal ▸ List.mem_cons_self) differ

/-- Only "and" and clauses on a subject of its own make a sentence ambiguous. -/
theorem at_most_one_reading (one : lexicon.IsUnambiguous) {source : Source} {words : List Word}
    (given : source.words = .ok words) (no_and : .plain "and" ∉ words) (about : AboutIt words)
    {readings : List (List Rule)} (read : readAll source lexicon = .ok readings) :
    readings.length ≤ 1 := by
  apply length_le_one_of_unique
  · rw [readings_of_read_all given read]
    exact nodup_distinct [] _
  · intro rules member rules' member'
    obtain ⟨-, meant⟩ := meaning_of_read_all given read member
    obtain ⟨-, meant'⟩ := meaning_of_read_all given read member'
    exact meant.unique one no_and about meant'

theorem at_most_one_reading_with_condition :
    let source : Source := .text "it eats frog if it has heron that eats frog"
    let eats : Attr := ⟨.does, "eats", [⟨.isA, "frog", []⟩]⟩
    readAll source Lexicon.marsh = .ok [[⟨eats, [⟨.hasA, "heron", [eats]⟩]⟩]] := by
  intro source eats
  have given : source.words = .ok (plain ["it", "eats", "frog", "if", "it", "has", "heron", "that",
      "eats", "frog"]) := by cbv
  have recognized : Utterance.check ⟨plain ["it", "eats", "frog", "if", "it", "has", "heron",
      "that", "eats", "frog"], Lexicon.marsh⟩ = .ok () :=
    Lexicon.marsh_check _ (by decide)
  have frog := Lexicon.marsh_noun (w := "frog") (by simp) .noDeterminer
  have eats_frog := Lexicon.marsh_eats (.items (.single frog))
  have heron := Derives.nounClause .noDeterminer .noAdjectives
    (Lexicon.marsh_word (w := "heron") (by simp)) (.relativeClause eats_frog)
  have has := Derives.possession (w := "has") (by decide) (.single heron)
  have meant := DerivesRules.trailing (.itSentence eats_frog) (.single (.itSentence has))
  obtain ⟨readings, read, member⟩ := exists_read_all given Lexicon.marsh_clean.unlisted_it
    recognized meant (by simp [buildRules, attach])
  have about : AboutIt (plain ["it", "eats", "frog", "if", "it", "has", "heron", "that", "eats",
      "frog"]) := by decide
  have few := at_most_one_reading Lexicon.marsh_clean.unambiguous given (by decide) about read
  cases readings with
  | nil => cases member
  | cons rules others =>
      have none : others = [] := by
        rw [List.length_cons] at few
        exact List.length_eq_zero_iff.mp (by omega)
      subst none
      cases List.mem_singleton.mp member
      exact read

end ControlledEnglish
