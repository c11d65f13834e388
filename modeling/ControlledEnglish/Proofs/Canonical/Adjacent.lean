import ControlledEnglish.Proofs.Canonical.Clean

namespace ControlledEnglish

inductive Use where
  | content (category : Category)
  | keyword (text : String)

inductive Uses (lexicon : Lexicon) : Word → Use → Prop where
  | content {category : Category} {w : Word} {text : String} (reads : Reads lexicon category w text) :
      Uses lexicon w (.content category)
  | keyword {w : String} (known : w ∈ keywords) : Uses lexicon (.plain w) (.keyword w)

/-- Where a word may stand: behind a noun, behind adverbs after a noun, behind a verb of possession
and its modifiers, or anywhere else. -/
inductive Place where
  | free
  | named
  | modified
  | had
  deriving DecidableEq

namespace Place

def isOpen : Place → Bool
  | free | had => true
  | named | modified => false

def afterAdverb : Place → Place
  | named => modified
  | place => place

def next? (place : Place) : Use → Option Place
  | .content .noun => if place.isOpen then some named else none
  | .content .adjective => if place.isOpen then some place else none
  | .content .adverb => some place.afterAdverb
  | .content .verb => some free
  | .keyword w =>
      if w = "that" then if place = named then some free else none
      else if w = "and" then if place = had then none else some free
      else if w ∈ possessionVerbs then some had
      else some free

end Place

inductive Runs (lexicon : Lexicon) : Place → List Word → Place → Prop where
  | nil {s : Place} : Runs lexicon s [] s
  | cons {s t r : Place} {w : Word} {ws : List Word} {use : Use} (uses : Uses lexicon w use)
      (next : s.next? use = some t) (rest : Runs lexicon t ws r) : Runs lexicon s (w :: ws) r

variable {lexicon : Lexicon} {production : Production} {s t r : Place} {vs ws : List Word}
  {as : List Attr}

theorem Runs.append (first : Runs lexicon s vs t) (rest : Runs lexicon t ws r) :
    Runs lexicon s (vs ++ ws) r := by
  induction first with
  | nil => exact rest
  | cons uses next _ ih => exact .cons uses next (ih rest)

theorem Runs.split (runs : Runs lexicon s (vs ++ ws) r) :
    ∃ t, Runs lexicon s vs t ∧ Runs lexicon t ws r := by
  induction vs generalizing s with
  | nil => exact ⟨s, .nil, runs⟩
  | cons v vs ih =>
      cases runs with
      | cons uses next rest =>
          rcases ih rest with ⟨t, before, behind⟩
          exact ⟨t, .cons uses next before, behind⟩

theorem Runs.keyword {w : String} (known : w ∈ keywords) (next : s.next? (.keyword w) = some t)
    (rest : Runs lexicon t ws r) : Runs lexicon s (.plain w :: ws) r :=
  .cons (.keyword known) next rest

theorem Runs.possession {w : String} (verb : w ∈ possessionVerbs) (rest : Runs lexicon .had ws r) :
    Runs lexicon s (.plain w :: ws) r := by
  have known : possessionVerbs ⊆ keywords := by decide
  have next : ∀ w ∈ possessionVerbs, s.next? (.keyword w) = some .had := by cases s <;> decide
  exact .keyword (known verb) (next w verb) rest

theorem Runs.other {w : String} (listed : w ∈ ["it", "if", "then"] ++ copulas ++ determiners)
    (rest : Runs lexicon .free ws r) : Runs lexicon s (.plain w :: ws) r := by
  have known : ["it", "if", "then"] ++ copulas ++ determiners ⊆ keywords := by decide
  have next : ∀ w ∈ ["it", "if", "then"] ++ copulas ++ determiners,
      s.next? (.keyword w) = some .free := by cases s <;> decide
  exact .keyword (known listed) (next w listed) rest

theorem Runs.joint (other : s ≠ .had) (rest : Runs lexicon .free ws r) :
    Runs lexicon s (.plain "and" :: ws) r := by
  have next : s.next? (.keyword "and") = some .free := if_neg other
  exact .keyword (by decide) next rest

section Sound

def IsOf (lexicon : Lexicon) (categories : List Category) (w : Word) : Prop :=
  ∃ category ∈ categories, ∃ text, Reads lexicon category w text

theorem runs_adverbs (adverbs : ∀ w ∈ ws, IsOf lexicon [.adverb] w) (some : ws ≠ []) (s : Place) :
    Runs lexicon s ws s.afterAdverb := by
  induction ws generalizing s with
  | nil => exact absurd rfl some
  | cons w ws ih =>
      rcases List.forall_mem_cons.mp adverbs with ⟨⟨category, listed, text, reads⟩, rest⟩
      cases List.mem_singleton.mp listed
      apply Runs.cons (.content reads) rfl
      by_cases none : ws = []
      · subst none
        exact .nil
      · have again : s.afterAdverb.afterAdverb = s.afterAdverb := by cases s <;> rfl
        have runs := ih rest none s.afterAdverb
        rwa [again] at runs

theorem runs_modifiers (modifiers : ∀ w ∈ ws, IsOf lexicon [.adverb, .adjective] w)
    (opens : s.isOpen = true) : Runs lexicon s ws s := by
  induction ws with
  | nil => exact .nil
  | cons w ws ih =>
      rcases List.forall_mem_cons.mp modifiers with ⟨⟨category, listed, text, reads⟩, rest⟩
      apply Runs.cons (.content reads) _ (ih rest)
      simp only [List.mem_cons, List.not_mem_nil, or_false] at listed
      rcases listed with rfl | rfl
      · cases s <;> first | rfl | cases opens
      · exact if_pos opens

theorem runs_word {category : Category} (h : Derives lexicon (Phrase.word category) ws as)
    (next : s.next? (.content category) = some t) : Runs lexicon s ws t := by
  rcases h.exists_eq_singleton with ⟨w, text, reads, rfl, -⟩
  exact .cons (.content reads) next .nil

theorem Derives.runs_manners (h : Derives lexicon (.joined .adverbGroup) ws as) (s : Place)
    (other : s ≠ .had) : Runs lexicon s ws s.afterAdverb ∨ Runs lexicon s ws .free := by
  generalize same : Production.joined Phrase.adverbGroup = production at h
  induction h generalizing s with
  | single one =>
      cases same
      exact .inl (runs_adverbs (one.reads rfl) (one.ne_nil rfl) s)
  | several first rest _ ih =>
      cases same
      right
      have others : Runs lexicon .free _ .free := (ih .free (by decide) rfl).elim id id
      apply (runs_adverbs (first.reads rfl) (first.ne_nil rfl) s).append
      apply Runs.joint _ others
      cases s <;> first | decide | exact absurd rfl other
  | _ => cases same

theorem Derives.runs_qualities (h : Derives lexicon (.joined .adjectivePhrase) ws as) :
    Runs lexicon .free ws .free := by
  generalize same : Production.joined Phrase.adjectivePhrase = production at h
  induction h with
  | single one =>
      cases same
      exact runs_modifiers (one.reads rfl) rfl
  | several first rest _ ih =>
      cases same
      exact (runs_modifiers (first.reads rfl) rfl).append (.joint (by decide) (ih rfl))
  | _ => cases same

theorem runs_noun {ds : List Word} {ns bs : List Attr}
    (determiner : Derives lexicon Phrase.determiner ds ns)
    (adjectives : Derives lexicon Phrase.adjectivePhrases vs as)
    (noun : Derives lexicon (Phrase.word .noun) ws bs) (start : s ∈ [Place.free, Place.had]) :
    Runs lexicon s (ds ++ vs ++ ws) .named := by
  have opens : ∀ s ∈ [Place.free, Place.had], s.isOpen = true := by decide
  have front : ∃ r ∈ [Place.free, Place.had], Runs lexicon s ds r := by
    cases determiner with
    | noDeterminer => exact ⟨s, start, .nil⟩
    | determiner listed =>
        exact ⟨.free, by decide, .other (List.mem_append_right _ listed) .nil⟩
  rcases front with ⟨r, still, front⟩
  have modified := runs_modifiers (adjectives.reads rfl) (opens r still)
  exact (front.append modified).append (runs_word noun (if_pos (opens r still)))

def Production.starts : Production → List Place
  | .one .nounPhrase | .joined .nounPhrase => [.free, .had]
  | .one .verbPhrase => [.free, .named]
  | .one .relativeClause => [.named]
  | .one .sentence | .joined .sentence | .joinedOpt .nounPhrase => [.free]
  | _ => []

/-- A phrase that has nouns in it, or verbs, ends behind a noun or free. -/
theorem Derives.runs (h : Derives lexicon production ws as) :
    ∀ s ∈ production.starts, ∃ t ∈ [Place.free, Place.named], Runs lexicon s ws t := by
  have free_ends : Place.free ∈ [Place.free, Place.named] := by decide
  have named_ends : Place.named ∈ [Place.free, Place.named] := by decide
  induction h with
  | it =>
      intro s start
      exact ⟨.free, free_ends, .other (by decide) .nil⟩
  | noun determiner adjectives word =>
      intro s start
      exact ⟨.named, named_ends, runs_noun determiner adjectives word start⟩
  | nounClause determiner adjectives word clause _ _ _ ih =>
      intro s start
      rcases ih .named List.mem_cons_self with ⟨t, ends, runs⟩
      exact ⟨t, ends, (runs_noun determiner adjectives word start).append runs⟩
  | relativeClause clause ih =>
      intro s start
      cases List.mem_singleton.mp start
      rcases ih .free (by decide) with ⟨t, ends, runs⟩
      exact ⟨t, ends, .keyword (by decide) rfl runs⟩
  | possession verb objects ih =>
      intro s start
      rcases ih .had (by decide) with ⟨t, ends, runs⟩
      exact ⟨t, ends, .possession verb runs⟩
  | likeness copula adjectives =>
      intro s start
      have listed := List.mem_append_left determiners (List.mem_append_right ["it", "if", "then"] copula)
      exact ⟨.free, free_ends, .other listed adjectives.runs_qualities⟩
  | identity copula nouns ih =>
      intro s start
      have listed := List.mem_append_left determiners (List.mem_append_right ["it", "if", "then"] copula)
      rcases ih .free (by decide) with ⟨t, ends, runs⟩
      exact ⟨t, ends, .other listed runs⟩
  | @action hs vs ws as bs cs adverbs verb objects _ _ ih =>
      intro s start
      have other : ∀ s ∈ [Place.free, Place.named], s ≠ .had := by decide
      -- Whatever place the manners lead to, the verb may stand there.
      have front : ∃ r, Runs lexicon s hs r := by
        cases adverbs with
        | noItems => exact ⟨s, .nil⟩
        | items joined =>
            rcases joined.runs_manners s (other s start) with runs | runs
            · exact ⟨_, runs⟩
            · exact ⟨_, runs⟩
      rcases front with ⟨r, front⟩
      rcases ih .free List.mem_cons_self with ⟨t, ends, runs⟩
      exact ⟨t, ends, (front.append (runs_word verb rfl)).append runs⟩
  | manner verb adverbs =>
      intro s start
      have behind : Runs lexicon .free _ .free := (adverbs.runs_manners .free (by decide)).elim id id
      exact ⟨.free, free_ends, (runs_word verb rfl).append behind⟩
  | itSentence predicate ih =>
      intro s start
      rcases ih .free (by decide) with ⟨t, ends, runs⟩
      cases List.mem_singleton.mp start
      exact ⟨t, ends, .other (by decide) runs⟩
  | subject _ _ _ subject_ih predicate_ih =>
      intro s start
      cases List.mem_singleton.mp start
      rcases subject_ih .free (by decide) with ⟨r, stops, runs⟩
      rcases predicate_ih r stops with ⟨t, ends, rest⟩
      exact ⟨t, ends, runs.append rest⟩
  | @single item _ _ _ ih =>
      intro s start
      cases item with
      | nounPhrase | sentence => exact ih s start
      | _ => exact absurd start List.not_mem_nil
  | @several item _ _ _ _ _ _ first_ih rest_ih =>
      intro s start
      have other : ∀ s ∈ [Place.free, Place.named], s ≠ .had := by decide
      -- Only nouns and sentences are joined here, and behind an "and" all is free.
      have here : s ∈ Production.starts item ∧ .free ∈ Production.starts (.joined item) := by
        cases item with
        | nounPhrase | sentence => exact ⟨start, by decide⟩
        | _ => exact absurd start List.not_mem_nil
      rcases first_ih s here.1 with ⟨r, stops, first⟩
      rcases rest_ih .free here.2 with ⟨t, ends, rest⟩
      exact ⟨t, ends, first.append (.joint (other r stops) rest)⟩
  | @noItems item =>
      intro s start
      cases item with
      | nounPhrase =>
          cases List.mem_singleton.mp start
          exact ⟨.free, free_ends, .nil⟩
      | _ => exact absurd start List.not_mem_nil
  | @items item _ _ joined ih =>
      intro s start
      cases item with
      | nounPhrase =>
          cases List.mem_singleton.mp start
          exact ih .free (by decide)
      | _ => exact absurd start List.not_mem_nil
  | word | noDeterminer | determiner | adverb | adverbs | adverbGroup | noAdverbs | someAdverbs
  | adjectivePhrase | noAdjectives | adjectives => exact fun s start => absurd start List.not_mem_nil

theorem DerivesRules.runs {rules : List Rule} (h : DerivesRules lexicon ws rules) :
    ∃ t, Runs lexicon .free ws t := by
  cases h with
  | conditional conditions conclusions =>
      rcases conditions.runs .free (by decide) with ⟨r, -, before⟩
      rcases conclusions.runs .free (by decide) with ⟨t, -, behind⟩
      exact ⟨t, (Runs.other (by decide) before).append (.other (by decide) behind)⟩
  | trailing conclusion conditions =>
      rcases conclusion.runs .free (by decide) with ⟨r, -, before⟩
      rcases conditions.runs .free (by decide) with ⟨t, -, behind⟩
      exact ⟨t, before.append (.other (by decide) behind)⟩
  | fact claim =>
      rcases claim.runs .free (by decide) with ⟨t, -, runs⟩
      exact ⟨t, runs⟩

end Sound

/-- Words that may stand side by side somewhere in a text. -/
def Passes (lexicon : Lexicon) (ws : List Word) : Prop := ∃ s t, Runs lexicon s ws t

theorem Passes.of_infix (passes : Passes lexicon ws) (inside : vs <:+: ws) : Passes lexicon vs := by
  rcases inside with ⟨front, back, rfl⟩
  rcases passes with ⟨s, r, runs⟩
  rcases runs.split with ⟨t, before, -⟩
  rcases before.split with ⟨q, -, here⟩
  exact ⟨q, t, here⟩

theorem Place.noun_of_next {use : Use} (next : s.next? use = some .named) :
    use = .content .noun := by
  cases use with
  | keyword w =>
      rw [next?] at next
      repeat' split at next
      all_goals cases next
  | content category =>
      cases category with
      | noun => rfl
      | verb => cases next
      | adverb => cases s <;> cases next
      | adjective => cases s <;> cases next

section Clean

variable (clean : lexicon.IsClean)

include clean

theorem Uses.eq {w : Word} {use other : Use} (uses : Uses lexicon w use)
    (again : Uses lexicon w other) : use = other := by
  cases uses with
  | content reads =>
      cases again with
      | content reads' => rw [clean.category_eq reads reads']
      | keyword known => exact absurd reads (clean.not_reads_keyword known)
  | keyword known =>
      cases again with
      | content reads => exact absurd reads (clean.not_reads_keyword known)
      | keyword => rfl

theorem Runs.of_cons {w : Word} {use : Use} (uses : Uses lexicon w use)
    (runs : Runs lexicon s (w :: ws) r) : ∃ t, s.next? use = some t ∧ Runs lexicon t ws r := by
  cases runs with
  | @cons _ t _ _ _ other uses' next rest =>
      rw [uses'.eq clean uses] at next
      exact ⟨t, next, rest⟩

theorem no_and_that : ¬Passes lexicon (plain ["and", "that"]) := by
  rintro ⟨s, r, runs⟩
  rcases runs.of_cons clean (.keyword (by decide)) with ⟨t, next, runs⟩
  rcases runs.of_cons clean (.keyword (by decide)) with ⟨q, again, -⟩
  cases s <;> cases next <;> cases again

theorem noun_of_passes {ws : List Word} (some : vs ≠ [])
    (passes : Passes lexicon (vs ++ .plain "that" :: ws)) :
    ∃ w text, vs.getLast? = .some w ∧ Reads lexicon .noun w text := by
  rcases passes with ⟨s, r, runs⟩
  rcases runs.split with ⟨t, before, runs⟩
  rcases runs.of_cons clean (.keyword (by decide)) with ⟨q, next, -⟩
  have named : t = .named := by cases t <;> first | rfl | cases next
  subst named
  rcases List.eq_nil_or_concat vs with none | ⟨init, w, same⟩
  · exact absurd none some
  · rw [List.concat_eq_append] at same
    subst same
    rcases before.split with ⟨p, -, last⟩
    cases last with
    | cons uses next rest =>
        cases rest
        cases Place.noun_of_next next
        cases uses with
        | content reads => exact ⟨w, _, List.getLast?_concat, reads⟩

theorem Runs.modifiers (modifiers : ∀ w ∈ ws, IsOf lexicon [.adverb, .adjective] w)
    (runs : Runs lexicon s ws t) : (s = .had → t = .had) ∧ (s.isOpen = false → t.isOpen = false) := by
  induction runs with
  | nil => exact ⟨id, id⟩
  | @cons s t r w ws use uses next rest ih =>
      rcases List.forall_mem_cons.mp modifiers with ⟨⟨category, listed, text, reads⟩, others⟩
      have here : (s = .had → t = .had) ∧ (s.isOpen = false → t.isOpen = false) := by
        cases uses.eq clean (.content reads)
        simp only [List.mem_cons, List.not_mem_nil, or_false] at listed
        rcases listed with rfl | rfl
        · cases s <;> cases next <;> decide
        · cases s <;> cases next <;> decide
      exact ⟨fun had => (ih others).1 (here.1 had), fun shut => (ih others).2 (here.2 shut)⟩

theorem no_and_had (modifiers : ∀ w ∈ vs, IsOf lexicon [.adverb, .adjective] w) :
    ¬Passes lexicon (.plain "has" :: vs ++ [.plain "and"]) := by
  rintro ⟨s, r, runs⟩
  rcases runs.of_cons clean (.keyword (by decide)) with ⟨t, next, runs⟩
  rcases runs.split with ⟨q, before, runs⟩
  have had : t = .had := by cases s <;> cases next <;> rfl
  rw [(before.modifiers clean modifiers).1 had] at runs
  rcases runs.of_cons clean (.keyword (by decide)) with ⟨p, stuck, -⟩
  cases stuck

theorem no_noun_behind {v w : Word} {text text' : String} (first : Reads lexicon .noun v text)
    (modifiers : ∀ w ∈ vs, IsOf lexicon [.adverb, .adjective] w)
    (second : Reads lexicon .noun w text') : ¬Passes lexicon (v :: vs ++ [w]) := by
  rintro ⟨s, r, runs⟩
  rcases runs.of_cons clean (.content first) with ⟨t, next, runs⟩
  rcases runs.split with ⟨q, before, runs⟩
  have shut : t.isOpen = false := by cases s <;> cases next <;> rfl
  have still := (before.modifiers clean modifiers).2 shut
  rcases runs.of_cons clean (.content second) with ⟨p, stuck, -⟩
  cases q with
  | free | had => cases still
  | named | modified => cases stuck

end Clean

end ControlledEnglish
