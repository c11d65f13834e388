import ControlledEnglish.Proofs.Canonical.Sentences

namespace ControlledEnglish

open ControlledEnglish.Derivation Canonical

namespace Utterance

variable {u : Utterance} {i j k s : Nat} {d : Derivation}

/-- A place where a canonical sentence ends, and another may start. -/
inductive Ends (u : Utterance) (k : Nat) : Prop where
  | text (none : u.words[k]? = none)
  | conditions (turn : u.words[k]? = some (.plain "then"))
  | sentence (next : u.words[k]? = some (.plain "and")) (it : u.words[k + 1]? = some (.plain "it"))
      (goes_on : u.closes (k + 2) = false)

theorem Spans.mem_of_plain {words : List String} {word : String}
    (spans : u.Spans i (plain words) k) (from_start : i ≤ s) (before : s < k)
    (here : u.words[s]? = some (.plain word)) : word ∈ words := by
  obtain ⟨w, member, found⟩ := spans.getElem_mem from_start before
  rw [here] at found
  cases found
  obtain ⟨word, inside, same⟩ := List.mem_map.mp member
  cases same
  exact inside

theorem Ends.closes (ends : u.Ends k) : u.closes k = true := by
  cases ends with
  | text none => exact closes_iff.mpr (.inl none)
  | conditions turn => exact closes_iff.mpr (.inr (.inr turn))
  | sentence next => exact closes_iff.mpr (.inr (.inl next))

section Clean

variable (clean : u.lexicon.IsClean)

include clean

theorem stop_le_of_ends {production : Production} (phrase : production.item ≠ .sentence)
    (before : i ≤ k) (ends : u.Ends k) (given : d ∈ u.closed ⟨production, i⟩) : d.stop ≤ k := by
  obtain ⟨member, closes⟩ := mem_closed.mp given
  obtain ⟨ws, spans, derives⟩ := found_of_mem member
  refine Nat.le_of_not_lt fun beyond => ?_
  obtain ⟨w, inside, here⟩ := spans.getElem_mem before beyond
  cases ends with
  | text none =>
      rw [none] at here
      cases here
  | conditions turn =>
      rw [turn] at here
      cases here
      exact derives.outer_not_mem clean.avoids (by decide) inside
  | sentence next it goes_on =>
      have not_it : d.stop ≠ k + 1 := fun same => by
        rw [same, not_closes_of_found it (by decide) (by decide)] at closes
        cases closes
      have not_next : d.stop ≠ k + 2 := fun same => by
        rw [same, goes_on] at closes
        cases closes
      have later : k + 2 < d.stop := by omega
      have stop := spans.stop
      have first : ws[k + 1 - i]? = some (.plain "it") := by
        rw [← spans.getElem_eq (by omega) (by omega), it]
      obtain ⟨inside, first⟩ := List.getElem?_eq_some_iff.mp first
      have second := (derives.it_ends clean phrase).getElem (k + 1 - i) (by omega) first
      have next_and : u.words[k + 2]? = some (.plain "and") := by
        rw [spans.getElem_eq (by omega) later, ← second, show k + 2 - i = k + 1 - i + 1 by omega]
        exact List.getElem?_eq_getElem _
      rw [closes_of_and next_and] at goes_on
      cases goes_on

/-- Inside of a predicate no other sentence starts. -/
theorem no_sentence_inside {predicate : Predicate u.lexicon}
    (spans : u.Spans i (plain predicate.words) k) (from_start : i ≤ s) (before : d.stop ≤ k)
    (given : d ∈ u.derivations ⟨.joined .sentence, s⟩) : False := by
  obtain ⟨ws, inner, derives⟩ := found_of_mem given
  obtain ⟨xs, ys, same⟩ := spans.infix inner from_start before
  have governed : Governed u.lexicon True (plain predicate.words) := predicate.governed clean trivial
  rw [same, governed_append, governed_append] at governed
  have it : .plain "it" ∈ plain predicate.words := by
    rw [same]
    simp [derives.it_mem clean governed.1.2]
  obtain ⟨word, member, named⟩ := List.mem_map.mp it
  cases named
  exact predicate.no_it clean member

theorem closed_predicate_nested {head : Head u.lexicon} {objects : Group u.lexicon}
    (spans : u.Spans i (plain (Predicate.nested head objects).words) k) :
    ∃ j, u.Spans j (plain objects.words) k ∧
      u.closed ⟨Phrase.verbPhrase, i⟩ =
        (u.closed ⟨.joined .nounPhrase, j⟩).map (.map head.attrs) := by
  rw [Predicate.words, plain_append] at spans
  obtain ⟨j, start, after⟩ := spans.split
  obtain ⟨name, rest, words⟩ := objects.first_name
  have opens := after
  rw [words, plain_append] at opens
  obtain ⟨m, first, -⟩ := opens.split
  exact ⟨j, after, closed_nested clean start first⟩

theorem noun_phrase_of_quality {quality : Quality u.lexicon}
    (spans : u.Spans i (plain quality.words) k) (closes : u.closes k = true) :
    u.derivations ⟨Phrase.nounPhrase, i⟩ = [] := by
  have no_keyword (options : List String) (known : options ⊆ keywords) :
      u.isKeyword i options = false := by
    refine Bool.eq_false_iff.mpr fun keyword => ?_
    obtain ⟨w, listed, found⟩ := is_keyword_iff.mp keyword
    exact quality_word clean spans ⟨lacks_of_keyword clean found (known listed),
      lacks_of_keyword clean found (known listed)⟩
  have alone : u.Spans i (plain (qualityWords [quality])) k := by
    rw [qualityWords, List.flatMap_singleton]
    exact spans
  have adjectives := adjective_phrases_stopping clean (p := u.bears .noun)
    (fun s bears => ⟨lacks_of_bears clean (by decide) bears,
      lacks_of_bears clean (by decide) bears⟩)
    alone (lacks_of_closes clean closes) (lacks_of_closes clean closes)
  have no_noun : u.Lacks .noun k := lacks_of_closes clean closes
  rw [derivations_noun_phrase, no_keyword ["it"] (by decide), derivations_determiner,
    no_keyword determiners (by decide)]
  simp only [Bool.false_eq_true, if_false, List.flatMap_singleton]
  rw [flatMap_eq_of_stopping _ adjectives, no_noun, List.flatMap_nil]
  intro e lacks
  rw [lacks_of_not_bears lacks, List.flatMap_nil]

theorem closed_like {quality : Quality u.lexicon}
    (spans : u.Spans i (plain (Predicate.like quality).words) k) (ends : u.Ends k) :
    u.closed ⟨Phrase.verbPhrase, i⟩ = [⟨[quality.attr], k⟩] := by
  obtain ⟨found, rest⟩ := spans.of_cons
  have no_noun := noun_phrase_of_quality clean rest ends.closes
  have nothing_after : (if u.isKeyword k ["and"] then
      (u.derivations ⟨.joined .adjectivePhrase, k + 1⟩).map (Derivation.map ([quality.attr] ++ ·))
      else []) = [] := by
    refine ite_eq_right_iff.mpr fun here => ?_
    rw [is_keyword_singleton_iff] at here
    cases ends with
    | text none => simp [none] at here
    | conditions turn => simp [turn] at here
    | sentence next it goes_on =>
        have no_adjective := adjective_phrase_eq_nil clean
          (lacks_of_keyword clean it (by decide)) (lacks_of_keyword clean it (by decide))
        rw [joined_eq_nil no_adjective, List.map_nil]
  rw [closed, verb_phrase_is clean found, joined_eq_nil no_noun, List.append_nil,
    derivations_joined, derivations_quality clean rest, List.flatMap_singleton, nothing_after,
    List.nil_append, stopping_cons, ends.closes]
  rfl

theorem predicate_word {predicate : Predicate u.lexicon}
    (spans : u.Spans i (plain predicate.words) k) :
    ∃ w, u.words[i]? = some (.plain w) ∧ w ∉ ["and", "then", "that"] := by
  have known : ["and", "then", "that"] ⊆ keywords := by decide
  have acts {action : Action u.lexicon} {ws : List String}
      (spans : u.Spans i (plain (action.words ++ ws)) k) :
      ∃ w, u.words[i]? = some (.plain w) ∧ w ∉ ["and", "then", "that"] := by
    obtain ⟨category, w, rest, words⟩ := action.first_word
    rw [words] at spans
    exact ⟨w.text, spans.of_cons.1, fun keyword => clean.no_keyword _ _ w.listed (known keyword)⟩
  cases predicate with
  | like quality => exact ⟨"is", spans.of_cons.1, by decide⟩
  | acting action =>
      have whole : u.Spans i (plain (action.words ++ [])) k := by
        rw [List.append_nil]
        exact spans
      exact acts whole
  | nested head objects =>
      cases head with
      | does action => exact acts spans
      | has => exact ⟨"has", spans.of_cons.1, by decide⟩
      | is => exact ⟨"is", spans.of_cons.1, by decide⟩

theorem not_closes_of_predicate {predicate : Predicate u.lexicon}
    (spans : u.Spans i (plain predicate.words) k) : u.closes i = false := by
  obtain ⟨w, found, other⟩ := predicate_word clean spans
  refine not_closes_of_found found ?_ ?_
  · rintro rfl
    exact other (by decide)
  · rintro rfl
    exact other (by decide)

end Clean

end Utterance

end ControlledEnglish
