import ControlledEnglish.Proofs.Canonical.Predicates

namespace ControlledEnglish

open ControlledEnglish.Derivation Canonical

namespace Canonical.Sentence

variable {lexicon : Lexicon} (clean : lexicon.IsClean) (sentence : Sentence lexicon)

include clean

theorem read_all_text : readAll (.text (spaced sentence.words)) lexicon =
    .ok (Utterance.readings ⟨plain sentence.words, lexicon⟩) :=
  read_all_ok (words_spaced (sentence.words_bare clean.writable)) sentence.recognized

theorem read_text : read (.text (spaced sentence.words)) lexicon =
    firstReading (plain sentence.words) (Utterance.readings ⟨plain sentence.words, lexicon⟩) :=
  read_ok (words_spaced (sentence.words_bare clean.writable)) sentence.recognized

end Canonical.Sentence

namespace Utterance

variable {u : Utterance} {i k : Nat}

theorem sentence_of_it (it : u.words[i]? = some (.plain "it")) :
    u.derivations ⟨Phrase.sentence, i⟩ = u.derivations ⟨Phrase.verbPhrase, i + 1⟩ := by
  rw [derivations_sentence, derivations_noun_phrase, if_pos (is_keyword_singleton_iff.mpr it),
    List.flatMap_singleton, List.flatMap_singleton]
  exact List.append_nil _

theorem spans_said_singleton {predicate : Predicate u.lexicon}
    (spans : u.Spans i (plain (saidWords [predicate])) k) :
    u.words[i]? = some (.plain "it") ∧ u.Spans (i + 1) (plain predicate.words) k := by
  rw [said_words_singleton] at spans
  exact spans.of_cons

section Clean

variable (clean : u.lexicon.IsClean)

include clean

theorem spans_said_cons {first next : Predicate u.lexicon}
    {rest : List (Predicate u.lexicon)}
    (spans : u.Spans i (plain (saidWords (first :: next :: rest))) k) :
    u.words[i]? = some (.plain "it") ∧ ∃ m, u.Spans (i + 1) (plain first.words) m ∧ u.Ends m ∧
      u.words[m]? = some (.plain "and") ∧
      u.Spans (m + 1) (plain (saidWords (next :: rest))) k := by
  have said_next (m : Nat) (spans : u.Spans m (plain (saidWords (next :: rest))) k) :
      u.words[m]? = some (.plain "it") ∧ u.closes (m + 1) = false := by
    cases rest with
    | nil =>
        obtain ⟨it, spans⟩ := spans_said_singleton spans
        exact ⟨it, not_closes_of_predicate clean spans⟩
    | cons other rest =>
        rw [said_words_cons_cons, plain_append] at spans
        obtain ⟨l, before, -⟩ := spans.split
        obtain ⟨it, spans⟩ := before.of_cons
        exact ⟨it, not_closes_of_predicate clean spans⟩
  rw [said_words_cons_cons, plain_append] at spans
  obtain ⟨m, before, after⟩ := spans.split
  obtain ⟨it, before⟩ := before.of_cons
  obtain ⟨joint, after⟩ := after.of_cons
  obtain ⟨next_it, goes_on⟩ := said_next (m + 1) after
  exact ⟨it, m, before, .sentence joint next_it goes_on, joint, after⟩

theorem outer_of_said {predicates : List (Predicate u.lexicon)} {keyword : String} {s : Nat}
    (spans : u.Spans i (plain (saidWords predicates)) k) (outer : keyword ∈ ["if", "then"])
    (from_start : i ≤ s) (before : s < k) : u.words[s]? ≠ some (.plain keyword) := by
  intro here
  have inside := spans.mem_of_plain from_start before here
  have known : ["if", "then"] ⊆ keywords := by decide
  have not_inner : ∀ keyword ∈ ["if", "then"], keyword ∉ "it" :: innerKeywords := by decide
  obtain ⟨not_it, not_inner⟩ := not_or.mp (List.mem_cons.not.mp (not_inner keyword outer))
  rcases said_words_used predicates keyword inside with same | used
  · exact not_it same
  · exact used.not_outer clean not_inner (known outer)

theorem rules_fact {predicate : Predicate u.lexicon}
    (words : u.words = plain ("it" :: predicate.words)) :
    u.Spans 1 (plain predicate.words) u.words.length ∧
      (u.rules 0).all u.derivations = (u.derivations ⟨Phrase.verbPhrase, 1⟩).map fun heads =>
        (buildRules [] heads.attrs, heads.stop) := by
  have spans := spans_all.mpr words.symm
  have said : u.Spans 0 (plain (saidWords [predicate])) u.words.length := by
    rw [said_words_singleton]
    exact spans
  have no_if (s : Nat) : u.isKeyword s ["if"] = false := by
    refine Bool.eq_false_iff.mpr fun keyword => ?_
    rw [is_keyword_singleton_iff] at keyword
    obtain ⟨inside, -⟩ := List.getElem?_eq_some_iff.mp keyword
    exact outer_of_said clean said (by decide) (Nat.zero_le s) inside keyword
  obtain ⟨it, after⟩ := spans.of_cons
  refine ⟨after, ?_⟩
  rw [all_rules, sentence_of_it it]
  simp [no_if]

theorem rules_conditional {conditions : List (Predicate u.lexicon)}
    {conclusion : Predicate u.lexicon}
    (words : u.words =
      plain ("if" :: saidWords conditions ++ "then" :: "it" :: conclusion.words)) :
    ∃ t, u.Spans 1 (plain (saidWords conditions)) t ∧ u.Ends t ∧
      u.Spans (t + 1) (plain (saidWords [conclusion])) u.words.length ∧
      (u.rules 0).all u.derivations = (u.derivations ⟨.joined .sentence, 1⟩).flatMap fun body =>
        if body.stop = t then
          (u.derivations ⟨.joined .sentence, t + 1⟩).map fun heads =>
            (buildRules body.attrs heads.attrs, heads.stop)
        else [] := by
  have spans := spans_all.mpr words.symm
  rw [List.cons_append, plain_cons, plain_append] at spans
  obtain ⟨opens, spans⟩ := spans.of_cons
  obtain ⟨t, before, after⟩ := spans.split
  obtain ⟨turn, after⟩ := after.of_cons
  have said : u.Spans (t + 1) (plain (saidWords [conclusion])) u.words.length := by
    rw [said_words_singleton]
    exact after
  -- Neither what is said in front nor what is said behind has a "then" in it.
  have turns (s : Nat) : u.isKeyword s ["then"] = true ↔ s = t := by
    rw [is_keyword_singleton_iff]
    constructor
    · intro keyword
      obtain ⟨inside, -⟩ := List.getElem?_eq_some_iff.mp keyword
      have start : s ≠ 0 := fun same => by
        rw [same, opens] at keyword
        exact absurd keyword (by decide)
      rcases Nat.lt_trichotomy s t with early | same | late
      · exact absurd keyword (outer_of_said clean before (by decide) (by omega) early)
      · exact same
      · exact absurd keyword (outer_of_said clean said (by decide) late inside)
    · rintro rfl
      exact turn
  have no_sentence : u.derivations ⟨Phrase.sentence, 0⟩ = [] := by
    have lacks {category : Category} : u.Lacks category 0 :=
      lacks_of_keyword clean opens (by decide)
    have no_subject : u.derivations ⟨Phrase.nounPhrase, 0⟩ = [] :=
      noun_phrase_eq_nil (is_keyword_of_found opens) (is_keyword_of_found opens)
        (adjective_phrase_eq_nil clean lacks lacks) lacks
    rw [derivations_sentence, no_subject]
    rfl
  refine ⟨t, before, .conditions turn, said, ?_⟩
  rw [all_rules, if_pos (is_keyword_singleton_iff.mpr opens), no_sentence, List.flatMap_nil,
    List.map_nil, List.append_nil, List.append_nil]
  congr 1
  funext body
  by_cases here : body.stop = t
  · rw [if_pos ((turns body.stop).mpr here), if_pos here, here]
  · rw [if_neg (mt (turns body.stop).mp here), if_neg here]

end Clean

end Utterance

end ControlledEnglish
