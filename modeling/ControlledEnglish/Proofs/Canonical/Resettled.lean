import ControlledEnglish.Proofs.Canonical.First
import ControlledEnglish.Proofs.Canonical.Injective

namespace ControlledEnglish

namespace Canonical

open Gloss (andJoined)

variable {lexicon : Lexicon}

theorem and_joined_cons {part : List String} {parts : List (List String)} (some : parts ≠ []) :
    andJoined (part :: parts) = part ++ "and" :: andJoined parts := by
  rcases List.exists_cons_of_ne_nil some with ⟨next, others, rfl⟩
  exact and_joined_cons_cons ..

theorem and_joined_append {parts more : List (List String)} (some : parts ≠ [])
    (some' : more ≠ []) : andJoined (parts ++ more) = andJoined parts ++ "and" :: andJoined more := by
  induction parts with
  | nil => exact absurd rfl some
  | cons first rest ih =>
      by_cases alone : rest = []
      · rw [alone, List.singleton_append, and_joined_cons some', and_joined_singleton]
      · have joined : rest ++ more ≠ [] := List.append_ne_nil_of_left_ne_nil alone _
        rw [List.cons_append, and_joined_cons joined, ih alone, and_joined_cons alone,
          List.append_assoc, List.cons_append]

theorem and_joined_prefixed (front part : List String) (parts : List (List String)) :
    andJoined ((front ++ part) :: parts) = front ++ andJoined (part :: parts) := by
  cases parts with
  | nil => rw [and_joined_singleton, and_joined_singleton]
  | cons next parts => rw [and_joined_cons_cons, and_joined_cons_cons, List.append_assoc]

theorem and_joined_nested (name : Name lexicon) (head : Head lexicon) (part : List String)
    (parts : List (List String)) :
    andJoined ((name.words ++ "that" :: (head.words ++ part)) :: parts) =
      name.words ++ "that" :: (head.words ++ andJoined (part :: parts)) := by
  have split (words : List String) : name.words ++ "that" :: (head.words ++ words) =
      (name.words ++ "that" :: head.words) ++ words := by
    rw [List.append_assoc, List.cons_append]
  rw [split, split, and_joined_prefixed]

def OfChains (lexicon : Lexicon) (words : List String) : Prop :=
  ∃ chains : List (Group lexicon), chains ≠ [] ∧ (∀ chain ∈ chains, chain.IsChain) ∧
    words = andJoined (chains.map Group.words)

namespace OfChains

variable {words more : List String}

theorem of_chain {chain : Group lexicon} (is_chain : chain.IsChain) :
    OfChains lexicon chain.words := by
  refine ⟨[chain], List.cons_ne_nil _ _, List.forall_mem_singleton.mpr is_chain, ?_⟩
  rw [List.map_singleton, and_joined_singleton]

theorem append (first : OfChains lexicon words) (rest : OfChains lexicon more) :
    OfChains lexicon (words ++ "and" :: more) := by
  rcases first with ⟨chains, some, all, same⟩
  rcases rest with ⟨others, others_some, others_all, others_same⟩
  refine ⟨chains ++ others, List.append_ne_nil_of_left_ne_nil some _,
    List.forall_mem_append.mpr ⟨all, others_all⟩, ?_⟩
  rw [List.map_append, and_joined_append (by simpa using some) (by simpa using others_some), same,
    others_same]

theorem nested (name : Name lexicon) (head : Head lexicon) (objects : OfChains lexicon words) :
    OfChains lexicon (name.words ++ "that" :: (head.words ++ words)) := by
  rcases objects with ⟨chains, some, all, same⟩
  rcases List.exists_cons_of_ne_nil some with ⟨first, rest, rfl⟩
  rcases List.forall_mem_cons.mp all with ⟨first_chain, rest_chains⟩
  refine ⟨.nested name head first :: rest, List.cons_ne_nil _ _,
    List.forall_mem_cons.mpr ⟨first_chain, rest_chains⟩, ?_⟩
  rw [List.map_cons, Group.words, and_joined_nested, same, List.map_cons]

end OfChains

namespace Group

theorem of_chains (group : Group lexicon) : OfChains lexicon group.words := by
  induction group with
  | one leaf => exact .of_chain (one_is_chain leaf)
  | more leaf rest ih => exact (OfChains.of_chain (one_is_chain leaf)).append ih
  | nested name head objects ih => exact ih.nested name head
  | nestedMore name head objects rest ih rest_ih => exact (ih.nested name head).append rest_ih

theorem IsChain.settled {group : Group lexicon} (chain : group.IsChain) : group.IsSettled := by
  cases group with
  | one => trivial
  | nested => exact chain
  | more | nestedMore => exact absurd chain id

/-- All nouns but the last belong to the first of them that has objects. -/
theorem exists_settled_of_chains {chains : List (Group lexicon)} (some : chains ≠ [])
    (all : ∀ chain ∈ chains, chain.IsChain) :
    ∃ settled : Group lexicon, settled.IsSettled ∧
      settled.words = andJoined (chains.map words) := by
  induction length : chains.length using Nat.strong_induction_on generalizing chains with
  | h n ih =>
      rcases List.exists_cons_of_ne_nil some with ⟨first, rest, rfl⟩
      rcases List.forall_mem_cons.mp all with ⟨first_chain, rest_chains⟩
      by_cases alone : rest = []
      · subst alone
        refine ⟨first, first_chain.settled, ?_⟩
        rw [List.map_singleton, and_joined_singleton]
      · rw [List.length_cons] at length
        cases first with
        | one leaf =>
            rcases ih rest.length (by omega) alone rest_chains rfl with ⟨settled, is_settled, same⟩
            refine ⟨more leaf settled, is_settled, ?_⟩
            rw [words, same, List.map_cons, and_joined_cons (by simpa using alone)]
            rfl
        | nested name head objects =>
            rcases List.eq_nil_or_concat' rest with rfl | ⟨front, last, rfl⟩
            · exact absurd rfl alone
            rcases List.forall_mem_append.mp rest_chains with ⟨front_chains, last_chain⟩
            rw [List.length_append, List.length_singleton] at length
            have inner : ∀ chain ∈ objects :: front, chain.IsChain :=
              List.forall_mem_cons.mpr ⟨first_chain, front_chains⟩
            rcases ih (objects :: front).length (by rw [List.length_cons]; omega)
              (List.cons_ne_nil _ _) inner rfl with ⟨settled, is_settled, same⟩
            refine ⟨nestedMore name head settled last,
              ⟨is_settled, List.forall_mem_singleton.mp last_chain⟩, ?_⟩
            rw [List.map_cons, List.map_append, ← List.cons_append,
              and_joined_append (List.cons_ne_nil _ _) (by simp), List.map_singleton,
              and_joined_singleton, words, words, and_joined_nested, same, List.map_cons]
        | more | nestedMore => exact absurd first_chain id

theorem exists_settled (group : Group lexicon) :
    ∃ settled : Group lexicon, settled.IsSettled ∧ settled.words = group.words := by
  rcases group.of_chains with ⟨chains, some, all, same⟩
  rcases exists_settled_of_chains some all with ⟨settled, is_settled, words⟩
  exact ⟨settled, is_settled, by rw [words, same]⟩

end Group

theorem Predicate.exists_settled (predicate : Predicate lexicon) :
    ∃ settled : Predicate lexicon, settled.IsSettled ∧ settled.words = predicate.words := by
  cases predicate with
  | like quality => exact ⟨.like quality, trivial, rfl⟩
  | acting action => exact ⟨.acting action, trivial, rfl⟩
  | nested head objects =>
      rcases objects.exists_settled with ⟨settled, is_settled, same⟩
      exact ⟨.nested head settled, is_settled, by rw [words, words, same]⟩

theorem exists_all_settled (predicates : List (Predicate lexicon)) :
    ∃ settled : List (Predicate lexicon), (∀ predicate ∈ settled, predicate.IsSettled) ∧
      settled.map Predicate.words = predicates.map Predicate.words := by
  induction predicates with
  | nil => exact ⟨[], List.forall_mem_nil _, rfl⟩
  | cons first rest ih =>
      rcases first.exists_settled with ⟨settled, is_settled, same⟩
      rcases ih with ⟨others, all, others_same⟩
      refine ⟨settled :: others, List.forall_mem_cons.mpr ⟨is_settled, all⟩, ?_⟩
      rw [List.map_cons, List.map_cons, same, others_same]

theorem Predicate.attrs_ne_nil (predicate : Predicate lexicon) : predicate.attrs ≠ [] := by
  cases predicate with
  | like | acting => exact List.cons_ne_nil _ _
  | nested head objects => exact head.attrs_ne_nil objects

theorem Sentence.rules_ne_nil (sentence : Sentence lexicon) : sentence.rules ≠ [] := by
  intro none
  exact sentence.conclusion.attrs_ne_nil (List.map_eq_nil_iff.mp none)

theorem Sentence.first_reading (clean : lexicon.IsClean) {sentence : Sentence lexicon}
    (settled : sentence.IsSettled) :
    (Utterance.readings ⟨plain sentence.words, lexicon⟩).head? = some sentence.rules := by
  apply Utterance.first_reading clean settled rfl
  exact sentence.rules_ne_nil

/-- A settled sentence is read first as what it says. -/
theorem Sentence.read_settled (clean : lexicon.IsClean) {sentence : Sentence lexicon}
    (settled : sentence.IsSettled) :
    read (.text (spaced sentence.words)) lexicon = .ok sentence.rules := by
  rw [sentence.read_text clean, first_reading_eq_ok_iff]
  exact Sentence.first_reading clean settled

theorem read_subject (clean : lexicon.IsClean) (name : Name lexicon) {predicate : Predicate lexicon}
    (settled : predicate.IsSettled) :
    read (.text (spaced (name.words ++ predicate.words))) lexicon =
      .ok (buildRules [] (toHasA [name.attr predicate.attrs])) := by
  have used : ∀ word ∈ name.words ++ predicate.words,
      word ∈ ["if", "then", "it"] ∨ IsUsed lexicon word := by
    rw [List.forall_mem_append]
    exact ⟨fun word member => .inr (name.words_used word member),
      fun word member => .inr (predicate.words_used word member)⟩
  rw [read_ok (words_spaced (words_bare_of_used used clean.writable)) (recognized_of_used used),
    first_reading_eq_ok_iff]
  exact Utterance.first_reading_of_subject clean settled rfl

theorem build_rules_inj {body heads body' heads' : List Attr} (some : heads ≠ [])
    (same : buildRules body heads = buildRules body' heads') : body = body' ∧ heads = heads' := by
  have map_head (body heads : List Attr) : (buildRules body heads).map Rule.head = heads := by
    rw [buildRules, List.map_map]
    exact List.map_id _
  have heads_same : heads = heads' := by rw [← map_head body heads, same, map_head]
  subst heads_same
  rcases List.exists_cons_of_ne_nil some with ⟨first, rest, rfl⟩
  exact ⟨(Rule.mk.inj (List.cons.inj same).1).2, rfl⟩

/-- A sentence that is the first reading of its words is settled. -/
theorem Sentence.settled_of_first (clean : lexicon.IsClean) {sentence : Sentence lexicon}
    (first : (Utterance.readings ⟨plain sentence.words, lexicon⟩).head? = some sentence.rules) :
    sentence.IsSettled := by
  rcases exists_all_settled sentence.conditions with ⟨conditions, all, conditions_words⟩
  rcases sentence.conclusion.exists_settled with ⟨conclusion, is_settled, conclusion_words⟩
  let settled : Sentence lexicon := ⟨conditions, conclusion⟩
  have words : settled.words = sentence.words := by
    rw [settled.words_eq, sentence.words_eq, conditions_words, conclusion_words]
  have found := Sentence.first_reading clean (show settled.IsSettled from ⟨all, is_settled⟩)
  rw [words, first, Option.some.injEq] at found
  rcases build_rules_inj sentence.conclusion.attrs_ne_nil found with ⟨bodies, heads⟩
  have same : sentence = settled := by
    rcases sentence with ⟨own_conditions, own_conclusion⟩
    have same_conditions : own_conditions = conditions :=
      said_inj clean conditions_words.symm bodies
    have same_conclusion : own_conclusion = conclusion := Predicate.attrs_inj heads
    rw [same_conditions, same_conclusion]
  rw [same]
  exact ⟨all, is_settled⟩

end Canonical

end ControlledEnglish
