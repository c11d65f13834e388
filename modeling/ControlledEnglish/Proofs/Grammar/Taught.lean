import Mathlib.Data.List.Flatten
import ControlledEnglish.Proofs.Canonical.Clean
import ControlledEnglish.Proofs.Reading

namespace ControlledEnglish

/-- Whatever the one lexicon lists, the other lists in the same category. -/
def Lexicon.Within (lexicon larger : Lexicon) : Prop :=
  ∀ word category, lexicon.lookup word category = true → larger.lookup word category = true

namespace Lexicon

variable {lexicon larger : Lexicon}

theorem within_insert (lexicon : Lexicon) (word : String) (category : Category) :
    lexicon.Within (lexicon.insert word category) := by
  intro other target known
  rw [lookup_insert, known, Bool.or_true]

theorem Within.knows (within : lexicon.Within larger) {word : String}
    (known : lexicon.knows word = true) : larger.knows word = true := by
  rcases List.any_eq_true.mp known with ⟨category, listed, found⟩
  exact List.any_eq_true.mpr ⟨category, listed, within word category found⟩

end Lexicon

namespace Search

variable {α β : Type} {s t s' t' : Search α}

/-- The first search is the second one without some of its alternatives. -/
inductive Thins : Search α → Search α → Prop where
  | nothing : Thins .nothing .nothing
  | found (result : α) {s t : Search α} (rest : Thins s t) : Thins (.found result s) (.found result t)
  | each (goal : Goal) (skip : Nat) {body body' : Derivation → Search α} {s t : Search α}
      (inside : ∀ d, Thins (body d) (body' d)) (rest : Thins s t) :
      Thins (.each goal skip body s) (.each goal skip body' t)
  | unfound (result : α) {s t : Search α} (rest : Thins s t) : Thins s (.found result t)
  | unasked (goal : Goal) (skip : Nat) (body : Derivation → Search α) {s t : Search α}
      (rest : Thins s t) : Thins s (.each goal skip body t)

namespace Thins

theorem refl (s : Search α) : s.Thins s := by
  induction s with
  | nothing => exact .nothing
  | found result next ih => exact .found result ih
  | each goal skip body next body_ih ih => exact .each goal skip body_ih ih

theorem of_nothing (s : Search α) : Search.nothing.Thins s := by
  induction s with
  | nothing => exact .nothing
  | found result next ih => exact .unfound result ih
  | each goal skip body next _ ih => exact .unasked goal skip body ih

theorem append (first : s.Thins t) (rest : s'.Thins t') : (s ++ s').Thins (t ++ t') := by
  induction first with
  | nothing => exact rest
  | found result _ ih => exact .found result ih
  | each goal skip inside _ _ ih => exact .each goal skip inside ih
  | unfound result _ ih => exact .unfound result ih
  | unasked goal skip body _ ih => exact .unasked goal skip body ih

theorem bind {f g : α → Search β} (first : s.Thins t) (rest : ∀ result, (f result).Thins (g result)) :
    (s >>= f).Thins (t >>= g) := by
  induction first with
  | nothing => exact .nothing
  | found result _ ih => exact (rest result).append ih
  | each goal skip _ _ inside_ih ih => exact .each goal skip inside_ih ih
  | @unfound result s t _ ih =>
      have skipped := (of_nothing (g result)).append ih
      exact skipped
  | unasked goal skip body _ ih => exact .unasked goal skip _ ih

theorem guarded {condition condition' : Bool} (implies : condition = true → condition' = true)
    (thins : s.Thins t) : (Search.guarded condition s).Thins (Search.guarded condition' t) := by
  cases condition with
  | false => exact of_nothing _
  | true =>
      rw [implies rfl]
      exact thins

theorem all_sublist {table table' : Goal → List Derivation} (thins : s.Thins t)
    (tables : ∀ goal, (table goal).Sublist (table' goal)) :
    (s.all table).Sublist (t.all table') := by
  induction thins with
  | nothing => exact .slnil
  | found result _ ih => exact ih.cons_cons result
  | @each goal skip body body' s t _ _ inside_ih ih =>
      have derivations := (tables goal).drop skip
      have bodies := List.Sublist.flatMap_right ((table' goal).drop skip) fun d _ => inside_ih d
      exact ((derivations.flatMap _).trans bodies).append ih
  | unfound result _ ih => exact ih.cons result
  | unasked goal skip body _ ih => exact ih.trans (List.sublist_append_right _ _)

end Thins

end Search

namespace Utterance

open Search (Thins)

variable (words : List Word) {lexicon larger : Lexicon} (within : lexicon.Within larger)

include within

theorem word_thins (category : Category) (i : Nat) :
    Thins (word ⟨words, lexicon⟩ category i) (word ⟨words, larger⟩ category i) := by
  rw [word, word]
  cases words[i]? with
  | none => exact .nothing
  | some given =>
      cases given with
      | literal literal => exact .refl _
      | plain text => exact .append (.guarded (within text category) (.refl _)) (.refl _)

theorem adverb_run_thins (i : Nat) :
    Thins (adverbRun ⟨words, lexicon⟩ i) (adverbRun ⟨words, larger⟩ i) :=
  .bind (word_thins words within .adverb i) fun _ => .refl _

theorem adjective_phrase_thins (i : Nat) :
    Thins (adjectivePhrase ⟨words, lexicon⟩ i) (adjectivePhrase ⟨words, larger⟩ i) := by
  apply Thins.bind (.refl _)
  intro adverbs
  exact .bind (word_thins words within .adjective adverbs.stop) fun _ => .refl _

theorem adjective_phrases_thins (i : Nat) :
    Thins (adjectivePhrases ⟨words, lexicon⟩ i) (adjectivePhrases ⟨words, larger⟩ i) :=
  .append (.bind (adjective_phrase_thins words within i) fun _ => .refl _) (.refl _)

theorem noun_phrase_thins (i : Nat) :
    Thins (nounPhrase ⟨words, lexicon⟩ i) (nounPhrase ⟨words, larger⟩ i) := by
  -- Whether there is an "it" does not depend on the lexicon.
  have same : isKeyword ⟨words, larger⟩ i ["it"] = isKeyword ⟨words, lexicon⟩ i ["it"] := rfl
  rw [nounPhrase, nounPhrase, same]
  split
  · exact .refl _
  · apply Thins.bind (.refl _)
    intro determiner
    apply Thins.bind (.refl _)
    intro adjectives
    exact .bind (word_thins words within .noun adjectives.stop) fun _ => .refl _

theorem verb_phrase_thins (i : Nat) :
    Thins (verbPhrase ⟨words, lexicon⟩ i) (verbPhrase ⟨words, larger⟩ i) := by
  have verb (j : Nat) := word_thins words within .verb j
  rw [verbPhrase, verbPhrase]
  -- A possession and a copula are keywords, the same with every lexicon.
  apply Thins.append
  · apply Thins.append (.refl _)
    exact .bind (.refl _) fun adverbs => .bind (verb adverbs.stop) fun _ => .refl _
  · exact .bind (verb i) fun _ => .refl _

theorem phrase_thins (item : Phrase) (i : Nat) :
    Thins (phrase ⟨words, lexicon⟩ item i) (phrase ⟨words, larger⟩ item i) := by
  cases item with
  | word category => exact word_thins words within category i
  | adverbRun => exact adverb_run_thins words within i
  | adjectivePhrase => exact adjective_phrase_thins words within i
  | adjectivePhrases => exact adjective_phrases_thins words within i
  | nounPhrase => exact noun_phrase_thins words within i
  | verbPhrase => exact verb_phrase_thins words within i
  | determiner | adverbGroup | adverbsOpt | relativeClause | sentence => exact .refl _

theorem call_thins (item : Phrase) (i : Nat) :
    Thins (call ⟨words, lexicon⟩ item i) (call ⟨words, larger⟩ item i) := by
  rw [call, call]
  split
  · exact .refl _
  · exact phrase_thins words within item i

theorem search_thins (goal : Goal) :
    Thins (search ⟨words, lexicon⟩ goal) (search ⟨words, larger⟩ goal) := by
  rcases goal with ⟨production, i⟩
  cases production with
  | one item => exact phrase_thins words within item i
  | joined item =>
      have items := call_thins words within item i
      exact .append (.bind items fun _ => .refl _) items
  | joinedOpt item => exact .refl _

theorem below_sublist (bound : Nat) (goal : Goal) :
    (below ⟨words, lexicon⟩ bound goal).Sublist (below ⟨words, larger⟩ bound goal) := by
  induction bound generalizing goal with
  | zero => exact .slnil
  | succ bound ih =>
      have same : rank ⟨words, larger⟩ goal = rank ⟨words, lexicon⟩ goal := rfl
      rw [below, below, same]
      split
      · exact (search_thins words within goal).all_sublist ih
      · exact ih goal

/-- With a larger lexicon every production finds what it found before, in the same order. -/
theorem derivations_sublist (goal : Goal) :
    (derivations ⟨words, lexicon⟩ goal).Sublist (derivations ⟨words, larger⟩ goal) :=
  below_sublist words within _ goal

theorem rules_sublist (i : Nat) :
    ((rules ⟨words, lexicon⟩ i).all (derivations ⟨words, lexicon⟩)).Sublist
      ((rules ⟨words, larger⟩ i).all (derivations ⟨words, larger⟩)) :=
  (Thins.refl (rules ⟨words, lexicon⟩ i)).all_sublist (derivations_sublist words within)

theorem check_ok_of_within (recognized : check ⟨words, lexicon⟩ = .ok ()) :
    check ⟨words, larger⟩ = .ok () := by
  rw [check_ok_iff] at recognized ⊢
  intro word member
  have before := recognized word member
  cases word with
  | literal word => rfl
  | plain w =>
      simp only [recognizes, Bool.or_eq_true] at before ⊢
      exact before.imp_left (Or.imp_right within.knows)

theorem readings_subset : readings ⟨words, lexicon⟩ ⊆ readings ⟨words, larger⟩ := by
  intro rules member
  rw [mem_readings] at member ⊢
  exact ⟨(rules_sublist words within 0).subset member.1, member.2⟩

end Utterance

theorem check_ok_of_read_all {source : Source} {words : List Word} {lexicon : Lexicon}
    {readings : List (List Rule)} (given : source.words = .ok words)
    (read : readAll source lexicon = .ok readings) : Utterance.check ⟨words, lexicon⟩ = .ok () := by
  cases recognized : Utterance.check ⟨words, lexicon⟩ with
  | ok => rfl
  | error fault =>
      simp only [readAll, words_ok given, bind, Except.bind, startReadings, recognized] at read
      cases read

theorem read_all_subset {source other : Source} {words words' : List Word} {lexicon : Lexicon}
    (given : source.words = .ok words) (given' : other.words = .ok words')
    (recognized : Utterance.check ⟨words, lexicon⟩ = .ok () →
      Utterance.check ⟨words', lexicon⟩ = .ok ())
    (subset : Utterance.readings ⟨words, lexicon⟩ ⊆ Utterance.readings ⟨words', lexicon⟩)
    {readings : List (List Rule)} (read : readAll source lexicon = .ok readings) :
    ∃ others, readAll other lexicon = .ok others ∧ readings ⊆ others := by
  have known := recognized (check_ok_of_read_all given read)
  rw [readings_of_read_all given read]
  exact ⟨_, read_all_ok given' known, subset⟩

/-- Teaching words loses nothing: whatever is found at any place is still found, in the same order,
and whatever is read is still read. -/
theorem read_all_taught {lexicon larger : Lexicon} (within : lexicon.Within larger) :
    (∀ words goal, (Utterance.derivations ⟨words, lexicon⟩ goal).Sublist
      (Utterance.derivations ⟨words, larger⟩ goal)) ∧
    (∀ words i, ((Utterance.rules ⟨words, lexicon⟩ i).all (Utterance.derivations ⟨words, lexicon⟩)).Sublist
      ((Utterance.rules ⟨words, larger⟩ i).all (Utterance.derivations ⟨words, larger⟩))) ∧
    ∀ source readings, readAll source lexicon = .ok readings →
      ∃ more, readAll source larger = .ok more ∧ readings ⊆ more := by
  refine ⟨fun words => Utterance.derivations_sublist words within,
    fun words => Utterance.rules_sublist words within, ?_⟩
  intro source readings read
  rcases exists_words_of_read_all read with ⟨words, given⟩
  have recognized := Utterance.check_ok_of_within words within (check_ok_of_read_all given read)
  rw [readings_of_read_all given read]
  exact ⟨_, read_all_ok given recognized, Utterance.readings_subset words within⟩

theorem read_all_taught_second_category :
    let larger := Lexicon.marsh.insert "frog" .verb
    let rules : List Rule :=
      [⟨⟨.hasA, "heron", [⟨.does, "eats", [⟨.isA, "frog", []⟩]⟩]⟩, []⟩]
    Lexicon.marsh.Within larger ∧
      ∃ readings, readAll (.text "heron eats frog") Lexicon.marsh = .ok readings ∧
        rules ∈ readings ∧ ∃ more, readAll (.text "heron eats frog") larger = .ok more ∧ rules ∈ more := by
  intro larger rules
  have within := Lexicon.marsh.within_insert "frog" .verb
  have given : Source.words (.text "heron eats frog") =
      .ok (plain ["heron", "eats", "frog"]) := by cbv
  have recognized : Utterance.check ⟨plain ["heron", "eats", "frog"], Lexicon.marsh⟩ = .ok () :=
    Lexicon.marsh_check _ (by decide)
  have heron := Lexicon.marsh_noun (w := "heron") (by simp) .noDeterminer
  have frog := Lexicon.marsh_noun (w := "frog") (by simp) .noDeterminer
  have eats_frog := Lexicon.marsh_eats (.items (.single frog))
  have meant := Derives.subject heron (List.cons_ne_nil _ _) eats_frog
  rcases exists_read_all given Lexicon.marsh_clean.unlisted_it recognized (.fact meant)
    (List.cons_ne_nil _ _) with ⟨readings, read, member⟩
  rcases (read_all_taught within).2.2 _ _ read with ⟨more, again, still⟩
  exact ⟨within, readings, read, member, more, again, still member⟩

end ControlledEnglish
