import Mathlib.Data.List.Basic
import ControlledEnglish.Grammar.Run
import ControlledEnglish.Proofs.Grammar.Derives

/-! Derivations depend only on the words that they span.

A search looks at the word behind what it has found, so in a longer utterance it finds more. What it
finds within a part of the utterance it finds in that part alone: the same derivations, as often and
in the same order, each as far along as the part begins. -/

namespace ControlledEnglish

structure Utterance.Contains (whole part : Utterance) (offset : Nat) : Prop where
  lexicon : whole.lexicon = part.lexicon
  words : ∀ i < part.words.length, whole.words[offset + i]? = part.words[i]?
  fits : offset + part.words.length ≤ whole.words.length

theorem Utterance.Contains.of_append {whole part : Utterance} (before behind : List Word)
    (words : whole.words = before ++ part.words ++ behind)
    (lexicon : whole.lexicon = part.lexicon) : whole.Contains part before.length := by
  refine ⟨lexicon, fun i inside => ?_, ?_⟩
  · rw [words, List.append_assoc, List.getElem?_append_right (Nat.le_add_right _ _),
      Nat.add_sub_cancel_left, List.getElem?_append_left inside]
  · rw [words, List.length_append, List.length_append]
    omega

/-- Results that end at a place, and the same results further along. -/
class Placed (α : Type) where
  stop : α → Nat
  moved : Nat → α → α
  stop_moved : ∀ offset a, stop (moved offset a) = offset + stop a

instance : Placed Derivation where
  stop d := d.stop
  moved offset d := ⟨d.attrs, offset + d.stop⟩
  stop_moved _ _ := rfl

instance : Placed (List Rule × Nat) where
  stop result := result.2
  moved offset result := (result.1, offset + result.2)
  stop_moved _ _ := rfl

open Placed (stop moved)

/-- What is found from a place on in the whole, and in the part alone. They are the same as far as
the part goes. -/
structure Agree {α : Type} [Placed α] (offset length start : Nat) (found alone : List α) :
    Prop where
  found_from : ∀ a ∈ found, offset + start ≤ stop a
  alone_from : ∀ a ∈ alone, start ≤ stop a
  within : start ≤ length →
    found.filter (fun a => stop a ≤ offset + length) = alone.map (moved offset)

namespace Agree

variable {α : Type} [Placed α] {offset length start : Nat} {found alone : List α}

theorem nil : Agree offset length start ([] : List α) [] :=
  ⟨List.forall_mem_nil _, List.forall_mem_nil _, fun _ => rfl⟩

theorem here {a b : α} (same : a = moved offset b) (ends : stop b = start) :
    Agree offset length start [a] [b] := by
  have ends_further : stop a = offset + start := by rw [same, Placed.stop_moved, ends]
  refine ⟨?_, ?_, ?_⟩
  · exact List.forall_mem_singleton.mpr (Nat.le_of_eq ends_further.symm)
  · exact List.forall_mem_singleton.mpr (Nat.le_of_eq ends.symm)
  · intro inside
    have kept : decide (stop a ≤ offset + length) = true := by
      rw [decide_eq_true_iff]
      omega
    rw [List.filter_singleton, kept, List.map_singleton, same]
    rfl

theorem late (behind : ∀ a ∈ found, offset + length < stop a)
    (from_start : ∀ a ∈ found, offset + start ≤ stop a) : Agree offset length start found [] := by
  refine ⟨from_start, List.forall_mem_nil _, fun _ => ?_⟩
  rw [List.map_nil, List.filter_eq_nil_iff]
  intro a member
  have := behind a member
  rw [decide_eq_true_iff]
  omega

theorem earlier {later : Nat} (agree : Agree offset length later found alone)
    (before : start ≤ later) (inside : later ≤ length) : Agree offset length start found alone := by
  refine ⟨?_, ?_, fun _ => agree.within inside⟩
  · intro a member
    have := agree.found_from a member
    omega
  · intro a member
    exact Nat.le_trans before (agree.alone_from a member)

theorem append {found' alone' : List α} (first : Agree offset length start found alone)
    (rest : Agree offset length start found' alone') :
    Agree offset length start (found ++ found') (alone ++ alone') := by
  refine ⟨?_, ?_, ?_⟩
  · exact List.forall_mem_append.mpr ⟨first.found_from, rest.found_from⟩
  · exact List.forall_mem_append.mpr ⟨first.alone_from, rest.alone_from⟩
  · intro inside
    rw [List.filter_append, first.within inside, rest.within inside, List.map_append]

theorem ending (agree : Agree offset length start found alone) (inside : start ≤ length) :
    found.filter (fun a => stop a = offset + length) =
      (alone.filter fun a => stop a = length).map (moved offset) := by
  have narrower (a : α) : decide (stop a = offset + length) =
      (decide (stop a = offset + length) && decide (stop a ≤ offset + length)) := by
    rw [Bool.eq_iff_iff, Bool.and_eq_true, decide_eq_true_iff, decide_eq_true_iff]
    exact ⟨fun ends => ⟨ends, Nat.le_of_eq ends⟩, And.left⟩
  calc
    found.filter (fun a => stop a = offset + length)
      = (found.filter fun a => stop a ≤ offset + length).filter
          fun a => stop a = offset + length := by
        rw [List.filter_filter]
        exact List.filter_congr fun a _ => narrower a
    _ = (alone.map (moved offset)).filter fun a => stop a = offset + length := by
        rw [agree.within inside]
    _ = (alone.filter fun a => stop a = length).map (moved offset) := by
        rw [List.filter_map]
        congr 1
        apply List.filter_congr
        intro a _
        rw [Function.comp_apply, Placed.stop_moved, decide_eq_decide, Nat.add_left_cancel_iff]

end Agree

theorem Agree.mem_iff {offset length start stop : Nat} {found alone : List Derivation}
    {attrs : List Attr} (agree : Agree offset length start found alone) (inside : start ≤ length)
    (ends : stop ≤ length) : ⟨attrs, offset + stop⟩ ∈ found ↔ ⟨attrs, stop⟩ ∈ alone := by
  have within : Placed.stop (⟨attrs, offset + stop⟩ : Derivation) ≤ offset + length :=
    Nat.add_le_add_left ends offset
  have kept : (⟨attrs, offset + stop⟩ : Derivation) ∈ found ↔
      ⟨attrs, offset + stop⟩ ∈ found.filter fun d => Placed.stop d ≤ offset + length := by
    rw [List.mem_filter, and_iff_left (decide_eq_true within)]
  rw [kept, agree.within inside, List.mem_map]
  constructor
  · rintro ⟨⟨attrs', stop'⟩, member, same⟩
    simp only [moved, Derivation.mk.injEq, Nat.add_left_cancel_iff] at same
    obtain ⟨rfl, rfl⟩ := same
    exact member
  · intro member
    exact ⟨_, member, rfl⟩

theorem Agree.flatMap {β : Type} [Placed β] {offset length start : Nat}
    {found alone : List Derivation} {f g : Derivation → List β}
    (agree : Agree offset length start found alone)
    (rest : ∀ d, start ≤ d.stop → Agree offset length d.stop (f (moved offset d)) (g d)) :
    Agree offset length start (found.flatMap f) (alone.flatMap g) := by
  have rest_found (d : Derivation) (member : d ∈ found) :
      Agree offset length (d.stop - offset) (f d) (g ⟨d.attrs, d.stop - offset⟩) := by
    have from_start : offset + start ≤ d.stop := agree.found_from d member
    have further := rest ⟨d.attrs, d.stop - offset⟩ (by simp only; omega)
    have same : moved offset (⟨d.attrs, d.stop - offset⟩ : Derivation) = d := by
      simp only [moved]
      rw [Nat.add_sub_cancel' (by omega)]
    rwa [same] at further
  refine ⟨?_, ?_, ?_⟩
  · intro b member
    obtain ⟨d, given, further⟩ := List.mem_flatMap.mp member
    have from_start : offset + start ≤ d.stop := agree.found_from d given
    have := (rest_found d given).found_from b further
    omega
  · intro b member
    obtain ⟨d, given, further⟩ := List.mem_flatMap.mp member
    have from_start : start ≤ d.stop := agree.alone_from d given
    exact Nat.le_trans from_start ((rest d from_start).alone_from b further)
  · intro inside
    have within := agree.within inside
    -- Behind a derivation that ends too late everything else ends too late as well.
    have useless : ∀ d ∈ found, decide (d.stop ≤ offset + length) = false →
        (f d).filter (fun b => stop b ≤ offset + length) = [] := by
      intro d given ends_late
      have from_start : offset + start ≤ d.stop := agree.found_from d given
      rw [decide_eq_false_iff_not] at ends_late
      rw [List.filter_eq_nil_iff]
      intro b further
      have := (rest_found d given).found_from b further
      rw [decide_eq_true_iff]
      omega
    have each : ∀ d ∈ alone, (f (moved offset d)).filter (fun b => stop b ≤ offset + length) =
        (g d).map (moved offset) := by
      intro d given
      have kept : moved offset d ∈ found.filter (fun a => stop a ≤ offset + length) := by
        rw [within]
        exact List.mem_map_of_mem given
      have ends : stop (moved offset d) ≤ offset + length :=
        decide_eq_true_iff.mp (List.mem_filter.mp kept).2
      rw [Placed.stop_moved] at ends
      exact (rest d (agree.alone_from d given)).within (Nat.le_of_add_le_add_left ends)
    calc
      (found.flatMap f).filter (fun b => stop b ≤ offset + length)
        = found.flatMap fun d => (f d).filter fun b => stop b ≤ offset + length :=
          List.filter_flatMap
      _ = (found.filter fun d => stop d ≤ offset + length).flatMap fun d =>
            (f d).filter fun b => stop b ≤ offset + length := flatMap_filter useless
      _ = alone.flatMap fun d =>
            (f (moved offset d)).filter fun b => stop b ≤ offset + length := by
          rw [within, List.flatMap_map]
      _ = (alone.flatMap g).map (moved offset) := by
          rw [List.map_flatMap, List.flatMap_def, List.flatMap_def, List.map_congr_left each]

theorem Agree.map {offset length start : Nat} {found alone : List Derivation}
    (agree : Agree offset length start found alone) (f : List Attr → List Attr) :
    Agree offset length start (found.map (Derivation.map f))
      (alone.map (Derivation.map f)) := by
  rw [List.map_eq_flatMap, List.map_eq_flatMap]
  apply agree.flatMap
  intro d _
  exact .here rfl rfl

namespace Utterance

section Names

variable (u : Utterance)

def name (i : Nat) : Search Derivation := do
  let determiner ← u.determiner i
  let adjectives ← Search.ask Phrase.adjectivePhrases determiner.stop
  let noun ← u.word .noun adjectives.stop
  return ⟨attach noun.attrs adjectives.attrs, noun.stop⟩

/-- A noun phrase without a relative clause. -/
def bareNounPhrase (i : Nat) : Search Derivation :=
  if u.isKeyword i ["it"] then pure ⟨[], i + 1⟩ else u.name i

variable (table : Goal → List Derivation)

theorem all_bare_noun_phrase (i : Nat) : (u.bareNounPhrase i).all table =
    if u.isKeyword i ["it"] then [⟨[], i + 1⟩] else (u.name i).all table := by
  rw [bareNounPhrase]
  split <;> rfl

theorem all_noun_phrase (i : Nat) : (u.nounPhrase i).all table =
    if u.isKeyword i ["it"] then [⟨[], i + 1⟩]
    else ((u.name i).all table).flatMap fun phrase =>
      phrase :: ((u.relativeClause phrase.stop).all table).map (.map (attach phrase.attrs)) := by
  rw [nounPhrase]
  split
  · rfl
  · simp [name, List.flatMap_assoc, List.flatMap_map]
    rfl

end Names

variable {whole part : Utterance} {offset : Nat}

section Productions

variable {table table' : Goal → List Derivation}

/-- The two searches find the same within the part, if the tables hold the same. -/
def Mirrors {α : Type} [Placed α] (part : Utterance) (offset : Nat)
    (table table' : Goal → List Derivation) (i : Nat) (s t : Search α) : Prop :=
  Agree offset part.words.length i (s.all table) (t.all table')

section Combinators

variable {α : Type} [Placed α] {i : Nat} {s t : Search α}

theorem Mirrors.here {a b : α} (same : a = moved offset b) (ends : stop b = i) :
    Mirrors part offset table table' i (pure a) (pure b) :=
  Agree.here same ends

theorem Mirrors.append {s' t' : Search α} (first : Mirrors part offset table table' i s t)
    (rest : Mirrors part offset table table' i s' t') :
    Mirrors part offset table table' i (s ++ s') (t ++ t') := by
  simp only [Mirrors, Search.all_append]
  exact Agree.append first rest

theorem Mirrors.bind {first first' : Search Derivation} {f g : Derivation → Search α}
    (mirrors : Mirrors part offset table table' i first first')
    (rest : ∀ d, i ≤ d.stop → Mirrors part offset table table' d.stop (f (moved offset d)) (g d)) :
    Mirrors part offset table table' i (first >>= f) (first' >>= g) := by
  simp only [Mirrors, Search.all_bind]
  exact Agree.flatMap mirrors rest

theorem Mirrors.guarded (condition : Bool) (mirrors : Mirrors part offset table table' i s t) :
    Mirrors part offset table table' i (.guarded condition s) (.guarded condition t) := by
  cases condition with
  | false => exact Agree.nil
  | true => exact mirrors

end Combinators

variable (contains : whole.Contains part offset)

include contains

theorem is_keyword_inside {i : Nat} (inside : i < part.words.length) (options : List String) :
    whole.isKeyword (offset + i) options = part.isKeyword i options := by
  rw [isKeyword, isKeyword, contains.words i inside]

omit contains in
theorem not_keyword_behind {i : Nat} (behind : part.words.length ≤ i) (options : List String) :
    part.isKeyword i options = false := by
  rw [isKeyword, List.getElem?_eq_none behind]
  rfl

theorem Mirrors.after_keyword {α : Type} [Placed α] {i : Nat} {s t : Search α}
    (options : List String) (mirrors : Mirrors part offset table table' (i + 1) s t) :
    Mirrors part offset table table' i
      (.guarded (whole.isKeyword (offset + i) options) s)
      (.guarded (part.isKeyword i options) t) := by
  by_cases inside : i < part.words.length
  · rw [is_keyword_inside contains inside]
    cases part.isKeyword i options with
    | false => exact Agree.nil
    | true => exact Agree.earlier mirrors (Nat.le_succ i) inside
  · rw [not_keyword_behind (Nat.le_of_not_lt inside)]
    cases whole.isKeyword (offset + i) options with
    | false => exact Agree.nil
    | true =>
        apply Agree.late
        · intro a member
          have := mirrors.found_from a member
          omega
        · intro a member
          have := mirrors.found_from a member
          omega

theorem word_mirrors (category : Category) (i : Nat) :
    Mirrors part offset table table' i (whole.word category (offset + i))
      (part.word category i) := by
  by_cases inside : i < part.words.length
  · have one (text : String) : Mirrors part offset table table' (i + 1)
        (pure (⟨[⟨category.kind, text, []⟩], offset + i + 1⟩ : Derivation))
        (pure ⟨[⟨category.kind, text, []⟩], i + 1⟩) := .here rfl rfl
    have both : Mirrors part offset table table' (i + 1) (whole.word category (offset + i))
        (part.word category i) := by
      rw [word, word, contains.words i inside, contains.lexicon]
      cases part.words[i]? with
      | none => exact Agree.nil
      | some given =>
          cases given with
          | literal literal => exact .guarded _ (one _)
          | plain text =>
              refine .append (.guarded _ (one _)) ?_
              dsimp only
              split
              · exact .guarded _ (one _)
              · exact Agree.nil
    exact Agree.earlier both (Nat.le_succ i) inside
  · have none : (part.word category i).all table' = [] := by
      rw [word, List.getElem?_eq_none (Nat.le_of_not_lt inside), Search.all_nothing]
    rw [Mirrors, none]
    apply Agree.late
    · intro d member
      have ends : d.stop = offset + i + 1 := (of_mem_word member).2
      simp only [stop]
      omega
    · intro d member
      have ends : d.stop = offset + i + 1 := (of_mem_word member).2
      simp only [stop]
      omega

theorem determiner_mirrors (i : Nat) :
    Mirrors part offset table table' i (whole.determiner (offset + i)) (part.determiner i) := by
  apply Mirrors.append
  · exact .here rfl rfl
  · exact .after_keyword contains _ (.here rfl rfl)

variable (tables : ∀ production i,
  Agree offset part.words.length i (table ⟨production, offset + i⟩) (table' ⟨production, i⟩))

include tables

omit contains in
theorem ask_mirrors (production : Production) (i : Nat) :
    Mirrors part offset table table' i (.ask production (offset + i)) (.ask production i) := by
  rw [Mirrors, Search.all_ask, Search.all_ask]
  exact tables production i

theorem adverb_run_mirrors (i : Nat) :
    Mirrors part offset table table' i (whole.adverbRun (offset + i)) (part.adverbRun i) := by
  apply Mirrors.bind (word_mirrors contains .adverb i)
  intro first _
  apply Mirrors.append
  · apply Mirrors.bind (ask_mirrors tables Phrase.adverbRun first.stop)
    intro rest _
    exact .here rfl rfl
  · exact .here rfl rfl

omit contains in
theorem adverb_group_mirrors (i : Nat) :
    Mirrors part offset table table' i (adverbGroup (offset + i)) (adverbGroup i) := by
  apply Mirrors.bind (ask_mirrors tables Phrase.adverbRun i)
  intro run _
  exact .here rfl rfl

omit contains in
theorem adverbs_opt_mirrors (i : Nat) :
    Mirrors part offset table table' i (adverbsOpt (offset + i)) (adverbsOpt i) :=
  .append (adverb_group_mirrors tables i) (.here rfl rfl)

theorem adjective_phrase_mirrors (i : Nat) :
    Mirrors part offset table table' i (whole.adjectivePhrase (offset + i))
      (part.adjectivePhrase i) := by
  apply Mirrors.bind (adverbs_opt_mirrors tables i)
  intro adverbs _
  apply Mirrors.bind (word_mirrors contains .adjective adverbs.stop)
  intro adjective _
  exact .here rfl rfl

theorem adjective_phrases_mirrors (i : Nat) :
    Mirrors part offset table table' i (whole.adjectivePhrases (offset + i))
      (part.adjectivePhrases i) := by
  apply Mirrors.append
  · apply Mirrors.bind (adjective_phrase_mirrors contains tables i)
    intro first _
    apply Mirrors.bind (ask_mirrors tables Phrase.adjectivePhrases first.stop)
    intro rest _
    exact .here rfl rfl
  · exact .here rfl rfl

theorem relative_clause_mirrors (i : Nat) :
    Mirrors part offset table table' i (whole.relativeClause (offset + i))
      (part.relativeClause i) :=
  .after_keyword contains _ (ask_mirrors tables Phrase.verbPhrase (i + 1))

omit contains in
theorem name_behind {i : Nat} (behind : part.words.length ≤ i) :
    (part.name i).all table' = [] := by
  have nothing (j : Nat) (further : i ≤ j) : (part.word .noun j).all table' = [] := by
    rw [word, List.getElem?_eq_none (Nat.le_trans behind further), Search.all_nothing]
  simp only [name, Search.all_bind, List.flatMap_eq_nil_iff]
  intro determiner given adjectives given' noun given''
  rw [Search.all_ask] at given'
  have after : i ≤ determiner.stop := by
    simp only [Utterance.determiner, Search.all_append, Search.all_pure, Search.all_guarded,
      List.mem_append, List.mem_singleton, List.mem_ite_nil_right] at given
    rcases given with rfl | ⟨-, rfl⟩
    · exact Nat.le_refl i
    · exact Nat.le_succ i
  have further : determiner.stop ≤ adjectives.stop := (tables _ _).alone_from adjectives given'
  rw [nothing _ (Nat.le_trans after further)] at given''
  exact absurd given'' List.not_mem_nil

theorem name_mirrors (i : Nat) :
    Mirrors part offset table table' i (whole.name (offset + i)) (part.name i) := by
  apply Mirrors.bind (determiner_mirrors contains i)
  intro determiner _
  apply Mirrors.bind (ask_mirrors tables Phrase.adjectivePhrases determiner.stop)
  intro adjectives _
  apply Mirrors.bind (word_mirrors contains .noun adjectives.stop)
  intro noun _
  exact .here rfl rfl

omit tables in
/-- An "it" right behind the part is not seen in the part, where there is no noun to be seen. -/
theorem agree_unless_it {i : Nat} {found alone : List Derivation}
    (agree : Agree offset part.words.length i found alone)
    (behind : part.words.length ≤ i → alone = []) :
    Agree offset part.words.length i
      (if whole.isKeyword (offset + i) ["it"] then [⟨[], offset + i + 1⟩] else found)
      (if part.isKeyword i ["it"] then [⟨[], i + 1⟩] else alone) := by
  by_cases inside : i < part.words.length
  · rw [is_keyword_inside contains inside]
    split
    · have it : Agree offset part.words.length (i + 1) [(⟨[], offset + i + 1⟩ : Derivation)]
          [⟨[], i + 1⟩] := .here rfl rfl
      exact it.earlier (Nat.le_succ i) inside
    · exact agree
  · have outside := Nat.le_of_not_lt inside
    rw [not_keyword_behind outside, if_neg Bool.false_ne_true, behind outside]
    split
    · apply Agree.late
      · simp only [List.forall_mem_singleton, stop]
        omega
      · simp only [List.forall_mem_singleton, stop]
        omega
    · rwa [← behind outside]

theorem bare_noun_phrase_mirrors (i : Nat) : Mirrors part offset table table' i
    (whole.bareNounPhrase (offset + i)) (part.bareNounPhrase i) := by
  rw [Mirrors, all_bare_noun_phrase, all_bare_noun_phrase]
  exact agree_unless_it contains (name_mirrors contains tables i) (name_behind tables)

theorem noun_phrase_mirrors (i : Nat) :
    Mirrors part offset table table' i (whole.nounPhrase (offset + i)) (part.nounPhrase i) := by
  rw [Mirrors, all_noun_phrase, all_noun_phrase]
  apply agree_unless_it contains
  · apply Agree.flatMap (name_mirrors contains tables i)
    intro phrase _
    exact .append (.here rfl rfl) ((relative_clause_mirrors contains tables phrase.stop).map _)
  · intro behind
    rw [name_behind tables behind, List.flatMap_nil]

omit contains in
theorem joined_opt_mirrors (item : Phrase) (i : Nat) :
    Mirrors part offset table table' i (joinedOpt item (offset + i)) (joinedOpt item i) :=
  .append (ask_mirrors tables (.joined item) i) (.here rfl rfl)

theorem verb_phrase_mirrors (i : Nat) :
    Mirrors part offset table table' i (whole.verbPhrase (offset + i)) (part.verbPhrase i) := by
  apply Mirrors.append
  · apply Mirrors.append
    · apply Mirrors.append
      · apply Mirrors.after_keyword contains
        apply Mirrors.bind (ask_mirrors tables (.joined .nounPhrase) (i + 1))
        intro objects _
        exact .here rfl rfl
      · apply Mirrors.after_keyword contains
        exact .append (ask_mirrors tables _ (i + 1)) (ask_mirrors tables _ (i + 1))
    · apply Mirrors.bind (joined_opt_mirrors tables .adverbGroup i)
      intro adverbs _
      apply Mirrors.bind (word_mirrors contains .verb adverbs.stop)
      intro verb _
      apply Mirrors.bind (joined_opt_mirrors tables .nounPhrase verb.stop)
      intro objects _
      exact .here rfl rfl
  · apply Mirrors.bind (word_mirrors contains .verb i)
    intro verb _
    apply Mirrors.bind (ask_mirrors tables (.joined .adverbGroup) verb.stop)
    intro adverbs _
    exact .here rfl rfl

omit contains in
theorem sentence_mirrors (i : Nat) :
    Mirrors part offset table table' i (sentence (offset + i)) (sentence i) := by
  apply Mirrors.append
  · apply Mirrors.bind (ask_mirrors tables Phrase.nounPhrase i)
    intro subject _
    exact .guarded _ (ask_mirrors tables Phrase.verbPhrase subject.stop)
  · apply Mirrors.bind (ask_mirrors tables Phrase.nounPhrase i)
    intro subject _
    apply Mirrors.guarded
    apply Mirrors.bind (ask_mirrors tables Phrase.verbPhrase subject.stop)
    intro predicate _
    exact .here rfl rfl

theorem phrase_mirrors (item : Phrase) (i : Nat) :
    Mirrors part offset table table' i (whole.phrase item (offset + i)) (part.phrase item i) := by
  cases item with
  | word category => exact word_mirrors contains category i
  | determiner => exact determiner_mirrors contains i
  | adverbRun => exact adverb_run_mirrors contains tables i
  | adverbGroup => exact adverb_group_mirrors tables i
  | adverbsOpt => exact adverbs_opt_mirrors tables i
  | adjectivePhrase => exact adjective_phrase_mirrors contains tables i
  | adjectivePhrases => exact adjective_phrases_mirrors contains tables i
  | relativeClause => exact relative_clause_mirrors contains tables i
  | nounPhrase => exact noun_phrase_mirrors contains tables i
  | verbPhrase => exact verb_phrase_mirrors contains tables i
  | sentence => exact sentence_mirrors tables i

theorem call_mirrors (item : Phrase) (i : Nat) :
    Mirrors part offset table table' i (whole.call item (offset + i)) (part.call item i) := by
  rw [call, call]
  split
  · exact ask_mirrors tables item i
  · exact phrase_mirrors contains tables item i

theorem joined_mirrors (item : Phrase) (i : Nat) :
    Mirrors part offset table table' i (whole.joined item (offset + i)) (part.joined item i) := by
  apply Mirrors.append
  · apply Mirrors.bind (call_mirrors contains tables item i)
    intro first _
    apply Mirrors.after_keyword contains
    apply Mirrors.bind (ask_mirrors tables (.joined item) (first.stop + 1))
    intro rest _
    exact .here rfl rfl
  · exact call_mirrors contains tables item i

theorem production_mirrors (production : Production) (i : Nat) : Mirrors part offset table table' i
    (whole.production production (offset + i)) (part.production production i) := by
  cases production with
  | one item => exact phrase_mirrors contains tables item i
  | joined item => exact joined_mirrors contains tables item i
  | joinedOpt item => exact joined_opt_mirrors tables item i

theorem rules_mirrors (i : Nat) :
    Mirrors part offset table table' i (whole.rules (offset + i)) (part.rules i) := by
  apply Mirrors.append
  · apply Mirrors.append
    · apply Mirrors.after_keyword contains
      apply Mirrors.bind (ask_mirrors tables (.joined .sentence) (i + 1))
      intro body _
      apply Mirrors.after_keyword contains
      apply Mirrors.bind (ask_mirrors tables (.joined .sentence) (body.stop + 1))
      intro heads _
      exact .here rfl rfl
    · apply Mirrors.bind (ask_mirrors tables Phrase.sentence i)
      intro heads _
      apply Mirrors.after_keyword contains
      apply Mirrors.bind (ask_mirrors tables (.joined .sentence) (heads.stop + 1))
      intro body _
      exact .here rfl rfl
  · apply Mirrors.bind (ask_mirrors tables Phrase.sentence i)
    intro heads _
    exact .here rfl rfl

end Productions

theorem below_of_rank_le (u : Utterance) {bound : Nat} {goal : Goal} (h : bound ≤ u.rank goal) :
    u.below bound goal = [] := by
  induction bound with
  | zero => rfl
  | succ bound ih =>
      have differ : u.rank goal ≠ bound := by omega
      rw [below, if_neg differ, ih (by omega)]

theorem le_of_mem_below {u : Utterance} {bound : Nat} {goal : Goal} {d : Derivation}
    (given : d ∈ u.below bound goal) : goal.start ≤ d.stop := by
  obtain ⟨ws, spans, -⟩ := found_of_mem_below given
  have := spans.stop
  omega

section Tables

variable (contains : whole.Contains part offset)

include contains

theorem rank_of_contains (production : Production) {i : Nat} (inside : i ≤ part.words.length) :
    whole.rank ⟨production, offset + i⟩ =
      part.rank ⟨production, i⟩ + 33 * (whole.words.length - offset - part.words.length) := by
  have fits := contains.fits
  simp only [rank]
  omega

theorem below_agrees (bound : Nat) (production : Production) (i : Nat) :
    Agree offset part.words.length i
      (whole.below (bound + 33 * (whole.words.length - offset - part.words.length))
        ⟨production, offset + i⟩)
      (part.below bound ⟨production, i⟩) := by
  induction bound generalizing production i with
  | zero =>
      refine ⟨fun d => le_of_mem_below, fun d => le_of_mem_below, fun inside => ?_⟩
      have ranks := rank_of_contains contains production inside
      rw [below_of_rank_le _ (by omega)]
      rfl
  | succ bound ih =>
      refine ⟨fun d => le_of_mem_below, fun d => le_of_mem_below, fun inside => ?_⟩
      have ranks := rank_of_contains contains production inside
      rw [Nat.add_right_comm, below, below]
      by_cases here : part.rank ⟨production, i⟩ = bound
      · rw [if_pos here, if_pos (by omega)]
        exact (production_mirrors contains ih production i).within inside
      · rw [if_neg here, if_neg (by omega)]
        exact (ih production i).within inside

/-- The derivations within a part of an utterance are those of the part alone. -/
theorem derivations_agree (production : Production) (i : Nat) :
    Agree offset part.words.length i (whole.derivations ⟨production, offset + i⟩)
      (part.derivations ⟨production, i⟩) := by
  have agree := below_agrees contains part.top production i
  refine ⟨fun d => le_of_mem_below, agree.alone_from, fun inside => ?_⟩
  have lower : whole.rank ⟨production, offset + i⟩ <
      part.top + 33 * (whole.words.length - offset - part.words.length) := by
    rw [rank_of_contains contains production inside]
    exact Nat.add_lt_add_right (part.rank_lt_top _) _
  rw [← whole.below_eq_derivations lower]
  exact agree.within inside

theorem mem_derivations_iff (production : Production) {attrs : List Attr} :
    ⟨attrs, offset + part.words.length⟩ ∈ whole.derivations ⟨production, offset⟩ ↔
      ⟨attrs, part.words.length⟩ ∈ part.derivations ⟨production, 0⟩ :=
  (derivations_agree contains production 0).mem_iff (Nat.zero_le _) (Nat.le_refl _)

theorem mem_bare_noun_phrase_iff {attrs : List Attr} :
    ⟨attrs, offset + part.words.length⟩ ∈ (whole.bareNounPhrase offset).all whole.derivations ↔
      ⟨attrs, part.words.length⟩ ∈ (part.bareNounPhrase 0).all part.derivations :=
  (bare_noun_phrase_mirrors contains (derivations_agree contains) 0).mem_iff (Nat.zero_le _)
    (Nat.le_refl _)

theorem rules_agree (i : Nat) :
    Agree offset part.words.length i ((whole.rules (offset + i)).all whole.derivations)
      ((part.rules i).all part.derivations) :=
  rules_mirrors contains (derivations_agree contains) i

end Tables

end Utterance

section Results

variable {u : Utterance} {α : Type}

def Run.toList (run : Run u α) : List α :=
  match _ : run.next? with
  | none => []
  | some (result, next) => result :: toList next
termination_by run.all.length
decreasing_by simp [all_of_next_some ‹_›]

theorem Run.to_list_eq (run : Run u α) : run.toList = run.all := by
  fun_induction toList run with
  | case1 run ended => rw [all_of_next_none ended]
  | case2 run result next given ih => rw [all_of_next_some given, ih]

/-- What a search finds when it is run to its end over an empty memo. -/
def Utterance.results (u : Utterance) (search : Search α) : List α :=
  Run.toList (u := u) { rest := search }

theorem Utterance.results_eq (search : Search α) : u.results search = search.all u.derivations :=
  Run.to_list_eq _

end Results

/-- Derivations depend only on the words that they span. What a production finds from a place on and
within a part of the words is what it finds in the part alone, one for one and in the same order,
with the words before the part added to where each ends. The same holds of rules. -/
theorem Utterance.derivations_of_span (lexicon : Lexicon) (before inside behind : List Word) :
    let whole : Utterance := ⟨before ++ inside ++ behind, lexicon⟩
    let part : Utterance := ⟨inside, lexicon⟩
    (∀ production, (whole.results (whole.production production before.length)).filter
        (fun d => d.stop ≤ before.length + inside.length) =
      (part.results (part.production production 0)).map
        fun d => ⟨d.attrs, before.length + d.stop⟩) ∧
    (whole.results (whole.rules before.length)).filter
        (fun (_, stop) => stop ≤ before.length + inside.length) =
      (part.results (part.rules 0)).map fun (rules, stop) => (rules, before.length + stop) := by
  intro whole part
  have contains : whole.Contains part before.length := .of_append before behind rfl rfl
  constructor
  · intro production
    rw [results_eq, results_eq]
    have agree := production_mirrors contains (derivations_agree contains) production 0
    exact agree.within (Nat.zero_le _)
  · rw [results_eq, results_eq]
    exact (rules_agree contains 0).within (Nat.zero_le _)

end ControlledEnglish
