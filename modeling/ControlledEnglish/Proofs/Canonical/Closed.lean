import ControlledEnglish.Proofs.Canonical.Phrases

/-! What the search finds in canonical text, in its own order.

Only derivations that are closed off matter to whoever asked for them: those that stop before "and"
or "then" or at the end. A derivation that stops anywhere else stops in the middle of a phrase, and
nothing can be put after it. -/

namespace ControlledEnglish

def Derivation.stopping (p : Nat → Bool) (l : List Derivation) : List Derivation :=
  l.filter fun d => p d.stop

namespace Derivation

variable {p : Nat → Bool}

@[simp] theorem stopping_nil : stopping p [] = [] := rfl

@[simp] theorem stopping_append (l m : List Derivation) :
    stopping p (l ++ m) = stopping p l ++ stopping p m :=
  List.filter_append ..

theorem stopping_map (f : List Attr → List Attr) (l : List Derivation) :
    stopping p (l.map (.map f)) = (stopping p l).map (.map f) :=
  List.filter_map

theorem stopping_cons (d : Derivation) (l : List Derivation) :
    stopping p (d :: l) = if p d.stop then d :: stopping p l else stopping p l :=
  List.filter_cons

theorem mem_stopping {l : List Derivation} {d : Derivation} :
    d ∈ stopping p l ↔ d ∈ l ∧ p d.stop = true :=
  List.mem_filter

theorem stopping_flatMap (f : Derivation → List Derivation) (l : List Derivation) :
    stopping p (l.flatMap f) = l.flatMap fun d => stopping p (f d) := by
  simp [stopping, List.filter_flatMap]

theorem flatMap_stopping {f : Derivation → List Derivation} {l : List Derivation}
    (useless : ∀ d ∈ l, p d.stop = false → f d = []) : l.flatMap f = (stopping p l).flatMap f :=
  flatMap_filter useless

/-- Only what something can follow counts, and that is as if there were one derivation. -/
theorem flatMap_eq_of_stopping {f : Derivation → List Derivation} {l : List Derivation}
    {d : Derivation} (useless : ∀ e, p e.stop = false → f e = [])
    (same : stopping p l = stopping p [d]) : l.flatMap f = f d := by
  calc
    l.flatMap f = (stopping p l).flatMap f := flatMap_stopping fun e _ => useless e
    _ = (stopping p [d]).flatMap f := by rw [same]
    _ = [d].flatMap f := (flatMap_stopping fun e _ => useless e).symm
    _ = f d := List.flatMap_singleton ..

end Derivation

open ControlledEnglish.Derivation Canonical

namespace Utterance

variable {u : Utterance} {i j k : Nat} {category other : Category}

def Lacks (u : Utterance) (category : Category) (i : Nat) : Prop :=
  u.derivations ⟨Phrase.word category, i⟩ = []

def bears (u : Utterance) (category : Category) (i : Nat) : Bool :=
  !(u.derivations ⟨Phrase.word category, i⟩).isEmpty

theorem lacks_of_not_bears (h : u.bears category i = false) : u.Lacks category i := by
  simpa [bears, Lacks] using h

theorem lacks_of_unread
    (unread : ∀ w text, u.words[i]? = some w → ¬Reads u.lexicon category w text) :
    u.Lacks category i := by
  refine List.eq_nil_iff_forall_not_mem.mpr fun d member => ?_
  rw [← all_word, mem_all_word] at member
  obtain ⟨w, text, found, reads, -⟩ := member
  exact unread w text found reads

theorem lacks_of_end (none : u.words[i]? = none) : u.Lacks category i := by
  refine lacks_of_unread fun w text found => ?_
  rw [none] at found
  cases found

section Clean

variable (clean : u.lexicon.IsClean)

include clean

theorem lacks_of_keyword {w : String} (found : u.words[i]? = some (.plain w))
    (keyword : w ∈ keywords) : u.Lacks category i := by
  refine lacks_of_unread fun v text here => ?_
  rw [found] at here
  cases here
  exact clean.not_reads_keyword keyword

theorem lacks_of_listed {w : Listed u.lexicon category} (found : u.words[i]? = some (.plain w.text))
    (differ : category ≠ other) : u.Lacks other i := by
  refine lacks_of_unread fun v text here => ?_
  rw [found] at here
  cases here
  exact clean.not_reads_other w.listed differ

theorem derivations_listed {w : Listed u.lexicon category}
    (found : u.words[i]? = some (.plain w.text)) :
    u.derivations ⟨Phrase.word category, i⟩ = [⟨[w.attr []], i + 1⟩] := by
  have unspelled := of_spelling_eq_none (clean.bare _ _ w.listed).unquoted
  rw [← all_word]
  simp [word, found, w.listed, unspelled, Listed.attr]

theorem is_keyword_of_listed {w : Listed u.lexicon category} {options : List String}
    (found : u.words[i]? = some (.plain w.text)) (known : options ⊆ keywords) :
    u.isKeyword i options = false := by
  have unlisted : w.text ∉ options := fun listed =>
    clean.no_keyword w.text category w.listed (known listed)
  simp [isKeyword, found, Word.isPlain, unlisted]

theorem not_lacks_of_listed {w : Listed u.lexicon category}
    (found : u.words[i]? = some (.plain w.text)) : ¬u.Lacks category i := by
  rw [Lacks, derivations_listed clean found]
  exact List.cons_ne_nil _ _

end Clean

theorem is_keyword_of_found {w : String} {options : List String}
    (found : u.words[i]? = some (.plain w)) : u.isKeyword i options = options.contains w := by
  rw [isKeyword, found]
  rfl

def closes (u : Utterance) (i : Nat) : Bool :=
  match u.words[i]? with
  | none => true
  | some w => w == .plain "and" || w == .plain "then"

theorem closes_iff : u.closes i = true ↔ u.words[i]? = none ∨
    u.words[i]? = some (.plain "and") ∨ u.words[i]? = some (.plain "then") := by
  rw [closes]
  split
  · next none => simp [none]
  · next w found => simp [found]

section Adverbs

theorem adverb_run_eq_nil (lacks : u.Lacks .adverb i) :
    u.derivations ⟨Phrase.adverbRun, i⟩ = [] := by
  rw [derivations_adverb_run, lacks, List.flatMap_nil]

theorem adverb_group_eq_nil (lacks : u.Lacks .adverb i) :
    u.derivations ⟨Phrase.adverbGroup, i⟩ = [] := by
  rw [derivations_adverb_group, adverb_run_eq_nil lacks, List.map_nil]

variable (clean : u.lexicon.IsClean) {adverbs : List (Listed u.lexicon .adverb)} {p : Nat → Bool}
  (skips : ∀ s, p s = true → u.Lacks .adverb s)

include clean skips

theorem adverb_run_stopping (some : adverbs ≠ [])
    (spans : u.Spans i (plain (adverbWords adverbs)) k) (ends : u.Lacks .adverb k) :
    stopping p (u.derivations ⟨Phrase.adverbRun, i⟩) =
      stopping p [⟨adverbs.map (Listed.attr · []), k⟩] := by
  induction adverbs generalizing i with
  | nil => exact absurd rfl some
  | cons first rest ih =>
      obtain ⟨found, after⟩ := spans.of_cons
      rw [derivations_adverb_run, derivations_listed clean found, List.flatMap_singleton,
        stopping_append, stopping_map]
      cases rest with
      | nil =>
          obtain rfl : k = i + 1 := after.stop
          rw [adverb_run_eq_nil ends]
          rfl
      | cons next rest =>
          have adverb := not_lacks_of_listed clean after.of_cons.1
          have short : stopping p [⟨[first.attr []], i + 1⟩] = [] := by
            rw [stopping_cons, if_neg fun stops => adverb (skips _ stops), stopping_nil]
          rw [ih (by simp) after, short, List.append_nil, ← stopping_map]
          rfl

theorem adverb_group_stopping (some : adverbs ≠ [])
    (spans : u.Spans i (plain (adverbWords adverbs)) k) (ends : u.Lacks .adverb k) :
    stopping p (u.derivations ⟨Phrase.adverbGroup, i⟩) =
      stopping p [⟨adverbAttrs adverbs, k⟩] := by
  rw [derivations_adverb_group, stopping_map,
    adverb_run_stopping clean skips some spans ends, ← stopping_map]
  rfl

theorem adverbs_opt_stopping (spans : u.Spans i (plain (adverbWords adverbs)) k)
    (ends : u.Lacks .adverb k) :
    stopping p (u.derivations ⟨Phrase.adverbsOpt, i⟩) =
      stopping p [⟨adverbAttrs adverbs, k⟩] := by
  rw [derivations_adverbs_opt, stopping_append]
  cases adverbs with
  | nil =>
      obtain rfl : k = i := spans.stop
      rw [adverb_group_eq_nil ends]
      rfl
  | cons first rest =>
      have adverb := not_lacks_of_listed clean spans.of_cons.1
      have early : stopping p [⟨[], i⟩] = [] := by
        rw [stopping_cons, if_neg fun stops => adverb (skips _ stops), stopping_nil]
      rw [adverb_group_stopping clean skips (by simp) spans ends, early, List.append_nil]

end Adverbs

section Names

variable (clean : u.lexicon.IsClean) {p : Nat → Bool}

include clean

theorem lacks_of_bears (differ : category ≠ other) (bears : u.bears category i = true) :
    u.Lacks other i := by
  refine lacks_of_unread fun w text found reads => differ ?_
  obtain ⟨d, member⟩ := List.isEmpty_eq_false_iff_exists_mem.mp (by simpa [Utterance.bears] using bears)
  rw [← all_word, mem_all_word] at member
  obtain ⟨v, text', here, reads', -⟩ := member
  rw [found] at here
  cases here
  exact clean.category_eq reads' reads

theorem not_keyword_of_bears {options : List String} (known : options ⊆ keywords)
    (bears : u.bears category i = true) : u.isKeyword i options = false := by
  refine Bool.eq_false_iff.mpr fun keyword => ?_
  obtain ⟨w, listed, found⟩ := is_keyword_iff.mp keyword
  have lacks : u.Lacks category i := lacks_of_keyword clean found (known listed)
  rw [Utterance.bears, lacks] at bears
  cases bears

theorem adjective_phrase_after_adverbs {adverbs : List (Listed u.lexicon .adverb)}
    (spans : u.Spans i (plain (adverbWords adverbs)) k) (ends : u.Lacks .adverb k) :
    u.derivations ⟨Phrase.adjectivePhrase, i⟩ =
      (u.derivations ⟨Phrase.word .adjective, k⟩).map (.map (attach · (adverbAttrs adverbs))) := by
  rw [derivations_adjective_phrase]
  refine flatMap_eq_of_stopping (fun e lacks => ?_)
    (adverbs_opt_stopping clean (p := u.bears .adjective) (fun s bears => ?_) spans ends)
  · rw [lacks_of_not_bears lacks, List.map_nil]
  · exact lacks_of_bears clean (by decide) bears

theorem adjective_phrase_eq_nil (no_adverb : u.Lacks .adverb i)
    (no_adjective : u.Lacks .adjective i) : u.derivations ⟨Phrase.adjectivePhrase, i⟩ = [] := by
  have none : u.Spans i (plain (adverbWords ([] : List (Listed u.lexicon .adverb)))) i := .nil
  rw [adjective_phrase_after_adverbs clean none no_adverb, no_adjective, List.map_nil]

theorem quality_word {quality : Quality u.lexicon} (spans : u.Spans i (plain quality.words) k) :
    ¬(u.Lacks .adverb i ∧ u.Lacks .adjective i) := by
  rintro ⟨no_adverb, no_adjective⟩
  obtain ⟨adverbs, adjective⟩ := quality
  cases adverbs with
  | nil => exact not_lacks_of_listed clean spans.of_cons.1 no_adjective
  | cons first rest => exact not_lacks_of_listed clean spans.of_cons.1 no_adverb

theorem derivations_quality {quality : Quality u.lexicon}
    (spans : u.Spans i (plain quality.words) k) :
    u.derivations ⟨Phrase.adjectivePhrase, i⟩ = [⟨[quality.attr], k⟩] := by
  rw [Quality.words, plain_append] at spans
  obtain ⟨m, adverbs, adjective⟩ := spans.split
  obtain ⟨found, rfl⟩ := spans_singleton_iff.mp adjective
  rw [adjective_phrase_after_adverbs clean adverbs (lacks_of_listed clean found (by decide)),
    derivations_listed clean found]
  simp [Derivation.map, attach, Quality.attr, Listed.attr]

theorem adjective_phrases_stopping {qualities : List (Quality u.lexicon)}
    (skips : ∀ s, p s = true → u.Lacks .adverb s ∧ u.Lacks .adjective s)
    (spans : u.Spans i (plain (qualityWords qualities)) k) (no_adverb : u.Lacks .adverb k)
    (no_adjective : u.Lacks .adjective k) :
    stopping p (u.derivations ⟨Phrase.adjectivePhrases, i⟩) =
      stopping p [⟨qualities.map Quality.attr, k⟩] := by
  induction qualities generalizing i with
  | nil =>
      obtain rfl : k = i := spans.stop
      rw [derivations_adjective_phrases, adjective_phrase_eq_nil clean no_adverb no_adjective]
      rfl
  | cons quality qualities ih =>
      rw [qualityWords, List.flatMap_cons, plain_append] at spans
      obtain ⟨m, first, rest⟩ := spans.split
      have early : stopping p [⟨[], i⟩] = [] := by
        rw [stopping_cons, if_neg fun stops => ?_, stopping_nil]
        exact quality_word clean first (skips i stops)
      rw [derivations_adjective_phrases, derivations_quality clean first, stopping_append, early,
        List.append_nil, List.flatMap_singleton, stopping_map, ih rest, ← stopping_map]
      rfl

omit clean in
theorem name_word {name : Name u.lexicon} (spans : u.Spans i (plain name.words) k) :
    ∃ category, category ≠ .verb ∧
      ∃ w : Listed u.lexicon category, u.words[i]? = some (.plain w.text) := by
  obtain ⟨category, differ, w, rest, words⟩ := name.first_word
  rw [words] at spans
  exact ⟨category, differ, w, spans.of_cons.1⟩

theorem derivations_name {name : Name u.lexicon} (spans : u.Spans i (plain name.words) k) :
    u.derivations ⟨Phrase.nounPhrase, i⟩ =
      ⟨[name.attr []], k⟩ :: (u.derivations ⟨Phrase.relativeClause, k⟩).map
        (.map fun clause => [name.attr clause]) := by
  obtain ⟨category, -, w, found⟩ := name_word spans
  have no_it : u.isKeyword i ["it"] = false := is_keyword_of_listed clean found (by decide)
  have no_determiner : u.isKeyword i determiners = false :=
    is_keyword_of_listed clean found (by decide)
  rw [Name.words, plain_append] at spans
  obtain ⟨m, qualities, noun⟩ := spans.split
  obtain ⟨here, rfl⟩ := spans_singleton_iff.mp noun
  have adjectives := adjective_phrases_stopping clean (p := u.bears .noun)
    (fun s bears => ⟨lacks_of_bears clean (by decide) bears,
      lacks_of_bears clean (by decide) bears⟩)
    qualities (lacks_of_listed clean here (by decide)) (lacks_of_listed clean here (by decide))
  rw [derivations_noun_phrase, no_it, derivations_determiner, no_determiner]
  simp only [Bool.false_eq_true, if_false, List.flatMap_singleton]
  rw [flatMap_eq_of_stopping _ adjectives, derivations_listed clean here]
  · simp [Derivation.map, attach, Name.attr, Listed.attr]
  · intro e lacks
    rw [lacks_of_not_bears lacks, List.flatMap_nil]

end Names

theorem derivations_joined_of_stopping {item : Phrase} {d : Derivation}
    (same : stopping (u.isKeyword · ["and"]) (u.derivations ⟨item, i⟩) =
      stopping (u.isKeyword · ["and"]) [d]) :
    u.derivations ⟨.joined item, i⟩ =
      (if u.isKeyword d.stop ["and"] then
        (u.derivations ⟨.joined item, d.stop + 1⟩).map (.map (d.attrs ++ ·))
      else []) ++ u.derivations ⟨item, i⟩ := by
  rw [derivations_joined]
  congr 1
  refine flatMap_eq_of_stopping (fun e no_and => ?_) same
  rw [if_neg (by simp [no_and])]

theorem joined_eq_nil {item : Phrase} (none : u.derivations ⟨item, i⟩ = []) :
    u.derivations ⟨.joined item, i⟩ = [] := by
  rw [derivations_joined, none]
  rfl

theorem joined_adverbs_eq_nil (lacks : u.Lacks .adverb i) :
    u.derivations ⟨.joined .adverbGroup, i⟩ = [] :=
  joined_eq_nil (adverb_group_eq_nil lacks)

section Actions

variable (clean : u.lexicon.IsClean) {p : Nat → Bool} {manners : List (Manner u.lexicon)}
  (skips : ∀ s, p s = true → u.Lacks .adverb s ∧ u.isKeyword s ["and"] = false)

include clean skips

theorem manners_stopping (some : manners ≠ []) (spans : u.Spans i (plain (mannerWords manners)) k)
    (ends : u.Lacks .adverb k) (no_and : u.isKeyword k ["and"] = false) :
    stopping p (u.derivations ⟨.joined .adverbGroup, i⟩) =
      stopping p [⟨mannerAttrs manners, k⟩] := by
  have after_and (s : Nat) (here : u.isKeyword s ["and"] = true) : u.Lacks .adverb s :=
    lacks_of_keyword clean (is_keyword_singleton_iff.mp here) (by decide)
  have no_adverb (s : Nat) (stops : p s = true) := (skips s stops).1
  induction manners generalizing i with
  | nil => exact absurd rfl some
  | cons first rest ih =>
      cases rest with
      | nil =>
          rw [mannerWords, List.map_singleton, and_joined_singleton] at spans
          rw [derivations_joined_of_stopping
            (adverb_group_stopping clean after_and first.some spans ends), no_and,
            stopping_append, adverb_group_stopping clean no_adverb first.some spans ends]
          simp [mannerAttrs]
      | cons next rest =>
          rw [mannerWords, List.map_cons, List.map_cons, and_joined_cons_cons, plain_append] at spans
          obtain ⟨m, before, after⟩ := spans.split
          obtain ⟨here, after⟩ := after.of_cons
          rw [← is_keyword_singleton_iff] at here
          have lacks := after_and m here
          have short : stopping p (u.derivations ⟨Phrase.adverbGroup, i⟩) = [] := by
            rw [adverb_group_stopping clean no_adverb first.some before lacks, stopping_cons,
              if_neg fun stops => ?_, stopping_nil]
            simp [(skips m stops).2] at here
          rw [derivations_joined_of_stopping
            (adverb_group_stopping clean after_and first.some before lacks), if_pos here,
            stopping_append, short, List.append_nil, stopping_map, ih (by simp) after,
            ← stopping_map]
          rfl

theorem manners_opt_stopping (spans : u.Spans i (plain (mannerWords manners)) k)
    (ends : u.Lacks .adverb k) (no_and : u.isKeyword k ["and"] = false) :
    stopping p (u.derivations ⟨.joinedOpt .adverbGroup, i⟩) =
      stopping p [⟨mannerAttrs manners, k⟩] := by
  rw [derivations_joined_opt, stopping_append]
  cases manners with
  | nil =>
      obtain rfl : k = i := spans.stop
      rw [joined_adverbs_eq_nil ends]
      rfl
  | cons first rest =>
      have early : stopping p [⟨[], i⟩] = [] := by
        rw [stopping_cons, if_neg fun stops => ?_, stopping_nil]
        obtain ⟨w, ws, words⟩ := manner_words_cons first rest
        rw [words] at spans
        exact not_lacks_of_listed clean spans.of_cons.1 (skips i stops).1
      rw [manners_stopping clean skips (by simp) spans ends no_and, early, List.append_nil]

end Actions

section Predicates

variable (clean : u.lexicon.IsClean) {p : Nat → Bool}

include clean

theorem verb_phrase_action {action : Action u.lexicon} (spans : u.Spans i (plain action.words) k)
    (no_manner : stopping p (u.derivations ⟨.joined .adverbGroup, k⟩) = []) :
    stopping p (u.derivations ⟨Phrase.verbPhrase, i⟩) =
      (stopping p (u.derivations ⟨.joinedOpt .nounPhrase, k⟩)).map
        (.map fun objects => [action.attr objects]) := by
  obtain ⟨category, w, rest, words⟩ := action.first_word
  have found := (words ▸ spans).of_cons.1
  have not_has : u.isKeyword i possessionVerbs = false := is_keyword_of_listed clean found (by decide)
  have not_is : u.isKeyword i copulas = false := is_keyword_of_listed clean found (by decide)
  rw [Action.words, plain_append] at spans
  obtain ⟨m, manners, verb⟩ := spans.split
  obtain ⟨here, rfl⟩ := spans_singleton_iff.mp verb
  have before := manners_opt_stopping clean (p := u.bears .verb)
    (fun s bears => ⟨lacks_of_bears clean (by decide) bears, not_keyword_of_bears clean (by decide) bears⟩) manners
    (lacks_of_listed clean here (by decide)) (is_keyword_of_listed clean here (by decide))
  have manner : stopping p ((u.derivations ⟨Phrase.word .verb, i⟩).flatMap fun verb =>
      (u.derivations ⟨.joined .adverbGroup, verb.stop⟩).map (.map (attach verb.attrs))) = [] := by
    rcases given : action.manners with _ | ⟨first, others⟩
    · rw [given] at manners
      obtain rfl : m = i := manners.stop
      rw [derivations_listed clean here, List.flatMap_singleton, stopping_map, no_manner,
        List.map_nil]
    · obtain ⟨w, ws, words⟩ := manner_words_cons first others
      rw [given, words] at manners
      have no_verb : u.Lacks .verb i := lacks_of_listed clean manners.of_cons.1 (by decide)
      rw [no_verb, List.flatMap_nil, stopping_nil]
  rw [derivations_verb_phrase, not_has, not_is]
  simp only [Bool.false_eq_true, if_false, List.nil_append, List.append_nil]
  rw [stopping_append, manner, List.append_nil, flatMap_eq_of_stopping _ before,
    derivations_listed clean here, List.flatMap_singleton, stopping_map]
  · rfl
  · intro e lacks
    rw [lacks_of_not_bears lacks, List.flatMap_nil]

end Predicates

end Utterance

end ControlledEnglish
