import ControlledEnglish.Proofs.Canonical.Closed

namespace ControlledEnglish

open ControlledEnglish.Derivation Canonical

namespace Utterance

variable {u : Utterance} {i j k m : Nat}

def closed (u : Utterance) (goal : Goal) : List Derivation :=
  stopping u.closes (u.derivations goal)

theorem mem_closed {goal : Goal} {d : Derivation} :
    d ∈ u.closed goal ↔ d ∈ u.derivations goal ∧ u.closes d.stop = true :=
  mem_stopping

theorem closes_of_and (h : u.words[i]? = some (.plain "and")) : u.closes i = true :=
  closes_iff.mpr (.inr (.inl h))

theorem not_closes_of_found {w : String} (found : u.words[i]? = some (.plain w))
    (not_and : w ≠ "and") (not_then : w ≠ "then") : u.closes i = false := by
  simp [closes, found, not_and, not_then]

theorem is_keyword_of_closes {options : List String} (closes : u.closes i = true)
    (no_and : "and" ∉ options) (no_then : "then" ∉ options) : u.isKeyword i options = false := by
  refine Bool.eq_false_iff.mpr fun keyword => ?_
  obtain ⟨w, listed, found⟩ := is_keyword_iff.mp keyword
  rcases closes_iff.mp closes with none | here | here
  · rw [none] at found
    cases found
  · rw [here] at found
    cases found
    exact no_and listed
  · rw [here] at found
    cases found
    exact no_then listed

theorem noun_phrase_eq_nil (no_it : u.isKeyword i ["it"] = false)
    (no_determiner : u.isKeyword i determiners = false)
    (no_adjective : u.derivations ⟨Phrase.adjectivePhrase, i⟩ = []) (no_noun : u.Lacks .noun i) :
    u.derivations ⟨Phrase.nounPhrase, i⟩ = [] := by
  rw [derivations_noun_phrase, no_it, derivations_determiner, no_determiner]
  simp only [Bool.false_eq_true, if_false, List.flatMap_singleton]
  rw [derivations_adjective_phrases, no_adjective, List.flatMap_nil, List.nil_append,
    List.flatMap_singleton, no_noun, List.flatMap_nil]

theorem verb_phrase_of_keyword (no_adverb : u.Lacks .adverb i) (no_verb : u.Lacks .verb i) :
    u.derivations ⟨Phrase.verbPhrase, i⟩ =
      (if u.isKeyword i possessionVerbs then
        (u.derivations ⟨.joined .nounPhrase, i + 1⟩).map (.map toHasA)
      else []) ++
      if u.isKeyword i copulas then
        u.derivations ⟨.joined .adjectivePhrase, i + 1⟩ ++ u.derivations ⟨.joined .nounPhrase, i + 1⟩
      else [] := by
  rw [derivations_verb_phrase, derivations_joined_opt u .adverbGroup, joined_adverbs_eq_nil no_adverb]
  simp only [List.nil_append, List.flatMap_singleton]
  rw [no_verb, List.flatMap_nil, List.flatMap_nil, List.append_nil, List.append_nil]

theorem closed_joined (item : Phrase) (i : Nat) :
    u.closed ⟨.joined item, i⟩ =
      ((u.closed ⟨item, i⟩).flatMap fun first =>
        if u.isKeyword first.stop ["and"] then
          (u.closed ⟨.joined item, first.stop + 1⟩).map (.map (first.attrs ++ ·))
        else []) ++
      u.closed ⟨item, i⟩ := by
  have after_and (first : Derivation) (goes_on : u.closes first.stop = false) :
      (if u.isKeyword first.stop ["and"] then
        (u.derivations ⟨.joined item, first.stop + 1⟩).map (Derivation.map (first.attrs ++ ·))
      else []) = [] := by
    refine if_neg fun here => ?_
    rw [closes_of_and (is_keyword_singleton_iff.mp here)] at goes_on
    cases goes_on
  rw [closed, derivations_joined, stopping_append, flatMap_stopping fun first _ => after_and first,
    stopping_flatMap]
  congr 2
  funext first
  split
  · exact stopping_map ..
  · rfl

section Clean

variable (clean : u.lexicon.IsClean)

include clean

theorem lacks_of_closes {category : Category} (closes : u.closes i = true) :
    u.Lacks category i := by
  rcases closes_iff.mp closes with none | here | here
  · exact lacks_of_end none
  · exact lacks_of_keyword clean here (by decide)
  · exact lacks_of_keyword clean here (by decide)

theorem not_closes_of_listed {category : Category} {w : Listed u.lexicon category}
    (found : u.words[i]? = some (.plain w.text)) : u.closes i = false := by
  refine Bool.eq_false_iff.mpr fun closes => ?_
  exact not_lacks_of_listed clean found (lacks_of_closes clean closes)

theorem noun_phrase_of_closes (closes : u.closes i = true) :
    u.derivations ⟨Phrase.nounPhrase, i⟩ = [] :=
  noun_phrase_eq_nil (is_keyword_of_closes closes (by decide) (by decide))
    (is_keyword_of_closes closes (by decide) (by decide))
    (adjective_phrase_eq_nil clean (lacks_of_closes clean closes) (lacks_of_closes clean closes))
    (lacks_of_closes clean closes)

theorem objects_of_closes (closes : u.closes i = true) :
    u.derivations ⟨.joinedOpt .nounPhrase, i⟩ = [⟨[], i⟩] := by
  rw [derivations_joined_opt, derivations_joined, noun_phrase_of_closes clean closes]
  rfl

theorem not_closes_of_name {name : Name u.lexicon} (spans : u.Spans i (plain name.words) k) :
    u.closes i = false := by
  obtain ⟨category, -, w, found⟩ := name_word spans
  exact not_closes_of_listed clean found

theorem goes_on_of_listed {category : Category} {w : Listed u.lexicon category}
    (found : u.words[i]? = some (.plain w.text)) :
    u.closes i = false ∧ u.isKeyword i ["and"] = false :=
  ⟨not_closes_of_listed clean found, is_keyword_of_listed clean found (by decide)⟩

theorem closed_manners_before {adverbs : List (Listed u.lexicon .adverb)}
    (spans : u.Spans i (plain (adverbWords adverbs)) k) (ends : u.Lacks .adverb k)
    (goes_on : u.closes k = false ∧ u.isKeyword k ["and"] = false) :
    u.closed ⟨.joined .adverbGroup, i⟩ = [] := by
  by_cases none : adverbs = []
  · subst none
    obtain rfl : k = i := spans.stop
    rw [closed, joined_adverbs_eq_nil ends]
    rfl
  · have after_and (s : Nat) (here : u.isKeyword s ["and"] = true) : u.Lacks .adverb s :=
      lacks_of_keyword clean (is_keyword_singleton_iff.mp here) (by decide)
    have after_close (s : Nat) (closes : u.closes s = true) : u.Lacks .adverb s :=
      lacks_of_closes clean closes
    rw [closed, derivations_joined_of_stopping
      (adverb_group_stopping clean after_and none spans ends), goes_on.2, stopping_append,
      adverb_group_stopping clean after_close none spans ends, stopping_cons, goes_on.1]
    rfl

theorem closed_manners_of_name {name : Name u.lexicon} (spans : u.Spans i (plain name.words) k) :
    u.closed ⟨.joined .adverbGroup, i⟩ = [] := by
  obtain ⟨qualities, noun⟩ := name
  cases qualities with
  | nil =>
      have found := spans.of_cons.1
      have none : u.Spans i (plain (adverbWords ([] : List (Listed u.lexicon .adverb)))) i := .nil
      exact closed_manners_before clean none (lacks_of_listed clean found (by decide))
        (goes_on_of_listed clean found)
  | cons quality qualities =>
      obtain ⟨adverbs, adjective⟩ := quality
      rw [Name.words, qualityWords, List.flatMap_cons, Quality.words, List.append_assoc,
        List.append_assoc, plain_append] at spans
      obtain ⟨m, before, after⟩ := spans.split
      have found := after.of_cons.1
      exact closed_manners_before clean before (lacks_of_listed clean found (by decide))
        (goes_on_of_listed clean found)

theorem closed_qualities_of_name {name : Name u.lexicon} (spans : u.Spans i (plain name.words) k) :
    u.closed ⟨.joined .adjectivePhrase, i⟩ = [] := by
  obtain ⟨qualities, noun⟩ := name
  cases qualities with
  | nil =>
      have found := spans.of_cons.1
      rw [closed, derivations_joined, adjective_phrase_eq_nil clean
        (lacks_of_listed clean found (by decide)) (lacks_of_listed clean found (by decide))]
      rfl
  | cons quality qualities =>
      rw [Name.words, qualityWords, List.flatMap_cons, List.append_assoc, plain_append] at spans
      obtain ⟨m, first, rest⟩ := spans.split
      have tail : u.Spans m (plain (Name.words ⟨qualities, noun⟩)) k := rest
      obtain ⟨category, -, w, found⟩ := name_word tail
      obtain ⟨not_closes, not_and⟩ := goes_on_of_listed clean found
      rw [closed, derivations_joined, derivations_quality clean first, List.flatMap_singleton,
        not_and, stopping_append, stopping_cons, not_closes]
      rfl

theorem closed_objects_of_name {name : Name u.lexicon} (spans : u.Spans i (plain name.words) k) :
    u.closed ⟨.joinedOpt .nounPhrase, i⟩ = u.closed ⟨.joined .nounPhrase, i⟩ := by
  rw [closed, derivations_joined_opt, stopping_append, stopping_cons, not_closes_of_name clean spans]
  exact List.append_nil _

theorem verb_phrase_has (found : u.words[i]? = some (.plain "has")) :
    u.derivations ⟨Phrase.verbPhrase, i⟩ =
      (u.derivations ⟨.joined .nounPhrase, i + 1⟩).map (.map toHasA) := by
  rw [verb_phrase_of_keyword (lacks_of_keyword clean found (by decide))
    (lacks_of_keyword clean found (by decide)), is_keyword_of_found found, is_keyword_of_found found]
  exact List.append_nil _

theorem verb_phrase_is (found : u.words[i]? = some (.plain "is")) :
    u.derivations ⟨Phrase.verbPhrase, i⟩ =
      u.derivations ⟨.joined .adjectivePhrase, i + 1⟩ ++
        u.derivations ⟨.joined .nounPhrase, i + 1⟩ := by
  rw [verb_phrase_of_keyword (lacks_of_keyword clean found (by decide))
    (lacks_of_keyword clean found (by decide)), is_keyword_of_found found, is_keyword_of_found found]
  rfl

theorem closed_nested {head : Head u.lexicon} {name : Name u.lexicon}
    (spans : u.Spans i (plain head.words) j) (objects : u.Spans j (plain name.words) k) :
    u.closed ⟨Phrase.verbPhrase, i⟩ = (u.closed ⟨.joined .nounPhrase, j⟩).map (.map head.attrs) := by
  cases head with
  | does action =>
      have no_manner := closed_manners_of_name clean objects
      rw [closed, verb_phrase_action clean spans no_manner]
      exact congrArg (List.map _) (closed_objects_of_name clean objects)
  | has =>
      obtain ⟨found, rfl⟩ := spans_singleton_iff.mp spans
      rw [closed, verb_phrase_has clean found, stopping_map]
      rfl
  | is =>
      obtain ⟨found, rfl⟩ := spans_singleton_iff.mp spans
      have no_adjective := closed_qualities_of_name clean objects
      rw [closed] at no_adjective
      rw [closed, verb_phrase_is clean found, stopping_append, no_adjective, List.nil_append]
      exact (List.map_id' _).symm

theorem closed_acting {action : Action u.lexicon} (spans : u.Spans i (plain action.words) k)
    (closes : u.closes k = true) :
    u.closed ⟨Phrase.verbPhrase, i⟩ = [⟨[action.attr []], k⟩] := by
  have no_adverb : u.Lacks .adverb k := lacks_of_closes clean closes
  have no_manner := joined_adverbs_eq_nil no_adverb
  rw [closed, verb_phrase_action clean spans (by rw [no_manner, stopping_nil]),
    objects_of_closes clean closes, stopping_cons, closes]
  rfl

theorem closed_name {name : Name u.lexicon} (spans : u.Spans i (plain name.words) k)
    (closes : u.closes k = true) : u.closed ⟨Phrase.nounPhrase, i⟩ = [⟨[name.attr []], k⟩] := by
  have no_that : u.isKeyword k ["that"] = false :=
    is_keyword_of_closes closes (by decide) (by decide)
  rw [closed, derivations_name clean spans, derivations_relative_clause, no_that, stopping_cons,
    closes]
  rfl

theorem closed_clause {name : Name u.lexicon} (spans : u.Spans i (plain name.words) k)
    (that : u.words[k]? = some (.plain "that")) :
    u.closed ⟨Phrase.nounPhrase, i⟩ =
      (u.closed ⟨Phrase.verbPhrase, k + 1⟩).map (.map fun clause => [name.attr clause]) := by
  have goes_on : u.closes k = false := not_closes_of_found that (by decide) (by decide)
  rw [closed, derivations_name clean spans, derivations_relative_clause,
    if_pos (is_keyword_singleton_iff.mpr that), stopping_cons, goes_on, stopping_map]
  rfl

theorem closed_leaf {leaf : Leaf u.lexicon} (spans : u.Spans i (plain leaf.words) k)
    (closes : u.closes k = true) : u.closed ⟨Phrase.nounPhrase, i⟩ = [⟨[leaf.attr], k⟩] := by
  cases leaf with
  | bare name => exact closed_name clean spans closes
  | acting name action =>
      rw [Leaf.words, plain_append] at spans
      obtain ⟨m, before, after⟩ := spans.split
      obtain ⟨that, after⟩ := after.of_cons
      rw [closed_clause clean before that, closed_acting clean after closes]
      rfl

theorem closed_more {leaf : Leaf u.lexicon} (spans : u.Spans i (plain leaf.words) k)
    (joint : u.words[k]? = some (.plain "and")) :
    u.closed ⟨.joined .nounPhrase, i⟩ =
      (u.closed ⟨.joined .nounPhrase, k + 1⟩).map (.map (leaf.attr :: ·)) ++
        [⟨[leaf.attr], k⟩] := by
  rw [closed_joined, closed_leaf clean spans (closes_of_and joint), List.flatMap_singleton,
    if_pos (is_keyword_singleton_iff.mpr joint)]
  rfl

theorem closed_opener {name : Name u.lexicon} {head : Head u.lexicon} {objects : Group u.lexicon}
    (spans : u.Spans i (plain (name.words ++ "that" :: (head.words ++ objects.words))) k) :
    ∃ j, u.Spans j (plain objects.words) k ∧
      u.closed ⟨Phrase.nounPhrase, i⟩ = (u.closed ⟨.joined .nounPhrase, j⟩).map
        (.map fun given => [name.attr (head.attrs given)]) := by
  rw [plain_append, plain_cons, plain_append] at spans
  obtain ⟨m, before, after⟩ := spans.split
  obtain ⟨that, after⟩ := after.of_cons
  obtain ⟨j, start, after⟩ := after.split
  obtain ⟨first, rest, words⟩ := objects.first_name
  have opens := after
  rw [words, plain_append] at opens
  obtain ⟨l, first_spans, -⟩ := opens.split
  refine ⟨j, after, ?_⟩
  rw [closed_clause clean before that, closed_nested clean start first_spans, List.map_map]
  rfl

/-- All that is found ends there or later, and with these attributes if it ends there. -/
def EndsAt (u : Utterance) (goal : Goal) (k : Nat) (attrs : List Attr) : Prop :=
  ∀ d ∈ u.closed goal, k ≤ d.stop ∧ (d.stop = k → d.attrs = attrs)

omit clean in
theorem EndsAt.joined {item : Phrase} {attrs : List Attr} (advances : item.advances = true)
    (ends : u.EndsAt ⟨item, i⟩ k attrs) : u.EndsAt ⟨.joined item, i⟩ k attrs := by
  intro d given
  rw [closed_joined, List.mem_append, List.mem_flatMap] at given
  rcases given with ⟨first, member, later⟩ | member
  · have first_ends := ends first member
    split at later
    · obtain ⟨rest, found, rfl⟩ := List.mem_map.mp later
      have reaches := u.reaches_of_mem (mem_closed.mp found).1
      have beyond := reaches.start_lt advances
      simp only [Derivation.map] at beyond ⊢
      exact ⟨by omega, fun same => by omega⟩
    · cases later
  · exact ends d member

/-- A chain leaves no choice before its end. -/
theorem chain_ends {group : Group u.lexicon} (chain : group.IsChain)
    (spans : u.Spans i (plain group.words) k) (closes : u.closes k = true) :
    u.EndsAt ⟨.joined .nounPhrase, i⟩ k group.attrs := by
  induction group generalizing i with
  | one leaf =>
      refine EndsAt.joined rfl fun d given => ?_
      rw [closed_leaf clean spans closes, List.mem_singleton] at given
      subst given
      exact ⟨Nat.le_refl k, fun _ => rfl⟩
  | nested name head objects ih =>
      refine EndsAt.joined rfl fun d given => ?_
      obtain ⟨j, inner, same⟩ := closed_opener clean spans
      rw [same] at given
      obtain ⟨e, member, rfl⟩ := List.mem_map.mp given
      obtain ⟨later, exactly⟩ := ih chain inner e member
      exact ⟨later, fun here => by rw [Derivation.map, exactly here]; rfl⟩
  | more => exact absurd chain id
  | nestedMore => exact absurd chain id

end Clean

end Utterance

end ControlledEnglish
