import ControlledEnglish.Gloss
import ControlledEnglish.Proofs.Canonical.Clean

/-! Canonical phrases as trees: adverbs before what they modify, adjectives before their noun, and
clauses behind it.

A tree knows the words that it stands for and the attributes that they say, and the grammar allows
the one to be taken for the other. Where a clause has objects, so many as follow may belong to it;
which of them do is all that two trees with the same words can differ in. -/

namespace ControlledEnglish

namespace Canonical

open Gloss (andJoined)

structure Listed (lexicon : Lexicon) (category : Category) where
  text : String
  listed : lexicon.lookup text category = true

/-- Adverbs side by side, of which there is at least one. -/
structure Manner (lexicon : Lexicon) where
  adverbs : List (Listed lexicon .adverb)
  some : adverbs ≠ []

structure Quality (lexicon : Lexicon) where
  adverbs : List (Listed lexicon .adverb)
  adjective : Listed lexicon .adjective

structure Name (lexicon : Lexicon) where
  qualities : List (Quality lexicon)
  noun : Listed lexicon .noun

structure Action (lexicon : Lexicon) where
  manners : List (Manner lexicon)
  verb : Listed lexicon .verb

/-- What comes between a noun and the objects of its clause. -/
inductive Head (lexicon : Lexicon) where
  | does (action : Action lexicon)
  | has
  | is

/-- A noun that no object can follow. -/
inductive Leaf (lexicon : Lexicon) where
  | bare (name : Name lexicon)
  | acting (name : Name lexicon) (action : Action lexicon)

/-- One or more nouns joined by "and". The objects of a clause are such a group. -/
inductive Group (lexicon : Lexicon) where
  | one (leaf : Leaf lexicon)
  | more (leaf : Leaf lexicon) (rest : Group lexicon)
  | nested (name : Name lexicon) (head : Head lexicon) (objects : Group lexicon)
  | nestedMore (name : Name lexicon) (head : Head lexicon) (objects rest : Group lexicon)

/-- What can be said of "it". -/
inductive Predicate (lexicon : Lexicon) where
  | like (quality : Quality lexicon)
  | acting (action : Action lexicon)
  | nested (head : Head lexicon) (objects : Group lexicon)

variable {lexicon : Lexicon}

def Listed.attr {category : Category} (word : Listed lexicon category)
    (children : List Attr) : Attr :=
  ⟨category.kind, word.text, children⟩

def adverbWords (adverbs : List (Listed lexicon .adverb)) : List String := adverbs.map Listed.text

def adverbAttrs (adverbs : List (Listed lexicon .adverb)) : List Attr :=
  foldAdverbs (adverbs.map (Listed.attr · []))

namespace Quality

def words (quality : Quality lexicon) : List String :=
  adverbWords quality.adverbs ++ [quality.adjective.text]

def attr (quality : Quality lexicon) : Attr := quality.adjective.attr (adverbAttrs quality.adverbs)

end Quality

def qualityWords (qualities : List (Quality lexicon)) : List String := qualities.flatMap Quality.words

namespace Name

def words (name : Name lexicon) : List String := qualityWords name.qualities ++ [name.noun.text]

def attr (name : Name lexicon) (clause : List Attr) : Attr :=
  name.noun.attr (name.qualities.map Quality.attr ++ clause)

end Name

def mannerWords (manners : List (Manner lexicon)) : List String :=
  andJoined (manners.map fun manner => adverbWords manner.adverbs)

def mannerAttrs (manners : List (Manner lexicon)) : List Attr :=
  manners.flatMap fun manner => adverbAttrs manner.adverbs

namespace Action

def words (action : Action lexicon) : List String :=
  mannerWords action.manners ++ [action.verb.text]

def attr (action : Action lexicon) (objects : List Attr) : Attr :=
  action.verb.attr (mannerAttrs action.manners ++ objects)

end Action

namespace Head

def words : Head lexicon → List String
  | does action => action.words
  | has => ["has"]
  | is => ["is"]

def attrs (objects : List Attr) : Head lexicon → List Attr
  | does action => [action.attr objects]
  | has => toHasA objects
  | is => objects

end Head

namespace Leaf

def words : Leaf lexicon → List String
  | bare name => name.words
  | acting name action => name.words ++ "that" :: action.words

def attr : Leaf lexicon → Attr
  | bare name => name.attr []
  | acting name action => name.attr [action.attr []]

end Leaf

namespace Group

def words : Group lexicon → List String
  | one leaf => leaf.words
  | more leaf rest => leaf.words ++ "and" :: rest.words
  | nested name head objects => name.words ++ "that" :: (head.words ++ objects.words)
  | nestedMore name head objects rest =>
      name.words ++ "that" :: (head.words ++ objects.words) ++ "and" :: rest.words

def attrs : Group lexicon → List Attr
  | one leaf => [leaf.attr]
  | more leaf rest => leaf.attr :: rest.attrs
  | nested name head objects => [name.attr (head.attrs objects.attrs)]
  | nestedMore name head objects rest => name.attr (head.attrs objects.attrs) :: rest.attrs

def IsChain : Group lexicon → Prop
  | one _ => True
  | nested _ _ objects => objects.IsChain
  | more _ _ | nestedMore _ _ _ _ => False

theorem one_is_chain (leaf : Leaf lexicon) : (one leaf).IsChain := trivial

theorem nested_is_chain (name : Name lexicon) (head : Head lexicon) {objects : Group lexicon}
    (chain : objects.IsChain) : (nested name head objects).IsChain :=
  chain

end Group

namespace Predicate

def words : Predicate lexicon → List String
  | like quality => "is" :: quality.words
  | acting action => action.words
  | nested head objects => head.words ++ objects.words

def attrs : Predicate lexicon → List Attr
  | like quality => [quality.attr]
  | acting action => [action.attr []]
  | nested head objects => head.attrs objects.attrs

end Predicate

theorem forall_mem_and_joined {P : String → Prop} (joint : P "and") {parts : List (List String)}
    (all : ∀ part ∈ parts, ∀ word ∈ part, P word) : ∀ word ∈ andJoined parts, P word := by
  induction parts with
  | nil => exact List.forall_mem_nil _
  | cons part parts ih =>
      rcases List.forall_mem_cons.mp all with ⟨first, rest⟩
      cases parts with
      | nil =>
          rw [and_joined_singleton]
          exact first
      | cons next parts =>
          rw [and_joined_cons_cons, List.forall_mem_append, List.forall_mem_cons]
          exact ⟨first, joint, ih rest⟩

theorem manner_words_cons (first : Manner lexicon) (rest : List (Manner lexicon)) :
    ∃ (w : Listed lexicon .adverb) (ws : List String),
      mannerWords (first :: rest) = w.text :: ws := by
  obtain ⟨adverbs, some⟩ := first
  cases adverbs with
  | nil => exact absurd rfl some
  | cons w adverbs =>
      cases rest with
      | nil => exact ⟨w, adverbWords adverbs, by simp [mannerWords, adverbWords]⟩
      | cons next rest => exact ⟨w, _, by simp [mannerWords, adverbWords]; rfl⟩

theorem Action.first_word (action : Action lexicon) : ∃ category,
    ∃ (w : Listed lexicon category) (rest : List String), action.words = w.text :: rest := by
  obtain ⟨manners, verb⟩ := action
  cases manners with
  | nil => exact ⟨.verb, verb, [], rfl⟩
  | cons first rest =>
      obtain ⟨w, ws, words⟩ := manner_words_cons first rest
      exact ⟨.adverb, w, ws ++ [verb.text], by rw [Action.words, words]; rfl⟩

theorem Quality.first_word (quality : Quality lexicon) : ∃ category, category ≠ .verb ∧
    ∃ (w : Listed lexicon category) (rest : List String), quality.words = w.text :: rest := by
  obtain ⟨adverbs, adjective⟩ := quality
  cases adverbs with
  | nil => exact ⟨.adjective, by decide, adjective, [], rfl⟩
  | cons adverb adverbs => exact ⟨.adverb, by decide, adverb, _, rfl⟩

theorem Name.first_word (name : Name lexicon) : ∃ category, category ≠ .verb ∧
    ∃ (w : Listed lexicon category) (rest : List String), name.words = w.text :: rest := by
  obtain ⟨qualities, noun⟩ := name
  cases qualities with
  | nil => exact ⟨.noun, by decide, noun, [], rfl⟩
  | cons quality qualities =>
      obtain ⟨category, no_verb, w, rest, starts⟩ := quality.first_word
      refine ⟨category, no_verb, w, rest ++ Name.words ⟨qualities, noun⟩, ?_⟩
      rw [Name.words, qualityWords, List.flatMap_cons, starts, List.append_assoc]
      rfl

theorem Group.first_name (group : Group lexicon) :
    ∃ (name : Name lexicon) (rest : List String), group.words = name.words ++ rest := by
  cases group with
  | one leaf =>
      cases leaf with
      | bare name => exact ⟨name, [], by simp [words, Leaf.words]⟩
      | acting name action => exact ⟨name, _, rfl⟩
  | more leaf rest =>
      cases leaf with
      | bare name => exact ⟨name, _, rfl⟩
      | acting name action => exact ⟨name, _, by rw [words, Leaf.words, List.append_assoc]⟩
  | nested name head objects => exact ⟨name, _, rfl⟩
  | nestedMore name head objects rest => exact ⟨name, _, by rw [words, List.append_assoc]⟩

def Group.append : Group lexicon → Group lexicon → Group lexicon
  | .one leaf, rest => .more leaf rest
  | .more leaf others, rest => .more leaf (others.append rest)
  | .nested name head objects, rest => .nestedMore name head objects rest
  | .nestedMore name head objects others, rest => .nestedMore name head objects (others.append rest)

theorem Group.words_append (group rest : Group lexicon) :
    (group.append rest).words = group.words ++ "and" :: rest.words := by
  induction group with
  | one | nested => rfl
  | more leaf others ih => rw [append, words, words, ih, List.append_assoc, List.cons_append]
  | nestedMore name head objects others _ ih =>
      rw [append, words, words, ih, List.append_assoc _ _ ("and" :: rest.words), List.cons_append]

theorem Group.attrs_append (group rest : Group lexicon) :
    (group.append rest).attrs = group.attrs ++ rest.attrs := by
  induction group with
  | one | nested => rfl
  | more leaf others ih => rw [append, attrs, attrs, ih, List.cons_append]
  | nestedMore name head objects others _ ih => rw [append, attrs, attrs, ih, List.cons_append]

theorem Listed.derives {category : Category} (word : Listed lexicon category) :
    Derives lexicon (Phrase.word category) (plain [word.text]) [word.attr []] :=
  .word (.listed word.listed)

theorem adverb_run_derives {adverbs : List (Listed lexicon .adverb)} (some : adverbs ≠ []) :
    Derives lexicon Phrase.adverbRun (plain (adverbWords adverbs))
      (adverbs.map (Listed.attr · [])) := by
  induction adverbs with
  | nil => exact absurd rfl some
  | cons first rest ih =>
      cases rest with
      | nil => exact .adverb first.derives
      | cons next rest => exact .adverbs first.derives (ih (by simp))

theorem Manner.derives (manner : Manner lexicon) :
    Derives lexicon Phrase.adverbGroup (plain (adverbWords manner.adverbs))
      (adverbAttrs manner.adverbs) :=
  .adverbGroup (adverb_run_derives manner.some)

theorem adverbs_opt_derives (adverbs : List (Listed lexicon .adverb)) :
    Derives lexicon Phrase.adverbsOpt (plain (adverbWords adverbs)) (adverbAttrs adverbs) := by
  by_cases none : adverbs = []
  · subst none
    exact .noAdverbs
  · exact .someAdverbs (.adverbGroup (adverb_run_derives none))

theorem Quality.derives (quality : Quality lexicon) :
    Derives lexicon Phrase.adjectivePhrase (plain quality.words) [quality.attr] := by
  have phrase := Derives.adjectivePhrase (adverbs_opt_derives quality.adverbs)
    quality.adjective.derives
  simpa [Quality.words, Quality.attr, Listed.attr, attach] using phrase

theorem qualities_derive (qualities : List (Quality lexicon)) :
    Derives lexicon Phrase.adjectivePhrases (plain (qualityWords qualities))
      (qualities.map Quality.attr) := by
  induction qualities with
  | nil => exact .noAdjectives
  | cons first rest ih =>
      have phrases := Derives.adjectives first.derives ih
      simpa [qualityWords] using phrases

theorem Name.derives (name : Name lexicon) :
    Derives lexicon Phrase.nounPhrase (plain name.words) [name.attr []] := by
  have phrase := Derives.noun .noDeterminer (qualities_derive name.qualities) name.noun.derives
  simpa [Name.words, Name.attr, Listed.attr, attach] using phrase

theorem Name.derives_clause (name : Name lexicon) {ws : List Word} {clause : List Attr}
    (predicate : Derives lexicon Phrase.verbPhrase ws clause) :
    Derives lexicon Phrase.nounPhrase (plain name.words ++ .plain "that" :: ws)
      [name.attr clause] := by
  have phrase := Derives.nounClause .noDeterminer (qualities_derive name.qualities)
    name.noun.derives (.relativeClause predicate)
  simpa [Name.words, Name.attr, Listed.attr, attach] using phrase

theorem manners_derive {manners : List (Manner lexicon)} (some : manners ≠ []) :
    Derives lexicon (.joined .adverbGroup) (plain (mannerWords manners)) (mannerAttrs manners) := by
  induction manners with
  | nil => exact absurd rfl some
  | cons first rest ih =>
      cases rest with
      | nil => simpa [mannerWords, mannerAttrs] using Derives.single first.derives
      | cons next rest =>
          have joined := Derives.several first.derives (ih (by simp))
          simpa [mannerWords, mannerAttrs] using joined

theorem manners_opt_derive (manners : List (Manner lexicon)) :
    Derives lexicon (.joinedOpt .adverbGroup) (plain (mannerWords manners))
      (mannerAttrs manners) := by
  by_cases none : manners = []
  · subst none
    exact .noItems
  · exact .items (manners_derive none)

theorem Action.derives (action : Action lexicon) {ws : List Word} {objects : List Attr}
    (given : Derives lexicon (.joinedOpt .nounPhrase) ws objects) :
    Derives lexicon Phrase.verbPhrase (plain action.words ++ ws) [action.attr objects] := by
  have phrase := Derives.action (manners_opt_derive action.manners) action.verb.derives given
  simpa [Action.words, Action.attr, Listed.attr, attach] using phrase

theorem Action.derives_alone (action : Action lexicon) :
    Derives lexicon Phrase.verbPhrase (plain action.words) [action.attr []] := by
  simpa using action.derives .noItems

theorem Head.derives (head : Head lexicon) {ws : List Word} {objects : List Attr}
    (given : Derives lexicon (.joined .nounPhrase) ws objects) :
    Derives lexicon Phrase.verbPhrase (plain head.words ++ ws) (head.attrs objects) := by
  cases head with
  | does action => exact action.derives (.items given)
  | has => exact .possession (by decide) given
  | is => exact .identity (by decide) given

theorem Leaf.derives (leaf : Leaf lexicon) :
    Derives lexicon Phrase.nounPhrase (plain leaf.words) [leaf.attr] := by
  cases leaf with
  | bare name => exact name.derives
  | acting name action => simpa [words, attr] using name.derives_clause action.derives_alone

theorem Group.derives (group : Group lexicon) :
    Derives lexicon (.joined .nounPhrase) (plain group.words) group.attrs := by
  induction group with
  | one leaf => exact .single leaf.derives
  | more leaf rest ih => simpa [words, attrs] using Derives.several leaf.derives ih
  | nested name head objects ih =>
      have phrase := name.derives_clause (head.derives ih)
      simpa [words, attrs] using Derives.single phrase
  | nestedMore name head objects rest ih rest_ih =>
      have phrase := name.derives_clause (head.derives ih)
      simpa [words, attrs] using Derives.several phrase rest_ih

theorem Predicate.derives (predicate : Predicate lexicon) :
    Derives lexicon Phrase.verbPhrase (plain predicate.words) predicate.attrs := by
  cases predicate with
  | like quality => exact .likeness (by decide) (.single quality.derives)
  | acting action => exact action.derives_alone
  | nested head objects => simpa [words, attrs] using head.derives objects.derives

end Canonical

end ControlledEnglish
