import ControlledEnglish.Proofs.Canonical.Governed
import ControlledEnglish.Proofs.Canonical.Groups
import ControlledEnglish.Proofs.Reading

namespace ControlledEnglish

open ControlledEnglish.Derivation

namespace Canonical

open Gloss (andJoined)

variable {lexicon : Lexicon}

/-- What the sentences say one after the other, all of them about "it". -/
def saidWords (predicates : List (Predicate lexicon)) : List String :=
  andJoined (predicates.map fun predicate => "it" :: predicate.words)

def saidAttrs (predicates : List (Predicate lexicon)) : List Attr :=
  predicates.flatMap Predicate.attrs

@[simp] theorem said_words_singleton (predicate : Predicate lexicon) :
    saidWords [predicate] = "it" :: predicate.words :=
  and_joined_singleton _

@[simp] theorem said_words_cons_cons (first next : Predicate lexicon)
    (rest : List (Predicate lexicon)) :
    saidWords (first :: next :: rest) =
      "it" :: first.words ++ "and" :: saidWords (next :: rest) :=
  and_joined_cons_cons ..

@[simp] theorem said_attrs_cons (first : Predicate lexicon) (rest : List (Predicate lexicon)) :
    saidAttrs (first :: rest) = first.attrs ++ saidAttrs rest :=
  List.flatMap_cons ..

theorem said_attrs_singleton (predicate : Predicate lexicon) :
    saidAttrs [predicate] = predicate.attrs :=
  List.flatMap_singleton ..

structure Sentence (lexicon : Lexicon) where
  conditions : List (Predicate lexicon)
  conclusion : Predicate lexicon

namespace Sentence

def words (sentence : Sentence lexicon) : List String :=
  match sentence.conditions with
  | [] => "it" :: sentence.conclusion.words
  | conditions => "if" :: saidWords conditions ++ "then" :: "it" :: sentence.conclusion.words

def rules (sentence : Sentence lexicon) : List Rule :=
  buildRules (saidAttrs sentence.conditions) sentence.conclusion.attrs

end Sentence

theorem Predicate.derives_sentence (predicate : Predicate lexicon) :
    Derives lexicon Phrase.sentence (plain ("it" :: predicate.words)) predicate.attrs :=
  .itSentence predicate.derives

theorem said_derives {predicates : List (Predicate lexicon)} (some : predicates ≠ []) :
    Derives lexicon (.joined .sentence) (plain (saidWords predicates)) (saidAttrs predicates) := by
  induction predicates with
  | nil => exact absurd rfl some
  | cons first rest ih =>
      cases rest with
      | nil =>
          rw [said_words_singleton, said_attrs_singleton]
          exact .single first.derives_sentence
      | cons next rest =>
          rw [said_words_cons_cons, said_attrs_cons, plain_append]
          exact .several first.derives_sentence (ih (by simp))

theorem Sentence.derives (sentence : Sentence lexicon) :
    DerivesRules lexicon (plain sentence.words) sentence.rules := by
  obtain ⟨conditions, conclusion⟩ := sentence
  cases conditions with
  | nil => exact .fact conclusion.derives_sentence
  | cons first rest =>
      have conclusions := Derives.single conclusion.derives_sentence
      have derives := DerivesRules.conditional (said_derives (List.cons_ne_nil first rest)) conclusions
      simpa [words, rules] using derives

def innerKeywords : List String := ["and", "that", "has", "is"]

def IsUsed (lexicon : Lexicon) (word : String) : Prop :=
  word ∈ innerKeywords ∨ ∃ category, lexicon.lookup word category = true

section Used

theorem Listed.is_used {category : Category} (w : Listed lexicon category) :
    IsUsed lexicon w.text :=
  .inr ⟨category, w.listed⟩

theorem adverbs_listed (adverbs : List (Listed lexicon .adverb)) :
    ∀ word ∈ adverbWords adverbs, lexicon.lookup word .adverb = true := by
  intro word member
  obtain ⟨w, -, same⟩ := List.mem_map.mp member
  exact same ▸ w.listed

theorem Quality.words_listed (quality : Quality lexicon) : ∀ word ∈ quality.words,
    lexicon.lookup word .adverb = true ∨ lexicon.lookup word .adjective = true := by
  rw [words, List.forall_mem_append, List.forall_mem_singleton]
  exact ⟨fun word member => .inl (adverbs_listed _ word member), .inr quality.adjective.listed⟩

theorem Name.words_listed (name : Name lexicon) : ∀ word ∈ name.words,
    ∃ category, category ≠ .verb ∧ lexicon.lookup word category = true := by
  rw [words, List.forall_mem_append, List.forall_mem_singleton, qualityWords]
  refine ⟨fun word member => ?_, ⟨.noun, by decide, name.noun.listed⟩⟩
  obtain ⟨quality, -, here⟩ := List.mem_flatMap.mp member
  rcases quality.words_listed word here with listed | listed
  · exact ⟨.adverb, by decide, listed⟩
  · exact ⟨.adjective, by decide, listed⟩

theorem manners_listed (manners : List (Manner lexicon)) : ∀ word ∈ mannerWords manners,
    word = "and" ∨ lexicon.lookup word .adverb = true := by
  induction manners with
  | nil => exact List.forall_mem_nil _
  | cons first rest ih =>
      have here : ∀ word ∈ adverbWords first.adverbs,
          word = "and" ∨ lexicon.lookup word .adverb = true :=
        fun word member => .inr (adverbs_listed first.adverbs word member)
      cases rest with
      | nil =>
          rw [mannerWords, List.map_singleton, and_joined_singleton]
          exact here
      | cons next rest =>
          rw [mannerWords, List.map_cons, List.map_cons, and_joined_cons_cons,
            List.forall_mem_append, List.forall_mem_cons]
          exact ⟨here, .inl rfl, ih⟩

theorem Name.words_used (name : Name lexicon) : ∀ word ∈ name.words, IsUsed lexicon word := by
  intro word member
  obtain ⟨category, -, listed⟩ := name.words_listed word member
  exact .inr ⟨category, listed⟩

theorem Name.no_and (clean : lexicon.IsClean) (name : Name lexicon) : "and" ∉ name.words := by
  intro member
  obtain ⟨category, -, listed⟩ := name.words_listed "and" member
  exact clean.no_keyword "and" category listed (by decide)

theorem Action.words_used (action : Action lexicon) :
    ∀ word ∈ action.words, IsUsed lexicon word := by
  rw [words, List.forall_mem_append, List.forall_mem_singleton]
  refine ⟨fun word member => ?_, action.verb.is_used⟩
  rcases manners_listed _ word member with rfl | listed
  · exact .inl (by decide)
  · exact .inr ⟨.adverb, listed⟩

theorem Head.words_used (head : Head lexicon) : ∀ word ∈ head.words, IsUsed lexicon word := by
  cases head with
  | does action => exact action.words_used
  | has => exact List.forall_mem_singleton.mpr (.inl (by decide))
  | is => exact List.forall_mem_singleton.mpr (.inl (by decide))

theorem Leaf.words_used (leaf : Leaf lexicon) : ∀ word ∈ leaf.words, IsUsed lexicon word := by
  cases leaf with
  | bare name => exact name.words_used
  | acting name action =>
      rw [words, List.forall_mem_append, List.forall_mem_cons]
      exact ⟨name.words_used, .inl (by decide), action.words_used⟩

theorem Group.words_used (group : Group lexicon) : ∀ word ∈ group.words, IsUsed lexicon word := by
  have and_used : IsUsed lexicon "and" := .inl (by decide)
  have that_used : IsUsed lexicon "that" := .inl (by decide)
  induction group with
  | one leaf => exact leaf.words_used
  | more leaf rest ih =>
      rw [words, List.forall_mem_append, List.forall_mem_cons]
      exact ⟨leaf.words_used, and_used, ih⟩
  | nested name head objects ih =>
      rw [words, List.forall_mem_append, List.forall_mem_cons, List.forall_mem_append]
      exact ⟨name.words_used, that_used, head.words_used, ih⟩
  | nestedMore name head objects rest ih rest_ih =>
      rw [words, List.forall_mem_append, List.forall_mem_append, List.forall_mem_cons,
        List.forall_mem_cons, List.forall_mem_append]
      exact ⟨⟨name.words_used, that_used, head.words_used, ih⟩, and_used, rest_ih⟩

theorem Predicate.words_used (predicate : Predicate lexicon) :
    ∀ word ∈ predicate.words, IsUsed lexicon word := by
  cases predicate with
  | like quality =>
      refine List.forall_mem_cons.mpr ⟨.inl (by decide), fun word member => ?_⟩
      rcases quality.words_listed word member with listed | listed
      · exact .inr ⟨.adverb, listed⟩
      · exact .inr ⟨.adjective, listed⟩
  | acting action => exact action.words_used
  | nested head objects => exact List.forall_mem_append.mpr ⟨head.words_used, objects.words_used⟩

theorem IsUsed.not_outer (clean : lexicon.IsClean) {word : String} (used : IsUsed lexicon word)
    (outer : word ∉ innerKeywords) : word ∉ keywords := by
  rcases used with inner | ⟨category, listed⟩
  · exact absurd inner outer
  · exact clean.no_keyword word category listed

theorem IsUsed.bare (writable : lexicon.IsWritable) {word : String} (used : IsUsed lexicon word) :
    IsBare word := by
  rcases used with inner | ⟨category, listed⟩
  · have known : innerKeywords ⊆ keywords := by decide
    exact is_bare_of_mem_keywords (known inner)
  · exact writable word category listed

theorem Predicate.no_it (clean : lexicon.IsClean) (predicate : Predicate lexicon) :
    "it" ∉ predicate.words :=
  fun member => (predicate.words_used "it" member).not_outer clean (by decide) (by decide)

theorem said_words_used (predicates : List (Predicate lexicon)) :
    ∀ word ∈ saidWords predicates, word = "it" ∨ IsUsed lexicon word := by
  have one (predicate : Predicate lexicon) :
      ∀ word ∈ "it" :: predicate.words, word = "it" ∨ IsUsed lexicon word :=
    List.forall_mem_cons.mpr ⟨.inl rfl, fun word member => .inr (predicate.words_used word member)⟩
  induction predicates with
  | nil => exact List.forall_mem_nil _
  | cons first rest ih =>
      cases rest with
      | nil =>
          rw [said_words_singleton]
          exact one first
      | cons next rest =>
          rw [said_words_cons_cons, List.forall_mem_append]
          exact ⟨one first, List.forall_mem_cons.mpr ⟨.inr (.inl (by decide)), ih⟩⟩

theorem Sentence.words_used (sentence : Sentence lexicon) :
    ∀ word ∈ sentence.words, word ∈ ["if", "then", "it"] ∨ IsUsed lexicon word := by
  have said (predicates : List (Predicate lexicon)) :
      ∀ word ∈ saidWords predicates, word ∈ ["if", "then", "it"] ∨ IsUsed lexicon word := by
    intro word member
    rcases said_words_used predicates word member with rfl | used
    · exact .inl (by decide)
    · exact .inr used
  have conclusion : ∀ word ∈ "it" :: sentence.conclusion.words,
      word ∈ ["if", "then", "it"] ∨ IsUsed lexicon word :=
    List.forall_mem_cons.mpr ⟨.inl (by decide), fun word member =>
      .inr (sentence.conclusion.words_used word member)⟩
  rw [words]
  split
  · exact conclusion
  · rw [List.cons_append, List.forall_mem_cons, List.forall_mem_append, List.forall_mem_cons]
    exact ⟨.inl (by decide), said _, .inl (by decide), conclusion⟩

section OfUsed

variable {words : List String}
  (used : ∀ word ∈ words, word ∈ ["if", "then", "it"] ∨ IsUsed lexicon word)

include used

theorem words_bare_of_used (writable : lexicon.IsWritable) : ∀ word ∈ words, IsBare word := by
  have known : ["if", "then", "it"] ⊆ keywords := by decide
  intro word member
  rcases used word member with outer | used
  · exact is_bare_of_mem_keywords (known outer)
  · exact used.bare writable

theorem recognized_of_used : Utterance.check ⟨plain words, lexicon⟩ = .ok () := by
  have known : ["if", "then", "it"] ⊆ keywords := by decide
  have inside : innerKeywords ⊆ keywords := by decide
  apply Utterance.check_plain
  intro word member
  rcases used word member with outer | inner | ⟨category, listed⟩
  · exact .inl (known outer)
  · exact .inl (inside inner)
  · exact .inr (List.any_eq_true.mpr ⟨category, category.mem_all, listed⟩)

end OfUsed

theorem Sentence.words_bare (writable : lexicon.IsWritable) (sentence : Sentence lexicon) :
    ∀ word ∈ sentence.words, IsBare word :=
  words_bare_of_used sentence.words_used writable

theorem Sentence.recognized (sentence : Sentence lexicon) :
    Utterance.check ⟨plain sentence.words, lexicon⟩ = .ok () :=
  recognized_of_used sentence.words_used

end Used

section Governed

variable (clean : lexicon.IsClean) {before : Prop}

include clean

theorem Name.governed (name : Name lexicon) : Governed lexicon before (plain name.words) := by
  refine governed_of_no_head (List.forall_mem_map.mpr fun word member => ?_)
  obtain ⟨category, no_verb, listed⟩ := name.words_listed word member
  exact not_head_of_reads clean (.listed listed) no_verb

theorem Action.governed (action : Action lexicon) (given : before) :
    Governed lexicon before (plain action.words) := by
  have manners : ∀ w ∈ plain (mannerWords action.manners), IsManner lexicon w := by
    refine List.forall_mem_map.mpr fun word member => ?_
    rcases manners_listed _ word member with rfl | listed
    · exact .inl rfl
    · exact .inr ⟨word, .listed listed⟩
  have no_head : ∀ w ∈ plain (mannerWords action.manners), ¬IsHead lexicon w := by
    intro w member
    rcases manners w member with rfl | ⟨text, adverb⟩
    · exact not_head_of_keyword clean (by decide) (by decide)
    · exact not_head_of_reads clean adverb (by decide)
  rw [words, plain_append, governed_append]
  exact ⟨governed_of_no_head no_head, fun _ => ruled_of_manners manners given, trivial⟩

theorem Head.governed (head : Head lexicon) (given : before) :
    Governed lexicon before (plain head.words) := by
  cases head with
  | does action => exact action.governed clean given
  | has => exact ⟨fun _ => given, trivial⟩
  | is => exact ⟨fun _ => given, trivial⟩

theorem Name.governed_clause (name : Name lexicon) {ws : List Word}
    (clause : ∀ before, before → Governed lexicon before ws) :
    Governed lexicon before (plain name.words ++ .plain "that" :: ws) := by
  rw [governed_append]
  refine ⟨name.governed clean, fun head => absurd head ?_, clause _ (.inl rfl)⟩
  exact not_head_of_keyword clean (by decide) (by decide)

theorem Leaf.governed (leaf : Leaf lexicon) : Governed lexicon before (plain leaf.words) := by
  cases leaf with
  | bare name => exact name.governed clean
  | acting name action =>
      rw [words, plain_append, plain_cons]
      exact name.governed_clause clean fun _ given => action.governed clean given

theorem governed_and {ws : List Word} (rest : ∀ before, Governed lexicon before ws) :
    Governed lexicon before (.plain "and" :: ws) :=
  ⟨fun head => absurd head (not_head_of_keyword clean (by decide) (by decide)), rest _⟩

theorem Group.governed (group : Group lexicon) : Governed lexicon before (plain group.words) := by
  induction group generalizing before with
  | one leaf => exact leaf.governed clean
  | more leaf rest ih =>
      rw [words, plain_append, plain_cons, governed_append]
      exact ⟨leaf.governed clean, governed_and clean fun _ => ih⟩
  | nested name head objects ih =>
      rw [words, plain_append, plain_cons, plain_append]
      refine name.governed_clause clean fun _ given => governed_append.mpr ⟨?_, ih⟩
      exact head.governed clean given
  | nestedMore name head objects rest ih rest_ih =>
      rw [words, plain_append, plain_append, plain_cons, plain_cons, plain_append, governed_append]
      refine ⟨name.governed_clause clean fun _ given => ?_, governed_and clean fun _ => rest_ih⟩
      exact governed_append.mpr ⟨head.governed clean given, ih⟩

theorem Predicate.governed (predicate : Predicate lexicon) (given : before) :
    Governed lexicon before (plain predicate.words) := by
  cases predicate with
  | like quality =>
      refine ⟨fun _ => given, governed_of_no_head (List.forall_mem_map.mpr fun word member => ?_)⟩
      rcases quality.words_listed word member with listed | listed
      · exact not_head_of_reads clean (.listed listed) (by decide)
      · exact not_head_of_reads clean (.listed listed) (by decide)
  | acting action => exact action.governed clean given
  | nested head objects =>
      rw [words, plain_append, governed_append]
      exact ⟨head.governed clean given, objects.governed clean⟩

theorem said_governed (predicates : List (Predicate lexicon)) :
    Governed lexicon before (plain (saidWords predicates)) := by
  have it_free : ¬IsHead lexicon (.plain "it") := not_head_of_keyword clean (by decide) (by decide)
  have one (predicate : Predicate lexicon) (before : Prop) :
      Governed lexicon before (plain ("it" :: predicate.words)) :=
    ⟨fun head => absurd head it_free, predicate.governed clean (.inr (.inl rfl))⟩
  induction predicates generalizing before with
  | nil => trivial
  | cons first rest ih =>
      cases rest with
      | nil =>
          rw [said_words_singleton]
          exact one first before
      | cons next rest =>
          rw [said_words_cons_cons, plain_append,
            plain_cons, governed_append]
          exact ⟨one first before, governed_and clean fun _ => ih⟩

end Governed

end Canonical

end ControlledEnglish
