import ControlledEnglish.Lexicon
import ControlledEnglish.Grammar.Search

/-! The grammar, alternatives in the order in which they are tried:

* a rule is "if" S+ "then" S+, or S "if" S+, or S;
* a sentence S is "it" VP, or NP VP, which is read as "it has NP that VP";
* a verb phrase VP is has NP+, or is ADJP+, or is NP+, or ADVS* verb NP*, or verb ADVS+;
* a noun phrase NP is "it", or det? ADJP* noun, or det? ADJP* noun "that" VP;
* an adjective phrase ADJP is adverb* adjective, and ADVS is one or more adverbs.

X+ is one or more X joined by "and", and X* allows none. "it" has no attributes of its own. -/

namespace ControlledEnglish

structure Utterance where
  words : List Word
  lexicon : Lexicon

def possessionVerbs : List String := ["has", "have", "contain", "contains"]

def copulas : List String := ["is", "are"]

def determiners : List String := ["its", "the", "a", "an"]

def keywords : List String :=
  ["if", "then", "and", "it", "that"] ++ possessionVerbs ++ copulas ++ determiners

/-- The phrases whose derivations are kept once they are found. -/
def Phrase.isMemoized : Phrase → Bool
  | .adverbRun | .adjectivePhrases | .nounPhrase | .verbPhrase | .sentence => true
  | .word _ | .determiner | .adverbGroup | .adverbsOpt | .adjectivePhrase | .relativeClause => false

namespace Utterance

open Search (ask guarded)

variable (u : Utterance)

def isKeyword (i : Nat) (options : List String) : Bool :=
  u.words[i]?.any fun word => word.isPlain options

/-- A word that the lexicon puts in the category, or a literal of it, spelled out or not. -/
def word (category : Category) (i : Nat) : Search Derivation :=
  let reads (text : String) : Search Derivation := pure ⟨[⟨category.kind, text, []⟩], i + 1⟩
  match u.words[i]? with
  | none => .nothing
  | some (.literal literal) => guarded (literal.category == category) (reads literal.text)
  | some (.plain text) =>
      guarded (u.lexicon.lookup text category) (reads text) ++
        match Literal.ofSpelling? text with
        | some literal => guarded (literal.category == category) (reads literal.text)
        | none => .nothing

/-- Determiners have no effect. -/
def determiner (i : Nat) : Search Derivation :=
  pure ⟨[], i⟩ ++ guarded (u.isKeyword i determiners) (pure ⟨[], i + 1⟩)

/-- A run is collected flat and nested afterwards. -/
def adverbRun (i : Nat) : Search Derivation := do
  let first ← u.word .adverb i
  (do let rest ← ask Phrase.adverbRun first.stop
      return ⟨first.attrs ++ rest.attrs, rest.stop⟩) ++
    pure first

def adverbGroup (i : Nat) : Search Derivation := do
  let run ← ask Phrase.adverbRun i
  return ⟨foldAdverbs run.attrs, run.stop⟩

def adverbsOpt (i : Nat) : Search Derivation := adverbGroup i ++ pure ⟨[], i⟩

def adjectivePhrase (i : Nat) : Search Derivation := do
  let adverbs ← adverbsOpt i
  let adjective ← u.word .adjective adverbs.stop
  return ⟨attach adjective.attrs adverbs.attrs, adjective.stop⟩

def adjectivePhrases (i : Nat) : Search Derivation :=
  (do let first ← u.adjectivePhrase i
      let rest ← ask Phrase.adjectivePhrases first.stop
      return ⟨first.attrs ++ rest.attrs, rest.stop⟩) ++
    pure ⟨[], i⟩

def relativeClause (i : Nat) : Search Derivation :=
  guarded (u.isKeyword i ["that"]) (ask Phrase.verbPhrase (i + 1))

def nounPhrase (i : Nat) : Search Derivation :=
  if u.isKeyword i ["it"] then pure ⟨[], i + 1⟩
  else do
    let determiner ← u.determiner i
    let adjectives ← ask Phrase.adjectivePhrases determiner.stop
    let noun ← u.word .noun adjectives.stop
    let phrase := attach noun.attrs adjectives.attrs
    pure ⟨phrase, noun.stop⟩ ++ do
      let clause ← u.relativeClause noun.stop
      return ⟨attach phrase clause.attrs, clause.stop⟩

/-- Conjunctions are kept in the memo, whatever their items are. -/
def joinedOpt (item : Phrase) (i : Nat) : Search Derivation :=
  ask (.joined item) i ++ pure ⟨[], i⟩

/-- Objects of possession are had. Adverbs before and objects after a verb both go to the verb. -/
def verbPhrase (i : Nat) : Search Derivation :=
  guarded (u.isKeyword i possessionVerbs) (do
      let objects ← ask (.joined .nounPhrase) (i + 1)
      return ⟨toHasA objects.attrs, objects.stop⟩) ++
    guarded (u.isKeyword i copulas)
      (ask (.joined .adjectivePhrase) (i + 1) ++ ask (.joined .nounPhrase) (i + 1)) ++
    (do
      let adverbs ← joinedOpt .adverbGroup i
      let verb ← u.word .verb adverbs.stop
      let objects ← joinedOpt .nounPhrase verb.stop
      return ⟨attach verb.attrs (adverbs.attrs ++ objects.attrs), objects.stop⟩) ++
    (do
      let verb ← u.word .verb i
      let adverbs ← ask (.joined .adverbGroup) verb.stop
      return ⟨attach verb.attrs adverbs.attrs, adverbs.stop⟩)

/-- With "it" as its subject a sentence is its verb phrase; another subject is had, and the verb
phrase is said of it. -/
def sentence (i : Nat) : Search Derivation :=
  (do let subject ← ask Phrase.nounPhrase i
      guarded subject.attrs.isEmpty (ask Phrase.verbPhrase subject.stop)) ++
    (do
      let subject ← ask Phrase.nounPhrase i
      guarded (!subject.attrs.isEmpty) (do
        let predicate ← ask Phrase.verbPhrase subject.stop
        return ⟨attach (toHasA subject.attrs) predicate.attrs, predicate.stop⟩))

def phrase : Phrase → Nat → Search Derivation
  | .word category => u.word category
  | .determiner => u.determiner
  | .adverbRun => u.adverbRun
  | .adverbGroup => adverbGroup
  | .adverbsOpt => adverbsOpt
  | .adjectivePhrase => u.adjectivePhrase
  | .adjectivePhrases => u.adjectivePhrases
  | .relativeClause => u.relativeClause
  | .nounPhrase => u.nounPhrase
  | .verbPhrase => u.verbPhrase
  | .sentence => sentence

/-- A phrase that the memo keeps is asked for, and any other is searched anew. -/
def call (item : Phrase) (i : Nat) : Search Derivation :=
  if item.isMemoized then ask item i else u.phrase item i

/-- Longer conjunctions come first. -/
def joined (item : Phrase) (i : Nat) : Search Derivation :=
  (do let first ← u.call item i
      guarded (u.isKeyword first.stop ["and"]) (do
        let rest ← ask (.joined item) (first.stop + 1)
        return ⟨first.attrs ++ rest.attrs, rest.stop⟩)) ++
    u.call item i

def production : Production → Nat → Search Derivation
  | .one item, i => u.phrase item i
  | .joined item, i => u.joined item i
  | .joinedOpt item, i => joinedOpt item i

def search (goal : Goal) : Search Derivation := u.production goal.production goal.start

def rules (i : Nat) : Search (List Rule × Nat) :=
  guarded (u.isKeyword i ["if"]) (do
      let body ← ask (.joined .sentence) (i + 1)
      guarded (u.isKeyword body.stop ["then"]) (do
        let heads ← ask (.joined .sentence) (body.stop + 1)
        return (buildRules body.attrs heads.attrs, heads.stop))) ++
    (do
      let heads ← ask Phrase.sentence i
      guarded (u.isKeyword heads.stop ["if"]) (do
        let body ← ask (.joined .sentence) (heads.stop + 1)
        return (buildRules body.attrs heads.attrs, body.stop))) ++
    (do
      let heads ← ask Phrase.sentence i
      return (buildRules [] heads.attrs, heads.stop))

end Utterance

end ControlledEnglish
