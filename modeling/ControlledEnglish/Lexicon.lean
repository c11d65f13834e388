import Std.Data.ExtTreeSet
import ControlledEnglish.Word

namespace ControlledEnglish

abbrev WordSet := Std.ExtTreeSet String

structure Lexicon where
  nouns : WordSet := ∅
  adjectives : WordSet := ∅
  adverbs : WordSet := ∅
  verbs : WordSet := ∅

namespace Lexicon

def empty : Lexicon := {}

def words (lexicon : Lexicon) : Category → WordSet
  | .noun => lexicon.nouns
  | .adjective => lexicon.adjectives
  | .adverb => lexicon.adverbs
  | .verb => lexicon.verbs

def insert (lexicon : Lexicon) (word : String) : Category → Lexicon
  | .noun => { lexicon with nouns := lexicon.nouns.insert word }
  | .adjective => { lexicon with adjectives := lexicon.adjectives.insert word }
  | .adverb => { lexicon with adverbs := lexicon.adverbs.insert word }
  | .verb => { lexicon with verbs := lexicon.verbs.insert word }

def lookup (lexicon : Lexicon) (word : String) (category : Category) : Bool :=
  (lexicon.words category).contains word

def categoriesOf (lexicon : Lexicon) (word : String) : List Category :=
  Category.all.filter (lexicon.lookup word)

def knows (lexicon : Lexicon) (word : String) : Bool := Category.all.any (lexicon.lookup word)

def listing (lexicon : Lexicon) (category : Category) : List String :=
  (lexicon.words category).toList

def count (lexicon : Lexicon) (category : Category) : Nat := (lexicon.words category).size

def insertAll (lexicon : Lexicon) (entries : List (String × Category)) : Lexicon :=
  entries.foldl (fun lexicon (word, category) => lexicon.insert word category) lexicon

@[ext] theorem ext {a b : Lexicon} (h : ∀ category, a.words category = b.words category) :
    a = b := by
  cases a
  cases b
  have nouns := h .noun
  have adjectives := h .adjective
  have adverbs := h .adverb
  have verbs := h .verb
  simp only [words] at nouns adjectives adverbs verbs
  subst nouns adjectives adverbs verbs
  rfl

theorem words_insert (lexicon : Lexicon) (word : String) (category other : Category) :
    (lexicon.insert word category).words other =
      if category = other then (lexicon.words other).insert word else lexicon.words other := by
  cases category <;> cases other <;> rfl

theorem knows_eq_false_iff {lexicon : Lexicon} {word : String} :
    lexicon.knows word = false ↔ ∀ category, lexicon.lookup word category = false := by
  simp only [knows, List.any_eq_false, Bool.not_eq_true]
  exact ⟨fun unknown category => unknown category category.mem_all,
    fun unlisted category _ => unlisted category⟩

@[simp] theorem lookup_empty (word : String) (category : Category) :
    empty.lookup word category = false := by
  cases category <;> simp [lookup, words, empty]

theorem lookup_insert (lexicon : Lexicon) (word other : String) (category target : Category) :
    (lexicon.insert word category).lookup other target =
      ((category == target && word == other) || lexicon.lookup other target) := by
  by_cases same : category = target
  · have agree : (compare word other == .eq) = (word == other) := by
      rw [Bool.eq_iff_iff]
      simp
    simp [lookup, words_insert, same, Std.ExtTreeSet.contains_insert, agree]
  · simp [lookup, words_insert, same]

end Lexicon

end ControlledEnglish
