import ControlledEnglish.Attribute

namespace ControlledEnglish

inductive Category where
  | noun
  | adjective
  | adverb
  | verb
  deriving DecidableEq, Repr, Hashable

namespace Category

def all : List Category := [noun, adjective, adverb, verb]

def tag : Category → String
  | noun => "n"
  | adjective => "adj"
  | adverb => "adv"
  | verb => "v"

def kind : Category → Kind
  | noun => .isA
  | adjective => .isLike
  | adverb => .isHow
  | verb => .does

/-- The word that names the category in a declaration. -/
def keyword : Category → String
  | noun => "noun"
  | adjective => "adjective"
  | adverb => "adverb"
  | verb => "verb"

def ofTag? (text : String) : Option Category := all.find? fun category => category.tag == text

def ofKeyword? (word : String) : Option Category :=
  all.find? fun category => category.keyword == word

@[simp] theorem ofTag?_tag (category : Category) : ofTag? category.tag = some category := by
  cases category <;> decide

theorem of_tag_eq_some_iff {text : String} {category : Category} :
    ofTag? text = some category ↔ category.tag = text := by
  constructor
  · intro found
    simpa using List.find?_some found
  · rintro rfl
    exact ofTag?_tag category

theorem tag_injective {category other : Category} (same : category.tag = other.tag) :
    category = other := by
  have found := of_tag_eq_some_iff.mpr same
  rw [ofTag?_tag] at found
  exact (Option.some.inj found).symm

theorem colon_not_mem_tag (category : Category) : ':' ∉ category.tag.toList := by
  cases category <;> decide

@[simp] theorem ofKeyword?_keyword (category : Category) :
    ofKeyword? category.keyword = some category := by
  cases category <;> decide

theorem mem_all (category : Category) : category ∈ all := by
  cases category <;> decide

end Category

structure Literal where
  category : Category
  text : String
  deriving DecidableEq, Repr, Hashable

/-- What a text holds between its quotes, if it starts with one and ends with another. -/
def unquote? : List Char → Option (List Char)
  | '"' :: rest => if rest.getLast? = some '"' then some rest.dropLast else none
  | _ => none

def isQuoted (word : String) : Bool := (unquote? word.toList).isSome

namespace Literal

def spelling (literal : Literal) : String :=
  "\"" ++ literal.category.tag ++ ":" ++ literal.text ++ "\""

/-- The literal that a word spells: the first colon ends its tag, and its text is not empty. -/
def ofSpelling? (word : String) : Option Literal := do
  let inner ← unquote? word.toList
  let category ← Category.ofTag? (String.ofList (inner.takeWhile (· != ':')))
  match inner.dropWhile (· != ':') with
  | ':' :: c :: text => some ⟨category, String.ofList (c :: text)⟩
  | _ => none

end Literal

inductive Word where
  | plain (text : String)
  | literal (word : Literal)
  deriving DecidableEq, Repr, Hashable

namespace Word

def spelling : Word → String
  | plain text => text
  | literal word => word.spelling

def isPlain (word : Word) (options : List String) : Bool :=
  match word with
  | plain text => options.contains text
  | literal _ => false

end Word

def spaced (words : List String) : String := " ".intercalate words

end ControlledEnglish
