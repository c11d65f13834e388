import Std.Data.ExtTreeMap
import ControlledEnglish.Declaration
import ControlledEnglish.Vocabulary

/-! Where lexicons are kept: in memory, or in numbered databases that keep a set of words for each
key. One lexicon in memory is shared by all, and starts with the built-in vocabulary. A lexicon in a
database has a label, and its key for a category is the label, a colon and the tag. Lexicons with
one label in one database are the same lexicon. -/

namespace ControlledEnglish

/-- A key that has no set reads as the empty set. -/
structure Database where
  sets : Std.ExtTreeMap String WordSet := ∅

namespace Database

def members (database : Database) (key : String) : WordSet := database.sets.getD key ∅

def add (database : Database) (key word : String) : Database :=
  ⟨database.sets.insert key ((database.members key).insert word)⟩

def has (database : Database) (key : String) : Bool := database.sets.contains key

def keys (database : Database) : List String := database.sets.keys

def eraseUnder (database : Database) (start : String) : Database :=
  ⟨database.sets.filter fun key _ => !decide (start.toList <+: key.toList)⟩

end Database

inductive Store where
  | shared
  | memory (slot : Nat)
  | database (number : Int) (label : String)
  deriving DecidableEq, Repr

structure Stores where
  shared : Lexicon := .builtin
  memory : List Lexicon := []
  databases : Std.ExtTreeMap Int Database := ∅

namespace Stores

def key (label : String) (category : Category) : String := label ++ ":" ++ category.tag

def database (stores : Stores) (number : Int) : Database := stores.databases.getD number {}

def setDatabase (stores : Stores) (number : Int) (database : Database) : Stores :=
  { stores with databases := stores.databases.insert number database }

def contents (stores : Stores) : Store → Lexicon
  | .shared => stores.shared
  | .memory slot => stores.memory.getD slot .empty
  | .database number label =>
      let words category := (stores.database number).members (key label category)
      ⟨words .noun, words .adjective, words .adverb, words .verb⟩

def insert (stores : Stores) (store : Store) (word : String) (category : Category) : Stores :=
  match store with
  | .shared => { stores with shared := stores.shared.insert word category }
  | .memory slot =>
      let insert (lexicon : Lexicon) := lexicon.insert word category
      { stores with memory := stores.memory.modify slot insert }
  | .database number label =>
      stores.setDatabase number ((stores.database number).add (key label category) word)

/-- Teaches a word, and says whether it is new. -/
def register (stores : Stores) (store : Store) (word : String) (category : Category) :
    Bool × Stores :=
  if (stores.contents store).lookup word category then (false, stores)
  else (true, stores.insert store word category)

def registerAll (stores : Stores) (store : Store) : List (String × Category) → Nat × Stores
  | [] => (0, stores)
  | (word, category) :: rest =>
      let (isNew, stores) := stores.register store word category
      let (count, stores) := registerAll stores store rest
      (isNew.toNat + count, stores)

def seed (stores : Stores) (store : Store) : Nat × Stores :=
  stores.registerAll store Vocabulary.entries

def declare (stores : Stores) (store : Store) (declarations : List Declaration) : Stores :=
  (stores.registerAll store (declarations.map fun d => (d.word, d.category))).2

/-- Teaches what a sentence declares, all of it or, if it is no declaration, nothing. -/
def declareSource (stores : Stores) (store : Store) (source : Source) :
    Except SourceError Bool × Stores :=
  match Declaration.ofSource source with
  | .ok declarations => (.ok true, stores.declare store declarations)
  | .error (.notDeclaration _) => (.ok false, stores)
  | .error (.source fault) => (.error fault, stores)

def allocate (stores : Stores) (lexicon : Lexicon) : Store × Stores :=
  (.memory stores.memory.length, { stores with memory := stores.memory ++ [lexicon] })

def isEmpty (stores : Stores) (number : Int) (label : String) : Bool :=
  !Category.all.any fun category => (stores.database number).has (key label category)

def clear (stores : Stores) (number : Int) (label : String) : Stores :=
  stores.setDatabase number ((stores.database number).eraseUnder (label ++ ":"))

def defaultLabel : String := "lex"

/-- The shared lexicon, or the one of a database, which is seeded if it is empty. -/
def openStore (stores : Stores) : Option Int → Store × Stores
  | none => (.shared, stores)
  | some number =>
      let store := Store.database number defaultLabel
      if stores.isEmpty number defaultLabel then (store, (stores.seed store).2) else (store, stores)

end Stores

end ControlledEnglish
