import Mathlib.Algebra.Ring.Nat
import ControlledEnglish.Console.Terminal
import ControlledEnglish.Proofs.Command.Printed
import ControlledEnglish.Proofs.Opened

/-! Seeding a lexicon in a database, and how many new words are reported.

What is taught is counted exactly: the lexicon grows by as many entries as there were new words. But
an empty lexicon is seeded when it is opened, before the count starts, and then all that is counted
is known. -/

namespace ControlledEnglish

def Lexicon.size (lexicon : Lexicon) : Nat := (Category.all.map lexicon.count).sum

namespace Lexicon

theorem count_insert (lexicon : Lexicon) (word : String) (category other : Category) :
    (lexicon.insert word category).count other =
      lexicon.count other + if category = other then (!lexicon.lookup word other).toNat else 0 := by
  rw [count, words_insert]
  by_cases same : category = other
  · rw [if_pos same, if_pos same, Std.ExtTreeSet.size_insert, lookup, count]
    cases (lexicon.words other).contains word <;> rfl
  · rw [if_neg same, if_neg same]
    rfl

theorem size_insert (lexicon : Lexicon) (word : String) (category : Category) :
    (lexicon.insert word category).size =
      lexicon.size + (!lexicon.lookup word category).toNat := by
  simp only [size, Category.all, List.map_cons, List.map_nil, List.sum_cons, List.sum_nil,
    count_insert]
  cases category <;> simp <;> omega

theorem size_empty : empty.size = 0 := rfl

theorem size_builtin : builtin.size = 93 := by
  decide +kernel

end Lexicon

namespace Stores

variable {stores : Stores} {store : Store} {number : Int} {label : String}

theorem size_register (held : stores.Holds store) (word : String) (category : Category) :
    ((stores.register store word category).2.contents store).size =
      (stores.contents store).size + (stores.register store word category).1.toNat := by
  rw [stores.contents_register word category held, Lexicon.size_insert, register_is_new]

theorem size_register_all (held : stores.Holds store) (entries : List (String × Category)) :
    ((stores.registerAll store entries).2.contents store).size =
      (stores.contents store).size + (stores.registerAll store entries).1 := by
  induction entries generalizing stores with
  | nil => rfl
  | cons entry rest ih =>
      obtain ⟨word, category⟩ := entry
      have still := (stores.holds_register word category store store).mpr held
      calc
        _ = ((stores.register store word category).2.contents store).size +
            ((stores.register store word category).2.registerAll store rest).1 := ih still
        _ = (stores.contents store).size + ((stores.register store word category).1.toNat +
            ((stores.register store word category).2.registerAll store rest).1) := by
          rw [size_register held, Nat.add_assoc]

theorem size_seed (held : stores.Holds store) :
    ((stores.seed store).2.contents store).size =
      (stores.contents store).size + (stores.seed store).1 :=
  size_register_all held Vocabulary.entries

theorem seed_seed (held : stores.Holds store) :
    (stores.seed store).2.seed store = (0, (stores.seed store).2) := by
  apply register_all_of_known
  intro entry member
  exact (lookup_seed held).mpr (.inr member)

theorem size_seed_of_empty (empty : stores.isEmpty number label = true) :
    ((stores.seed (.database number label)).2.contents (.database number label)).size = 93 := by
  have held : stores.Holds (.database number label) := trivial
  have fresh : (stores.contents (.database number label)).insertAll Vocabulary.entries =
      .builtin := by
    rw [contents_of_empty empty]
    rfl
  rw [seed, contents_register_all held, fresh, Lexicon.size_builtin]

end Stores

namespace Command

open Stores (defaultLabel)

def seeded (db : Int) (count : Nat) : Report :=
  ⟨["✓ Seeded db " ++ toString db ++ ": " ++ toString count ++ " new words"], .exit 0⟩

theorem printing_seeded (console : Console) (db : Int) (count : Nat) :
    .printing 0 [console.marked
      ("✓ Seeded db " ++ toString db ++ ": " ++ toString count ++ " new words")] =
      seeded db count := by
  have steady : Text.IsSteady
      ("✓ Seeded db " ++ toString db ++ ": " ++ toString count ++ " new words") :=
    Text.steady_append (Text.steady_append (Text.steady_append (Text.steady_append (by decide)
      (Text.steady_int db)) (by decide)) (Text.steady_nat count)) (by decide)
  rw [console.shows_line steady]
  rfl

variable {console : Console} {stores : Stores} {db : Int}

theorem run_seed_words (console : Console) (stores : Stores) (contents : Option String) (db : Int) :
    run console stores contents (.seedWords db) = seed console stores db := by
  cases contents <;> rfl

theorem seed_of_empty (empty : stores.isEmpty db defaultLabel = true) :
    seed console stores db = (seeded db 0, (stores.seed (.database db defaultLabel)).2) := by
  have held : stores.Holds (.database db defaultLabel) := trivial
  rw [seed, Stores.open_of_empty empty]
  simp only [Stores.seed_seed held, printing_seeded]

theorem seed_of_not_empty (some : stores.isEmpty db defaultLabel = false) :
    seed console stores db = (seeded db (stores.seed (.database db defaultLabel)).1,
      (stores.seed (.database db defaultLabel)).2) := by
  rw [seed, Stores.open_of_not_empty some]
  simp only [printing_seeded]

/-- The words come in as the lexicon is opened, so the count that follows finds none of them new. -/
theorem seed_growth_of_empty (empty : stores.isEmpty db defaultLabel = true) :
    (seed console stores db).1 = seeded db 0 ∧
      ((seed console stores db).2.contents (.database db defaultLabel)).size = 93 := by
  simp only [seed_of_empty empty, Stores.size_seed_of_empty empty, and_self]

theorem seed_growth_of_not_empty (some : stores.isEmpty db defaultLabel = false) :
    ∃ count, (seed console stores db).1 = seeded db count ∧
      (stores.contents (.database db defaultLabel)).size + count =
        ((seed console stores db).2.contents (.database db defaultLabel)).size := by
  have held : stores.Holds (.database db defaultLabel) := trivial
  refine ⟨(stores.seed (.database db defaultLabel)).1, ?_, ?_⟩
  · simp only [seed_of_not_empty some]
  · simp only [seed_of_not_empty some, Stores.size_seed held]

end Command

end ControlledEnglish
