import ControlledEnglish.Proofs.Stores

namespace ControlledEnglish

theorem Database.has_of_members {database : Database} {key word : String}
    (member : (database.members key).contains word = true) : database.has key = true := by
  rw [has, Std.ExtTreeMap.contains_eq_isSome_getElem?]
  rw [members, Std.ExtTreeMap.getD_eq_getD_getElem?] at member
  cases found : database.sets[key]? with
  | some words => rfl
  | none => simp [found] at member

namespace Stores

variable {stores : Stores} {store other : Store} {number : Int} {label word : String}
  {category : Category} {db : Option Int}

theorem not_empty_of_lookup
    (known : (stores.contents (.database number label)).lookup word category = true) :
    stores.isEmpty number label = false := by
  rw [Lexicon.lookup, words_contents_database] at known
  rw [isEmpty, Bool.not_eq_false', List.any_eq_true]
  exact ⟨category, category.mem_all, Database.has_of_members known⟩

theorem contents_of_empty (empty : stores.isEmpty number label = true) :
    stores.contents (.database number label) = .empty := by
  apply Lexicon.ext
  intro category
  apply Std.ExtTreeSet.ext_contains
  intro word
  have unknown : (stores.contents (.database number label)).lookup word category = false := by
    rw [Bool.eq_false_iff]
    intro known
    rw [not_empty_of_lookup known] at empty
    cases empty
  exact unknown.trans (Lexicon.lookup_empty word category).symm

theorem lookup_seed (held : stores.Holds store) :
    ((stores.seed store).2.contents store).lookup word category = true ↔
      (stores.contents store).lookup word category = true ∨
        (word, category) ∈ Vocabulary.entries := by
  rw [seed, contents_register_all held, Lexicon.lookup_insert_all]

theorem contents_seed_of_ne (apart : store ≠ other) :
    (stores.seed store).2.contents other = stores.contents other := by
  rw [seed, contents_register_all_of_ne apart]

theorem seed_not_empty (stores : Stores) (number : Int) (label : String) :
    (stores.seed (.database number label)).2.isEmpty number label = false := by
  have held : stores.Holds (.database number label) := trivial
  have listed : ("order", .noun) ∈ Vocabulary.entries := by decide
  exact not_empty_of_lookup ((lookup_seed held).mpr (.inr listed))

theorem open_of_empty (empty : stores.isEmpty number defaultLabel = true) :
    stores.openStore (some number) =
      (.database number defaultLabel, (stores.seed (.database number defaultLabel)).2) := by
  rw [openStore, if_pos empty]

theorem open_of_not_empty (some : stores.isEmpty number defaultLabel = false) :
    stores.openStore (.some number) = (.database number defaultLabel, stores) := by
  rw [openStore, if_neg (Bool.eq_false_iff.mp some)]

theorem holds_open (stores : Stores) (db : Option Int) :
    (stores.openStore db).2.Holds (stores.openStore db).1 := by
  cases db with
  | none => exact trivial
  | some number =>
      cases empty : stores.isEmpty number defaultLabel with
      | true =>
          rw [open_of_empty empty]
          exact trivial
      | false =>
          rw [open_of_not_empty empty]
          exact trivial

theorem contents_open_of_ne (apart : (stores.openStore db).1 ≠ other) :
    (stores.openStore db).2.contents other = stores.contents other := by
  cases db with
  | none => rfl
  | some number =>
      cases empty : stores.isEmpty number defaultLabel with
      | true =>
          simp only [open_of_empty empty] at apart ⊢
          exact contents_seed_of_ne apart
      | false => rw [open_of_not_empty empty]

theorem open_open (stores : Stores) (db : Option Int) :
    (stores.openStore db).2.openStore db = stores.openStore db := by
  cases db with
  | none => rfl
  | some number =>
      cases empty : stores.isEmpty number defaultLabel with
      | true =>
          have seeded := stores.seed_not_empty number defaultLabel
          rw [open_of_empty empty, open_of_not_empty seeded]
      | false => rw [open_of_not_empty empty, open_of_not_empty empty]

end Stores

end ControlledEnglish
