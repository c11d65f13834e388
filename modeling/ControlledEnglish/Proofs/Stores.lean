import ControlledEnglish.Stores

namespace ControlledEnglish

namespace Lexicon

theorem insert_of_lookup {lexicon : Lexicon} {word : String} {category : Category}
    (known : lexicon.lookup word category = true) : lexicon.insert word category = lexicon := by
  refine Lexicon.ext fun target => Std.ExtTreeSet.ext_contains fun other => ?_
  change (lexicon.insert word category).lookup other target = lexicon.lookup other target
  rw [lookup_insert]
  by_cases same : category = target ∧ word = other
  · obtain ⟨rfl, rfl⟩ := same
    simp [known]
  · simp_all

theorem lookup_insert_all {lexicon : Lexicon} {word : String} {category : Category}
    (entries : List (String × Category)) :
    (lexicon.insertAll entries).lookup word category = true ↔
      lexicon.lookup word category = true ∨ (word, category) ∈ entries := by
  induction entries generalizing lexicon with
  | nil => simp [insertAll]
  | cons entry rest ih =>
      obtain ⟨other, target⟩ := entry
      have inserted : lexicon.insertAll ((other, target) :: rest) =
          (lexicon.insert other target).insertAll rest := rfl
      rw [inserted, ih, lookup_insert, List.mem_cons, Prod.mk.injEq]
      simp only [Bool.or_eq_true, Bool.and_eq_true, beq_iff_eq]
      constructor
      · rintro ((⟨rfl, rfl⟩ | known) | listed)
        · exact .inr (.inl ⟨rfl, rfl⟩)
        · exact .inl known
        · exact .inr (.inr listed)
      · rintro (known | ⟨rfl, rfl⟩ | listed)
        · exact .inl (.inr known)
        · exact .inl (.inl ⟨rfl, rfl⟩)
        · exact .inr listed

end Lexicon

namespace Database

variable (database : Database)

theorem members_add (key word other : String) :
    (database.add key word).members other =
      if key = other then (database.members key).insert word else database.members other := by
  by_cases same : key = other
  · simp [members, add, same]
  · simp [members, add, same, Std.ExtTreeMap.getD_insert]

theorem members_erase_under (start key : String) :
    (database.eraseUnder start).members key =
      if start.toList <+: key.toList then ∅ else database.members key := by
  rw [members, members, eraseUnder, Std.ExtTreeMap.getD_filter',
    Std.ExtTreeMap.getD_eq_getD_getElem?]
  generalize database.sets[key]? = found
  cases found <;> by_cases under : start.toList <+: key.toList <;> simp [under, Option.filter]

end Database

namespace Stores

section Keys

variable {label other : String} {category target : Category}

theorem toList_key (label : String) (category : Category) :
    (key label category).toList = label.toList ++ ':' :: category.tag.toList := by
  simp [key]

/-- A tag has no colon, so what comes before the last colon of a key is its label. -/
theorem key_under_iff : (label ++ ":").toList <+: (key other category).toList ↔
    label = other ∨ (label ++ ":").toList <+: other.toList := by
  have opens : (label ++ ":").toList = label.toList ++ [':'] := by simp
  rw [toList_key, opens]
  constructor
  · rintro ⟨rest, same⟩
    rw [List.append_assoc, List.singleton_append] at same
    rcases List.append_eq_append_iff.mp same with
      ⟨between, behind, after⟩ | ⟨between, before, after⟩
    · cases between with
      | nil => exact .inl (String.toList_inj.mp (by simpa using behind.symm))
      | cons c between =>
          obtain ⟨rfl, -⟩ := List.cons.inj after
          exact .inr ⟨between, by simp [behind]⟩
    · cases between with
      | nil => exact .inl (String.toList_inj.mp (by simpa using before))
      | cons c between =>
          have inside : ':' ∈ category.tag.toList := by
            rw [(List.cons.inj after).2]
            simp
          exact absurd inside category.colon_not_mem_tag
  · rintro (rfl | under)
    · exact ⟨category.tag.toList, by simp⟩
    · exact under.trans (List.prefix_append _ _)

theorem key_inj : key label category = key other target ↔ label = other ∧ category = target := by
  refine ⟨fun same => ?_, fun ⟨h, h'⟩ => by rw [h, h']⟩
  have longer : (label ++ ":").toList <+: (key other target).toList := by
    rw [← same, key_under_iff]
    exact .inl rfl
  have shorter : (other ++ ":").toList <+: (key label category).toList := by
    rw [same, key_under_iff]
    exact .inl rfl
  rw [key_under_iff] at longer shorter
  -- Two labels cannot each go on behind the other with a colon.
  have labels : label = other := by
    rcases longer with rfl | longer
    · rfl
    · rcases shorter with rfl | shorter
      · rfl
      · have longer := longer.length_le
        have shorter := shorter.length_le
        simp only [String.toList_append, List.length_append] at longer shorter
        have : ":".toList.length = 1 := rfl
        omega
  subst labels
  have tags := congrArg String.toList same
  rw [toList_key, toList_key, List.append_cancel_left_eq, List.cons.injEq] at tags
  exact ⟨rfl, Category.tag_injective (String.toList_inj.mp tags.2)⟩

end Keys

variable (stores : Stores)

theorem database_set_database (number other : Int) (database : Database) :
    (stores.setDatabase number database).database other =
      if number = other then database else stores.database other := by
  by_cases same : number = other
  · simp [Stores.database, setDatabase, same]
  · simp [Stores.database, setDatabase, same, Std.ExtTreeMap.getD_insert]

@[simp] theorem words_contents_database (number : Int) (label : String) (category : Category) :
    (stores.contents (.database number label)).words category =
      (stores.database number).members (key label category) := by
  cases category <;> rfl

/-- The store is there: every database is, and of the lexicons in memory those that were opened. -/
def Holds : Store → Prop
  | .shared | .database _ _ => True
  | .memory slot => slot < stores.memory.length

section Insert

variable (word : String) (category : Category)

theorem holds_insert (store other : Store) :
    (stores.insert store word category).Holds other ↔ stores.Holds other := by
  cases store <;> cases other <;> simp [Stores.insert, Holds, setDatabase]

theorem contents_insert {store : Store} (held : stores.Holds store) :
    (stores.insert store word category).contents store =
      (stores.contents store).insert word category := by
  cases store with
  | shared => rfl
  | memory slot =>
      have inside : slot < stores.memory.length := held
      simp [Stores.insert, contents, inside]
  | database number label =>
      refine Lexicon.ext fun target => ?_
      rw [words_contents_database, Lexicon.words_insert, words_contents_database, Stores.insert,
        database_set_database, if_pos rfl, Database.members_add]
      by_cases same : category = target
      · simp [same]
      · simp [same, key_inj]

theorem contents_insert_of_ne {store other : Store} (apart : store ≠ other) :
    (stores.insert store word category).contents other = stores.contents other := by
  cases store with
  | shared => cases other <;> first | rfl | exact absurd rfl apart
  | memory slot =>
      cases other with
      | shared | database => rfl
      | memory slot' =>
          have differ : slot ≠ slot' := fun same => apart (by rw [same])
          simp [Stores.insert, contents, differ]
  | database number label =>
      cases other with
      | shared | memory => rfl
      | database number' label' =>
          refine Lexicon.ext fun target => ?_
          rw [words_contents_database, words_contents_database, Stores.insert,
            database_set_database]
          split
          · next same =>
              subst same
              have labels : label ≠ label' := fun same => apart (by rw [same])
              simp [Database.members_add, key_inj, labels]
          · rfl

end Insert

section Register

variable (word : String) (category : Category)

theorem register_is_new (store : Store) :
    (stores.register store word category).1 = !(stores.contents store).lookup word category := by
  rw [register]
  split <;> simp_all

theorem holds_register (store other : Store) :
    (stores.register store word category).2.Holds other ↔ stores.Holds other := by
  rw [register]
  split
  · rfl
  · exact stores.holds_insert word category store other

theorem contents_register {store : Store} (held : stores.Holds store) :
    (stores.register store word category).2.contents store =
      (stores.contents store).insert word category := by
  rw [register]
  split
  · next known => exact (Lexicon.insert_of_lookup known).symm
  · exact stores.contents_insert word category held

theorem contents_register_of_ne {store other : Store} (apart : store ≠ other) :
    (stores.register store word category).2.contents other = stores.contents other := by
  rw [register]
  split
  · rfl
  · exact stores.contents_insert_of_ne word category apart

theorem register_of_lookup {store : Store} {word : String} {category : Category}
    (known : (stores.contents store).lookup word category = true) :
    stores.register store word category = (false, stores) :=
  if_pos known

end Register

section RegisterAll

variable {stores}

theorem holds_register_all (store other : Store) (entries : List (String × Category)) :
    (stores.registerAll store entries).2.Holds other ↔ stores.Holds other := by
  induction entries generalizing stores with
  | nil => rfl
  | cons entry rest ih => exact ih.trans (stores.holds_register entry.1 entry.2 store other)

theorem contents_register_all {store : Store} (held : stores.Holds store)
    (entries : List (String × Category)) :
    (stores.registerAll store entries).2.contents store =
      (stores.contents store).insertAll entries := by
  induction entries generalizing stores with
  | nil => rfl
  | cons entry rest ih =>
      have still := (stores.holds_register entry.1 entry.2 store store).mpr held
      calc
        _ = ((stores.register store entry.1 entry.2).2.contents store).insertAll rest := ih still
        _ = _ := by
          rw [stores.contents_register entry.1 entry.2 held]
          rfl

theorem contents_register_all_of_ne {store other : Store} (apart : store ≠ other)
    (entries : List (String × Category)) :
    (stores.registerAll store entries).2.contents other = stores.contents other := by
  induction entries generalizing stores with
  | nil => rfl
  | cons entry rest ih => exact ih.trans (stores.contents_register_of_ne entry.1 entry.2 apart)

theorem count_register_all {stores' : Stores} {store store' : Store} (held : stores.Holds store)
    (held' : stores'.Holds store') (same : stores.contents store = stores'.contents store')
    (entries : List (String × Category)) :
    (stores.registerAll store entries).1 = (stores'.registerAll store' entries).1 := by
  induction entries generalizing stores stores' with
  | nil => rfl
  | cons entry rest ih =>
      obtain ⟨word, category⟩ := entry
      have isNew : (stores.register store word category).1 =
          (stores'.register store' word category).1 := by
        rw [register_is_new, register_is_new, same]
      have after : (stores.register store word category).2.contents store =
          (stores'.register store' word category).2.contents store' := by
        rw [stores.contents_register word category held,
          stores'.contents_register word category held', same]
      have counts := ih ((stores.holds_register word category store store).mpr held)
        ((stores'.holds_register word category store' store').mpr held') after
      rw [registerAll, registerAll]
      simp only [isNew, counts]

theorem register_all_of_known {store : Store} {entries : List (String × Category)}
    (known : ∀ entry ∈ entries, (stores.contents store).lookup entry.1 entry.2 = true) :
    stores.registerAll store entries = (0, stores) := by
  induction entries with
  | nil => rfl
  | cons entry rest ih =>
      rw [List.forall_mem_cons] at known
      rw [registerAll, stores.register_of_lookup known.1]
      simp only [ih known.2]
      rfl

end RegisterAll

/-- Clearing a label empties it and every label that goes on behind it with a colon. -/
theorem contents_clear (number : Int) (label other : String) :
    (stores.clear number label).contents (.database number other) =
      if label = other ∨ (label ++ ":").toList <+: other.toList then .empty
      else stores.contents (.database number other) := by
  refine Lexicon.ext fun category => ?_
  rw [words_contents_database, clear, database_set_database, if_pos rfl,
    Database.members_erase_under]
  simp only [key_under_iff]
  split
  · cases category <;> rfl
  · rw [words_contents_database]

end Stores

end ControlledEnglish
