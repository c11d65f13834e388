import Mathlib.Data.Option.Basic
import ControlledEnglish.Proofs.Session.Calls

/-! A lexicon in memory and one in a database are the same to whoever calls them.

The two sessions never need to agree on where the words are, only on which words there are. That is
the relation below: equal contents, equal snapshots, and readers that are at the same place. -/

namespace ControlledEnglish

def Action.needsDatabase : Action → Bool
  | .isEmpty | .clear | .keys => true
  | _ => false

inductive Reader.Alike (store store' : Store) : Reader → Reader → Prop where
  | waiting (source : Source) : Alike store store' (.waiting source store) (.waiting source store')
  | running (u : Utterance) (readings : Readings u) :
      Alike store store' (.running u readings) (.running u readings)
  | finished : Alike store store' .finished .finished

namespace Reader

variable {store store' : Store} {stores stores' : Stores} {reader reader' : Reader}

theorem alike_next (store store' : Store) (stores : Stores) (reader : Reader) :
    (reader.next stores).2.Alike store store' (reader.next stores).2 := by
  cases reader with
  | waiting source waits =>
      rw [next]
      split
      · exact .finished
      · split
        · exact .finished
        · split
          · exact .finished
          · exact .running _ _
  | running u readings =>
      rw [next]
      split
      · exact .finished
      · exact .running _ _
  | finished => exact .finished

theorem Alike.next_eq (alike : reader.Alike store store' reader')
    (contents : stores.contents store = stores'.contents store') :
    reader.next stores = reader'.next stores' := by
  cases alike with
  | waiting source => rw [next_waiting, next_waiting, contents]
  | running | finished => rfl

end Reader

namespace Session

/-- Seen through the one store and through the other, the sessions are the same. -/
structure Alike (store store' : Store) (session session' : Session) : Prop where
  held : session.stores.Holds store
  held' : session'.stores.Holds store'
  contents : session.stores.contents store = session'.stores.contents store'
  snapshots : session.snapshots = session'.snapshots
  readers : ∀ name, Option.Rel (Reader.Alike store store') (session.readers.lookup name)
    (session'.readers.lookup name)

structure Agree (store store' : Store) (answer answer' : Answer) : Prop where
  answers : answer.1 = answer'.1
  sessions : Alike store store' answer.2 answer'.2

variable {store store' : Store} {session session' : Session}

theorem Alike.settle (alike : Alike store store' session session') (outcome : Outcome) :
    Agree store store' (session.settle outcome) (session'.settle outcome) :=
  ⟨rfl, alike⟩

theorem Alike.given {α : Type} (alike : Alike store store' session session')
    (found : Except SessionError α) {go go' : α → Answer}
    (goes : ∀ value, Agree store store' (go value) (go' value)) :
    Agree store store' (session.given found go) (session'.given found go') := by
  cases found with
  | error fault => exact ⟨rfl, alike⟩
  | ok value => exact goes value

theorem Alike.taught (alike : Alike store store' session session')
    (entries : List (String × Category)) :
    Alike store store' { session with stores := (session.stores.registerAll store entries).2 }
      { session' with stores := (session'.stores.registerAll store' entries).2 } where
  held := (Stores.holds_register_all store store entries).mpr alike.held
  held' := (Stores.holds_register_all store' store' entries).mpr alike.held'
  contents := by
    dsimp only
    rw [Stores.contents_register_all alike.held, Stores.contents_register_all alike.held',
      alike.contents]
  snapshots := alike.snapshots
  readers := alike.readers

theorem Alike.put_reader (alike : Alike store store' session session') (name : String)
    {reader reader' : Reader} (same : reader.Alike store store' reader') :
    Alike store store' { session with readers := put name reader session.readers }
      { session' with readers := put name reader' session'.readers } where
  held := alike.held
  held' := alike.held'
  contents := alike.contents
  snapshots := alike.snapshots
  readers other := by
    rw [lookup_put, lookup_put]
    split
    · exact .some same
    · exact alike.readers other

/-- One call keeps the sessions alike. -/
theorem Alike.perform (alike : Alike store store' session session') {action : Action}
    (general : action.needsDatabase = false) :
    Agree store store' (session.perform store action) (session'.perform store' action) := by
  have contents := alike.contents
  cases action with
  | lookup word tag =>
      simp only [Session.perform, contents]
      exact alike.given _ fun category => alike.settle _
  | register word tag =>
      simp only [Session.perform]
      refine alike.given _ fun category => ?_
      rw [Stores.register_is_new, Stores.register_is_new, contents]
      exact (alike.taught [(word, category)]).settle _
  | knows word =>
      simp only [Session.perform, contents]
      exact alike.settle _
  | categoriesOf word =>
      simp only [Session.perform, contents]
      exact alike.settle _
  | words tag =>
      simp only [Session.perform, contents]
      exact alike.given _ fun category => alike.settle _
  | seed =>
      have count := Stores.count_register_all alike.held alike.held' contents Vocabulary.entries
      simp only [Session.perform, Stores.seed, count]
      exact (alike.taught Vocabulary.entries).settle _
  | snapshot name =>
      simp only [Session.perform, contents, alike.snapshots]
      exact ⟨rfl, alike.held, alike.held', contents, rfl, alike.readers⟩
  | snapshotLookup name word tag =>
      simp only [Session.perform, alike.snapshots]
      exact alike.given _ fun lexicon => alike.given _ fun category => alike.settle _
  | snapshotKnows name word =>
      simp only [Session.perform, alike.snapshots]
      exact alike.given _ fun lexicon => alike.settle _
  | declare source =>
      simp only [Session.perform, Stores.declareSource]
      split
      · exact (alike.taught _).given _ fun declared => (alike.taught _).settle _
      · exact alike.given _ fun declared => alike.settle _
      · exact alike.given _ fun declared => alike.settle _
  | parse source =>
      simp only [Session.perform, contents]
      exact alike.given _ fun rules => alike.settle _
  | begin name source => exact (alike.put_reader name (.waiting source)).settle _
  | next name =>
      simp only [Session.perform, find]
      have found := alike.readers name
      generalize session.readers.lookup name = reader at found
      generalize session'.readers.lookup name = reader' at found
      cases found with
      | none => exact ⟨rfl, alike⟩
      | @some reader reader' same =>
          -- Both give the same answer, and from now on neither depends on its store.
          have asked := alike.put_reader name (reader'.alike_next store store' session'.stores)
          simp only [Session.given, same.next_eq contents]
          exact asked.given _ fun rules => asked.settle _
  | isEmpty | clear | keys => cases general

theorem Alike.perform_all (alike : Alike store store' session session') {actions : List Action}
    (general : ∀ action ∈ actions, action.needsDatabase = false) :
    (session.performAll store actions).1 = (session'.performAll store' actions).1 ∧
      Alike store store' (session.performAll store actions).2
        (session'.performAll store' actions).2 := by
  induction actions generalizing session session' with
  | nil => exact ⟨rfl, alike⟩
  | cons action rest ih =>
      rw [List.forall_mem_cons] at general
      obtain ⟨answers, after⟩ := alike.perform general.1
      obtain ⟨further, last⟩ := ih after general.2
      exact ⟨congrArg₂ List.cons answers further, last⟩

end Session

/-- Calls on a lexicon cannot tell where it is kept. If a lexicon holds the same words as one in a
database, all calls that both of them take are answered alike, with the same errors, and in the end
they still hold the same words and the same snapshots were taken. -/
theorem lexicons_interchangeable {stores stores' : Stores} {store : Store} {number : Int}
    {label : String} (held : stores.Holds store)
    (same : ∀ category, (stores.contents store).words category =
      (stores'.database number).members (Stores.key label category))
    {actions : List Action} (general : ∀ action ∈ actions, action.needsDatabase = false) :
    let first := Session.performAll { stores } store actions
    let second := Session.performAll { stores := stores' } (.database number label) actions
    first.1 = second.1 ∧ first.2.snapshots = second.2.snapshots ∧
      ∀ category, (first.2.stores.contents store).words category =
        (second.2.stores.database number).members (Stores.key label category) := by
  intro first second
  have alike : Session.Alike store (.database number label) { stores } { stores := stores' } :=
    { held
      held' := trivial
      contents := Lexicon.ext fun category => by rw [same, Stores.words_contents_database]
      snapshots := rfl
      readers := fun _ => .none }
  obtain ⟨answers, after⟩ := alike.perform_all general
  refine ⟨answers, after.snapshots, fun category => ?_⟩
  rw [← Stores.words_contents_database, ← after.contents]

theorem lexicons_interchangeable_memory_and_database :
    let actions : List Action :=
      [.register "heron" "n", .register "heron" "n", .register "heron" "bird", .seed,
        .snapshot "before", .declare (.text "wades is a verb"), .begin "wading" (.text "it wades"),
        .next "wading", .next "wading", .snapshotKnows "before" "wades", .words "v"]
    let stores : Stores := { memory := [.empty] }
    let first := Session.performAll { stores } (.memory 0) actions
    let second := Session.performAll {} (.database 7 "pond") actions
    first.1 = second.1 ∧ first.2.snapshots = second.2.snapshots ∧
      ∀ category, (first.2.stores.contents (.memory 0)).words category =
        (second.2.stores.database 7).members (Stores.key "pond" category) := by
  intro actions stores
  have held : stores.Holds (.memory 0) := Nat.zero_lt_one
  have same (category : Category) : (stores.contents (.memory 0)).words category =
      (Stores.database {} 7).members (Stores.key "pond" category) := by
    cases category <;> simp [stores, Stores.contents, Stores.database, Database.members,
      Lexicon.words, Lexicon.empty]
  have general : ∀ action ∈ actions, action.needsDatabase = false := by
    simp [actions, Action.needsDatabase]
  exact lexicons_interchangeable held same general

end ControlledEnglish
