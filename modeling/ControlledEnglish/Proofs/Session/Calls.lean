import ControlledEnglish.Session
import ControlledEnglish.Proofs.Stores

namespace ControlledEnglish

namespace Session

theorem lookup_put {α : Type} (name other : String) (value : α) (entries : List (String × α)) :
    (put name value entries).lookup other =
      if name = other then some value else entries.lookup other := by
  by_cases same : name = other
  · simp [put, same]
  · have apart : (other == name) = false := by simpa using Ne.symm same
    rw [put, List.lookup_cons, apart, if_neg same]
    induction entries with
    | nil => rfl
    | cons entry rest ih =>
        obtain ⟨key, held⟩ := entry
        by_cases here : key = name
        · subst here
          simpa [List.lookup_cons, apart] using ih
        · simp [List.lookup_cons, here, ih]

end Session

namespace Reader

def first (source : Source) (lexicon : Lexicon) :
    Except ReadingError (Option (List Rule)) × Reader :=
  match source.words with
  | .error fault => (.error (.source fault), .finished)
  | .ok words =>
      match startReadings words lexicon with
      | .error fault => (.error fault, .finished)
      | .ok readings => (running _ readings).next {}

theorem next_waiting (stores : Stores) (source : Source) (store : Store) :
    (waiting source store).next stores = first source (stores.contents store) := by
  rw [next, first]
  cases source.words with
  | error fault => rfl
  | ok words =>
      dsimp only
      cases startReadings words (stores.contents store) with
      | error fault => rfl
      | ok readings =>
          dsimp only
          rw [next]
          cases readings.next? <;> rfl

end Reader

def Action.taught : Action → List (String × Category)
  | .register word tag => (Category.ofTag? tag).toList.map fun category => (word, category)
  | .seed => Vocabulary.entries
  | .declare source =>
      match Declaration.ofSource source with
      | .ok declarations => declarations.map fun d => (d.word, d.category)
      | .error _ => []
  | _ => []

def Stores.afterCall (stores : Stores) (store : Store) (action : Action) : Stores :=
  match action, store with
  | .clear, .database number label => stores.clear number label
  | action, store => (stores.registerAll store action.taught).2

theorem Stores.after_call_of_ne_clear (stores : Stores) (store : Store) {action : Action}
    (call : action ≠ .clear) :
    stores.afterCall store action = (stores.registerAll store action.taught).2 := by
  cases action with
  | clear => exact absurd rfl call
  | _ => rfl

namespace Session

def snapshotsAfter (session : Session) (store : Store) : Action → List (String × Lexicon)
  | .snapshot name => put name (session.stores.contents store) session.snapshots
  | _ => session.snapshots

def readersAfter (session : Session) (store : Store) : Action → List (String × Reader)
  | .begin name source => put name (.waiting source store) session.readers
  | .next name =>
      match session.readers.lookup name with
      | some reader => put name (reader.next session.stores).2 session.readers
      | none => session.readers
  | _ => session.readers

/-- All that a call can do, whatever it answers. -/
theorem session_of_perform (session : Session) (store : Store) (action : Action) :
    (session.perform store action).2 =
      { session with
        stores := session.stores.afterCall store action
        snapshots := session.snapshotsAfter store action
        readers := session.readersAfter store action } := by
  cases action with
  | register word tag | lookup word tag | words tag =>
      simp only [perform, given, category, Stores.afterCall, Action.taught]
      cases Category.ofTag? tag <;> rfl
  | seed | knows | categoriesOf | snapshot | begin => rfl
  | isEmpty | keys | clear => cases store <;> rfl
  | snapshotLookup name word tag =>
      simp only [perform, given, category]
      cases find name session.snapshots with
      | error => rfl
      | ok => cases Category.ofTag? tag <;> rfl
  | snapshotKnows name word =>
      simp only [perform, given]
      cases find name session.snapshots <;> rfl
  | declare source =>
      simp only [perform, Stores.declareSource, Stores.afterCall, Action.taught]
      cases Declaration.ofSource source with
      | ok declarations => rfl
      | error fault => cases fault <;> rfl
  | parse source =>
      simp only [perform, given]
      split <;> rfl
  | next name =>
      simp only [perform, given, find, readersAfter]
      cases session.readers.lookup name with
      | none => rfl
      | some reader =>
          dsimp only
          cases (reader.next session.stores).1 <;> rfl

/-- What the calls on one lexicon answer, one after the other, and the session after them. -/
def performAll (session : Session) (store : Store) :
    List Action → List (Except SessionError Outcome) × Session
  | [] => ([], session)
  | action :: rest =>
      let (answer, session) := session.perform store action
      let (answers, session) := session.performAll store rest
      (answer :: answers, session)

theorem perform_all_cons (session : Session) (store : Store) (action : Action)
    (rest : List Action) :
    (session.performAll store (action :: rest)).2 =
      ((session.perform store action).2.performAll store rest).2 := rfl

end Session

end ControlledEnglish
