import ControlledEnglish.Reading
import ControlledEnglish.Stores

/-! Sessions: steps on named lexicons, one after the other.

Readings may be asked for one by one while other steps go on. The words of the sentence and of the
lexicon are taken when the first reading is asked for, and stay as they were then. -/

namespace ControlledEnglish

inductive Opening where
  | empty (entries : List (String × Category))
  | seeded
  | shared
  | database (number : Int) (label : String)
  | usual (number : Option Int)
  deriving Repr

inductive Action where
  | lookup (word category : String)
  | register (word category : String)
  | knows (word : String)
  | categoriesOf (word : String)
  | words (category : String)
  | seed
  | isEmpty
  | clear
  | keys
  | snapshot (name : String)
  | snapshotLookup (name word category : String)
  | snapshotKnows (name word : String)
  | declare (source : Source)
  | parse (source : Source)
  | begin (name : String) (source : Source)
  | next (name : String)
  deriving Repr

/-- An action on a named lexicon, or without a name on the shared one; or a lexicon opened under a
name, which may have stood for another one before. -/
inductive Step where
  | act (on : Option String) (action : Action)
  | reopen (name : String) (opening : Opening)
  deriving Repr

def Step.on : Step → Option String
  | act on _ => on
  | reopen name _ => some name

inductive Outcome where
  | done
  | flag (value : Bool)
  | count (value : Nat)
  | categories (categories : List Category)
  | listing (texts : List String)
  | rules (rules : List Rule)
  | exhausted
  deriving Repr

inductive SessionError where
  | unknownCategory (tag : String)
  | unknownName (name : String)
  | notDatabase
  | source (fault : SourceError)
  | reading (fault : ReadingError)
  deriving Repr

/-- Readings that have not been asked for, that are being asked for, or that have come to an end. -/
inductive Reader where
  | waiting (source : Source) (store : Store)
  | running (u : Utterance) (readings : Readings u)
  | finished

def Reader.next (stores : Stores) : Reader → Except ReadingError (Option (List Rule)) × Reader
  | .waiting source store =>
      match source.words with
      | .error fault => (.error (.source fault), .finished)
      | .ok words =>
          match startReadings words (stores.contents store) with
          | .error fault => (.error fault, .finished)
          | .ok readings =>
              match readings.next? with
              | none => (.ok none, .finished)
              | some (rules, readings) => (.ok (some rules), .running _ readings)
  | .running _ readings =>
      match readings.next? with
      | none => (.ok none, .finished)
      | some (rules, readings) => (.ok (some rules), .running _ readings)
  | .finished => (.ok none, .finished)

structure Session where
  stores : Stores := {}
  lexicons : List (String × Store) := []
  snapshots : List (String × Lexicon) := []
  readers : List (String × Reader) := []

namespace Session

def put {α : Type} (name : String) (value : α) (entries : List (String × α)) : List (String × α) :=
  (name, value) :: entries.filter fun entry => entry.1 != name

def find {α : Type} (name : String) (entries : List (String × α)) : Except SessionError α :=
  match entries.lookup name with
  | some value => .ok value
  | none => .error (.unknownName name)

def category (tag : String) : Except SessionError Category :=
  match Category.ofTag? tag with
  | some category => .ok category
  | none => .error (.unknownCategory tag)

def openAs (stores : Stores) : Opening → Store × Stores
  | .empty entries => stores.allocate (Lexicon.empty.insertAll entries)
  | .seeded => stores.allocate .builtin
  | .shared => (.shared, stores)
  | .database number label => (.database number label, stores)
  | .usual number => stores.openStore number

def reopen (session : Session) (name : String) (opening : Opening) : Session :=
  let (store, stores) := openAs session.stores opening
  { session with stores, lexicons := put name store session.lexicons }

def start (openings : List (String × Opening)) : Session :=
  openings.foldl (fun session (name, opening) => session.reopen name opening) {}

def storeOf (session : Session) : Option String → Except SessionError Store
  | none => .ok .shared
  | some name => find name session.lexicons

abbrev Answer := Except SessionError Outcome × Session

def settle (session : Session) (outcome : Outcome) : Answer := (.ok outcome, session)

def given {α : Type} (session : Session) (found : Except SessionError α) (go : α → Answer) :
    Answer :=
  match found with
  | .ok value => go value
  | .error fault => (.error fault, session)

def inDatabase (session : Session) (store : Store) (go : Int → String → Answer) : Answer :=
  match store with
  | .database number label => go number label
  | _ => (.error .notDatabase, session)

def perform (session : Session) (store : Store) (action : Action) : Answer :=
  let lexicon := session.stores.contents store
  match action with
  | .lookup word tag =>
      session.given (category tag) fun category =>
        session.settle (.flag (lexicon.lookup word category))
  | .register word tag =>
      session.given (category tag) fun category =>
        let (isNew, stores) := session.stores.register store word category
        { session with stores }.settle (.flag isNew)
  | .knows word => session.settle (.flag (lexicon.knows word))
  | .categoriesOf word => session.settle (.categories (lexicon.categoriesOf word))
  | .words tag =>
      session.given (category tag) fun category =>
        session.settle (.listing (lexicon.listing category))
  | .seed =>
      let (count, stores) := session.stores.seed store
      { session with stores }.settle (.count count)
  | .isEmpty =>
      session.inDatabase store fun number label =>
        session.settle (.flag (session.stores.isEmpty number label))
  | .clear =>
      session.inDatabase store fun number label =>
        { session with stores := session.stores.clear number label }.settle .done
  | .keys =>
      session.inDatabase store fun number _ =>
        session.settle (.listing (session.stores.database number).keys)
  | .snapshot name =>
      { session with snapshots := put name lexicon session.snapshots }.settle .done
  | .snapshotLookup name word tag =>
      session.given (find name session.snapshots) fun lexicon =>
        session.given (category tag) fun category =>
          session.settle (.flag (lexicon.lookup word category))
  | .snapshotKnows name word =>
      session.given (find name session.snapshots) fun lexicon =>
        session.settle (.flag (lexicon.knows word))
  | .declare source =>
      let (declared, stores) := session.stores.declareSource store source
      let session := { session with stores }
      session.given (declared.mapError .source) fun declared => session.settle (.flag declared)
  | .parse source =>
      session.given ((read source lexicon).mapError .reading) fun rules =>
        session.settle (.rules rules)
  | .begin name source =>
      { session with readers := put name (.waiting source store) session.readers }.settle .done
  | .next name =>
      session.given (find name session.readers) fun reader =>
        let (rules, reader) := reader.next session.stores
        let session := { session with readers := put name reader session.readers }
        session.given (rules.mapError .reading) fun rules =>
          session.settle (rules.elim .exhausted .rules)

def step (session : Session) : Step → Answer
  | .act on action => session.given (session.storeOf on) fun store => session.perform store action
  | .reopen name opening => (session.reopen name opening).settle .done

def counts (session : Session) (on : Option String) : List Nat :=
  match session.storeOf on with
  | .ok store => Category.all.map (session.stores.contents store).count
  | .error _ => []

end Session

end ControlledEnglish
