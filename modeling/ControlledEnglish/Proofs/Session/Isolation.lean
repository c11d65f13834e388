import ControlledEnglish.Proofs.Grammar.Recognized
import ControlledEnglish.Proofs.Session.Calls

/-! Readings that are asked for one by one do not see what happens in between.

A reader takes the words of its sentence and of its lexicon when it is asked for the first time.
From then on it holds all that it needs, so whatever else is done in the session, to its own lexicon
or to others, by other readers or to them, its answers are those of a single run. -/

namespace ControlledEnglish

namespace Reader

/-- The readings that a reader has still to give, once it was asked. -/
inductive Gives : Reader → List (List Rule) → Prop where
  | running {u : Utterance} (readings : Readings u) : Gives (.running u readings) readings.all
  | finished : Gives .finished []

theorem Gives.next {reader : Reader} {left : List (List Rule)} (gives : reader.Gives left)
    (stores : Stores) :
    (reader.next stores).1 = .ok left.head? ∧ (reader.next stores).2.Gives left.tail := by
  cases gives with
  | running readings =>
      rw [Reader.next]
      cases found : readings.next? with
      | none =>
          rw [Readings.all_of_next_none found]
          exact ⟨rfl, .finished⟩
      | some next =>
          rw [Readings.all_of_next_some found]
          exact ⟨rfl, .running next.2⟩
  | finished => exact ⟨rfl, .finished⟩

def behindFirst : Except ReadingError (List (List Rule)) → List (List Rule)
  | .ok readings => readings.tail
  | .error _ => []

/-- The first answer is that of a run to the end, and the rest follows. -/
theorem first_eq (source : Source) (lexicon : Lexicon) :
    (first source lexicon).1 = (readAll source lexicon).map List.head? ∧
      (first source lexicon).2.Gives (behindFirst (readAll source lexicon)) := by
  cases given : source.words with
  | error fault =>
      have read : readAll source lexicon = .error (.source fault) := by
        simp only [readAll, words_error given, bind, Except.bind]
      rw [first, given, read]
      exact ⟨rfl, .finished⟩
  | ok words =>
      have read : readAll source lexicon = (startReadings words lexicon).map Readings.toList := by
        simp only [readAll, words_ok given, bind, Except.bind]
        cases startReadings words lexicon <;> rfl
      rw [first, given, read]
      dsimp only
      cases startReadings words lexicon with
      | error fault => exact ⟨rfl, .finished⟩
      | ok readings =>
          have gives := (Gives.running readings).next {}
          rw [← readings.to_list_eq] at gives
          exact gives

end Reader

/-- A step that is about to be taken in a session. -/
structure Moment where
  session : Session
  step : Step

namespace Moment

def answer (moment : Moment) : Except SessionError Outcome :=
  (moment.session.step moment.step).1

def after (moment : Moment) : Session := (moment.session.step moment.step).2

/-- The call that is made, unless the step names a lexicon that there is not. -/
def call? (moment : Moment) : Option (Store × Action) :=
  match moment.step with
  | .act on action =>
      match moment.session.storeOf on with
      | .ok store => some (store, action)
      | .error _ => none
  | .reopen _ _ => none

def begins (name : String) (moment : Moment) : Bool :=
  match moment.call? with
  | some (_, .begin reader _) => reader == name
  | _ => false

def asks (name : String) (moment : Moment) : Bool :=
  match moment.call? with
  | some (_, .next reader) => reader == name
  | _ => false

end Moment

/-- The moments of a session in which these steps are taken one after the other. -/
def Session.moments (session : Session) : List Step → List Moment
  | [] => []
  | step :: rest => ⟨session, step⟩ :: (session.step step).2.moments rest

def Reader.answer : Except ReadingError (Option (List Rule)) → Except SessionError Outcome
  | .ok rules => .ok (rules.elim .exhausted .rules)
  | .error fault => .error (.reading fault)

/-- What the readings of one run have for whoever asks the `k`-th time, counted from none. -/
def nthAnswer : Except ReadingError (List (List Rule)) → Nat → Except SessionError Outcome
  | .ok readings, k => .ok (readings[k]?.elim .exhausted .rules)
  | .error fault, 0 => .error (.reading fault)
  | .error _, _ + 1 => .ok .exhausted

theorem nth_answer_zero (read : Except ReadingError (List (List Rule))) :
    nthAnswer read 0 = Reader.answer (read.map List.head?) := by
  cases read with
  | error fault => rfl
  | ok readings => cases readings <;> rfl

theorem nth_answer_succ (read : Except ReadingError (List (List Rule))) (k : Nat) :
    nthAnswer read (k + 1) = nthAnswer (.ok (Reader.behindFirst read)) k := by
  cases read with
  | error fault => rfl
  | ok readings => rw [nthAnswer, nthAnswer, Reader.behindFirst, List.getElem?_tail]

namespace Moment

variable {moment : Moment} {store : Store} {action : Action} {name : String}

theorem step_of_call (call : moment.call? = some (store, action)) :
    moment.session.step moment.step = moment.session.perform store action := by
  obtain ⟨session, step⟩ := moment
  cases step with
  | act on action =>
      simp only [call?] at call
      simp only [Session.step, Session.given]
      split at call
      · next found =>
          rw [found]
          cases call
          rfl
      · cases call
  | reopen reader opening => cases call

theorem readers_of_no_call (none : moment.call? = none) :
    moment.after.readers = moment.session.readers := by
  obtain ⟨session, step⟩ := moment
  cases step with
  | act on action =>
      simp only [call?] at none
      simp only [after, Session.step, Session.given]
      split at none
      · cases none
      · next found => rw [found]
  | reopen reader opening => rfl

theorem call_of_asks (asks : moment.asks name = true) :
    ∃ store, moment.call? = some (store, .next name) := by
  rw [Moment.asks] at asks
  split at asks
  · next call =>
      obtain rfl := beq_iff_eq.mp asks
      exact ⟨_, call⟩
  · cases asks

theorem lookup_readers (unasked : moment.asks name = false) (unbegun : moment.begins name = false) :
    moment.after.readers.lookup name = moment.session.readers.lookup name := by
  cases call : moment.call? with
  | none => rw [readers_of_no_call call]
  | some made =>
      obtain ⟨store, action⟩ := made
      rw [after, step_of_call call, Session.session_of_perform]
      dsimp only
      cases action with
      | begin reader source =>
          have other : reader ≠ name := by simpa [Moment.begins, call] using unbegun
          rw [Session.readersAfter, Session.lookup_put, if_neg other]
      | next reader =>
          have other : reader ≠ name := by simpa [Moment.asks, call] using unasked
          rw [Session.readersAfter]
          split
          · rw [Session.lookup_put, if_neg other]
          · rfl
      | _ => rfl

theorem answer_of_asks {reader : Reader} (asks : moment.asks name = true)
    (found : moment.session.readers.lookup name = some reader) :
    moment.answer = Reader.answer (reader.next moment.session.stores).1 ∧
      moment.after.readers.lookup name = some (reader.next moment.session.stores).2 := by
  obtain ⟨store, call⟩ := call_of_asks asks
  constructor
  · rw [answer, step_of_call call]
    simp only [Session.perform, Session.find, found, Session.given]
    cases (reader.next moment.session.stores).1 <;> rfl
  · rw [after, step_of_call call, Session.session_of_perform]
    simp only [Session.readersAfter, found, Session.lookup_put, if_true]

end Moment

namespace Session

variable {name : String} {steps : List Step} {session : Session} {reader : Reader}

theorem answer_of_gives {left : List (List Rule)}
    (found : session.readers.lookup name = some reader) (gives : reader.Gives left)
    (kept : ∀ moment ∈ session.moments steps, moment.begins name = false) {k : Nat}
    {moment : Moment} (asked : ((session.moments steps).filter (·.asks name))[k]? = some moment) :
    moment.answer = nthAnswer (.ok left) k := by
  -- Only steps that ask the reader use up what is left, so the position counts those.
  induction steps generalizing session reader left k with
  | nil => simp [moments] at asked
  | cons step rest ih =>
      rw [moments, List.forall_mem_cons] at kept
      rw [moments, List.filter_cons] at asked
      split at asked
      · next asks =>
          obtain ⟨first, found⟩ := Moment.answer_of_asks asks found
          obtain ⟨answer, gives⟩ := gives.next session.stores
          cases k with
          | zero =>
              obtain rfl := Option.some.inj asked
              rw [first, answer, nth_answer_zero]
              rfl
          | succ k =>
              rw [nth_answer_succ]
              exact ih found gives kept.2 asked
      · next unasked =>
          have still := Moment.lookup_readers (Bool.eq_false_iff.mpr unasked) kept.1
          exact ih (still.trans found) gives kept.2 asked

theorem answer_of_waiting {source : Source} {store : Store}
    (found : session.readers.lookup name = some (.waiting source store))
    (kept : ∀ moment ∈ session.moments steps, moment.begins name = false) {k : Nat}
    {first moment : Moment}
    (begun : ((session.moments steps).filter (·.asks name)).head? = some first)
    (asked : ((session.moments steps).filter (·.asks name))[k]? = some moment) :
    moment.answer = nthAnswer (readAll source (first.session.stores.contents store)) k := by
  -- The reader waits as it is through all steps before the first that asks it.
  induction steps generalizing session with
  | nil => simp [moments] at asked
  | cons step rest ih =>
      rw [moments, List.forall_mem_cons] at kept
      rw [moments, List.filter_cons] at begun asked
      split at asked
      · next asks =>
          rw [if_pos asks] at begun
          obtain rfl := Option.some.inj begun
          obtain ⟨answer, found⟩ := Moment.answer_of_asks asks found
          rw [Reader.next_waiting] at answer found
          obtain ⟨read, gives⟩ := Reader.first_eq source (session.stores.contents store)
          cases k with
          | zero =>
              obtain rfl := Option.some.inj asked
              rw [answer, read, nth_answer_zero]
          | succ k =>
              rw [nth_answer_succ]
              exact answer_of_gives found gives kept.2 asked
      · next unasked =>
          rw [if_neg unasked] at begun
          have still := Moment.lookup_readers (Bool.eq_false_iff.mpr unasked) kept.1
          exact ih (still.trans found) kept.2 begun asked

end Session

/-- Whatever steps are taken after a reader was begun: the `k`-th time that it is asked it answers
the `k`-th reading of a single run, with the contents that its store had when it was first asked,
and nothing behind the last. A fault is the first answer, and nothing comes after it. -/
theorem readings_isolated {session : Session} {on : Option String} {store : Store} {name : String}
    {source : Source} {steps : List Step} (opened : session.storeOf on = .ok store)
    (kept : ∀ moment ∈ (session.step (.act on (.begin name source))).2.moments steps,
      moment.begins name = false) :
    let asked := ((session.step (.act on (.begin name source))).2.moments steps).filter
      (·.asks name)
    ∀ first, asked.head? = some first → ∀ k moment, asked[k]? = some moment →
      moment.answer = nthAnswer (readAll source (first.session.stores.contents store)) k := by
  intro asked first begun k moment answered
  have call : Moment.call? ⟨session, .act on (.begin name source)⟩ =
      some (store, .begin name source) := by
    rw [Moment.call?]
    simp only [opened]
  have found : (session.step (.act on (.begin name source))).2.readers.lookup name =
      some (.waiting source store) := by
    rw [Moment.step_of_call call, Session.session_of_perform]
    simp only [Session.readersAfter, Session.lookup_put, if_true]
  exact Session.answer_of_waiting found kept begun answered

theorem reading_fails_for_later_word :
    let session : Session := {}
    let begun := (session.step (.act none (.begin "reader" (.text "heron croaks")))).2
    let steps : List Step :=
      [.act none (.register "heron" "n"), .act none (.next "reader"),
        .act none (.register "croaks" "v"), .act none (.next "reader")]
    let words : List Word := [.plain "heron", .plain "croaks"]
    ((begun.moments steps).filter (·.asks "reader")).map Moment.answer =
      [.error (.reading (.unknownWord words "croaks" 1)), .ok .exhausted] := by
  intro session begun steps words
  have given : Source.words (.text "heron croaks") = .ok words := by cbv
  have rejected : Utterance.check ⟨words, Lexicon.builtin.insert "heron" .noun⟩ =
      .error (.unknownWord words "croaks" 1) := by
    decide +kernel
  suffices any : ∀ lexicon : Lexicon,
      Utterance.check ⟨words, lexicon.insert "heron" .noun⟩ =
        .error (.unknownWord words "croaks" 1) →
      let session : Session := { stores := { shared := lexicon } }
      let begun := (session.step (.act none (.begin "reader" (.text "heron croaks")))).2
      ((begun.moments steps).filter (·.asks "reader")).map Moment.answer =
        [.error (.reading (.unknownWord words "croaks" 1)), .ok .exhausted] from
    any .builtin rejected
  intro lexicon rejected session begun
  have opened : session.storeOf none = .ok .shared := rfl
  have kept : ∀ moment ∈ begun.moments steps, moment.begins "reader" = false := by
    intro moment member
    simp only [steps, Session.moments, List.mem_cons, List.not_mem_nil, or_false] at member
    rcases member with rfl | rfl | rfl | rfl <;> rfl
  let taught := (begun.step (.act none (.register "heron" "n"))).2
  obtain ⟨second, asked⟩ : ∃ second, (begun.moments steps).filter (·.asks "reader") =
      [⟨taught, .act none (.next "reader")⟩, second] := ⟨_, rfl⟩
  have contents : taught.stores.contents .shared = lexicon.insert "heron" .noun :=
    begun.stores.contents_register "heron" .noun trivial
  have isolated := readings_isolated opened kept _ (by rw [asked]; rfl)
  rw [contents, read_all_error given rejected] at isolated
  rw [asked, List.map_cons, List.map_cons, isolated 0 _ (by rw [asked]; rfl),
    isolated 1 second (by rw [asked]; rfl)]
  rfl

end ControlledEnglish
