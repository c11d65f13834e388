import ControlledEnglish.Grammar.Replay

/-! Readers of one replay.

Readers join at any time, each reads on whenever it is asked to, and some leave before they have come
to the end. They have the replay in common and nothing else, so what a reader was given depends only
on how often it was asked. The replay in turn depends only on how far the reader that is furthest
ahead was asked to go: the source is advanced for an element that comes after all that were asked for,
and for no other. -/

namespace ControlledEnglish

namespace Replay

variable {σ α S ε : Type} {step : σ → S → Except ε (Option (α × σ) × S)}

theorem read_of_seen {replay : Replay σ α} {place : Nat} (state : S)
    (seen : place < replay.seen.size ∨ replay.rest = none) :
    replay.read step place state = .ok (replay.seen[place]?, replay, state) := by
  have filled (count : Nat) (enough : count = 0 ∨ replay.rest = none) :
      replay.fill step count state = .ok (replay, state) := by
    cases count with
    | zero => rfl
    | succ count => rw [fill, enough.resolve_left (Nat.succ_ne_zero count)]
  rw [read, filled _ (seen.imp_left fun before => by omega)]
  rfl

theorem read_of_unseen {replay : Replay σ α} {source : σ} {state after : S}
    {next : Option (α × σ)} (waiting : replay.rest = some source)
    (stepped : step source state = .ok (next, after)) :
    replay.read step replay.seen.size state =
      .ok ((replay.record next).seen[replay.seen.size]?, replay.record next, after) := by
  have once : replay.seen.size + 1 - replay.seen.size = 1 := by omega
  rw [read, once, fill, waiting]
  simp only [stepped]
  rfl

/-- A source that holds a list. It is counted how often it was advanced. -/
def draw : List α → Nat → Except Empty (Option (α × List α) × Nat)
  | [], advances => .ok (none, advances + 1)
  | a :: rest, advances => .ok (some (a, rest), advances + 1)

theorem draw_faithful (source : List α) (advances : Nat) (next : Option (α × List α)) (after : Nat)
    (h : draw source advances = .ok (next, after)) : id source = unstep id next := by
  cases source <;> (cases h; rfl)

/-- One who reads a replay: where it goes on, whether it has stopped, and what it was given. -/
structure Reader (α : Type) where
  place : Nat := 0
  stopped : Bool := false
  answers : List (Option α) := []

namespace Reader

def given (reader : Reader α) : Option α → Reader α
  | none => { reader with stopped := true, answers := reader.answers ++ [none] }
  | some a => { reader with place := reader.place + 1, answers := reader.answers ++ [some a] }

/-- Who has stopped is given nothing, and does not look at the replay again. -/
def next (reader : Reader α) (replay : Replay (List α) α) (advances : Nat) :
    Except Empty (Reader α × Replay (List α) α × Nat) :=
  if reader.stopped then .ok (reader.given none, replay, advances)
  else do
    let (answer, replay, advances) ← replay.read draw reader.place advances
    return (reader.given answer, replay, advances)

def leave (reader : Reader α) : Reader α := { reader with stopped := true }

end Reader

/-- A replay, how often its source was advanced, and all who have joined. -/
structure Audience (α : Type) where
  replay : Replay (List α) α
  advances : Nat := 0
  readers : List (Reader α) := []

inductive Move where
  | join
  | next (reader : Nat)
  | leave (reader : Nat)

namespace Audience

def ofList (source : List α) : Audience α := { replay := .ofSource source }

def move (audience : Audience α) : Move → Except Empty (Audience α)
  | .join => .ok { audience with readers := audience.readers ++ [{}] }
  | .next place =>
      match audience.readers[place]? with
      | none => .ok audience
      | some reader => do
          let (reader, replay, advances) ← reader.next audience.replay audience.advances
          return ⟨replay, advances, audience.readers.set place reader⟩
  | .leave place => .ok { audience with readers := audience.readers.modify place Reader.leave }

def run (audience : Audience α) (moves : List Move) : Except Empty (Audience α) :=
  moves.foldlM move audience

end Audience

/-- How often a reader was asked, and, if it has left, how often again since then. -/
inductive Asked where
  | staying (times : Nat)
  | gone (times late : Nat)

namespace Asked

def times : Asked → Nat
  | staying times => times
  | gone times _ => times

def again : Asked → Asked
  | staying times => staying (times + 1)
  | gone times late => gone times (late + 1)

def leave : Asked → Asked
  | staying times => gone times 0
  | gone times late => gone times late

/-- One element of the source after the other, and nothing after the last or after leaving. -/
def answers (source : List α) : Asked → List (Option α)
  | staying times => (List.range times).map (source[·]?)
  | gone times late => (List.range times).map (source[·]?) ++ List.replicate late none

/-- What the reader is asked for next comes behind all that anybody was asked for, and it has not come
to the end. -/
def isAhead (length : Nat) (others : List Asked) : Asked → Bool
  | staying times => times ≤ length && others.all fun other => other.times ≤ times
  | gone .. => false

end Asked

def Move.count (asked : List Asked) : Move → List Asked
  | .join => asked ++ [.staying 0]
  | .next place => asked.modify place Asked.again
  | .leave place => asked.modify place Asked.leave

/-- Whether a move asks for an element that no reader has seen. -/
def Move.asksUnseen (length : Nat) (asked : List Asked) : Move → Bool
  | .next place => asked[place]?.any (Asked.isAhead length asked)
  | .join | .leave _ => false

theorem map_modify_eq_set {β γ : Type} {l : List β} {place : Nat} {a : β} {f : β → γ} {g : β → β}
    (found : l[place]? = some a) : (l.modify place g).map f = (l.map f).set place (f (g a)) := by
  refine List.ext_getElem? fun other => ?_
  by_cases here : place = other
  · subst here
    simp [found, List.getElem?_set_self']
  · simp [here, List.getElem?_modify_ne]

def reach : List Asked → Nat
  | [] => 0
  | asked :: rest => max asked.times (reach rest)

section Reach

variable {asked : List Asked} {a : Asked} {place : Nat}

theorem reach_le_iff {bound : Nat} : reach asked ≤ bound ↔ ∀ a ∈ asked, a.times ≤ bound := by
  induction asked with
  | nil => exact iff_of_true (Nat.zero_le _) (List.forall_mem_nil _)
  | cons first rest ih => rw [reach, Nat.max_le, ih, List.forall_mem_cons]

theorem times_le_reach (found : asked[place]? = some a) : a.times ≤ reach asked :=
  reach_le_iff.mp (Nat.le_refl _) a (List.mem_of_getElem? found)

theorem reach_join : reach (asked ++ [.staying 0]) = reach asked := by
  induction asked with
  | nil => rfl
  | cons first rest ih => rw [List.cons_append, reach, ih, reach]

theorem reach_modify {f : Asked → Asked} (found : asked[place]? = some a)
    (grows : a.times ≤ (f a).times) :
    reach (asked.modify place f) = max (reach asked) (f a).times := by
  induction asked generalizing place with
  | nil => cases found
  | cons first rest ih =>
      cases place with
      | zero =>
          cases found
          simp only [List.modify_zero_cons, reach]
          omega
      | succ place =>
          rw [List.modify_succ_cons, reach, reach, ih found, Nat.max_assoc]

theorem reach_leave : reach (asked.modify place Asked.leave) = reach asked := by
  cases found : asked[place]? with
  | none => rw [List.modify_eq_self (List.getElem?_eq_none_iff.mp found)]
  | some a =>
      have same : a.leave.times = a.times := by
        cases a <;> rfl
      rw [reach_modify found (Nat.le_of_eq same.symm), same,
        Nat.max_eq_left (times_le_reach found)]

theorem reach_again (found : asked[place]? = some a) :
    reach (asked.modify place Asked.again) = max (reach asked) a.again.times := by
  apply reach_modify found
  cases a with
  | staying times => exact Nat.le_succ times
  | gone times late => exact Nat.le_refl times

end Reach

variable {source : List α}

/-- The state of a replay is that of its source after the most that anybody asked for. -/
structure Reached (source : List α) (most : Nat) (replay : Replay (List α) α) (count : Nat) :
    Prop where
  all : replay.all id = source
  seen : replay.seen.size = min most source.length
  ended : replay.rest = none ↔ source.length < most
  advances : count = min most (source.length + 1)

namespace Reached

variable {replay : Replay (List α) α} {most count : Nat}

theorem of_source : Reached source 0 (.ofSource source) 0 :=
  ⟨all_of_source source, by simp [ofSource],
    iff_of_false (Option.some_ne_none source) (Nat.not_lt_zero _), by simp⟩

theorem beyond (reached : Reached source most replay count) {further : Nat}
    (behind : source.length < most) (more : most ≤ further) :
    Reached source further replay count := by
  obtain ⟨all, seen, ended, advances⟩ := reached
  refine ⟨all, ?_, ?_, ?_⟩
  · omega
  · exact iff_of_true (ended.mpr behind) (by omega)
  · omega

theorem record (reached : Reached source most replay count) {left : List α} {after : Nat}
    {next : Option (α × List α)} (waiting : replay.rest = some left)
    (drawn : draw left count = .ok (next, after)) :
    Reached source (most + 1) (replay.record next) after := by
  obtain ⟨all, seen, ended, advances⟩ := reached
  have whole : (replay.record next).all id = source := by
    rw [all_record waiting (draw_faithful _ _ _ _ drawn), all]
  have before_end : ¬source.length < most := fun behind => by
    rw [ended.mpr behind] at waiting
    cases waiting
  have lengths : source.length = replay.seen.size + left.length := by
    rw [← all, Replay.all, waiting]
    simp
  -- With nothing left the replay learns that it is at the end, else it sees one element more.
  cases left with
  | nil =>
      cases drawn
      rw [List.length_nil] at lengths
      refine ⟨whole, ?_, iff_of_true rfl ?_, ?_⟩
      · simp only [Replay.record]
        omega
      · omega
      · omega
  | cons a rest =>
      cases drawn
      rw [List.length_cons] at lengths
      refine ⟨whole, ?_, iff_of_false (Option.some_ne_none rest) ?_, ?_⟩
      · simp only [Replay.record, Array.size_push]
        omega
      · omega
      · omega

theorem read (reached : Reached source most replay count) {place : Nat} (asked : place ≤ most)
    (inside : place ≤ source.length) :
    ∃ after count', replay.read draw place count = .ok (source[place]?, after, count') ∧
      Reached source (max most (place + 1)) after count' := by
  obtain behind | front := Nat.lt_or_eq_of_le asked
  · -- Somebody was asked for this place before, so the source is left alone.
    have seen : place < replay.seen.size ∨ replay.rest = none := by
      rw [reached.seen, reached.ended]
      omega
    refine ⟨replay, count, ?_, ?_⟩
    · rw [read_of_seen count seen, getElem_seen seen, reached.all]
    · rwa [Nat.max_eq_left behind]
  · subst front
    have size : replay.seen.size = place := by
      rw [reached.seen, Nat.min_eq_left inside]
    cases waiting : replay.rest with
    | none => exact absurd (reached.ended.mp waiting) (Nat.not_lt_of_le inside)
    | some left =>
        obtain ⟨next, after, drawn⟩ : ∃ next after, draw left count = .ok (next, after) := by
          cases left <;> exact ⟨_, _, rfl⟩
        have recorded := reached.record waiting drawn
        have reads := read_of_unseen waiting drawn
        rw [size] at reads
        refine ⟨replay.record next, after, ?_, ?_⟩
        · rw [reads, getElem_seen ?_, recorded.all]
          rw [recorded.seen, recorded.ended]
          omega
        · rwa [Nat.max_eq_right (Nat.le_succ place)]

end Reached

namespace Asked

def hasStopped (length : Nat) : Asked → Bool
  | staying times => length < times
  | gone .. => true

def answer (source : List α) : Asked → Option α
  | staying times => source[times]?
  | gone .. => none

def reader (source : List α) (asked : Asked) : Reader α where
  place := min asked.times source.length
  stopped := asked.hasStopped source.length
  answers := asked.answers source

theorem answers_again (asked : Asked) :
    asked.again.answers source = asked.answers source ++ [asked.answer source] := by
  cases asked with
  | staying times => simp [again, answers, answer, List.range_succ]
  | gone times late => simp [again, answers, answer, List.replicate_succ']

theorem reader_again (asked : Asked) :
    (asked.reader source).given (asked.answer source) = asked.again.reader source := by
  have answers : asked.again.answers source = asked.answers source ++ [asked.answer source] :=
    asked.answers_again
  cases asked with
  | staying times =>
      rw [reader, reader, answers]
      by_cases inside : times < source.length
      · have more : min times source.length + 1 = min (times + 1) source.length := by omega
        have staying : ¬source.length < times := by omega
        have staying' : ¬source.length < times + 1 := by omega
        simp [answer, inside, Reader.given, again, Asked.times, hasStopped, more, staying, staying']
      · have same : min times source.length = min (times + 1) source.length := by omega
        have stopped : source.length < times + 1 := by omega
        simp [answer, inside, Reader.given, again, Asked.times, hasStopped, same, stopped]
  | gone times late =>
      rw [reader, reader, answers]
      rfl

theorem reader_leave (asked : Asked) : (asked.reader source).leave = asked.leave.reader source := by
  cases asked with
  | staying times => simp [reader, Reader.leave, leave, Asked.times, hasStopped, Asked.answers]
  | gone times late => rfl

end Asked

/-- A reader that was asked so often, whoever else was asked in between, is given the next element. -/
theorem Reached.next {replay : Replay (List α) α} {most count : Nat}
    (reached : Reached source most replay count) {asked : Asked} (within : asked.times ≤ most) :
    ∃ after count', (asked.reader source).next replay count =
        .ok (asked.again.reader source, after, count') ∧
      Reached source (max most asked.again.times) after count' := by
  rw [← asked.reader_again]
  cases asked with
  | gone times late =>
      have most_same : max most (Asked.gone times late).again.times = most := Nat.max_eq_left within
      exact ⟨replay, count, rfl, by rwa [most_same]⟩
  | staying times =>
      by_cases stopped : source.length < times
      · refine ⟨replay, count, ?_, ?_⟩
        · have behind : source[times]? = none := List.getElem?_eq_none (Nat.le_of_lt stopped)
          have halted : ((Asked.staying times).reader source).stopped = true :=
            decide_eq_true stopped
          rw [Reader.next, if_pos halted, Asked.answer, behind]
        · exact reached.beyond (Nat.lt_of_lt_of_le stopped within) (Nat.le_max_left _ _)
      · have inside := Nat.le_of_not_lt stopped
        obtain ⟨after, count', reads, further⟩ := reached.read within inside
        refine ⟨after, count', ?_, further⟩
        have going : ¬((Asked.staying times).reader source).stopped = true := by
          simpa [Asked.reader, Asked.hasStopped] using inside
        have place : ((Asked.staying times).reader source).place = (Asked.staying times).times :=
          Nat.min_eq_left inside
        rw [Reader.next, if_neg going, place, reads]
        rfl

namespace Audience

/-- Everything that an audience shows can be told from how often its readers were asked. -/
structure Faithful (source : List α) (asked : List Asked) (audience : Audience α) : Prop where
  reached : Reached source (reach asked) audience.replay audience.advances
  readers : audience.readers = asked.map (Asked.reader source)

theorem of_list_faithful (source : List α) : (ofList source).Faithful source [] :=
  ⟨.of_source, rfl⟩

variable {asked : List Asked} {audience : Audience α}

theorem Faithful.move (faithful : audience.Faithful source asked) (move : Move) :
    ∃ after, audience.move move = .ok after ∧ after.Faithful source (move.count asked) := by
  obtain ⟨reached, readers⟩ := faithful
  cases move with
  | join =>
      refine ⟨_, rfl, ?_, ?_⟩
      · rw [Move.count, reach_join]
        exact reached
      · simp [Move.count, readers, Asked.reader, Asked.times, Asked.hasStopped, Asked.answers]
  | leave place =>
      refine ⟨_, rfl, ?_, ?_⟩
      · rw [Move.count, reach_leave]
        exact reached
      · refine List.ext_getElem? fun other => ?_
        by_cases here : place = other
        · subst here
          simp [Move.count, readers, Function.comp_def, Asked.reader_leave]
        · simp [Move.count, readers, here, List.getElem?_modify_ne]
  | next place =>
      cases found : asked[place]? with
      | none =>
          have missing : audience.readers[place]? = none := by
            rw [readers, List.getElem?_map, found]
            rfl
          refine ⟨audience, by rw [Audience.move, missing], ?_⟩
          rw [Move.count, List.modify_eq_self (List.getElem?_eq_none_iff.mp found)]
          exact ⟨reached, readers⟩
      | some a =>
          have present : audience.readers[place]? = some (a.reader source) := by
            rw [readers, List.getElem?_map, found]
            rfl
          obtain ⟨after, count, given, further⟩ := reached.next (times_le_reach found)
          refine ⟨⟨after, count, audience.readers.set place (a.again.reader source)⟩, ?_, ?_, ?_⟩
          · simp only [Audience.move, present, given]
            rfl
          · rw [Move.count, reach_again found]
            exact further
          · rw [Move.count, map_modify_eq_set found, readers]

theorem Faithful.run (faithful : audience.Faithful source asked) (moves : List Move) :
    ∃ after, audience.run moves = .ok after ∧
      after.Faithful source (moves.foldl Move.count asked) := by
  induction moves generalizing audience asked with
  | nil => exact ⟨audience, rfl, faithful⟩
  | cons move moves ih =>
      obtain ⟨next, moved, still⟩ := faithful.move move
      obtain ⟨last, runs, ends⟩ := ih still
      refine ⟨last, ?_, ends⟩
      rw [Audience.run, List.foldlM_cons, moved]
      exact runs

end Audience

theorem is_ahead_staying (length times : Nat) (asked : List Asked) :
    (Asked.staying times).isAhead length asked =
      decide (times ≤ length ∧ reach asked ≤ times) := by
  rw [Bool.eq_iff_iff, Asked.isAhead, Bool.and_eq_true, decide_eq_true_iff, decide_eq_true_iff,
    reach_le_iff, List.all_eq_true]
  simp only [decide_eq_true_iff]

/-- The source is advanced by one more element for a move that asks for an unseen one. -/
theorem min_reach_count (length : Nat) (asked : List Asked) (move : Move) :
    min (reach (move.count asked)) (length + 1) =
      min (reach asked) (length + 1) + (move.asksUnseen length asked).toNat := by
  cases move with
  | join =>
      rw [Move.count, reach_join]
      rfl
  | leave place =>
      rw [Move.count, reach_leave]
      rfl
  | next place =>
      rw [Move.count, Move.asksUnseen]
      cases found : asked[place]? with
      | none =>
          rw [List.modify_eq_self (List.getElem?_eq_none_iff.mp found)]
          rfl
      | some a =>
          have within := times_le_reach found
          rw [reach_again found, Option.any_some]
          cases a with
          | gone times late =>
              rw [Asked.again, Asked.isAhead]
              simp only [Asked.times, Bool.toNat_false] at within ⊢
              omega
          | staying times =>
              rw [is_ahead_staying]
              simp only [Asked.again, Asked.times] at within ⊢
              by_cases ahead : times ≤ length ∧ reach asked ≤ times
              · rw [decide_eq_true ahead, Bool.toNat_true]
                omega
              · rw [decide_eq_false ahead, Bool.toNat_false]
                omega

/-- Readers of a replay each read the whole source, whoever reads along, comes or leaves: the elements
in their order from the first, then nothing. The source is advanced by those moves, and by no others,
that ask for an element which no reader has seen. -/
theorem readers_share_replay (source : List α) (moves : List Move) :
    let asked := moves.foldl Move.count []
    ∃ audience, (Audience.ofList source).run moves = .ok audience ∧
      audience.readers.map Reader.answers = asked.map (Asked.answers source) ∧
      ∀ move : Move, ∃ after, audience.move move = .ok after ∧
        after.advances = audience.advances + (move.asksUnseen source.length asked).toNat := by
  intro asked
  obtain ⟨audience, runs, faithful⟩ := (Audience.of_list_faithful source).run moves
  refine ⟨audience, runs, ?_, fun move => ?_⟩
  · rw [faithful.readers, List.map_map]
    rfl
  · obtain ⟨after, moved, still⟩ := faithful.move move
    refine ⟨after, moved, ?_⟩
    rw [still.reached.advances, faithful.reached.advances]
    exact min_reach_count source.length asked move

example : ((Audience.ofList ["a", "b"]).run
      [.join, .next 0, .join, .next 1, .next 1, .leave 0, .next 0, .next 1]).map
    (fun audience => (audience.advances, audience.readers.map Reader.answers)) =
      .ok (3, [[some "a", none], [some "a", some "b", none]]) := rfl

end Replay

end ControlledEnglish
