import ControlledEnglish.Grammar.Memo

/-! Consumers that share one memo.

Any number of searches are under way over the same memo, and each is asked for its next derivation
whenever somebody likes. What each of them answers is what it would answer alone and without a memo,
and none of them ever asks for a goal whose own source is being advanced. -/

namespace ControlledEnglish

/-- The table of a search without a memo: every goal is searched anew wherever it is asked for. -/
def IsPlain (u : Utterance) (table : Goal → List Derivation) : Prop :=
  ∀ goal, table goal = (u.search goal).all table

section Plain

variable {u : Utterance} {table : Goal → List Derivation}

theorem all_eq_of_stays_below {α : Type} {bound : Nat} {s : Search α}
    (agree : ∀ goal, u.rank goal < bound → table goal = u.derivations goal)
    (below : s.StaysBelow u bound) : s.all table = s.all u.derivations := by
  induction s with
  | nothing => rfl
  | found result next ih => rw [Search.all, Search.all, ih below]
  | each goal skip body next body_ih ih =>
      obtain ⟨lower, inside, after⟩ := below
      rw [Search.all, Search.all, agree goal lower, ih after]
      rw [List.flatMap_def, List.flatMap_def,
        List.map_congr_left fun d taken => body_ih d (inside d taken)]

theorem derivations_is_plain (u : Utterance) : IsPlain u u.derivations := u.derivations_eq

theorem IsPlain.eq_derivations (plain : IsPlain u table) : table = u.derivations := by
  funext goal
  induction rank : u.rank goal using Nat.strongRecOn generalizing goal with
  | ind bound ih =>
      subst rank
      have agree (other : Goal) (lower : u.rank other < u.rank goal) :
          table other = u.derivations other := ih _ lower other rfl
      calc
        table goal = (u.search goal).all table := plain goal
        _ = (u.search goal).all u.derivations :=
          all_eq_of_stays_below agree (u.search_progresses goal).below
        _ = u.derivations goal := (u.derivations_eq goal).symm

end Plain

/-- The answers to so many pulls when the search is run alone against a finished table. -/
def Search.answers (table : Goal → List Derivation) (search : Search Derivation) (pulls : Nat) :
    List (Option Derivation) :=
  (List.range pulls).map fun place => (search.all table)[place]?

structure Consumer (u : Utterance) where
  search : Search Derivation
  rest : Task u u.top Derivation
  answers : List (Option Derivation) := []

namespace Consumer

variable {u : Utterance}

def ofSearch (search : Search Derivation) : Consumer u :=
  { search, rest := ⟨search, search.stays_below_top⟩ }

def answered (consumer : Consumer u) (answer : Option Derivation)
    (rest : Task u u.top Derivation) : Consumer u :=
  { consumer with rest, answers := consumer.answers ++ [answer] }

def pull (consumer : Consumer u) (memo : Memo u) : Except Reentry (Consumer u × Memo u) := do
  let (step, memo) ← Memo.resume u.top consumer.rest memo
  match step.1 with
  | none => return (consumer.answered none ⟨.nothing, trivial⟩, memo)
  | some (d, rest) => return (consumer.answered (some d) rest, memo)

/-- So far the consumer agrees, and what is left is what it has not answered yet. -/
structure Faithful (consumer : Consumer u) : Prop where
  agrees : consumer.answers = consumer.search.answers u.derivations consumer.answers.length
  left : consumer.rest.all = (consumer.search.all u.derivations).drop consumer.answers.length

theorem of_search_faithful (search : Search Derivation) :
    (ofSearch search : Consumer u).Faithful :=
  ⟨rfl, rfl⟩

theorem Faithful.answered {consumer : Consumer u} (faithful : consumer.Faithful)
    {answer : Option Derivation} {rest : Task u u.top Derivation}
    (same : answer = (consumer.search.all u.derivations)[consumer.answers.length]?)
    (left : rest.all = (consumer.search.all u.derivations).drop (consumer.answers.length + 1)) :
    (consumer.answered answer rest).Faithful := by
  refine ⟨?_, by simpa [Consumer.answered] using left⟩
  have before := faithful.agrees
  simp only [Search.answers, Consumer.answered, List.length_append, List.length_singleton,
    List.range_succ, List.map_append, List.map_singleton] at before ⊢
  rw [← before, same]

/-- A step of one consumer is faithful, whatever the others have left in the memo. -/
theorem Faithful.pull {consumer : Consumer u} (faithful : consumer.Faithful) {memo : Memo u}
    (idle : ∀ goal, memo.isExecuting goal = false) :
    ∃ answer rest after, consumer.pull memo = .ok (consumer.answered answer rest, after) ∧
      (consumer.answered answer rest).Faithful ∧ ∀ goal, after.isExecuting goal = false := by
  obtain ⟨⟨step, unstepped⟩, after, resumed, same⟩ :=
    Memo.resume_ok u.top consumer.rest memo fun goal executing => by
      rw [idle] at executing
      cases executing
  have still (goal : Goal) : after.isExecuting goal = false := by rw [same, idle]
  rw [Consumer.pull, resumed]
  rw [faithful.left] at unstepped
  cases step with
  | none =>
      refine ⟨none, ⟨.nothing, trivial⟩, after, rfl, faithful.answered ?_ ?_, still⟩
      · rw [List.getElem?_eq_none (List.drop_eq_nil_iff.mp unstepped)]
      · rw [← List.drop_drop, unstepped]
        rfl
  | some next =>
      obtain ⟨d, rest⟩ := next
      refine ⟨some d, rest, after, rfl, faithful.answered ?_ ?_, still⟩
      · rw [← List.head?_drop, unstepped]
        rfl
      · rw [← List.drop_drop, unstepped]
        rfl

end Consumer

structure Shared (u : Utterance) where
  memo : Memo u := ∅
  consumers : List (Consumer u) := []

inductive Move where
  | start (search : Search Derivation)
  | pull (place : Nat)

/-- The searches that have come, and how often each was asked, after one more move. -/
def Move.count (asked : List (Search Derivation × Nat)) : Move → List (Search Derivation × Nat)
  | .start search => asked ++ [(search, 0)]
  | .pull place => asked.modify place fun (search, pulls) => (search, pulls + 1)

namespace Shared

variable {u : Utterance}

def move (shared : Shared u) : Move → Except Reentry (Shared u)
  | .start search => .ok { shared with consumers := shared.consumers ++ [.ofSearch search] }
  | .pull place =>
      match shared.consumers[place]? with
      | none => .ok shared
      | some consumer => do
          let (consumer, memo) ← consumer.pull shared.memo
          return ⟨memo, shared.consumers.set place consumer⟩

def run (shared : Shared u) (moves : List Move) : Except Reentry (Shared u) :=
  moves.foldlM move shared

def asked (shared : Shared u) : List (Search Derivation × Nat) :=
  shared.consumers.map fun consumer => (consumer.search, consumer.answers.length)

def answered (shared : Shared u) : List (Search Derivation × List (Option Derivation)) :=
  shared.consumers.map fun consumer => (consumer.search, consumer.answers)

structure Faithful (shared : Shared u) : Prop where
  idle : ∀ goal, shared.memo.isExecuting goal = false
  consumers : ∀ consumer ∈ shared.consumers, consumer.Faithful

theorem Faithful.move {shared : Shared u} (faithful : shared.Faithful) (move : Move) :
    ∃ next, shared.move move = .ok next ∧ next.Faithful ∧ next.asked = move.count shared.asked := by
  cases move with
  | start search =>
      refine ⟨_, rfl, ⟨faithful.idle, ?_⟩, by simp [asked, Move.count, Consumer.ofSearch]⟩
      intro consumer present
      rcases List.mem_append.mp present with present | present
      · exact faithful.consumers consumer present
      · rw [List.mem_singleton.mp present]
        exact Consumer.of_search_faithful search
  | pull place =>
      rw [Shared.move, Move.count]
      split
      · next missing =>
          refine ⟨shared, rfl, faithful, ?_⟩
          rw [List.modify_eq_self]
          simpa [asked] using missing
      · next consumer found =>
          have present := List.mem_of_getElem? found
          obtain ⟨answer, rest, after, pulled, still, idle⟩ :=
            (faithful.consumers consumer present).pull faithful.idle
          rw [pulled]
          refine ⟨_, rfl, ⟨idle, ?_⟩, ?_⟩
          · intro other member
            rcases List.mem_or_eq_of_mem_set member with member | rfl
            · exact faithful.consumers other member
            · exact still
          · refine List.ext_getElem? fun other => ?_
            by_cases here : place = other
            · subst here
              simp [asked, found, Consumer.answered, List.getElem?_set_self']
            · simp [asked, here, List.getElem?_modify_ne]

theorem Faithful.run {shared : Shared u} (faithful : shared.Faithful) (moves : List Move) :
    ∃ next, shared.run moves = .ok next ∧ next.Faithful ∧
      next.asked = moves.foldl Move.count shared.asked := by
  induction moves generalizing shared with
  | nil => exact ⟨shared, rfl, faithful, rfl⟩
  | cons move moves ih =>
      obtain ⟨next, moved, still, counted⟩ := faithful.move move
      obtain ⟨last, runs, ends, total⟩ := ih still
      refine ⟨last, ?_, ends, by rw [total, counted, List.foldl_cons]⟩
      rw [Shared.run, List.foldlM_cons, moved]
      exact runs

theorem empty_faithful : ({} : Shared u).Faithful :=
  ⟨Memo.is_executing_empty, nofun⟩

theorem Faithful.answered_eq {shared : Shared u} (faithful : shared.Faithful) :
    shared.answered =
      shared.asked.map fun (search, pulls) => (search, search.answers u.derivations pulls) := by
  rw [answered, asked, List.map_map]
  refine List.map_congr_left fun consumer present => ?_
  exact congrArg (consumer.search, ·) (faithful.consumers consumer present).agrees

end Shared

/-- There is one way to search without a memo, and there a goal that is asked for is searched anew.
Whatever consumers come and ask, in whatever order, no goal is entered while it is executing, and
each consumer answers every pull as it would alone and without a memo. -/
theorem shared_memo_transparent (u : Utterance) :
    ∃ table, (∀ other, IsPlain u other ↔ other = table) ∧
      (∀ production start, (Search.ask production start).all table =
        (u.search ⟨production, start⟩).all table) ∧
      ∀ moves, ∃ shared : Shared u, ({} : Shared u).run moves = .ok shared ∧
        shared.answered = (moves.foldl Move.count []).map fun (search, pulls) =>
          (search, search.answers table pulls) := by
  refine ⟨u.derivations, fun other => ⟨IsPlain.eq_derivations, ?_⟩, ?_, fun moves => ?_⟩
  · rintro rfl
    exact derivations_is_plain u
  · intro production start
    rw [Search.all_ask]
    exact u.derivations_eq ⟨production, start⟩
  · obtain ⟨shared, runs, faithful, counted⟩ := Shared.empty_faithful.run (u := u) moves
    refine ⟨shared, runs, ?_⟩
    rw [faithful.answered_eq, counted]
    rfl

end ControlledEnglish
