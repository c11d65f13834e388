import Std.Data.DHashMap
import ControlledEnglish.Grammar.Progress
import ControlledEnglish.Grammar.Replay

/-! Running a search on demand, with a memo of what was found for each goal.

Each goal that a run comes to is searched once, and only as far as somebody asked. All who need it
read the same replay. An entry of the memo carries the proof that it replays the derivations of its
goal, so what a run answers does not depend on who read the memo before, or how far.

While the source of an entry is advanced, the entry is away. A request for it would have to advance
a source that is being advanced, and that is a fault. -/

namespace ControlledEnglish

variable (u : Utterance)

/-- A search that comes to goals of rank below the bound only. -/
abbrev Task (bound : Nat) (α : Type) := { search : Search α // search.StaysBelow u bound }

namespace Task

variable {u} {α : Type} {bound : Nat}

def all (task : Task u bound α) : List α := task.1.all u.derivations

end Task

abbrev Entry (goal : Goal) :=
  { replay : Replay (Task u (u.rank goal) Derivation) Derivation //
    replay.all Task.all = u.derivations goal }

inductive Slot (goal : Goal) where
  | idle (entry : Entry u goal)
  | executing

abbrev Memo := Std.DHashMap Goal (Slot u)

/-- A goal was asked for while its own source was being advanced. -/
structure Reentry where
  goal : Goal
  deriving DecidableEq, Repr

namespace Memo

abbrev Answer (goal : Goal) (place : Nat) :=
  { answer : Option Derivation // answer = (u.derivations goal)[place]? }

abbrev Step {α : Type} {bound : Nat} (task : Task u bound α) :=
  { step : Option (α × Task u bound α) // task.all = Replay.unstep Task.all step }

variable {u}

def fresh (goal : Goal) : Entry u goal :=
  ⟨.ofSource ⟨u.search goal, (u.search_progresses goal).below⟩, by
    rw [Replay.all_of_source, u.derivations_eq]
    rfl⟩

def slot (memo : Memo u) (goal : Goal) : Slot u goal := (memo.get? goal).getD (.idle (fresh goal))

def put (memo : Memo u) (goal : Goal) (slot : Slot u goal) : Memo u := memo.insert goal slot

theorem getElem_seen {goal : Goal} (entry : Entry u goal) {place : Nat}
    (seen : place < entry.1.seen.size) :
    entry.1.seen[place]? = (u.derivations goal)[place]? :=
  (Replay.getElem_seen (.inl seen)).trans (congrArg (·[place]?) entry.2)

section Steps

variable {α : Type} {bound : Nat} {goal : Goal} {skip : Nat} {body : Derivation → Search α}
  {next : Search α} {d : Derivation}

theorem drop_eq_cons {l : List Derivation} {place : Nat} {d : Derivation}
    (h : l[place]? = some d) : l.drop place = d :: l.drop (place + 1) := by
  obtain ⟨inside, rfl⟩ := List.getElem?_eq_some_iff.mp h
  exact List.drop_eq_getElem_cons inside

theorem all_each_none (h : (u.derivations goal)[skip]? = none) :
    (Search.each goal skip body next).all u.derivations = next.all u.derivations := by
  rw [Search.all, List.drop_eq_nil_of_le (List.getElem?_eq_none_iff.mp h)]
  rfl

theorem all_each_some (h : (u.derivations goal)[skip]? = some d) :
    (Search.each goal skip body next).all u.derivations =
      (body d ++ Search.each goal (skip + 1) body next).all u.derivations := by
  rw [Search.all_append, Search.all, Search.all, drop_eq_cons h]
  simp

theorem stays_below_each (below : (Search.each goal skip body next).StaysBelow u bound)
    (h : (u.derivations goal)[skip]? = some d) :
    (body d ++ Search.each goal (skip + 1) body next).StaysBelow u bound := by
  obtain ⟨lower, inside, after⟩ := below
  rw [drop_eq_cons h] at inside
  rw [Search.stays_below_append]
  exact ⟨inside d List.mem_cons_self, lower,
    fun e taken => inside e (List.mem_cons_of_mem d taken), after⟩

theorem work_each_lt (h : (u.derivations goal)[skip]? = some d) :
    (body d ++ Search.each goal (skip + 1) body next).work u.derivations <
      (Search.each goal skip body next).work u.derivations := by
  rw [Search.work_append, Search.work, Search.work, drop_eq_cons h]
  simp
  omega

end Steps

def advance {bound : Nat}
    (go : (task : Task u bound Derivation) → Memo u → Except Reentry (Step u task × Memo u))
    (task : Task u bound Derivation) (memo : Memo u) :
    Except Reentry (Option (Derivation × Task u bound Derivation) × Memo u) := do
  let (step, memo) ← go task memo
  return (step.1, memo)

theorem advance_faithful {bound : Nat}
    (go : (task : Task u bound Derivation) → Memo u → Except Reentry (Step u task × Memo u))
    (task : Task u bound Derivation) (memo : Memo u)
    (next : Option (Derivation × Task u bound Derivation)) (after : Memo u)
    (h : advance go task memo = .ok (next, after)) : task.all = Replay.unstep Task.all next := by
  obtain ⟨⟨step, moved⟩, _, h⟩ := Replay.bind_eq_ok h
  cases h
  exact step.2

mutual

def request (goal : Goal) (place : Nat) (memo : Memo u) :
    Except Reentry (Answer u goal place × Memo u) :=
  match memo.slot goal with
  | .executing => .error ⟨goal⟩
  | .idle entry =>
      if seen : place < entry.1.seen.size then
        .ok (⟨entry.1.seen[place]?, getElem_seen entry seen⟩, memo)
      else
        let step := advance fun task memo => resume (u.rank goal) task memo
        have faithful := advance_faithful fun task memo => resume (u.rank goal) task memo
        match found : entry.1.read step place (memo.put goal .executing) with
        | .error fault => .error fault
        | .ok (answer, replay, grown) =>
            .ok (⟨answer, by rw [← entry.2, Replay.read_eq faithful found]⟩,
              grown.put goal (.idle ⟨replay, by rw [← entry.2, Replay.all_read faithful found]⟩))
termination_by (u.rank goal, 1, 0)

def resume {α : Type} (bound : Nat) (task : Task u bound α) (memo : Memo u) :
    Except Reentry (Step u task × Memo u) :=
  match task with
  | ⟨.nothing, _⟩ => .ok (⟨none, rfl⟩, memo)
  | ⟨.found result next, below⟩ => .ok (⟨some (result, ⟨next, below⟩), rfl⟩, memo)
  | ⟨.each goal skip body next, below⟩ =>
      match request goal skip memo with
      | .error fault => .error fault
      | .ok (⟨none, answered⟩, memo) =>
          match resume bound ⟨next, below.2.2⟩ memo with
          | .error fault => .error fault
          | .ok (step, memo) => .ok (⟨step.1, (all_each_none answered.symm).trans step.2⟩, memo)
      | .ok (⟨some d, answered⟩, memo) =>
          match resume bound ⟨_, stays_below_each below answered.symm⟩ memo with
          | .error fault => .error fault
          | .ok (step, memo) => .ok (⟨step.1, (all_each_some answered.symm).trans step.2⟩, memo)
termination_by (bound, 0, task.1.work u.derivations)
decreasing_by
  · exact Prod.Lex.left _ _ below.1
  · exact Prod.Lex.right _ (Prod.Lex.right _ (by simp only [Search.work]; omega))
  · exact Prod.Lex.right _ (Prod.Lex.right _ (work_each_lt answered.symm))

end

/-- The goals whose entries are away. -/
def isExecuting (memo : Memo u) (goal : Goal) : Bool :=
  match memo.slot goal with
  | .executing => true
  | .idle _ => false

@[simp] theorem is_executing_empty (goal : Goal) : isExecuting (∅ : Memo u) goal = false := by
  simp [isExecuting, slot]

theorem slot_put (memo : Memo u) (goal : Goal) (slot : Slot u goal) :
    (memo.put goal slot).slot goal = slot := by
  simp [Memo.slot, put]

theorem is_executing_put_of_ne (memo : Memo u) {goal other : Goal} (slot : Slot u goal)
    (differ : goal ≠ other) : (memo.put goal slot).isExecuting other = memo.isExecuting other := by
  simp [isExecuting, Memo.slot, put, Std.DHashMap.get?_insert, differ]

def FreeBelow (memo : Memo u) (bound : Nat) : Prop :=
  ∀ goal, memo.isExecuting goal = true → bound ≤ u.rank goal

theorem FreeBelow.put {memo : Memo u} {goal : Goal} (free : memo.FreeBelow (u.rank goal + 1)) :
    (memo.put goal .executing).FreeBelow (u.rank goal) := by
  intro other executing
  by_cases same : goal = other
  · exact Nat.le_of_eq (by rw [same])
  · rw [is_executing_put_of_ne _ _ same] at executing
    exact Nat.le_of_lt (free other executing)

theorem is_executing_put_back {memo grown : Memo u} {goal : Goal} {entry back : Entry u goal}
    (idle : memo.slot goal = .idle entry)
    (same : grown.isExecuting = (memo.put goal .executing).isExecuting) :
    (grown.put goal (.idle back)).isExecuting = memo.isExecuting := by
  funext other
  by_cases here : goal = other
  · subst here
    rw [isExecuting, isExecuting, slot_put, idle]
  · rw [is_executing_put_of_ne _ _ here, same, is_executing_put_of_ne _ _ here]

mutual

/-- Requests come down in rank, so they never come to a goal that is executing. -/
theorem request_ok (goal : Goal) (place : Nat) (memo : Memo u)
    (free : memo.FreeBelow (u.rank goal + 1)) :
    ∃ answer after, request goal place memo = .ok (answer, after) ∧
      after.isExecuting = memo.isExecuting := by
  rw [request]
  split
  · next away =>
      have := free goal (by rw [isExecuting, away])
      omega
  · next entry idle =>
      split
      · exact ⟨_, _, rfl, rfl⟩
      · have safe (task : Task u (u.rank goal) Derivation) (moved : Memo u)
            (away : moved.isExecuting = (memo.put goal .executing).isExecuting) :
            ∃ next after, advance (fun task memo => resume (u.rank goal) task memo) task moved =
                .ok (next, after) ∧
              after.isExecuting = (memo.put goal .executing).isExecuting := by
          obtain ⟨step, after, resumed, same⟩ := resume_ok (u.rank goal) task moved fun other h =>
            free.put other (by rw [← away, h])
          refine ⟨step.1, after, ?_, same.trans away⟩
          rw [advance, resumed]
          rfl
        obtain ⟨answer, replay, grown, found, away⟩ := Replay.read_ok safe entry.1 place rfl
        dsimp only
        split
        · next fault failed =>
            rw [found] at failed
            cases failed
        · next answer' replay' grown' found' =>
            rw [found] at found'
            cases found'
            exact ⟨_, _, rfl, is_executing_put_back idle away⟩
termination_by (u.rank goal, 1, 0)

theorem resume_ok {α : Type} (bound : Nat) (task : Task u bound α) (memo : Memo u)
    (free : memo.FreeBelow bound) :
    ∃ step after, resume bound task memo = .ok (step, after) ∧
      after.isExecuting = memo.isExecuting := by
  match task with
  | ⟨.nothing, _⟩ => exact ⟨_, _, by rw [resume], rfl⟩
  | ⟨.found result next, below⟩ => exact ⟨_, _, by rw [resume], rfl⟩
  | ⟨.each goal skip body next, below⟩ =>
      obtain ⟨⟨answer, answered⟩, grown, requested, same⟩ := request_ok goal skip memo
        fun other executing => Nat.lt_of_lt_of_le below.1 (free other executing)
      have still : grown.FreeBelow bound := by
        intro other executing
        exact free other (by rw [← same, executing])
      cases answer with
      | none =>
          obtain ⟨step, after, resumed, same'⟩ := resume_ok bound ⟨next, below.2.2⟩ grown still
          refine ⟨⟨step.1, (all_each_none answered.symm).trans step.2⟩, after, ?_, same'.trans same⟩
          rw [resume, requested]
          simp only [resumed]
      | some d =>
          obtain ⟨step, after, resumed, same'⟩ :=
            resume_ok bound ⟨_, stays_below_each below answered.symm⟩ grown still
          refine ⟨⟨step.1, (all_each_some answered.symm).trans step.2⟩, after, ?_, same'.trans same⟩
          rw [resume, requested]
          simp only [resumed]
termination_by (bound, 0, task.1.work u.derivations)
decreasing_by
  · exact Prod.Lex.left _ _ below.1
  · exact Prod.Lex.right _ (Prod.Lex.right _ (by simp only [Search.work]; omega))
  · exact Prod.Lex.right _ (Prod.Lex.right _ (work_each_lt answered.symm))

end

end Memo

end ControlledEnglish
