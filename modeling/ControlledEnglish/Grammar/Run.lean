import ControlledEnglish.Grammar.Memo

namespace ControlledEnglish

/-- Between two steps of a run no entry of its memo is away. -/
structure Run (u : Utterance) (α : Type) where
  rest : Search α
  memo : Memo u := ∅
  idle : ∀ goal, memo.isExecuting goal = false := by exact Memo.is_executing_empty

namespace Run

variable {u : Utterance} {α : Type}

def all (run : Run u α) : List α := run.rest.all u.derivations

def task (run : Run u α) : Task u u.top α := ⟨run.rest, Search.stays_below_top run.rest⟩

theorem resume_ok (run : Run u α) :
    ∃ step memo, Memo.resume u.top run.task run.memo = .ok (step, memo) ∧
      memo.isExecuting = run.memo.isExecuting :=
  Memo.resume_ok u.top run.task run.memo fun goal away => by
    rw [run.idle] at away
    cases away

theorem resume_ne_error (run : Run u α) (fault : Reentry) :
    Memo.resume u.top run.task run.memo ≠ .error fault := by
  obtain ⟨step, memo, resumed, -⟩ := run.resume_ok
  rw [resumed]
  nofun

theorem idle_of_resume {run : Run u α} {step : Memo.Step u run.task} {memo : Memo u}
    (h : Memo.resume u.top run.task run.memo = .ok (step, memo)) (goal : Goal) :
    memo.isExecuting goal = false := by
  obtain ⟨step, after, resumed, same⟩ := run.resume_ok
  rw [h] at resumed
  cases resumed
  rw [same, run.idle]

def next? (run : Run u α) : Option (α × Run u α) :=
  match resumed : Memo.resume u.top run.task run.memo with
  | .error fault => absurd resumed (run.resume_ne_error fault)
  | .ok (step, memo) =>
      step.1.map fun (result, rest) => (result, ⟨rest.1, memo, idle_of_resume resumed⟩)

theorem next_eq {run : Run u α} {step : Memo.Step u run.task} {memo : Memo u}
    (h : Memo.resume u.top run.task run.memo = .ok (step, memo)) :
    run.next? = step.1.map fun (result, rest) => (result, ⟨rest.1, memo, idle_of_resume h⟩) := by
  rw [next?]
  split
  · next fault resumed => exact absurd resumed (run.resume_ne_error fault)
  · next resumed =>
      rw [h] at resumed
      cases resumed
      rfl

theorem all_of_next_none {run : Run u α} (h : run.next? = none) : run.all = [] := by
  obtain ⟨⟨step, unstepped⟩, memo, resumed, -⟩ := run.resume_ok
  rw [next_eq resumed, Option.map_eq_none_iff] at h
  subst h
  exact unstepped

theorem all_of_next_some {run next : Run u α} {result : α} (h : run.next? = some (result, next)) :
    run.all = result :: next.all := by
  obtain ⟨⟨step, unstepped⟩, memo, resumed, -⟩ := run.resume_ok
  simp only [next_eq resumed, Option.map_eq_some_iff, Prod.exists, Prod.mk.injEq] at h
  obtain ⟨result, rest, found, rfl, rfl⟩ := h
  subst found
  exact unstepped

def find? {β : Type} (use? : α → Option β) (run : Run u α) : Option (β × Run u α) :=
  match _ : run.next? with
  | none => none
  | some (result, next) =>
      match use? result with
      | some used => some (used, next)
      | none => find? use? next
termination_by run.all.length
decreasing_by simp [all_of_next_some ‹_›]

theorem filterMap_all_of_find_none {β : Type} {use? : α → Option β} {run : Run u α}
    (h : run.find? use? = none) : run.all.filterMap use? = [] := by
  fun_induction find? use? run with
  | case1 run ended => simp [all_of_next_none ended]
  | case2 => simp at h
  | case3 run result next given unused ih => simp [all_of_next_some given, unused, ih h]

theorem filterMap_all_of_find_some {β : Type} {use? : α → Option β} {run next : Run u α} {used : β}
    (h : run.find? use? = some (used, next)) :
    run.all.filterMap use? = used :: next.all.filterMap use? := by
  fun_induction find? use? run with
  | case1 => simp at h
  | case2 run result after given found use =>
      simp only [Option.some.injEq, Prod.mk.injEq] at h
      obtain ⟨rfl, rfl⟩ := h
      simp [all_of_next_some given, use]
  | case3 run result after given unused ih => simp [all_of_next_some given, unused, ih h]

/-- The first results, at most so many, searched no further than it takes to find them. -/
def take : Nat → Run u α → List α
  | 0, _ => []
  | count + 1, run =>
      match run.next? with
      | none => []
      | some (result, run) => result :: take count run

theorem take_eq (count : Nat) (run : Run u α) : run.take count = run.all.take count := by
  induction count generalizing run with
  | zero => simp [take]
  | succ count ih =>
      rw [take]
      split
      · next h => simp [all_of_next_none h]
      · next h => simp [all_of_next_some h, ih]

end Run

end ControlledEnglish
