
namespace ControlledEnglish

/-- The elements seen so far, and the state of the source, or `none` once it has run out. -/
structure Replay (σ α : Type) where
  seen : Array α := #[]
  rest : Option σ

namespace Replay

variable {σ α S ε : Type}

theorem bind_eq_ok {β γ : Type} {first : Except ε β} {rest : β → Except ε γ} {result : γ}
    (h : first >>= rest = .ok result) : ∃ value, first = .ok value ∧ rest value = .ok result := by
  cases first with
  | error fault => cases h
  | ok value => exact ⟨value, rfl, h⟩

def ofSource (source : σ) : Replay σ α := ⟨#[], some source⟩

def record (replay : Replay σ α) : Option (α × σ) → Replay σ α
  | none => { replay with rest := none }
  | some (element, rest) => ⟨replay.seen.push element, some rest⟩

/-- Advances the source until so many more elements are seen, or it has run out. A step of the
source may use and change a state that the source shares with others, and it may fail. -/
def fill (step : σ → S → Except ε (Option (α × σ) × S)) :
    Nat → Replay σ α → S → Except ε (Replay σ α × S)
  | 0, replay, state => .ok (replay, state)
  | count + 1, replay, state =>
      match replay.rest with
      | none => .ok (replay, state)
      | some source => do
          let (next, state) ← step source state
          fill step count (replay.record next) state

/-- The element at a place, for which the source is advanced only if it was not seen before. -/
def read (step : σ → S → Except ε (Option (α × σ) × S)) (replay : Replay σ α) (place : Nat)
    (state : S) : Except ε (Option α × Replay σ α × S) := do
  let (replay, state) ← replay.fill step (place + 1 - replay.seen.size) state
  return (replay.seen[place]?, replay, state)

def all (elements : σ → List α) (replay : Replay σ α) : List α :=
  replay.seen.toList ++ replay.rest.elim [] elements

def unstep (elements : σ → List α) : Option (α × σ) → List α
  | none => []
  | some (element, rest) => element :: elements rest

section All

variable {elements : σ → List α}

@[simp] theorem all_of_source (source : σ) :
    (ofSource source : Replay σ α).all elements = elements source := by
  simp [ofSource, all]

theorem all_record {replay : Replay σ α} {source : σ} {next : Option (α × σ)}
    (waiting : replay.rest = some source) (h : elements source = unstep elements next) :
    (replay.record next).all elements = replay.all elements := by
  cases next with
  | none => simp [record, all, waiting, h, unstep]
  | some next =>
      obtain ⟨element, rest⟩ := next
      simp [record, all, waiting, h, unstep]

theorem getElem_seen {replay : Replay σ α} {place : Nat}
    (reached : place < replay.seen.size ∨ replay.rest = none) :
    replay.seen[place]? = (replay.all elements)[place]? := by
  rw [all, ← Array.getElem?_toList]
  rcases reached with reached | stopped
  · rw [List.getElem?_append_left (by simpa using reached)]
  · simp [stopped]

variable {step : σ → S → Except ε (Option (α × σ) × S)}

theorem fill_reached {count : Nat} {replay filled : Replay σ α} {state after : S}
    (h : replay.fill step count state = .ok (filled, after)) :
    replay.seen.size + count ≤ filled.seen.size ∨ filled.rest = none := by
  induction count generalizing replay state with
  | zero =>
      cases h
      exact .inl (Nat.le_refl _)
  | succ count ih =>
      rw [fill] at h
      split at h
      · next stopped =>
          cases h
          exact .inr stopped
      · next source waiting =>
          obtain ⟨⟨next, moved⟩, _, h⟩ := bind_eq_ok h
          cases next with
          | none =>
              refine .inr ?_
              cases count <;> (cases h; rfl)
          | some next =>
              refine (ih h).imp_left fun reached => ?_
              simp only [record, Array.size_push] at reached
              omega

section Safe

variable {holds : S → Prop} (safe : ∀ source state, holds state →
  ∃ next after, step source state = .ok (next, after) ∧ holds after)

include safe

theorem fill_ok (count : Nat) (replay : Replay σ α) {state : S} (start : holds state) :
    ∃ filled after, replay.fill step count state = .ok (filled, after) ∧ holds after := by
  induction count generalizing replay state with
  | zero => exact ⟨replay, state, rfl, start⟩
  | succ count ih =>
      rw [fill]
      split
      · exact ⟨replay, state, rfl, start⟩
      · next source waiting =>
          obtain ⟨next, moved, stepped, held⟩ := safe source state start
          rw [stepped]
          exact ih (replay.record next) held

theorem read_ok (replay : Replay σ α) (place : Nat) {state : S} (start : holds state) :
    ∃ answer read after, replay.read step place state = .ok (answer, read, after) ∧ holds after := by
  obtain ⟨filled, after, fills, held⟩ := fill_ok safe (place + 1 - replay.seen.size) replay start
  refine ⟨filled.seen[place]?, filled, after, ?_, held⟩
  rw [read, fills]
  rfl

end Safe

variable (faithful : ∀ source state next after,
  step source state = .ok (next, after) → elements source = unstep elements next)

include faithful

theorem all_fill {count : Nat} {replay filled : Replay σ α} {state after : S}
    (h : replay.fill step count state = .ok (filled, after)) :
    filled.all elements = replay.all elements := by
  induction count generalizing replay state with
  | zero =>
      cases h
      rfl
  | succ count ih =>
      rw [fill] at h
      split at h
      · cases h
        rfl
      · next source waiting =>
          obtain ⟨⟨next, moved⟩, stepped, h⟩ := bind_eq_ok h
          rw [ih h, all_record waiting (faithful _ _ _ _ stepped)]

theorem read_eq {replay read : Replay σ α} {place : Nat} {state after : S} {answer : Option α}
    (h : replay.read step place state = .ok (answer, read, after)) :
    answer = (replay.all elements)[place]? := by
  obtain ⟨⟨filled, moved⟩, fills, h⟩ := bind_eq_ok h
  cases h
  rw [← all_fill faithful fills]
  exact getElem_seen ((fill_reached fills).imp_left fun h => by omega)

theorem all_read {replay read : Replay σ α} {place : Nat} {state after : S} {answer : Option α}
    (h : replay.read step place state = .ok (answer, read, after)) :
    read.all elements = replay.all elements := by
  obtain ⟨⟨filled, moved⟩, fills, h⟩ := bind_eq_ok h
  cases h
  exact all_fill faithful fills

end All

end Replay

end ControlledEnglish
