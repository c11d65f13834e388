import Mathlib.Data.List.Basic
import ControlledEnglish.Proofs.Stores
import ControlledEnglish.Service.Handle

namespace ControlledEnglish

namespace Stores

variable {stores : Stores} {store : Store} {declarations : List Declaration}

theorem lookup_declare (held : stores.Holds store) {word : String} {category : Category} :
    ((stores.declare store declarations).contents store).lookup word category = true ↔
      (stores.contents store).lookup word category = true ∨ ⟨word, category⟩ ∈ declarations := by
  have listed : (word, category) ∈ declarations.map (fun d => (d.word, d.category)) ↔
      ⟨word, category⟩ ∈ declarations := by
    simp only [List.mem_map, Prod.mk.injEq]
    constructor
    · rintro ⟨declaration, member, rfl, rfl⟩
      exact member
    · intro member
      exact ⟨_, member, rfl, rfl⟩
  rw [declare, contents_register_all held, Lexicon.lookup_insert_all, listed]

theorem declare_declare (held : stores.Holds store) :
    (stores.declare store declarations).declare store declarations =
      stores.declare store declarations := by
  have known : ∀ entry ∈ declarations.map (fun d => (d.word, d.category)),
      ((stores.declare store declarations).contents store).lookup entry.1 entry.2 = true := by
    rw [List.forall_mem_map]
    intro declaration member
    exact (lookup_declare held).mpr (.inr member)
  calc
    (stores.declare store declarations).declare store declarations
      = ((stores.declare store declarations).registerAll store
          (declarations.map fun d => (d.word, d.category))).2 := rfl
    _ = stores.declare store declarations := by rw [register_all_of_known known]

theorem declare_source_ok {source : Source}
    (read : Declaration.ofSource source = .ok declarations) :
    stores.declareSource store source = (.ok true, stores.declare store declarations) := by
  rw [declareSource, read]

theorem declare_source_cases (stores : Stores) (store : Store) (source : Source) :
    (∃ declarations, Declaration.ofSource source = .ok declarations ∧
      stores.declareSource store source = (.ok true, stores.declare store declarations)) ∨
    (∃ words, Declaration.ofSource source = .error (.notDeclaration words) ∧
      stores.declareSource store source = (.ok false, stores)) ∨
    ∃ fault, Declaration.ofSource source = .error (.source fault) ∧
      stores.declareSource store source = (.error fault, stores) := by
  rw [declareSource]
  cases Declaration.ofSource source with
  | ok declarations => exact .inl ⟨_, rfl, rfl⟩
  | error fault =>
      cases fault with
      | notDeclaration words => exact .inr (.inl ⟨_, rfl, rfl⟩)
      | source fault => exact .inr (.inr ⟨_, rfl, rfl⟩)

end Stores

theorem unterminated_of_text {text : String} {fault : SourceError}
    (failed : Declaration.ofSource (.text text) = .error (.source fault)) :
    ∃ quote, fault = .unterminated quote := by
  rw [Declaration.ofSource, Source.words] at failed
  cases tokens : Token.ofText text with
  | ok tokens =>
      simp only [tokens, Declaration.ofWords] at failed
      split at failed <;> cases failed
  | error quote =>
      simp only [tokens] at failed
      cases failed
      exact ⟨quote, rfl⟩

namespace Service

theorem declared_registered_iff (registered : Bool) (declarations : List Declaration)
    (flag : Bool) :
    (declared registered declarations).body.bind (·.get? "registered") = some (.bool flag) ↔
      (.ok registered : Except SourceError Bool) = .ok flag := by
  change some (Json.bool registered) = _ ↔ _
  simp

theorem declared_status (registered : Bool) (declarations : List Declaration) :
    (declared registered declarations).status ≠ 400 :=
  show (200 : Nat) ≠ 400 by decide

theorem bad_registered (message : String) :
    (Response.bad message).body.bind (·.get? "registered") = none := by
  simp [Response.bad, Response.failed, Json.get?, Json.lookup?]

/-- The service teaches what it reads by itself, and answers as if it had been taught for it. -/
theorem declare_agrees (text : String) (store : Store) (stores : Stores) :
    let (answer, after) := stores.declareSource store (.text text)
    let (response, served) := declare ⟨text⟩ store stores
    served = after ∧
    (∀ registered, response.body.bind (·.get? "registered") = some (.bool registered) ↔
      answer = .ok registered) ∧
    (response.status = 400 ↔ ∃ quote, answer = .error (.unterminated quote)) := by
  rcases stores.declare_source_cases store (.text text) with
    ⟨declarations, read, taught⟩ | ⟨words, read, taught⟩ | ⟨fault, read, taught⟩
  · rw [taught, declare, read]
    exact ⟨rfl, declared_registered_iff _ _, iff_of_false (declared_status _ _) nofun⟩
  · rw [taught, declare, read]
    exact ⟨rfl, declared_registered_iff _ _, iff_of_false (declared_status _ _) nofun⟩
  · obtain ⟨quote, rfl⟩ := unterminated_of_text read
    rw [taught, declare, read]
    refine ⟨rfl, fun registered => ?_, ?_⟩
    · rw [bad_registered]
      exact iff_of_false nofun nofun
    · exact iff_of_true rfl ⟨quote, rfl⟩

end Service

/-- A sentence teaches exactly the words that it declares, and none if it is no declaration or
cannot be read; to declare them again changes nothing. The service teaches the same. -/
theorem declarations_teach_all_or_nothing (stores : Stores) :
    (∀ store source, stores.Holds store →
      let (answer, after) := stores.declareSource store source
      (answer ≠ .ok true → after = stores) ∧
      (answer = .ok true → ∃ declarations, Declaration.ofSource source = .ok declarations ∧
        (∀ word category, (after.contents store).lookup word category = true ↔
          (stores.contents store).lookup word category = true ∨
            ⟨word, category⟩ ∈ declarations) ∧
        after.declareSource store source = (.ok true, after))) ∧
    ∀ db text,
      let (store, opened) := stores.openStore db
      let (answer, after) := opened.declareSource store (.text text)
      let (response, served) := Service.declare ⟨text⟩ store opened
      served = after ∧
      (∀ registered, response.body.bind (·.get? "registered") = some (.bool registered) ↔
        answer = .ok registered) ∧
      (response.status = 400 ↔ ∃ quote, answer = .error (.unterminated quote)) := by
  constructor
  · intro store source held
    rcases stores.declare_source_cases store source with
      ⟨declarations, read, taught⟩ | ⟨words, -, taught⟩ | ⟨fault, -, taught⟩
    · rw [taught]
      refine ⟨fun failed => absurd rfl failed, fun _ => ⟨declarations, read, ?_, ?_⟩⟩
      · intro word category
        exact Stores.lookup_declare held
      · rw [Stores.declare_source_ok read, Stores.declare_declare held]
    · rw [taught]
      exact ⟨fun _ => rfl, nofun⟩
    · rw [taught]
      exact ⟨fun _ => rfl, nofun⟩
  · intro db text
    exact Service.declare_agrees text _ _

theorem declared_words_taught_to_shared :
    let stores : Stores := {}
    let text := "toad is a noun and croaks is a verb"
    let (answer, after) := stores.declareSource .shared (.text text)
    let (response, served) := Service.declare ⟨text⟩ .shared stores
    answer = .ok true ∧ after.shared.lookup "croaks" .verb = true ∧
      after.shared.lookup "croaks" .noun = false ∧
      after.declareSource .shared (.text text) = (.ok true, after) ∧ served = after ∧
      response.body.bind (·.get? "registered") = some (.bool true) := by
  intro stores text
  have read : Declaration.ofSource (.text text) = .ok [⟨"toad", .noun⟩, ⟨"croaks", .verb⟩] := by
    decide +kernel
  obtain ⟨each, served⟩ := declarations_teach_all_or_nothing stores
  have exactly := each .shared (.text text) trivial
  have handled := served none text
  simp only [Stores.openStore] at handled
  rw [Stores.declare_source_ok read] at exactly handled ⊢
  obtain ⟨-, known⟩ := exactly
  obtain ⟨declarations, read', known, again⟩ := known rfl
  rw [read] at read'
  cases read'
  generalize Service.declare ⟨text⟩ .shared stores = answered at handled ⊢
  obtain ⟨response, served⟩ := answered
  obtain ⟨after, registered, -⟩ := handled
  dsimp only at after registered ⊢
  refine ⟨rfl, ?_, ?_, again, after, (registered true).mpr rfl⟩
  · exact (known "croaks" .verb).mpr (by simp)
  · refine Bool.eq_false_iff.mpr fun listed => ?_
    have unlisted : Lexicon.builtin.lookup "croaks" .noun = false := by decide +kernel
    rcases (known "croaks" .noun).mp listed with before | declared
    · exact Bool.eq_false_iff.mp unlisted before
    · simp at declared

end ControlledEnglish
