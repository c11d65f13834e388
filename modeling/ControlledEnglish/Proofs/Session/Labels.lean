import ControlledEnglish.Proofs.Session.Calls

namespace ControlledEnglish

namespace Session

variable {label other : String} {number : Int} {session : Session}

/-- No call but clearing has an effect on a lexicon with another label. -/
theorem contents_of_call (apart : label ≠ other) {action : Action} (call : action ≠ .clear) :
    (session.perform (.database number label) action).2.stores.contents (.database number other) =
      session.stores.contents (.database number other) := by
  have stores : Store.database number label ≠ .database number other := by simpa using apart
  rw [session_of_perform, Stores.after_call_of_ne_clear _ _ call]
  exact Stores.contents_register_all_of_ne stores action.taught

theorem contents_of_clear (apart : label ≠ other) :
    (session.perform (.database number label) .clear).2.stores.contents (.database number other) =
      if (label ++ ":").toList <+: other.toList then .empty
      else session.stores.contents (.database number other) := by
  rw [session_of_perform]
  simp [Stores.afterCall, Stores.contents_clear, apart]

theorem contents_of_calls (apart : label ≠ other) {actions : List Action}
    (kept : .clear ∈ actions → ¬(label ++ ":").toList <+: other.toList) :
    (session.performAll (.database number label) actions).2.stores.contents
        (.database number other) =
      session.stores.contents (.database number other) := by
  induction actions generalizing session with
  | nil => rfl
  | cons action rest ih =>
      have first : (session.perform (.database number label) action).2.stores.contents
          (.database number other) = session.stores.contents (.database number other) := by
        by_cases clears : action = .clear
        · subst clears
          rw [contents_of_clear apart, if_neg (kept List.mem_cons_self)]
        · exact contents_of_call apart clears
      rw [perform_all_cons, ih fun clears => kept (List.mem_cons_of_mem action clears), first]

theorem contents_of_calls_below (apart : label ≠ other)
    (under : (label ++ ":").toList <+: other.toList) {actions : List Action}
    (gone : .clear ∈ actions ∨ session.stores.contents (.database number other) = .empty) :
    (session.performAll (.database number label) actions).2.stores.contents
      (.database number other) = .empty := by
  induction actions generalizing session with
  | nil =>
      rcases gone with clears | empty
      · cases clears
      · exact empty
  | cons action rest ih =>
      rw [perform_all_cons]
      refine ih ?_
      by_cases clears : action = .clear
      · subst clears
        rw [contents_of_clear apart, if_pos under]
        exact .inr rfl
      · rw [contents_of_call apart clears]
        refine gone.imp_left fun member => ?_
        exact (List.mem_cons.mp member).resolve_left (Ne.symm clears)

end Session

/-- Whatever calls a lexicon takes, one with another label keeps its words, unless that label goes
on behind the first one with a colon and the first one is cleared. Then its words are gone. -/
theorem contents_of_other_label {label other : String} (apart : label ≠ other) (number : Int)
    (session : Session) (actions : List Action) :
    let under := (label ++ ":").toList <+: other.toList
    let after := (session.performAll (.database number label) actions).2
    (¬(.clear ∈ actions ∧ under) → ∀ category,
      (after.stores.contents (.database number other)).words category =
        (session.stores.contents (.database number other)).words category) ∧
    (.clear ∈ actions ∧ under → ∀ category,
      (after.stores.contents (.database number other)).words category = ∅) := by
  intro under after
  refine ⟨fun kept category => ?_, fun ⟨clears, under⟩ category => ?_⟩
  · rw [Session.contents_of_calls apart fun clears under => kept ⟨clears, under⟩]
  · rw [Session.contents_of_calls_below apart under (.inl clears)]
    cases category <;> rfl

theorem contents_of_label_without_colon :
    let session : Session := { stores := ({} : Stores).insert (.database 0 "ponds") "frog" .noun }
    let after := (session.performAll (.database 0 "pond") [.seed, .clear]).2
    "pond" ≠ "ponds" ∧ ¬("pond" ++ ":").toList <+: "ponds".toList ∧
      (after.stores.contents (.database 0 "ponds")).lookup "frog" .noun = true := by
  intro session after
  have apart : "pond" ≠ "ponds" := by decide
  have beside : ¬("pond" ++ ":").toList <+: "ponds".toList := by decide
  have kept := (contents_of_other_label apart 0 session [.seed, .clear]).1 fun h => beside h.2
  have held : Stores.Holds {} (.database 0 "ponds") := trivial
  have known : (session.stores.contents (.database 0 "ponds")).lookup "frog" .noun = true := by
    rw [Stores.contents_insert _ _ _ held, Lexicon.lookup_insert]
    rfl
  refine ⟨apart, beside, ?_⟩
  rw [Lexicon.lookup, kept]
  exact known

theorem contents_of_label_behind_colon :
    let session : Session :=
      { stores := ({} : Stores).insert (.database 0 "pond:shore") "frog" .noun }
    let after := (session.performAll (.database 0 "pond") [.clear]).2
    "pond" ≠ "pond:shore" ∧
      (session.stores.contents (.database 0 "pond:shore")).lookup "frog" .noun = true ∧
      (after.stores.contents (.database 0 "pond:shore")).lookup "frog" .noun = false := by
  intro session after
  have apart : "pond" ≠ "pond:shore" := by decide
  have under : ("pond" ++ ":").toList <+: "pond:shore".toList := by decide
  have held : Stores.Holds {} (.database 0 "pond:shore") := trivial
  refine ⟨apart, ?_, ?_⟩
  · rw [Stores.contents_insert _ _ _ held, Lexicon.lookup_insert]
    rfl
  · rw [Session.contents_of_calls_below apart under (.inl (List.mem_singleton_self _))]
    exact Lexicon.lookup_empty "frog" .noun

end ControlledEnglish
