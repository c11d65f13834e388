import Mathlib.Tactic.Choose
import ControlledEnglish.Grammar.Run
import ControlledEnglish.Proofs.Canonical.Clean

/-! Searches come to an end.

`Exhausts` runs a search to its end in the plainest way: a goal that it comes to is searched anew,
with nothing remembered. A goal that had to wait for itself would never be exhausted. None does, and
what is found ends where it starts, or behind that if its production advances. -/

namespace ControlledEnglish

/-- The search is run to its end, without a memo, and these are its results. -/
inductive Exhausts (u : Utterance) : {α : Type} → Search α → List α → Prop where
  | nothing {α : Type} : Exhausts u (.nothing : Search α) []
  | found {α : Type} (result : α) {next : Search α} {results : List α}
      (rest : Exhausts u next results) : Exhausts u (.found result next) (result :: results)
  | each {α : Type} {goal : Goal} {skip : Nat} {body : Derivation → Search α} {next : Search α}
      {derivations : List Derivation} {inner : Derivation → List α} {results : List α}
      (searched : Exhausts u (u.search goal) derivations)
      (bodies : ∀ d ∈ derivations.drop skip, Exhausts u (body d) (inner d))
      (rest : Exhausts u next results) :
      Exhausts u (.each goal skip body next) ((derivations.drop skip).flatMap inner ++ results)

namespace Exhausts

variable {u : Utterance} {α : Type} {s : Search α} {results : List α}

theorem eq_all (h : Exhausts u s results) : results = s.all u.derivations := by
  induction h with
  | nothing => rfl
  | found result _ ih => rw [Search.all, ih]
  | each _ _ _ searched_ih bodies_ih ih =>
      rw [← u.derivations_eq] at searched_ih
      rw [Search.all, ← searched_ih, ← ih, List.flatMap_def, List.flatMap_def,
        List.map_congr_left bodies_ih]

theorem of_stays_below {bound : Nat}
    (lower : ∀ goal, u.rank goal < bound → Exhausts u (u.search goal) (u.derivations goal))
    (below : s.StaysBelow u bound) : Exhausts u s (s.all u.derivations) := by
  induction s with
  | nothing => exact .nothing
  | found result next ih => exact .found result (ih below)
  | each goal skip body next body_ih ih =>
      obtain ⟨goal_lower, inside, after⟩ := below
      exact .each (lower goal goal_lower) (fun d taken => body_ih d (inside d taken)) (ih after)

theorem of_goal (goal : Goal) : Exhausts u (u.search goal) (u.derivations goal) := by
  induction rank : u.rank goal using Nat.strongRecOn generalizing goal with
  | ind bound ih =>
      subst rank
      rw [u.derivations_eq]
      have below := (u.search_progresses goal).below
      exact of_stays_below (fun other lower => ih _ lower other rfl) below

end Exhausts

theorem exhausts_iff {u : Utterance} {α : Type} {s : Search α} {results : List α} :
    Exhausts u s results ↔ results = s.all u.derivations := by
  refine ⟨Exhausts.eq_all, ?_⟩
  rintro rfl
  exact .of_stays_below (fun goal _ => .of_goal goal) s.stays_below_top

inductive Repetition where
  | once
  | joined
  | joinedOpt

def Repetition.advances : Repetition → Bool
  | once | joined => true
  | joinedOpt => false

/-- What is found when rules are looked for from a word on, to the end of that search. -/
inductive ExhaustsRules (u : Utterance) : Repetition → Nat → List (List Rule × Nat) → Prop where
  | once {i : Nat} {results : List (List Rule × Nat)} (searched : Exhausts u (u.rules i) results) :
      ExhaustsRules u .once i results
  | joined {i : Nat} {items : List (List Rule × Nat)}
      {others : List Rule × Nat → List (List Rule × Nat)}
      (searched : Exhausts u (u.rules i) items)
      (further : ∀ first ∈ items, u.isKeyword first.2 ["and"] = true →
        ExhaustsRules u .joined (first.2 + 1) (others first)) :
      ExhaustsRules u .joined i ((items.flatMap fun first =>
        if u.isKeyword first.2 ["and"] then
          (others first).map fun rest => (first.1 ++ rest.1, rest.2)
        else []) ++ items)
  | joinedOpt {i : Nat} {results : List (List Rule × Nat)}
      (searched : ExhaustsRules u .joined i results) :
      ExhaustsRules u .joinedOpt i (results ++ [([], i)])

namespace ExhaustsRules

variable {u : Utterance} {repetition : Repetition} {i : Nat} {results : List (List Rule × Nat)}

theorem unique {other : List (List Rule × Nat)} (h : ExhaustsRules u repetition i results)
    (again : ExhaustsRules u repetition i other) : other = results := by
  induction h generalizing other with
  | once searched =>
      cases again with
      | once searched' => rw [searched.eq_all, searched'.eq_all]
  | joined searched _ ih =>
      cases again with
      | joined searched' further' =>
          obtain rfl := searched'.eq_all.trans searched.eq_all.symm
          rw [List.flatMap_def, List.flatMap_def, List.map_congr_left fun first member => ?_]
          split
          · next keyword => rw [ih first member keyword (further' first member keyword)]
          · rfl
  | joinedOpt _ ih =>
      cases again with
      | joinedOpt searched' => rw [ih searched']

end ExhaustsRules

namespace Utterance

variable {u : Utterance} {i : Nat}

theorem derivation_bounds {production : Production} (inside : i ≤ u.words.length) {d : Derivation}
    (given : d ∈ u.derivations ⟨production, i⟩) :
    i ≤ d.stop ∧ (production.advances = true → i < d.stop) ∧ d.stop ≤ u.words.length := by
  obtain ⟨start_le, start_lt, stop_le⟩ := u.reaches_of_mem given
  exact ⟨start_le, start_lt, by simpa [Nat.max_eq_right inside] using stop_le⟩

theorem rules_bounds (inside : i ≤ u.words.length) {result : List Rule × Nat}
    (given : result ∈ (u.rules i).all u.derivations) :
    i < result.2 ∧ result.2 ≤ u.words.length := by
  -- What follows a keyword starts inside the sentence, too.
  have behind {j : Nat} {options : List String} {d : Derivation}
      (keyword : u.isKeyword j options = true)
      (given : d ∈ u.derivations ⟨.joined .sentence, j + 1⟩) :
      j < d.stop ∧ d.stop ≤ u.words.length := by
    obtain ⟨start_le, -, stop_le⟩ := derivation_bounds (lt_length_of_is_keyword keyword) given
    exact ⟨start_le, stop_le⟩
  have claim {d : Derivation} (given : d ∈ u.derivations ⟨Phrase.sentence, i⟩) :
      i < d.stop ∧ d.stop ≤ u.words.length := by
    obtain ⟨-, start_lt, stop_le⟩ := derivation_bounds inside given
    exact ⟨start_lt rfl, stop_le⟩
  simp only [rules, Search.all_append, Search.all_guarded, Search.all_bind, Search.all_ask,
    Search.all_pure, List.mem_append, List.mem_ite_nil_right, List.mem_flatMap,
    List.mem_singleton] at given
  rcases given with (⟨opens, body, before, turns, heads, after, rfl⟩ |
    ⟨heads, before, opens, body, after, rfl⟩) | ⟨heads, given, rfl⟩
  · have first := behind opens before
    have second := behind turns after
    exact ⟨Nat.lt_trans first.1 second.1, second.2⟩
  · have first := claim before
    have second := behind opens after
    exact ⟨Nat.lt_trans first.1 second.1, second.2⟩
  · exact claim given

end Utterance

namespace ExhaustsRules

variable {u : Utterance} {repetition : Repetition} {i : Nat} {results : List (List Rule × Nat)}

theorem bounds (h : ExhaustsRules u repetition i results) (inside : i ≤ u.words.length) :
    ∀ result ∈ results, i ≤ result.2 ∧ (repetition.advances = true → i < result.2) ∧
      result.2 ≤ u.words.length := by
  induction h with
  | once searched =>
      intro result given
      rw [searched.eq_all] at given
      obtain ⟨start_lt, stop_le⟩ := Utterance.rules_bounds inside given
      exact ⟨Nat.le_of_lt start_lt, fun _ => start_lt, stop_le⟩
  | joined searched _ ih =>
      intro result given
      rw [searched.eq_all] at given ih
      rw [List.mem_append, List.mem_flatMap] at given
      rcases given with ⟨first, member, given⟩ | member
      · rw [List.mem_ite_nil_right, List.mem_map] at given
        obtain ⟨keyword, rest, member', rfl⟩ := given
        have before := Utterance.rules_bounds inside member
        have within := Utterance.lt_length_of_is_keyword keyword
        have after := ih first member keyword within rest member'
        exact ⟨by omega, fun _ => by omega, after.2.2⟩
      · obtain ⟨start_lt, stop_le⟩ := Utterance.rules_bounds inside member
        exact ⟨Nat.le_of_lt start_lt, fun _ => start_lt, stop_le⟩
  | joinedOpt _ ih =>
      intro result given
      rw [List.mem_append, List.mem_singleton] at given
      rcases given with given | rfl
      · obtain ⟨start_le, -, stop_le⟩ := ih inside result given
        exact ⟨start_le, nofun, stop_le⟩
      · exact ⟨Nat.le_refl _, nofun, inside⟩

/-- Every "and" leaves fewer words, so rules joined by it come to an end as well. -/
theorem exists_joined (inside : i ≤ u.words.length) :
    ∃ results, ExhaustsRules u .joined i results := by
  induction left : u.words.length - i using Nat.strongRecOn generalizing i with
  | ind words ih =>
      subst left
      have searched : Exhausts u (u.rules i) _ := exhausts_iff.mpr rfl
      have further (first : List Rule × Nat) : ∃ others,
          first ∈ (u.rules i).all u.derivations → u.isKeyword first.2 ["and"] = true →
            ExhaustsRules u .joined (first.2 + 1) others := by
        by_cases connected : first ∈ (u.rules i).all u.derivations ∧
            u.isKeyword first.2 ["and"] = true
        · obtain ⟨member, keyword⟩ := connected
          have before := Utterance.rules_bounds inside member
          have within := Utterance.lt_length_of_is_keyword keyword
          obtain ⟨others, exhausted⟩ := ih _ (by omega) (i := first.2 + 1) within rfl
          exact ⟨others, fun _ _ => exhausted⟩
        · exact ⟨[], fun member keyword => absurd ⟨member, keyword⟩ connected⟩
      choose others exhausted using further
      exact ⟨_, .joined searched fun first member => exhausted first member⟩

theorem exists_results (repetition : Repetition) (inside : i ≤ u.words.length) :
    ∃ results, ExhaustsRules u repetition i results := by
  obtain ⟨results, exhausted⟩ := exists_joined inside
  cases repetition with
  | once => exact ⟨_, .once (exhausts_iff.mpr rfl)⟩
  | joined => exact ⟨results, exhausted⟩
  | joinedOpt => exact ⟨_, .joinedOpt exhausted⟩

end ExhaustsRules

/-- Wherever a production is tried, its search comes to an end after finitely many derivations, with
a memo or without. Each ends where it starts or later, later if the production advances, and never
behind the last word. Rules, alone or joined, are found the same way. -/
theorem search_terminates (words : List Word) (lexicon : Lexicon) {start : Nat}
    (inside : start ≤ words.length) :
    let u : Utterance := ⟨words, lexicon⟩
    (∀ production, ∃ found : List Derivation,
      (∀ other, Exhausts u (u.search ⟨production, start⟩) other ↔ other = found) ∧
      (∀ run : Run u Derivation, run.rest = Search.ask production start →
        ∀ count, run.take count = found.take count) ∧
      ∀ d ∈ found, start ≤ d.stop ∧ (production.advances = true → start < d.stop) ∧
        d.stop ≤ words.length) ∧
    (∀ run : Run u (List Rule × Nat), run.rest = u.rules start →
      ∃ found, Exhausts u (u.rules start) found ∧ ∀ count, run.take count = found.take count) ∧
    ∀ repetition, ∃ found : List (List Rule × Nat),
      (∀ other, ExhaustsRules u repetition start other ↔ other = found) ∧
      ∀ result ∈ found, start ≤ result.2 ∧ (repetition.advances = true → start < result.2) ∧
        result.2 ≤ words.length := by
  intro u
  refine ⟨fun production => ?_, fun run begun => ?_, fun repetition => ?_⟩
  · refine ⟨u.derivations ⟨production, start⟩, fun other => ?_, fun run begun count => ?_, ?_⟩
    · rw [exhausts_iff, ← u.derivations_eq]
    · rw [run.take_eq, Run.all, begun, Search.all_ask]
    · exact fun d given => Utterance.derivation_bounds inside given
  · refine ⟨_, exhausts_iff.mpr rfl, fun count => ?_⟩
    rw [run.take_eq, Run.all, begun]
  · obtain ⟨found, exhausted⟩ := ExhaustsRules.exists_results (u := u) repetition inside
    refine ⟨found, fun other => ⟨exhausted.unique, ?_⟩, exhausted.bounds inside⟩
    rintro rfl
    exact exhausted

theorem search_terminates_with_sentence :
    let u : Utterance := ⟨plain ["heron", "eats", "frog"], Lexicon.marsh⟩
    let claim : Attr := ⟨.hasA, "heron", [⟨.does, "eats", [⟨.isA, "frog", []⟩]⟩]⟩
    0 ≤ u.words.length ∧
      (∃ found, Exhausts u (u.search ⟨Phrase.sentence, 0⟩) found ∧ ⟨[claim], 3⟩ ∈ found) ∧
      (∃ found, Exhausts u (u.rules 0) found ∧ ([⟨claim, []⟩], 3) ∈ found) ∧
      ∃ found, ExhaustsRules u .joined 0 found := by
  intro u claim
  have inside : 0 ≤ u.words.length := Nat.zero_le _
  have frog := Lexicon.marsh_noun (w := "frog") (by simp) .noDeterminer
  have heron := Lexicon.marsh_noun (w := "heron") (by simp) .noDeterminer
  have eats_frog := Lexicon.marsh_eats (.items (.single frog))
  have meant := Derives.subject heron (List.cons_ne_nil _ _) eats_frog
  have unlisted := Lexicon.marsh_clean.unlisted_it
  have spans : u.Spans 0 u.words 3 := Utterance.spans_all.mpr rfl
  obtain ⟨phrases, rules, repeated⟩ := search_terminates u.words u.lexicon inside
  obtain ⟨found, exhausted, -, -⟩ := phrases Phrase.sentence
  obtain ⟨results, searched, -⟩ := rules { rest := u.rules 0 } rfl
  obtain ⟨joined, ended, -⟩ := repeated .joined
  refine ⟨inside, ⟨found, (exhausted found).mpr rfl, ?_⟩, ⟨results, searched, ?_⟩,
    joined, (ended joined).mpr rfl⟩
  · rw [exhausts_iff.mp ((exhausted found).mpr rfl), ← u.derivations_eq]
    exact Utterance.mem_of_derives unlisted meant spans
  · rw [exhausts_iff.mp searched]
    exact Utterance.mem_rules unlisted (.fact meant) spans

end ControlledEnglish
