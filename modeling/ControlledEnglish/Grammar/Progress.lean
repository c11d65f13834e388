import ControlledEnglish.Grammar.Derivations

namespace ControlledEnglish

namespace Search

variable {α β : Type}

/-- Every goal that the search comes to, whatever derivations it goes on with, ranks below. -/
def StaysBelow (u : Utterance) (bound : Nat) : Search α → Prop
  | nothing => True
  | found _ next => next.StaysBelow u bound
  | each goal skip body next =>
      u.rank goal < bound ∧ (∀ d ∈ (u.derivations goal).drop skip, (body d).StaysBelow u bound) ∧
        next.StaysBelow u bound

variable {u : Utterance} {bound : Nat}

@[simp] theorem stays_below_nothing : (nothing : Search α).StaysBelow u bound := trivial

@[simp] theorem stays_below_pure (result : α) : (pure result : Search α).StaysBelow u bound :=
  trivial

@[simp] theorem stays_below_append (s t : Search α) :
    (s ++ t).StaysBelow u bound ↔ s.StaysBelow u bound ∧ t.StaysBelow u bound := by
  change (s.append t).StaysBelow u bound ↔ _
  induction s with
  | nothing => simp [append]
  | found result next ih => simp [append, StaysBelow, ih]
  | each goal skip body next _ ih => simp [append, StaysBelow, ih, and_assoc]

@[simp] theorem stays_below_bind (s : Search α) (f : α → Search β) :
    (s >>= f).StaysBelow u bound ↔
      s.StaysBelow u bound ∧ ∀ result ∈ s.all u.derivations, (f result).StaysBelow u bound := by
  change (s.bind f).StaysBelow u bound ↔ _
  induction s with
  | nothing => simp [Search.bind, all]
  | found result next ih =>
      simp only [Search.bind, stays_below_append, StaysBelow, all, List.mem_cons,
        forall_eq_or_imp, ih]
      exact and_left_comm
  | each goal skip body next body_ih ih =>
      simp only [Search.bind, StaysBelow, all, List.mem_append, List.mem_flatMap, ih, body_ih]
      constructor
      · rintro ⟨lower, inside, after, rest⟩
        refine ⟨⟨lower, fun d taken => (inside d taken).1, after⟩, ?_⟩
        rintro result (⟨d, taken, given⟩ | given)
        · exact (inside d taken).2 result given
        · exact rest result given
      · rintro ⟨⟨lower, inside, after⟩, rest⟩
        exact ⟨lower, fun d taken => ⟨inside d taken, fun result given =>
          rest result (.inl ⟨d, taken, given⟩)⟩, after, fun result given => rest result (.inr given)⟩

@[simp] theorem stays_below_ask (production : Production) (start : Nat) :
    (ask production start).StaysBelow u bound ↔ u.rank ⟨production, start⟩ < bound := by
  simp [ask, StaysBelow, Search.pure]

@[simp] theorem stays_below_guarded (condition : Bool) (s : Search α) :
    (guarded condition s).StaysBelow u bound ↔ (condition = true → s.StaysBelow u bound) := by
  cases condition <;> simp [guarded]

theorem StaysBelow.all_eq {s : Search α} (below : s.StaysBelow u bound) :
    s.all (u.below bound) = s.all u.derivations := by
  induction s with
  | nothing => rfl
  | found result next ih => rw [all, all, ih below]
  | each goal skip body next body_ih ih =>
      obtain ⟨lower, inside, after⟩ := below
      rw [all, all, u.below_eq_derivations lower, ih after]
      rw [List.flatMap_def, List.flatMap_def,
        List.map_congr_left fun d taken => body_ih d (inside d taken)]

theorem stays_below_top (s : Search α) : s.StaysBelow u u.top := by
  induction s with
  | nothing => trivial
  | found result next ih => exact ih
  | each goal skip body next body_ih ih => exact ⟨u.rank_lt_top goal, fun d _ => body_ih d, ih⟩

end Search

def Phrase.advances : Phrase → Bool
  | .determiner | .adverbsOpt | .adjectivePhrases => false
  | _ => true

def Production.advances : Production → Bool
  | .one item | .joined item => item.advances
  | .joinedOpt _ => false

namespace Utterance

variable (u : Utterance)

structure Reaches (advances : Bool) (start : Nat) (d : Derivation) : Prop where
  start_le : start ≤ d.stop
  start_lt : advances = true → start < d.stop
  stop_le : d.stop ≤ max start u.words.length

structure Progresses (bound : Nat) (advances : Bool) (start : Nat) (s : Search Derivation) :
    Prop where
  below : s.StaysBelow u bound
  reaches : ∀ d ∈ s.all u.derivations, u.Reaches advances start d

variable {u : Utterance} {bound i : Nat}

theorem lt_length_of_is_keyword {options : List String} (h : u.isKeyword i options = true) :
    i < u.words.length := by
  apply Nat.lt_of_not_le
  intro outside
  rw [isKeyword, List.getElem?_eq_none outside] at h
  cases h

theorem of_mem_word {table : Goal → List Derivation} {category : Category} {d : Derivation}
    (h : d ∈ (u.word category i).all table) : i < u.words.length ∧ d.stop = i + 1 := by
  rw [word] at h
  split at h
  · cases h
  · next found =>
      have inside := (List.getElem?_eq_some_iff.mp found).1
      simp only [Search.all_guarded, Search.all_pure, List.mem_ite_nil_right,
        List.mem_singleton] at h
      exact ⟨inside, by rw [h.2]⟩
  · next found =>
      have inside := (List.getElem?_eq_some_iff.mp found).1
      refine ⟨inside, ?_⟩
      simp only [Search.all_append, Search.all_guarded, Search.all_pure, List.mem_append,
        List.mem_ite_nil_right, List.mem_singleton] at h
      rcases h with ⟨-, rfl⟩ | spelled
      · rfl
      · split at spelled
        · simp only [Search.all_guarded, Search.all_pure, List.mem_ite_nil_right,
            List.mem_singleton] at spelled
          rw [spelled.2]
        · cases spelled

theorem word_stays_below (category : Category) : (u.word category i).StaysBelow u bound := by
  rw [word]
  split
  · trivial
  · simp
  · simp only [Search.stays_below_append, Search.stays_below_guarded, Search.stays_below_pure,
      implies_true, true_and]
    split <;> simp

theorem word_progresses (category : Category) : u.Progresses bound true i (u.word category i) := by
  refine ⟨word_stays_below category, fun d given => ?_⟩
  obtain ⟨inside, stop⟩ := of_mem_word given
  exact ⟨by omega, fun _ => by omega, by omega⟩

theorem determiner_progresses : u.Progresses bound false i (u.determiner i) := by
  refine ⟨by simp [determiner], fun d given => ?_⟩
  simp only [determiner, Search.all_append, Search.all_pure, Search.all_guarded, List.mem_append,
    List.mem_singleton, List.mem_ite_nil_right] at given
  rcases given with rfl | ⟨keyword, rfl⟩
  · exact ⟨Nat.le_refl _, nofun, Nat.le_max_left _ _⟩
  · have inside := lt_length_of_is_keyword keyword
    exact ⟨by simp, nofun, by simp; omega⟩

abbrev Lower (u : Utterance) (bound : Nat) : Prop :=
  ∀ goal, u.rank goal < bound →
    ∀ d ∈ u.derivations goal, u.Reaches goal.production.advances goal.start d

theorem ask_progresses (lower : u.Lower bound) {production : Production}
    (h : u.rank ⟨production, i⟩ < bound) :
    u.Progresses bound production.advances i (Search.ask production i) :=
  ⟨by simpa using h, fun d given => lower _ h d (by simpa using given)⟩

theorem Progresses.append {advances : Bool} {s t : Search Derivation}
    (first : u.Progresses bound advances i s) (second : u.Progresses bound advances i t) :
    u.Progresses bound advances i (s ++ t) := by
  refine ⟨by simp [first.below, second.below], fun d given => ?_⟩
  simp only [Search.all_append, List.mem_append] at given
  exact given.elim (first.reaches d) (second.reaches d)

theorem Progresses.guarded {advances condition : Bool} {s : Search Derivation}
    (h : condition = true → u.Progresses bound advances i s) :
    u.Progresses bound advances i (Search.guarded condition s) := by
  cases condition with
  | false => exact ⟨by simp, by simp⟩
  | true => exact h rfl

theorem Progresses.pure {advances : Bool} {d : Derivation} (h : u.Reaches advances i d) :
    u.Progresses bound advances i (Pure.pure d) :=
  ⟨trivial, by simpa using h⟩

theorem Progresses.optional {advances : Bool} {s : Search Derivation}
    (h : u.Progresses bound true i s) : u.Progresses bound advances i s :=
  ⟨h.below, fun d given =>
    ⟨(h.reaches d given).start_le, fun _ => (h.reaches d given).start_lt rfl,
      (h.reaches d given).stop_le⟩⟩

theorem stays_here {attrs : List Attr} :
    u.Progresses bound false i (Pure.pure (⟨attrs, i⟩ : Derivation)) :=
  .pure ⟨Nat.le_refl _, nofun, Nat.le_max_left _ _⟩

theorem Progresses.bind {first advances : Bool} {s : Search Derivation}
    {f : Derivation → Search Derivation} (found : u.Progresses bound first i s)
    (rest : ∀ d, u.Reaches first i d → u.Progresses bound advances d.stop (f d)) :
    u.Progresses bound advances i (s >>= f) := by
  have each (d : Derivation) (given : d ∈ s.all u.derivations) := rest d (found.reaches d given)
  refine ⟨?_, fun e given => ?_⟩
  · rw [Search.stays_below_bind]
    exact ⟨found.below, fun d given => (each d given).below⟩
  · simp only [Search.all_bind, List.mem_flatMap] at given
    obtain ⟨d, given, further⟩ := given
    obtain ⟨start_le, start_lt, stop_le⟩ := found.reaches d given
    obtain ⟨further_le, further_lt, end_le⟩ := (each d given).reaches e further
    exact ⟨by omega, fun advances => by have := further_lt advances; omega, by omega⟩

theorem Progresses.advance {s : Search Derivation} {f : Derivation → Search Derivation}
    (found : u.Progresses bound true i s)
    (rest : ∀ d, u.Reaches true i d → u.Progresses bound false d.stop (f d)) :
    u.Progresses bound true i (s >>= f) := by
  have all := found.bind rest
  refine ⟨all.below, fun e given => ?_⟩
  obtain ⟨start_le, -, stop_le⟩ := all.reaches e given
  simp only [Search.all_bind, List.mem_flatMap] at given
  obtain ⟨d, given, further⟩ := given
  have advanced := found.reaches d given
  have later := ((rest d advanced).reaches e further).start_le
  exact ⟨start_le, fun _ => Nat.lt_of_lt_of_le (advanced.start_lt rfl) later, stop_le⟩

theorem rank_lt_of_later {j : Nat} (production other : Production) (later : i < j)
    (inside : j ≤ max i u.words.length) : u.rank ⟨other, j⟩ < u.rank ⟨production, i⟩ := by
  have order := other.order_lt
  simp only [rank]
  omega

theorem rank_lt_of_smaller {j : Nat} {production other : Production} (from_start : i ≤ j)
    (smaller : other.order < production.order) :
    u.rank ⟨other, j⟩ < u.rank ⟨production, i⟩ := by
  simp only [rank]
  omega

theorem Reaches.rank_lt {d : Derivation} (reached : u.Reaches true i d)
    (production other : Production) : u.rank ⟨other, d.stop⟩ < u.rank ⟨production, i⟩ :=
  rank_lt_of_later production other (reached.start_lt rfl) reached.stop_le

section Productions

theorem adverb_run_progresses (lower : u.Lower (u.rank ⟨Phrase.adverbRun, i⟩)) :
    u.Progresses (u.rank ⟨Phrase.adverbRun, i⟩) true i (u.adverbRun i) := by
  refine (word_progresses .adverb).advance fun first reached => .append ?_ stays_here
  exact .bind (ask_progresses lower (reached.rank_lt _ _)) fun rest _ => stays_here

theorem adverb_group_progresses (lower : u.Lower bound)
    (h : u.rank ⟨Phrase.adverbRun, i⟩ < bound) : u.Progresses bound true i (adverbGroup i) :=
  .advance (ask_progresses lower h) fun _ _ => stays_here

theorem adverbs_opt_progresses (lower : u.Lower bound)
    (h : u.rank ⟨Phrase.adverbRun, i⟩ < bound) : u.Progresses bound false i (adverbsOpt i) :=
  .append (adverb_group_progresses lower h).optional stays_here

theorem adjective_phrase_progresses (lower : u.Lower bound)
    (h : u.rank ⟨Phrase.adverbRun, i⟩ < bound) :
    u.Progresses bound true i (u.adjectivePhrase i) :=
  (adverbs_opt_progresses lower h).bind fun _ _ =>
    (word_progresses .adjective).advance fun _ _ => stays_here

theorem adjective_phrases_progresses (lower : u.Lower (u.rank ⟨Phrase.adjectivePhrases, i⟩)) :
    u.Progresses (u.rank ⟨Phrase.adjectivePhrases, i⟩) false i (u.adjectivePhrases i) := by
  refine .append ?_ stays_here
  have run := u.rank_lt_of_smaller (i := i) (Nat.le_refl _)
    (show Production.order Phrase.adverbRun < Production.order Phrase.adjectivePhrases by decide)
  refine (adjective_phrase_progresses lower run).bind fun first reached => ?_
  exact .bind (ask_progresses lower (reached.rank_lt _ _)) fun rest _ => stays_here

theorem relative_clause_progresses (lower : u.Lower bound)
    (h : i < u.words.length → u.rank ⟨Phrase.verbPhrase, i + 1⟩ < bound) :
    u.Progresses bound true i (u.relativeClause i) := by
  refine .guarded fun keyword => ?_
  have inside := lt_length_of_is_keyword keyword
  obtain ⟨below, reaches⟩ := ask_progresses lower (h inside)
  refine ⟨below, fun d given => ?_⟩
  obtain ⟨start_le, start_lt, stop_le⟩ := reaches d given
  exact ⟨by omega, fun _ => by omega, by omega⟩

theorem noun_phrase_progresses (lower : u.Lower (u.rank ⟨Phrase.nounPhrase, i⟩)) :
    u.Progresses (u.rank ⟨Phrase.nounPhrase, i⟩) true i (u.nounPhrase i) := by
  rw [nounPhrase]
  split
  · next keyword =>
      have inside := lt_length_of_is_keyword keyword
      exact .pure ⟨by simp, fun _ => by simp, by simp; omega⟩
  · refine determiner_progresses.bind fun determiner from_start => ?_
    refine .bind (ask_progresses lower (rank_lt_of_smaller from_start.start_le (by decide))) ?_
    intro adjectives from_determiner
    refine (word_progresses .noun).advance fun noun from_adjectives => .append stays_here ?_
    refine .bind (relative_clause_progresses lower fun inside => ?_) fun _ _ => stays_here
    apply rank_lt_of_later
    · have := from_start.start_le
      have := from_determiner.start_le
      have := from_adjectives.start_le
      omega
    · omega

theorem Progresses.after_keyword {options : List String} {s : Search Derivation}
    (h : i < u.words.length → u.Progresses bound false (i + 1) s) :
    u.Progresses bound true i (Search.guarded (u.isKeyword i options) s) := by
  refine .guarded fun keyword => ?_
  have inside := lt_length_of_is_keyword keyword
  refine ⟨(h inside).below, fun d given => ?_⟩
  obtain ⟨start_le, start_lt, stop_le⟩ := (h inside).reaches d given
  exact ⟨by omega, fun _ => by omega, by omega⟩

theorem joined_opt_progresses (lower : u.Lower bound) {item : Phrase}
    (h : u.rank ⟨.joined item, i⟩ < bound) : u.Progresses bound false i (joinedOpt item i) := by
  refine .append ?_ stays_here
  obtain ⟨below, reaches⟩ := ask_progresses lower h
  exact ⟨below, fun d given => ⟨(reaches d given).start_le, nofun, (reaches d given).stop_le⟩⟩

theorem verb_phrase_progresses (lower : u.Lower (u.rank ⟨Phrase.verbPhrase, i⟩)) :
    u.Progresses (u.rank ⟨Phrase.verbPhrase, i⟩) true i (u.verbPhrase i) := by
  have later (item : Phrase) (inside : i < u.words.length) :
      u.rank ⟨.joined item, i + 1⟩ < u.rank ⟨Phrase.verbPhrase, i⟩ :=
    rank_lt_of_later _ _ (by omega) (by omega)
  refine .append (.append (.append ?_ ?_) ?_) ?_
  · refine .after_keyword fun inside => ?_
    exact .bind (ask_progresses lower (later .nounPhrase inside)) fun _ _ => stays_here
  · refine .after_keyword fun inside => .optional (.append ?_ ?_)
    · exact ask_progresses lower (later .adjectivePhrase inside)
    · exact ask_progresses lower (later .nounPhrase inside)
  · refine (joined_opt_progresses lower (rank_lt_of_smaller (Nat.le_refl _) (by decide))).bind ?_
    intro adverbs from_start
    refine (word_progresses .verb).advance fun verb from_adverbs => ?_
    refine (joined_opt_progresses lower ?_).bind fun _ _ => stays_here
    exact rank_lt_of_smaller (by have := from_start.start_le; have := from_adverbs.start_le; omega)
      (by decide)
  · refine (word_progresses .verb).advance fun verb reached => ?_
    exact .bind (ask_progresses lower (reached.rank_lt _ _)) fun _ _ => stays_here

theorem sentence_progresses (lower : u.Lower (u.rank ⟨Phrase.sentence, i⟩)) :
    u.Progresses (u.rank ⟨Phrase.sentence, i⟩) true i (sentence i) := by
  have smaller : u.rank ⟨Phrase.nounPhrase, i⟩ < u.rank ⟨Phrase.sentence, i⟩ :=
    rank_lt_of_smaller (Nat.le_refl _) (by decide)
  have subject : u.Progresses (u.rank ⟨Phrase.sentence, i⟩) true i
      (Search.ask Phrase.nounPhrase i) := ask_progresses lower smaller
  have predicate {d : Derivation} (reached : u.Reaches true i d) :
      u.Progresses (u.rank ⟨Phrase.sentence, i⟩) true d.stop (Search.ask Phrase.verbPhrase d.stop) :=
    ask_progresses lower (reached.rank_lt _ Phrase.verbPhrase)
  refine .append ?_ ?_
  · exact subject.bind fun _ reached => .guarded fun _ => predicate reached
  · exact subject.bind fun _ reached => .guarded fun _ =>
      (predicate reached).advance fun _ _ => stays_here

theorem unmemoized_progresses (item : Phrase) (fresh : item.isMemoized = false)
    (lower : u.Lower bound) (h : u.rank ⟨item, i⟩ ≤ bound) :
    u.Progresses bound item.advances i (u.phrase item i) := by
  have run (larger : Production.order Phrase.adverbRun < Production.order item) :
      u.rank ⟨Phrase.adverbRun, i⟩ < bound :=
    Nat.lt_of_lt_of_le (rank_lt_of_smaller (Nat.le_refl _) larger) h
  cases item with
  | word category => exact word_progresses category
  | determiner => exact determiner_progresses
  | adverbGroup => exact adverb_group_progresses lower (run (by decide))
  | adverbsOpt => exact adverbs_opt_progresses lower (run (by decide))
  | adjectivePhrase => exact adjective_phrase_progresses lower (run (by decide))
  | relativeClause =>
      refine relative_clause_progresses lower fun inside => Nat.lt_of_lt_of_le ?_ h
      exact rank_lt_of_later _ _ (by omega) (by omega)
  | adverbRun | adjectivePhrases | nounPhrase | verbPhrase | sentence => cases fresh

theorem phrase_progresses (item : Phrase) (lower : u.Lower (u.rank ⟨item, i⟩)) :
    u.Progresses (u.rank ⟨item, i⟩) item.advances i (u.phrase item i) := by
  cases item with
  | adverbRun => exact adverb_run_progresses lower
  | adjectivePhrases => exact adjective_phrases_progresses lower
  | nounPhrase => exact noun_phrase_progresses lower
  | verbPhrase => exact verb_phrase_progresses lower
  | sentence => exact sentence_progresses lower
  | word _ | determiner | adverbGroup | adverbsOpt | adjectivePhrase | relativeClause =>
      exact unmemoized_progresses _ rfl lower (Nat.le_refl _)

theorem call_progresses (item : Phrase) (lower : u.Lower bound) (h : u.rank ⟨item, i⟩ < bound) :
    u.Progresses bound item.advances i (u.call item i) := by
  rw [call]
  split
  · exact ask_progresses lower h
  · next fresh => exact unmemoized_progresses item (by simpa using fresh) lower (Nat.le_of_lt h)

theorem joined_progresses (item : Phrase) (lower : u.Lower (u.rank ⟨.joined item, i⟩)) :
    u.Progresses (u.rank ⟨.joined item, i⟩) item.advances i (u.joined item i) := by
  have single : u.Progresses (u.rank ⟨.joined item, i⟩) item.advances i (u.call item i) :=
    call_progresses item lower (rank_lt_of_smaller (Nat.le_refl _) (by simp [Production.order]))
  refine .append (single.bind fun first reached => .optional (.after_keyword fun inside => ?_)) single
  have start_le := reached.start_le
  have again : u.rank ⟨.joined item, first.stop + 1⟩ < u.rank ⟨.joined item, i⟩ :=
    rank_lt_of_later _ _ (by omega) (by omega)
  exact .bind (ask_progresses lower again) fun _ _ => stays_here

theorem production_progresses (production : Production) (lower : u.Lower (u.rank ⟨production, i⟩)) :
    u.Progresses (u.rank ⟨production, i⟩) production.advances i (u.production production i) := by
  cases production with
  | one item => exact phrase_progresses item lower
  | joined item => exact joined_progresses item lower
  | joinedOpt item =>
      exact joined_opt_progresses lower (rank_lt_of_smaller (Nat.le_refl _) (by simp [Production.order]))

end Productions

theorem search_progresses (goal : Goal) :
    u.Progresses (u.rank goal) goal.production.advances goal.start (u.search goal) := by
  induction rank : u.rank goal using Nat.strongRecOn generalizing goal with
  | ind bound ih =>
      subst rank
      apply production_progresses
      intro other lower d given
      have progresses := ih (u.rank other) lower other rfl
      rw [derivations_eq_all, progresses.below.all_eq] at given
      exact progresses.reaches d given

variable (u)

/-- The table of derivations is the plain recursion: a goal has what its search finds there. -/
theorem derivations_eq (goal : Goal) :
    u.derivations goal = (u.search goal).all u.derivations := by
  rw [derivations_eq_all, (search_progresses goal).below.all_eq]

theorem reaches_of_mem {goal : Goal} {d : Derivation} (given : d ∈ u.derivations goal) :
    u.Reaches goal.production.advances goal.start d := by
  rw [derivations_eq] at given
  exact (search_progresses goal).reaches d given

end Utterance

end ControlledEnglish
