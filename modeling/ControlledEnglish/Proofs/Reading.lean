import Mathlib.Data.List.Basic
import ControlledEnglish.Proofs.Grammar.Derives
import ControlledEnglish.Reading

namespace ControlledEnglish

theorem mem_distinct_iff {α : Type} [DecidableEq α] {given : List α} {a : α} (l : List α) :
    a ∈ distinct given l ↔ a ∈ l ∧ a ∉ given := by
  induction l generalizing given with
  | nil => simp [distinct]
  | cons b rest ih =>
      rw [distinct]
      split
      · next seen =>
          rw [ih, List.mem_cons]
          constructor
          · rintro ⟨member, unseen⟩
            exact ⟨.inr member, unseen⟩
          · rintro ⟨rfl | member, unseen⟩
            · exact absurd seen unseen
            · exact ⟨member, unseen⟩
      · next unseen =>
          rw [List.mem_cons, List.mem_cons, ih, List.mem_cons]
          by_cases same : a = b
          · subst same
            simp [unseen]
          · simp [same]

theorem nodup_distinct {α : Type} [DecidableEq α] (given l : List α) : (distinct given l).Nodup := by
  induction l generalizing given with
  | nil => exact List.nodup_nil
  | cons a rest ih =>
      rw [distinct]
      split
      · exact ih given
      · refine List.nodup_cons.mpr ⟨fun member => ?_, ih _⟩
        exact ((mem_distinct_iff rest).mp member).2 List.mem_cons_self

theorem DerivesRules.ne_nil {lexicon : Lexicon} {ws : List Word} {rules : List Rule}
    (h : DerivesRules lexicon ws rules) : ws ≠ [] := by
  cases h with
  | conditional | trailing => simp
  | fact claim => exact claim.ne_nil rfl

namespace Utterance

variable {u : Utterance} {i j : Nat}

theorem rules_found {rules : List Rule} (h : (rules, j) ∈ (u.rules i).all u.derivations) :
    ∃ ws, u.Spans i ws j ∧ DerivesRules u.lexicon ws rules := by
  simp only [Utterance.rules, Search.all_append, Search.all_guarded, Search.all_bind,
    Search.all_ask, Search.all_pure, List.mem_append, List.mem_ite_nil_right, List.mem_flatMap,
    List.mem_singleton, Prod.mk.injEq, is_keyword_singleton_iff] at h
  rcases h with (⟨opens, body, before, turns, heads, after, rfl, rfl⟩ |
    ⟨heads, before, opens, body, after, rfl, rfl⟩) | ⟨heads, given, rfl, rfl⟩
  · obtain ⟨vs, spans, derives⟩ := found_of_mem before
    obtain ⟨ws, spans', derives'⟩ := found_of_mem after
    exact ⟨_, (spans.append (spans'.after_keyword turns)).after_keyword opens,
      .conditional derives derives'⟩
  · obtain ⟨vs, spans, derives⟩ := found_of_mem before
    obtain ⟨ws, spans', derives'⟩ := found_of_mem after
    exact ⟨_, spans.append (spans'.after_keyword opens), .trailing derives derives'⟩
  · obtain ⟨ws, spans, derives⟩ := found_of_mem given
    exact ⟨ws, spans, .fact derives⟩

theorem mem_rules (unlisted : u.lexicon.knows "it" = false) {ws : List Word} {rules : List Rule}
    (h : DerivesRules u.lexicon ws rules) (spans : u.Spans i ws j) :
    (rules, j) ∈ (u.rules i).all u.derivations := by
  simp only [Utterance.rules, Search.all_append, Search.all_guarded, Search.all_bind,
    Search.all_ask, Search.all_pure, List.mem_append, List.mem_ite_nil_right, List.mem_flatMap,
    List.mem_singleton, Prod.mk.injEq, is_keyword_singleton_iff]
  cases h with
  | conditional conditions conclusions =>
      obtain ⟨opens, spans⟩ := Spans.of_cons spans
      obtain ⟨k, before, spans⟩ := spans.split
      obtain ⟨turns, after⟩ := spans.of_cons
      exact .inl (.inl ⟨opens, _, mem_of_derives unlisted conditions before, turns, _,
        mem_of_derives unlisted conclusions after, rfl, rfl⟩)
  | trailing conclusion conditions =>
      obtain ⟨k, before, spans⟩ := spans.split
      obtain ⟨opens, after⟩ := spans.of_cons
      exact .inl (.inr ⟨_, mem_of_derives unlisted conclusion before, opens, _,
        mem_of_derives unlisted conditions after, rfl, rfl⟩)
  | fact claim => exact .inr ⟨_, mem_of_derives unlisted claim spans, rfl, rfl⟩

theorem check_ok_iff : u.check = .ok () ↔ ∀ word ∈ u.words, u.recognizes word = true := by
  rw [check]
  split
  · next none =>
      rw [unrecognized?, List.find?_eq_none] at none
      simp only [true_iff]
      intro word member
      obtain ⟨place, inside, rfl⟩ := List.mem_iff_getElem.mp member
      simpa using none (u.words[place], place) (by simp [List.mem_zipIdx_iff_getElem?])
  · next word place found =>
      rw [unrecognized?] at found
      have member := List.fst_mem_of_mem_zipIdx (List.mem_of_find?_eq_some found)
      have unrecognized := List.find?_some found
      constructor
      · intro ok
        split at ok <;> cases ok
      · intro all
        simp [all word member] at unrecognized

theorem check_plain {lexicon : Lexicon} {words : List String}
    (known : ∀ word ∈ words, word ∈ keywords ∨ lexicon.knows word = true) :
    check ⟨words.map .plain, lexicon⟩ = .ok () := by
  rw [check_ok_iff, List.forall_mem_map]
  intro word member
  rcases known word member with keyword | listed
  · simp [recognizes, keyword]
  · simp [recognizes, listed]

theorem spans_all {ws : List Word} : u.Spans 0 ws u.words.length ↔ ws = u.words := by
  constructor
  · rintro ⟨words, stop⟩
    simpa using words.symm
  · rintro rfl
    exact ⟨by simp, by simp⟩

theorem reading_eq_some_iff {result : List Rule × Nat} {rules : List Rule} :
    u.reading? result = some rules ↔ result = (rules, u.words.length) ∧ rules ≠ [] := by
  obtain ⟨found, stop⟩ := result
  simp only [reading?, Option.ite_none_right_eq_some, Option.some.injEq, Prod.mk.injEq]
  constructor
  · rintro ⟨⟨rfl, nonempty⟩, rfl⟩
    exact ⟨⟨rfl, rfl⟩, nonempty⟩
  · rintro ⟨⟨rfl, rfl⟩, nonempty⟩
    exact ⟨⟨rfl, nonempty⟩, rfl⟩

theorem mem_readings {rules : List Rule} :
    rules ∈ u.readings ↔ (rules, u.words.length) ∈ (u.rules 0).all u.derivations ∧ rules ≠ [] := by
  simp only [readings, mem_distinct_iff, List.mem_filterMap, reading_eq_some_iff,
    List.not_mem_nil, not_false_eq_true, and_true]
  constructor
  · rintro ⟨result, found, rfl, nonempty⟩
    exact ⟨found, nonempty⟩
  · rintro ⟨found, nonempty⟩
    exact ⟨_, found, rfl, nonempty⟩

theorem meaning_of_mem_readings {rules : List Rule} (h : rules ∈ u.readings) :
    rules ≠ [] ∧ DerivesRules u.lexicon u.words rules := by
  obtain ⟨found, nonempty⟩ := mem_readings.mp h
  obtain ⟨ws, spans, derives⟩ := rules_found found
  rw [spans_all] at spans
  exact ⟨nonempty, spans ▸ derives⟩

theorem mem_readings_iff (unlisted : u.lexicon.knows "it" = false) {rules : List Rule} :
    rules ∈ u.readings ↔ rules ≠ [] ∧ DerivesRules u.lexicon u.words rules := by
  refine ⟨meaning_of_mem_readings, fun ⟨nonempty, derives⟩ => mem_readings.mpr ⟨?_, nonempty⟩⟩
  exact mem_rules unlisted derives (spans_all.mpr rfl)

end Utterance

section Entry

variable {source : Source} {words : List Word} {lexicon : Lexicon}

theorem words_ok (given : source.words = .ok words) :
    source.words.mapError ReadingError.source = .ok words := by
  rw [given]
  rfl

theorem words_error {fault : SourceError} (given : source.words = .error fault) :
    source.words.mapError ReadingError.source = .error (.source fault) := by
  rw [given]
  rfl

theorem start_readings_ok (recognized : Utterance.check ⟨words, lexicon⟩ = .ok ()) :
    startReadings words lexicon = .ok (.start _) := by
  rw [startReadings, recognized]
  rfl

theorem read_all_ok (given : source.words = .ok words)
    (recognized : Utterance.check ⟨words, lexicon⟩ = .ok ()) :
    readAll source lexicon = .ok (Utterance.readings ⟨words, lexicon⟩) := by
  have all := Readings.to_list_eq (.start ⟨words, lexicon⟩)
  rw [Readings.all_start] at all
  simp only [readAll, words_ok given, bind, Except.bind, start_readings_ok recognized]
  rw [← all]
  rfl

theorem readings_of_read_all {readings : List (List Rule)} (given : source.words = .ok words)
    (read : readAll source lexicon = .ok readings) :
    readings = Utterance.readings ⟨words, lexicon⟩ := by
  cases recognized : Utterance.check ⟨words, lexicon⟩ with
  | ok =>
      rw [read_all_ok given recognized] at read
      exact (Except.ok.inj read).symm
  | error fault =>
      simp only [readAll, words_ok given, bind, Except.bind, startReadings, recognized] at read
      cases read

theorem exists_words_of_read_all {readings : List (List Rule)}
    (read : readAll source lexicon = .ok readings) : ∃ words, source.words = .ok words := by
  cases given : source.words with
  | ok words => exact ⟨words, rfl⟩
  | error fault =>
      simp only [readAll, words_error given, bind, Except.bind] at read
      cases read

theorem meaning_of_read_all {readings : List (List Rule)} {rules : List Rule}
    (given : source.words = .ok words) (read : readAll source lexicon = .ok readings)
    (member : rules ∈ readings) : rules ≠ [] ∧ DerivesRules lexicon words rules := by
  rw [readings_of_read_all given read] at member
  exact Utterance.meaning_of_mem_readings member

theorem exists_read_all {rules : List Rule} (given : source.words = .ok words)
    (unlisted : lexicon.knows "it" = false)
    (recognized : Utterance.check ⟨words, lexicon⟩ = .ok ())
    (meant : DerivesRules lexicon words rules) (some : rules ≠ []) :
    ∃ readings, readAll source lexicon = .ok readings ∧ rules ∈ readings :=
  ⟨_, read_all_ok given recognized, (Utterance.mem_readings_iff unlisted).mpr ⟨some, meant⟩⟩

theorem read_some_ok (given : source.words = .ok words)
    (recognized : Utterance.check ⟨words, lexicon⟩ = .ok ()) (limit : Nat) :
    readSome limit source lexicon = .ok ((Utterance.readings ⟨words, lexicon⟩).take limit) := by
  have all := Readings.take_eq limit (.start ⟨words, lexicon⟩)
  rw [Readings.all_start] at all
  rw [readSome]
  split
  · next none => rw [none, List.take_zero]
  · simp only [words_ok given, bind, Except.bind, start_readings_ok recognized]
    rw [← all]
    rfl

def firstReading (words : List Word) : List (List Rule) → Except ReadingError (List Rule)
  | [] => .error (if words = [] then .emptySentence else .noReading words)
  | first :: _ => .ok first

theorem first_reading_eq_ok_iff {readings : List (List Rule)} {rules : List Rule} :
    firstReading words readings = .ok rules ↔ readings.head? = some rules := by
  cases readings with
  | nil => simp [firstReading]
  | cons first rest => simp [firstReading]

theorem readings_nil (lexicon : Lexicon) : Utterance.readings ⟨[], lexicon⟩ = [] := by
  refine List.eq_nil_iff_forall_not_mem.mpr fun rules member => ?_
  exact (Utterance.meaning_of_mem_readings member).2.ne_nil rfl

theorem read_ok (given : source.words = .ok words)
    (recognized : Utterance.check ⟨words, lexicon⟩ = .ok ()) :
    read source lexicon = firstReading words (Utterance.readings ⟨words, lexicon⟩) := by
  by_cases empty : words = []
  · subst empty
    rw [readings_nil]
    simp only [read, words_ok given, bind, Except.bind]
    rfl
  · simp only [read, words_ok given, bind, Except.bind, start_readings_ok recognized,
      List.isEmpty_eq_false_iff.mpr empty]
    rw [← Readings.all_start]
    cases next : (Readings.start ⟨words, lexicon⟩).next? with
    | none =>
        rw [Readings.all_of_next_none next, firstReading, if_neg empty]
        rfl
    | some result =>
        obtain ⟨rules, readings⟩ := result
        rw [Readings.all_of_next_some next]
        rfl

theorem first_reading_of_read {rules : List Rule} (given : source.words = .ok words)
    (read : read source lexicon = .ok rules) :
    (Utterance.readings ⟨words, lexicon⟩).head? = some rules := by
  cases recognized : Utterance.check ⟨words, lexicon⟩ with
  | ok =>
      rw [read_ok given recognized] at read
      exact first_reading_eq_ok_iff.mp read
  | error fault =>
      by_cases empty : words = []
      · subst empty
        cases recognized
      · simp only [ControlledEnglish.read, words_ok given, bind, Except.bind, startReadings,
          recognized, List.isEmpty_eq_false_iff.mpr empty] at read
        cases read

/-- Reading yields every meaning that the grammar gives to all of the words, each once and no
other, and the first of them when only one is wanted. -/
theorem read_all_meanings (given : source.words = .ok words)
    (unlisted : lexicon.knows "it" = false)
    (recognized : Utterance.check ⟨words, lexicon⟩ = .ok ()) :
    ∃ readings, readAll source lexicon = .ok readings ∧ readings.Nodup ∧
      (∀ rules, rules ∈ readings ↔ rules ≠ [] ∧ DerivesRules lexicon words rules) ∧
      (∀ limit, readSome limit source lexicon = .ok (readings.take limit)) ∧
      read source lexicon = firstReading words readings := by
  refine ⟨Utterance.readings ⟨words, lexicon⟩, read_all_ok given recognized, nodup_distinct [] _,
    fun rules => ?_, read_some_ok given recognized, read_ok given recognized⟩
  exact Utterance.mem_readings_iff unlisted

theorem read_all_meanings_stated_subject :
    let lexicon := ((Lexicon.empty.insert "birds" .noun).insert "eats" .verb).insert "meat" .noun
    let meaning : Attr := ⟨.hasA, "birds", [⟨.does, "eats", [⟨.isA, "meat", []⟩]⟩]⟩
    ∃ readings, readAll (.text "birds eats meat") lexicon = .ok readings ∧
      [⟨meaning, []⟩] ∈ readings := by
  intro lexicon meaning
  have given : Source.words (.text "birds eats meat") =
      .ok [.plain "birds", .plain "eats", .plain "meat"] := by cbv
  have unlisted : lexicon.knows "it" = false := by
    simp [lexicon, Lexicon.knows, Category.all, Lexicon.lookup_insert]
  have recognized :
      Utterance.check ⟨[.plain "birds", .plain "eats", .plain "meat"], lexicon⟩ = .ok () := by
    simp [Utterance.check_ok_iff, Utterance.recognizes, lexicon, Lexicon.knows, Category.all,
      Lexicon.lookup_insert]
  have known (word : String) (category : Category)
      (listed : lexicon.lookup word category = true) :
      Derives lexicon (Phrase.word category) [.plain word] [⟨category.kind, word, []⟩] :=
    .word (.listed listed)
  have birds := Derives.noun .noDeterminer .noAdjectives
    (known "birds" .noun (by simp [lexicon, Lexicon.lookup_insert]))
  have meat := Derives.noun .noDeterminer .noAdjectives
    (known "meat" .noun (by simp [lexicon, Lexicon.lookup_insert]))
  have eats := known "eats" .verb (by simp [lexicon, Lexicon.lookup_insert])
  have eat_meat := Derives.action .noItems eats (.items (.single meat))
  have meant := Derives.subject birds (by simp [attach]) eat_meat
  obtain ⟨readings, all, -, meanings, -, -⟩ := read_all_meanings given unlisted recognized
  exact ⟨readings, all, (meanings _).mpr ⟨by simp, .fact meant⟩⟩

end Entry

end ControlledEnglish
