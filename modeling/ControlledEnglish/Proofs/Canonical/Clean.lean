import ControlledEnglish.Proofs.Reading
import ControlledEnglish.Proofs.Spacing

namespace ControlledEnglish

/-- The keywords are left alone. -/
def Lexicon.AvoidsKeywords (lexicon : Lexicon) : Prop :=
  ∀ word category, lexicon.lookup word category = true → word ∉ keywords

def Lexicon.IsWritable (lexicon : Lexicon) : Prop :=
  ∀ word category, lexicon.lookup word category = true → IsBare word

structure Lexicon.IsClean (lexicon : Lexicon) : Prop where
  alone : ∀ word category other, lexicon.lookup word category = true →
    lexicon.lookup word other = true → category = other
  no_keyword : ∀ word category, lexicon.lookup word category = true → word ∉ keywords
  bare : ∀ word category, lexicon.lookup word category = true → IsBare word

/-- Every word has one use: it is of one category, and neither a keyword nor a literal. -/
structure Lexicon.IsUnambiguous (lexicon : Lexicon) : Prop where
  alone : ∀ word category other, lexicon.lookup word category = true →
    lexicon.lookup word other = true → category = other
  no_keyword : ∀ word category, lexicon.lookup word category = true → word ∉ keywords
  no_literal : ∀ word category, lexicon.lookup word category = true →
    Literal.ofSpelling? word = none

theorem of_spelling_eq_none {word : String} (unquoted : word.toList.head? ≠ some '"') :
    Literal.ofSpelling? word = none := by
  have inner : unquote? word.toList = none := by
    rw [unquote?.eq_def]
    split
    · next text => simp [text] at unquoted
    · rfl
  rw [Literal.ofSpelling?, inner]
  rfl

theorem is_bare_of_mem_keywords {word : String} (h : word ∈ keywords) : IsBare word := by
  have all : ∀ word ∈ keywords, IsBare word := by decide
  exact all word h

theorem Reads.of_bare {lexicon : Lexicon} {category : Category} {word text : String}
    (bare : IsBare word) (h : Reads lexicon category (.plain word) text) :
    text = word ∧ lexicon.lookup word category = true := by
  cases h with
  | listed known => exact ⟨rfl, known⟩
  | spelled spells =>
      rw [of_spelling_eq_none bare.unquoted] at spells
      cases spells

namespace Lexicon.AvoidsKeywords

variable {lexicon : Lexicon} {category : Category} {word text : String}

theorem unlisted_it (avoids : lexicon.AvoidsKeywords) : lexicon.knows "it" = false := by
  rw [knows_eq_false_iff]
  intro category
  exact Bool.eq_false_iff.mpr fun known => avoids "it" category known (by decide)

theorem not_reads_keyword (avoids : lexicon.AvoidsKeywords) (keyword : word ∈ keywords) :
    ¬Reads lexicon category (.plain word) text := by
  intro reads
  have known := (reads.of_bare (is_bare_of_mem_keywords keyword)).2
  exact avoids word category known keyword

end Lexicon.AvoidsKeywords

namespace Lexicon.IsUnambiguous

variable {lexicon : Lexicon} (one : lexicon.IsUnambiguous)

include one

theorem avoids : lexicon.AvoidsKeywords := one.no_keyword

theorem reads_unique {category other : Category} {w : Word} {text text' : String}
    (reads : Reads lexicon category w text) (again : Reads lexicon other w text') :
    category = other ∧ text = text' := by
  cases reads with
  | listed known =>
      cases again with
      | listed known' => exact ⟨one.alone _ category other known known', rfl⟩
      | spelled spells =>
          rw [one.no_literal _ category known] at spells
          cases spells
  | spelled spells =>
      cases again with
      | listed known =>
          rw [one.no_literal _ other known] at spells
          cases spells
      | spelled spells' =>
          rw [spells] at spells'
          cases spells'
          exact ⟨rfl, rfl⟩
  | literal =>
      cases again
      exact ⟨rfl, rfl⟩

end Lexicon.IsUnambiguous

namespace Lexicon.IsClean

variable {lexicon : Lexicon} {category other : Category} {word text : String}

theorem avoids (clean : lexicon.IsClean) : lexicon.AvoidsKeywords := clean.no_keyword

theorem writable (clean : lexicon.IsClean) : lexicon.IsWritable := clean.bare

theorem unlisted_it (clean : lexicon.IsClean) : lexicon.knows "it" = false :=
  clean.avoids.unlisted_it

theorem not_reads_keyword (clean : lexicon.IsClean) (keyword : word ∈ keywords) :
    ¬Reads lexicon category (.plain word) text :=
  clean.avoids.not_reads_keyword keyword

theorem unambiguous (clean : lexicon.IsClean) : lexicon.IsUnambiguous :=
  ⟨clean.alone, clean.no_keyword, fun word category known =>
    of_spelling_eq_none (clean.bare word category known).unquoted⟩

theorem bare_of_used (clean : lexicon.IsClean)
    (used : word ∈ keywords ∨ lexicon.knows word = true) : IsBare word := by
  rcases used with keyword | known
  · exact is_bare_of_mem_keywords keyword
  · rcases List.any_eq_true.mp known with ⟨category, -, listed⟩
    exact clean.bare word category listed

theorem bare_of_made (clean : lexicon.IsClean) {words : List Word}
    (made : ∀ w ∈ words, ∃ word, w = .plain word ∧ (word ∈ keywords ∨ lexicon.knows word = true)) :
    ∀ w ∈ words, ∃ word, w = .plain word ∧ IsBare word := by
  intro w member
  rcases made w member with ⟨word, rfl, used⟩
  exact ⟨word, rfl, clean.bare_of_used used⟩

theorem category_eq (clean : lexicon.IsClean) {w : Word} {text text' : String}
    (reads : Reads lexicon category w text) (again : Reads lexicon other w text') :
    category = other :=
  (clean.unambiguous.reads_unique reads again).1

theorem not_reads_other (clean : lexicon.IsClean) (listed : lexicon.lookup word category = true)
    (differ : category ≠ other) : ¬Reads lexicon other (.plain word) text :=
  fun reads => differ (clean.category_eq (.listed listed) reads)

end Lexicon.IsClean

namespace Lexicon

theorem empty_clean : empty.IsClean := by
  constructor <;> simp

section Insert

variable {lexicon : Lexicon} {word w : String} {category other : Category}

theorem lookup_of_insert (known : (lexicon.insert word category).lookup w other = true) :
    (category = other ∧ word = w) ∨ lexicon.lookup w other = true := by
  simpa [lookup_insert] using known

theorem AvoidsKeywords.insert (avoids : lexicon.AvoidsKeywords) (no_keyword : word ∉ keywords) :
    (lexicon.insert word category).AvoidsKeywords := by
  intro w other known
  rcases lookup_of_insert known with ⟨-, rfl⟩ | known
  · exact no_keyword
  · exact avoids w other known

theorem IsWritable.insert (writable : lexicon.IsWritable) (bare : IsBare word) :
    (lexicon.insert word category).IsWritable := by
  intro w other known
  rcases lookup_of_insert known with ⟨-, rfl⟩ | known
  · exact bare
  · exact writable w other known

theorem IsClean.insert (clean : lexicon.IsClean) (fresh : lexicon.knows word = false)
    (no_keyword : word ∉ keywords) (bare : IsBare word) :
    (lexicon.insert word category).IsClean := by
  have unknown := knows_eq_false_iff.mp fresh
  constructor
  · intro w first second known again
    rcases lookup_of_insert known with ⟨rfl, rfl⟩ | known
    · rcases lookup_of_insert again with ⟨same, -⟩ | again
      · exact same
      · exact absurd again (by simp [unknown])
    · rcases lookup_of_insert again with ⟨-, rfl⟩ | again
      · exact absurd known (by simp [unknown])
      · exact clean.alone w first second known again
  · exact clean.avoids.insert no_keyword
  · exact clean.writable.insert bare

end Insert

/-- A few words to show what can go wrong. -/
def marsh : Lexicon := ((empty.insert "heron" .noun).insert "frog" .noun).insert "eats" .verb

theorem marsh_clean : marsh.IsClean := by
  refine ((empty_clean.insert ?_ (by decide) (by decide)).insert ?_ (by decide) (by decide)).insert
    ?_ (by decide) (by decide)
  all_goals simp [knows, Category.all, lookup_insert]

@[simp] theorem lookup_marsh (word : String) (category : Category) :
    marsh.lookup word category = (category == .verb && word == "eats" ||
      category == .noun && (word == "frog" || word == "heron")) := by
  cases category <;> simp [marsh, lookup_insert, Bool.beq_eq_decide_eq, eq_comm]

theorem marsh_knows {word : String} (listed : word ∈ ["heron", "frog", "eats"]) :
    marsh.knows word = true := by
  simp only [List.mem_cons, List.not_mem_nil, or_false] at listed
  rcases listed with rfl | rfl | rfl <;> simp [knows, Category.all]

theorem marsh_check (words : List String)
    (listed : ∀ word ∈ words, word ∈ keywords ∨ word ∈ ["heron", "frog", "eats"]) :
    Utterance.check ⟨plain words, marsh⟩ = .ok () :=
  Utterance.check_plain fun word inside => (listed word inside).imp_right marsh_knows

theorem marsh_word {w : String} {category : Category} (listed : marsh.lookup w category = true) :
    Derives marsh (Phrase.word category) [.plain w] [⟨category.kind, w, []⟩] :=
  .word (.listed listed)

theorem marsh_noun {w : String} {ds : List Word} {ns : List Attr}
    (listed : marsh.lookup w .noun = true) (determiner : Derives marsh Phrase.determiner ds ns) :
    Derives marsh Phrase.nounPhrase (ds ++ [.plain w]) [⟨.isA, w, []⟩] := by
  have named := Derives.noun determiner .noAdjectives (marsh_word listed)
  rw [List.append_nil] at named
  exact named

theorem marsh_eats {ws : List Word} {as : List Attr}
    (objects : Derives marsh (.joinedOpt .nounPhrase) ws as) :
    Derives marsh Phrase.verbPhrase (.plain "eats" :: ws) [⟨.does, "eats", as⟩] :=
  .action .noItems (marsh_word (by simp)) objects

end Lexicon

end ControlledEnglish
