import ControlledEnglish.Console.Terminal
import ControlledEnglish.Proofs.Command.Printed
import ControlledEnglish.Proofs.Declared
import ControlledEnglish.Proofs.Declarations
import ControlledEnglish.Proofs.Opened

/-! Words are added sentence by sentence.

A sentence that is a declaration teaches all that it declares. One that is none teaches nothing and
makes the command fail, but the others are taken all the same, unless the console refuses the line
about it. A text whose quotes are not closed has no sentences, so not even its first one is taken. -/

namespace ControlledEnglish

namespace Token

/-- The words of the sentence can be cut into declarations. -/
def IsDeclaration (tokens : List Token) : Prop :=
  ∃ cut : Declaration.Cut, cut.words = plain (tokens.map Token.text)

/-- The words are cut so that this is one of the declarations. -/
def Declares (tokens : List Token) (declaration : Declaration) : Prop :=
  ∃ cut : Declaration.Cut, cut.IsPreferred (plain (tokens.map Token.text)) ∧
    declaration ∈ cut.declarations

variable {tokens : List Token} {declarations : List Declaration}

theorem is_declaration_of_ok (read : Declaration.ofSource (.ofTokens tokens) = .ok declarations) :
    IsDeclaration tokens := by
  rw [Declaration.of_source_eq (words_of_tokens tokens)] at read
  obtain ⟨cut, preferred, -⟩ := Declaration.of_words_eq_ok_iff.mp read
  exact ⟨cut, preferred.cuts⟩

theorem declares_iff (read : Declaration.ofSource (.ofTokens tokens) = .ok declarations)
    (declaration : Declaration) : Declares tokens declaration ↔ declaration ∈ declarations := by
  rw [Declaration.of_source_eq (words_of_tokens tokens)] at read
  obtain ⟨cut, preferred, rfl⟩ := Declaration.of_words_eq_ok_iff.mp read
  constructor
  · intro ⟨other, preferred', member⟩
    rw [preferred.unique preferred'] at member
    exact member
  · intro member
    exact ⟨cut, preferred, member⟩

theorem no_declaration {fault : DeclarationError}
    (failed : Declaration.ofSource (.ofTokens tokens) = .error fault) :
    ¬IsDeclaration tokens ∧ (∀ declaration, ¬Declares tokens declaration) ∧
      fault = .notDeclaration (plain (tokens.map Token.text)) := by
  rw [Declaration.of_source_eq (words_of_tokens tokens)] at failed
  obtain ⟨none, rfl⟩ := Declaration.of_words_eq_error_iff.mp failed
  refine ⟨?_, ?_, rfl⟩
  · intro ⟨cut, cuts⟩
    exact none cut cuts
  · intro declaration ⟨cut, preferred, member⟩
    exact none cut preferred.cuts

end Token

namespace Command

open Token (IsDeclaration Declares)

/-- The sentence is no declaration, and the console refuses the line that says so. -/
def IsRefused (console : Console) (tokens : List Token) : Prop :=
  ¬IsDeclaration tokens ∧
    console.marked (Style.red.mark ("✗ Not a declaration: " ++ Token.sentence tokens)) = none

variable {console : Console} {stores : Stores} {store other : Store} {word : String}
  {category : Category} {text : String} {sentences before rest : List (List Token)}
  {tokens : List Token}

section Sentence

theorem add_sentence_cases (console : Console) (store : Store) (stores : Stores)
    (tokens : List Token) :
    (IsDeclaration tokens ∧ ∃ declarations,
      (∀ declaration, Declares tokens declaration ↔ declaration ∈ declarations) ∧
      addSentence console store stores tokens =
        (⟨[console.plain ("✓ " ++ Token.sentence tokens)], .exit 0⟩,
          stores.declare store declarations)) ∨
    (¬IsDeclaration tokens ∧ (∀ declaration, ¬Declares tokens declaration) ∧
      addSentence console store stores tokens =
        (console.failed ("Not a declaration: " ++ Token.sentence tokens), stores)) := by
  cases read : Declaration.ofSource (.ofTokens tokens) with
  | ok declarations =>
      refine .inl ⟨Token.is_declaration_of_ok read, declarations, Token.declares_iff read, ?_⟩
      simp only [addSentence, Stores.declareSource, read]
      rfl
  | error fault =>
      obtain ⟨unmade, declares, rfl⟩ := Token.no_declaration read
      refine .inr ⟨unmade, declares, ?_⟩
      simp only [addSentence, Stores.declareSource, read]

theorem ending_add_sentence (console : Console) (store : Store) (stores : Stores)
    (tokens : List Token) :
    (IsRefused console tokens ∧
      addSentence console store stores tokens = (⟨[], .refused⟩, stores)) ∨
    (¬IsRefused console tokens ∧ (addSentence console store stores tokens).1.IsWhole ∧
      ((addSentence console store stores tokens).1.ending = .exit 1 ↔ ¬IsDeclaration tokens)) := by
  rcases add_sentence_cases console store stores tokens with
    ⟨made, _, -, added⟩ | ⟨unmade, -, added⟩
  · rw [added]
    exact .inr ⟨fun refused => refused.1 made, .inl rfl, by simp [made]⟩
  · rw [added]
    cases line : console.marked
        (Style.red.mark ("✗ Not a declaration: " ++ Token.sentence tokens)) with
    | none => exact .inl ⟨⟨unmade, line⟩, congrArg (·, stores) (Console.failed_of_refused line)⟩
    | some shown =>
        have taken : ¬IsRefused console tokens := fun refused => by
          rw [refused.2] at line
          cases line
        have failed : console.failed ("Not a declaration: " ++ Token.sentence tokens) =
            ⟨[shown], .exit 1⟩ := Console.failed_of_shown line
        rw [failed]
        exact .inr ⟨taken, .inr rfl, iff_of_true rfl unmade⟩

theorem holds_add_sentence :
    (addSentence console store stores tokens).2.Holds other ↔ stores.Holds other := by
  rcases add_sentence_cases console store stores tokens with
    ⟨-, declarations, -, added⟩ | ⟨-, -, added⟩
  · rw [added]
    exact Stores.holds_register_all store other _
  · rw [added]

theorem lookup_add_sentence (held : stores.Holds store) :
    ((addSentence console store stores tokens).2.contents store).lookup word category = true ↔
      (stores.contents store).lookup word category = true ∨ Declares tokens ⟨word, category⟩ := by
  rcases add_sentence_cases console store stores tokens with
    ⟨-, declarations, declares, added⟩ | ⟨-, declares, added⟩
  · rw [added, Stores.lookup_declare held, declares]
  · rw [added]
    exact (or_iff_left (declares _)).symm

theorem contents_add_sentence_of_ne (apart : store ≠ other) :
    (addSentence console store stores tokens).2.contents other = stores.contents other := by
  rcases add_sentence_cases console store stores tokens with
    ⟨-, declarations, -, added⟩ | ⟨-, -, added⟩
  · rw [added]
    exact Stores.contents_register_all_of_ne apart _
  · rw [added]

end Sentence

section Sentences

theorem add_sentences_refused (refused : IsRefused console tokens) :
    addSentences console store stores (tokens :: rest) = (⟨[], .refused⟩, stores) := by
  rcases ending_add_sentence console store stores tokens with ⟨-, added⟩ | ⟨taken, -⟩
  · rw [addSentences, added]
  · exact absurd refused taken

theorem add_sentences_taken (taken : ¬IsRefused console tokens) :
    addSentences console store stores (tokens :: rest) =
      ((addSentence console store stores tokens).1.followedBy
          (addSentences console store (addSentence console store stores tokens).2 rest).1,
        (addSentences console store (addSentence console store stores tokens).2 rest).2) := by
  rcases ending_add_sentence console store stores tokens with ⟨refused, -⟩ | ⟨-, whole, -⟩
  · exact absurd refused taken
  · rcases whole with success | failure
    · simp only [addSentences, success]
    · simp only [addSentences, failure]

theorem contents_add_sentences_of_ne (apart : store ≠ other) :
    (addSentences console store stores sentences).2.contents other = stores.contents other := by
  induction sentences generalizing stores with
  | nil => rfl
  | cons tokens sentences ih =>
      by_cases refused : IsRefused console tokens
      · rw [add_sentences_refused refused]
      · rw [add_sentences_taken refused, ih, contents_add_sentence_of_ne apart]

section Taken

variable (taken : ∀ tokens ∈ sentences, ¬IsRefused console tokens)
include taken

theorem lookup_add_sentences (held : stores.Holds store) :
    ((addSentences console store stores sentences).2.contents store).lookup word category = true ↔
      (stores.contents store).lookup word category = true ∨
        ∃ tokens ∈ sentences, Declares tokens ⟨word, category⟩ := by
  induction sentences generalizing stores with
  | nil => simp [addSentences]
  | cons tokens sentences ih =>
      obtain ⟨here, later⟩ := List.forall_mem_cons.mp taken
      rw [add_sentences_taken here, ih later (holds_add_sentence.mpr held),
        lookup_add_sentence held, List.exists_mem_cons_iff, or_assoc]

theorem ending_add_sentences (store : Store) (stores : Stores) :
    (addSentences console store stores sentences).1.IsWhole ∧
      ((addSentences console store stores sentences).1.ending = .exit 1 ↔
        ∃ tokens ∈ sentences, ¬IsDeclaration tokens) := by
  induction sentences generalizing stores with
  | nil => exact ⟨.inl rfl, by simp [addSentences]⟩
  | cons tokens sentences ih =>
      obtain ⟨here, later⟩ := List.forall_mem_cons.mp taken
      rcases ending_add_sentence console store stores tokens with ⟨refused, -⟩ | ⟨-, whole, failed⟩
      · exact absurd refused here
      · obtain ⟨others, failures⟩ := ih later (addSentence console store stores tokens).2
        obtain ⟨-, ends, either⟩ := Report.followedBy_whole whole others
        rw [add_sentences_taken here, List.exists_mem_cons_iff, ← failed, ← failures]
        exact ⟨ends, either⟩

/-- A sentence that is refused is the last one: what is taught is what those before it declare. -/
theorem add_sentences_until_refused (refused : IsRefused console tokens) :
    (addSentences console store stores (sentences ++ tokens :: rest)).1.ending = .refused ∧
      (addSentences console store stores (sentences ++ tokens :: rest)).2 =
        (addSentences console store stores sentences).2 := by
  induction sentences generalizing stores with
  | nil =>
      rw [List.nil_append, add_sentences_refused refused]
      exact ⟨rfl, rfl⟩
  | cons first sentences ih =>
      obtain ⟨here, later⟩ := List.forall_mem_cons.mp taken
      rcases ending_add_sentence console store stores first with ⟨broken, -⟩ | ⟨-, whole, -⟩
      · exact absurd broken here
      · obtain ⟨ended, same⟩ := @ih (addSentence console store stores first).2 later
        rw [List.cons_append, add_sentences_taken here, add_sentences_taken here,
          Report.whole_followedBy_refused whole ended]
        exact ⟨rfl, same⟩

end Taken

end Sentences

theorem not_refused_of_free (free : ∀ word ∈ tokens.map Token.text, '[' ∉ word.toList) :
    ¬IsRefused console tokens := by
  intro ⟨_, refused⟩
  have line := console.takes .red ("✗ Not a declaration: " ++ Token.sentence tokens)
    (Text.not_mem_append (by decide) (bracket_not_mem_spaced free))
  rw [refused] at line
  cases line

theorem run_add_words (console : Console) (stores : Stores) (contents : Option String)
    (text : String) (db : Option Int) :
    run console stores contents (.addWords text db) = addText console stores text db := by
  cases contents <;> rfl

section Text

variable {db : Option Int}

theorem add_text_ok (read : Token.sentences text = .ok sentences) :
    addText console stores text db =
      addSentences console (stores.openStore db).1 (stores.openStore db).2 sentences := by
  rw [addText, read]

theorem add_text_error {fault : Token.Unterminated}
    (failed : Token.sentences text = .error fault) :
    addText console stores text db =
      (⟨["✗ Tokenize error: " ++ fault.message], .exit 1⟩, stores) := by
  rw [addText, failed, ← console.failed_unterminated]

end Text

end Command

end ControlledEnglish
