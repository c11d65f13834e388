import ControlledEnglish.Proofs.Command.Printed
import ControlledEnglish.Proofs.Grammar.Recognized
import ControlledEnglish.Proofs.Opened
import ControlledEnglish.Proofs.Spacing
import ControlledEnglish.Console.Terminal

/-! Sentences of a text are parsed as if each of them had been given alone, up to the first one of
which the console refuses a line.

Parsing looks at the words of a sentence only, not at where they stand, and the words of a sentence
that was read are read back from the sentence. Nothing that is parsed is taught, so the next sentence
finds the lexicon as it was opened. -/

namespace ControlledEnglish

namespace Token

variable {text : String} {sentences : List (List Token)} {tokens : List Token}

theorem written_of_mem (read : Token.sentences text = .ok sentences)
    (member : tokens ∈ sentences) :
    tokens ≠ [] ∧ ∀ word ∈ tokens.map Token.text, IsWritten word := by
  have are := are_sentences_iff.mp read
  constructor
  · intro none
    rw [none] at member
    exact are.nonempty member
  · rw [List.forall_mem_map]
    intro token inside
    rcases are.covers.formed token (List.mem_flatten_of_mem member inside) with enclosed | ⟨bare, -⟩
    · exact .inr enclosed
    · exact .inl bare

/-- A sentence that was read is read again from its words, which stand elsewhere then. -/
theorem sentences_of_sentence (read : Token.sentences text = .ok sentences)
    (member : tokens ∈ sentences) :
    Token.sentences (sentence tokens) = .ok [ofWords 0 (tokens.map Token.text)] := by
  obtain ⟨some, written⟩ := written_of_mem read member
  exact sentences_spaced (mt List.map_eq_nil_iff.mp some) written

end Token

namespace Command

variable {console : Console} {stores : Stores} {lexicon : Lexicon} {showAll asJson : Bool}
  {db : Option Int} {text : String} {sentences before rest : List (List Token)}
  {tokens tokens' : List Token}

section Words

variable (same : tokens.map Token.text = tokens'.map Token.text)
include same

theorem readings_congr (lexicon : Lexicon) :
    readings showAll tokens lexicon = readings showAll tokens' lexicon := by
  have words : (Source.ofTokens tokens).words = (Source.ofTokens tokens').words := by
    rw [words_of_tokens, words_of_tokens, same]
  have failed : tokens.map (fun token => Word.plain token.text) =
      tokens'.map fun token => Word.plain token.text := by
    calc
      tokens.map (fun token => Word.plain token.text) = plain (tokens.map Token.text) :=
        List.map_map.symm
      _ = plain (tokens'.map Token.text) := by rw [same]
      _ = tokens'.map fun token => Word.plain token.text := List.map_map
  simp only [readings, readAll, read, words, failed]

theorem parse_sentence_congr (console : Console) (lexicon : Lexicon) :
    parseSentence console showAll asJson lexicon tokens =
      parseSentence console showAll asJson lexicon tokens' := by
  have sentence : Token.sentence tokens = Token.sentence tokens' := by
    rw [Token.sentence, Token.sentence, same]
  rw [parseSentence, parseSentence, readings_congr same, sentence]

end Words

section Refused

theorem ending_parse_sentence (console : Console) (showAll asJson : Bool) (lexicon : Lexicon)
    (tokens : List Token) :
    (parseSentence console showAll asJson lexicon tokens).IsWhole ∨
      (parseSentence console showAll asJson lexicon tokens).ending = .refused := by
  rw [parseSentence]
  split
  · exact (console.ending_failed _).imp_left .inr
  · split
    · exact .inl (.inl rfl)
    · exact (Report.ending_printing 0 _).imp_left .inl

theorem taken_numbered (console : Console) (readings : List (List Rule)) :
    ∀ line ∈ numbered console readings, line.isSome := by
  intro line listed
  obtain ⟨⟨rules, i⟩, -, inside⟩ := List.mem_flatMap.mp listed
  rcases List.mem_append.mp inside with count | shown
  · have number : '[' ∉ ("--- parse " ++ toString (i + 1) ++ " ---").toList :=
      Text.not_mem_append (Text.not_mem_append (by decide) (Text.bracket_not_mem_nat _)) (by decide)
    split at count
    · rw [List.mem_singleton.mp count]
      exact console.takes .dim _ number
    · cases count
  · simp only [shownReading, List.mem_append, List.mem_singleton, List.mem_map] at shown
    rcases shown with (rfl | ⟨rule, -, rfl⟩) | rfl
    · exact Console.takes_line (by decide)
    · rfl
    · rfl

theorem lines_parse_sentence
    (taken : (parseSentence console showAll asJson lexicon tokens).ending ≠ .refused) :
    (parseSentence console showAll asJson lexicon tokens).lines ≠ [] := by
  rw [parseSentence] at taken ⊢
  split
  · next failed =>
      rw [failed] at taken
      exact Report.printing_ne_nil (List.cons_ne_nil _ _) taken
  · next readings found =>
      rw [found] at taken
      split
      · exact List.cons_ne_nil _ _
      · next printed =>
          dsimp only at taken
          rw [if_neg printed] at taken
          exact Report.printing_ne_nil (by simp) taken

/-! What can be wrong with a sentence: a word that is not recognized, or that there is no reading. -/

section Errors

variable {error : ReadingError}

theorem readings_unrecognized
    (rejected : Utterance.check ⟨plain (tokens.map Token.text), lexicon⟩ = .error error) :
    readings showAll tokens lexicon = .error error := by
  have given := words_of_tokens tokens
  cases showAll with
  | true => simp only [readings, read_all_error given rejected, bind, Except.bind, if_true]
  | false =>
      simp only [readings, read_error given rejected, bind, Except.bind, Bool.false_eq_true, if_false]

theorem error_of_first_reading {words : List Word} {readings : List (List Rule)}
    (none : firstReading words readings = .error error) :
    error = .emptySentence ∨ error = .noReading words := by
  cases readings with
  | nil =>
      rw [← Except.error.inj none]
      by_cases empty : words = []
      · exact .inl (if_pos empty)
      · exact .inr (if_neg empty)
  | cons first rest => cases none

theorem error_of_recognized
    (recognized : Utterance.check ⟨plain (tokens.map Token.text), lexicon⟩ = .ok ())
    (failed : readings showAll tokens lexicon = .error error) :
    error = .emptySentence ∨ error = .noReading (plain (tokens.map Token.text)) := by
  have given := words_of_tokens tokens
  have same : tokens.map (fun token => Word.plain token.text) = plain (tokens.map Token.text) :=
    List.map_map.symm
  cases showAll with
  | true =>
      simp only [readings, read_all_ok given recognized, bind, Except.bind, if_true, same] at failed
      split at failed
      · exact .inr (Except.error.inj failed).symm
      · cases failed
  | false =>
      simp only [readings, read_ok given recognized, bind, Except.bind, Bool.false_eq_true,
        if_false] at failed
      cases first : firstReading (plain (tokens.map Token.text)) (Utterance.readings ⟨_, lexicon⟩) with
      | ok rules =>
          rw [first] at failed
          cases failed
      | error other =>
          rw [first] at failed
          rw [← Except.error.inj failed]
          exact error_of_first_reading first

end Errors

variable (free : ∀ word ∈ tokens.map Token.text, '[' ∉ word.toList)
include free

theorem bracket_not_mem_fault {error : ReadingError}
    (failed : readings showAll tokens lexicon = .error error) :
    '[' ∉ (fault (Token.sentence tokens) error).toList := by
  have sentence : '[' ∉ (Token.sentence tokens).toList := bracket_not_mem_spaced free
  cases checked : Utterance.check ⟨plain (tokens.map Token.text), lexicon⟩ with
  | error refusal =>
      obtain ⟨w, place, first, rfl⟩ := Utterance.unrecognized_of_check checked
      rw [readings_unrecognized checked] at failed
      obtain ⟨word, listed, same⟩ := List.mem_map.mp (List.mem_of_getElem? first.here)
      have quoted : '[' ∉ (Text.quoted w).toList :=
        Text.bracket_not_mem_quoted (Word.plain.inj same ▸ free word listed)
      have position := Text.bracket_not_mem_nat place
      rw [← Except.error.inj failed, Utterance.faultAt]
      split
      · exact Text.not_mem_append (Text.not_mem_append sentence (by decide))
          (Text.not_mem_append (Text.not_mem_append (Text.not_mem_append
            (Text.not_mem_append (by decide) quoted) (by decide)) position) (by decide))
      · exact Text.not_mem_append (Text.not_mem_append sentence (by decide))
          (Text.not_mem_append (Text.not_mem_append (Text.not_mem_append (by decide) quoted)
            (by decide)) position)
  | ok =>
      rcases error_of_recognized checked failed with rfl | rfl
      · have message : '[' ∉ "Empty sentence".toList := by decide
        exact message
      · have spellings : (plain (tokens.map Token.text)).map Word.spelling = tokens.map Token.text := by
          rw [plain, List.map_map]
          exact List.map_id _
        have message :
            fault (Token.sentence tokens) (.noReading (plain (tokens.map Token.text))) =
              "Could not parse: " ++ Token.sentence tokens :=
          congrArg (fun words => "Could not parse: " ++ spaced words) spellings
        rw [message]
        exact Text.not_mem_append (by decide) sentence

theorem parse_sentence_whole (console : Console) (showAll asJson : Bool) (lexicon : Lexicon) :
    (parseSentence console showAll asJson lexicon tokens).IsWhole := by
  have sentence : '[' ∉ (Token.sentence tokens).toList := bracket_not_mem_spaced free
  rw [parseSentence]
  split
  · next error failed => exact .inr (Console.failed_of_free (bracket_not_mem_fault free failed))
  · next readings found =>
      split
      · exact .inl rfl
      · refine .inl (Report.ending_printing_taken fun line listed => ?_)
        simp only [List.mem_append, List.mem_singleton] at listed
        rcases listed with (rfl | shown) | rfl
        · exact console.takes .bold _ sentence
        · exact taken_numbered console readings line shown
        · rfl

end Refused

theorem run_parse_file {file : String} (named : file ≠ "") (console : Console) (stores : Stores)
    (contents : String) (operand : Option String) (showAll asJson : Bool) (db : Option Int) :
    run console stores (some contents) (.parse operand (some file) showAll asJson db) =
      parseText console stores (Text.withNewlines contents) showAll asJson db := by
  simp only [run, file?, if_neg named]
  rfl

def parsed (console : Console) (stores : Stores) (showAll asJson : Bool) (db : Option Int)
    (tokens : List Token) : Report :=
  let opened := stores.openStore db
  parseSentence console showAll asJson (opened.2.contents opened.1) tokens

theorem parse_text_ok (read : Token.sentences text = .ok sentences) :
    parseText console stores text showAll asJson db =
      (.joined (sentences.map (parsed console stores showAll asJson db)),
        (stores.openStore db).2) := by
  rw [parseText, read]
  rfl

theorem parse_text_error {fault : Token.Unterminated} (failed : Token.sentences text = .error fault) :
    parseText console stores text showAll asJson db =
      (⟨["✗ Tokenize error: " ++ fault.message], .exit 1⟩, stores) := by
  rw [parseText, failed, ← console.failed_unterminated]

theorem parse_text_alone (read : Token.sentences text = .ok sentences)
    (member : tokens ∈ sentences) :
    parseText console stores (Token.sentence tokens) showAll asJson db =
      (parsed console stores showAll asJson db tokens, (stores.openStore db).2) := by
  have again := Token.sentences_of_sentence read member
  have same := Token.map_text_of_words (i := 0) (tokens.map Token.text)
  have first : parsed console stores showAll asJson db (Token.ofWords 0 (tokens.map Token.text)) =
      parsed console stores showAll asJson db tokens := parse_sentence_congr same _ _
  rw [parse_text_ok again, List.map_singleton, first]
  exact congrArg (·, _) (Report.joined_singleton (ending_parse_sentence _ _ _ _ _))

theorem parse_text_opened (read : Token.sentences text = .ok sentences) :
    parseText console (stores.openStore db).2 text showAll asJson db =
      parseText console stores text showAll asJson db := by
  have again : parsed console (stores.openStore db).2 showAll asJson db =
      parsed console stores showAll asJson db := by
    funext tokens
    rw [parsed, parsed, Stores.open_open]
  rw [parse_text_ok read, parse_text_ok read, again, Stores.open_open]

theorem parsed_whole (taken : (parsed console stores showAll asJson db tokens).ending ≠ .refused) :
    (parsed console stores showAll asJson db tokens).IsWhole :=
  (ending_parse_sentence _ _ _ _ _).resolve_right taken

end Command

end ControlledEnglish
