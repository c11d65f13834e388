import ControlledEnglish.Proofs.Tokens.Exact

namespace ControlledEnglish

/-- A word that can stand in a text: a bare one, or one in quotes. -/
def IsWritten (word : String) : Prop := IsBare word ∨ IsEnclosed word

def printed (sentences : List (List String)) : String := ". ".intercalate (sentences.map spaced)

namespace Token

variable {words : List String} {i : Nat} {rest : List Char} {ps : List Piece}

def ofWords (i : Nat) : List String → List Token
  | [] => []
  | word :: words => ⟨word, i⟩ :: ofWords (i + word.length + 1) words

def ofSentences (i : Nat) : List (List String) → List (List Token)
  | [] => []
  | words :: sentences => ofWords i words :: ofSentences (i + (spaced words).length + 2) sentences

theorem map_text_of_words (words : List String) : (ofWords i words).map Token.text = words := by
  induction words generalizing i with
  | nil => rfl
  | cons word words ih => rw [ofWords, List.map_cons, ih]

theorem map_text_of_sentences (sentences : List (List String)) :
    (ofSentences i sentences).map (·.map Token.text) = sentences := by
  induction sentences generalizing i with
  | nil => rfl
  | cons words sentences ih => rw [ofSentences, List.map_cons, map_text_of_words, ih]

theorem spaced_singleton (word : String) : spaced [word] = word := by
  rw [spaced, String.intercalate_singleton]

theorem spaced_cons_cons (word next : String) (words : List String) :
    spaced (word :: next :: words) = word ++ " " ++ spaced (next :: words) := by
  rw [spaced, spaced, String.intercalate_cons_cons]

theorem whole_of_written {word : String} (written : IsWritten word)
    (ends : ∀ c ∈ rest.head?, endsBare c = true) : IsWhole word rest := by
  rcases written with bare | enclosed
  · exact .inr ⟨bare, ends⟩
  · exact .inl enclosed

theorem Layout.spaced (some : words ≠ []) (written : ∀ word ∈ words, IsWritten word)
    (ends : ∀ c ∈ rest.head?, endsBare c = true)
    (behind : Layout (i + (ControlledEnglish.spaced words).length) rest ps) :
    Layout i ((ControlledEnglish.spaced words).toList ++ rest)
      ((ofWords i words).map .word ++ ps) := by
  induction words generalizing i with
  | nil => exact absurd rfl some
  | cons word words ih =>
      have first := written word List.mem_cons_self
      cases words with
      | nil =>
          rw [spaced_singleton] at behind ⊢
          exact .word (whole_of_written first ends) behind
      | cons next words =>
          have later := fun other member => written other (List.mem_cons_of_mem word member)
          have blank : (" " : String).toList = [' '] := rfl
          rw [spaced_cons_cons, String.length_append, String.length_append, ← Nat.add_assoc,
            ← Nat.add_assoc] at behind
          rw [spaced_cons_cons, String.toList_append, String.toList_append, List.append_assoc,
            List.append_assoc, blank, List.singleton_append]
          refine .word (whole_of_written first fun c head => ?_) (.blank (by decide) ?_)
          · cases head
            decide
          · exact ih (List.cons_ne_nil _ _) later behind

theorem gather_words (sentence tokens : List Token) (ps : List Piece) :
    gather sentence (tokens.map .word ++ ps) = gather (sentence ++ tokens) ps := by
  induction tokens generalizing sentence with
  | nil => rw [List.map_nil, List.nil_append, List.append_nil]
  | cons token tokens ih =>
      rw [List.map_cons, List.cons_append, gather, ih, List.append_assoc, List.singleton_append]

theorem of_words_ne_nil (some : words ≠ []) : ofWords i words ≠ [] := by
  cases words with
  | nil => exact absurd rfl some
  | cons word words => exact List.cons_ne_nil _ _

theorem exists_layout_printed {sentences : List (List String)}
    (written : ∀ words ∈ sentences, words ≠ [] ∧ ∀ word ∈ words, IsWritten word) :
    ∃ ps, Layout i (printed sentences).toList ps ∧ gather [] ps = ofSentences i sentences := by
  induction sentences generalizing i with
  | nil => exact ⟨[], .ending, rfl⟩
  | cons words sentences ih =>
      obtain ⟨⟨some, first⟩, later⟩ := List.forall_mem_cons.mp written
      have kept := @of_words_ne_nil words i some
      cases sentences with
      | nil =>
          refine ⟨(ofWords i words).map .word ++ [], ?_, ?_⟩
          · rw [printed, List.map_singleton, String.intercalate_singleton,
              ← List.append_nil (spaced words).toList]
            exact .spaced some first nofun .ending
          · rw [gather_words, List.nil_append, gather, if_neg kept]
            rfl
      | cons next sentences =>
          obtain ⟨ps, behind, gathered⟩ := @ih (i + (spaced words).length + 2) later
          have stop : (". " : String).toList = ['.', ' '] := rfl
          refine ⟨(ofWords i words).map .word ++ .period :: ps, ?_, ?_⟩
          · rw [printed, List.map_cons, List.map_cons, String.intercalate_cons_cons,
              ← List.map_cons, ← printed, String.toList_append, String.toList_append,
              List.append_assoc, stop]
            refine .spaced some first (fun c head => ?_) (.period (.blank (by decide) behind))
            cases head
            decide
          · rw [gather_words, List.nil_append, gather, if_neg kept, gathered]
            rfl

theorem sentences_spaced (some : words ≠ []) (written : ∀ word ∈ words, IsWritten word) :
    sentences (spaced words) = .ok [ofWords 0 words] := by
  have layout : Layout 0 ((spaced words).toList ++ []) _ := .spaced some written nofun .ending
  rw [List.append_nil] at layout
  rw [sentences_eq_ok_iff.mpr ⟨_, layout, rfl⟩, gather_words, List.nil_append, gather,
    if_neg (of_words_ne_nil some)]

theorem of_text_spaced (written : ∀ word ∈ words, IsWritten word) :
    ofText (spaced words) = .ok (ofWords 0 words) := by
  cases words with
  | nil =>
      rw [ofText, sentences_eq_ok_iff.mpr ⟨[], .ending, rfl⟩]
      rfl
  | cons word words =>
      rw [ofText, sentences_spaced (List.cons_ne_nil _ _) written]
      exact congrArg Except.ok List.flatten_singleton

end Token

/-- Printed sentences are read back, each token from where the text has its word. -/
theorem sentences_of_printed {sentences : List (List String)}
    (written : ∀ words ∈ sentences, words ≠ [] ∧ ∀ word ∈ words, IsWritten word) :
    Token.sentences (printed sentences) = .ok (Token.ofSentences 0 sentences) ∧
      (Token.ofSentences 0 sentences).map (·.map Token.text) = sentences ∧
      ∀ token ∈ (Token.ofSentences 0 sentences).flatten,
        ((printed sentences).toList.drop token.position).take token.text.length =
          token.text.toList := by
  obtain ⟨ps, layout, gathered⟩ := Token.exists_layout_printed written
  refine ⟨?_, Token.map_text_of_sentences sentences, ?_⟩
  · exact Token.sentences_eq_ok_iff.mpr ⟨ps, layout, gathered⟩
  · rw [← gathered, Token.flatten_gather]
    exact (layout.covers rfl).found

theorem sentences_of_printed_quoted_period :
    let sentences := [["\"n:canada goose. x\"", "flies"], ["it", "eats", "\"\""]]
    (∀ words ∈ sentences, words ≠ [] ∧ ∀ word ∈ words, IsWritten word) ∧
      printed sentences = "\"n:canada goose. x\" flies. it eats \"\"" ∧
      Token.sentences (printed sentences) = .ok
        [[⟨"\"n:canada goose. x\"", 0⟩, ⟨"flies", 20⟩],
          [⟨"it", 27⟩, ⟨"eats", 30⟩, ⟨"\"\"", 35⟩]] := by
  intro sentences
  have bare (word : String) (listed : word ∈ ["flies", "it", "eats"]) : IsWritten word := by
    have all : ∀ word ∈ ["flies", "it", "eats"], IsBare word := by decide
    exact .inl (all word listed)
  have goose : IsWritten "\"n:canada goose. x\"" :=
    .inr ⟨"n:canada goose. x".toList, by decide, by decide⟩
  have empty : IsWritten "\"\"" := .inr ⟨[], by decide, by decide⟩
  have written : ∀ words ∈ sentences, words ≠ [] ∧ ∀ word ∈ words, IsWritten word := by
    simp [sentences, bare, goose, empty]
  exact ⟨written, by cbv, (sentences_of_printed written).1⟩

def plain (words : List String) : List Word := words.map .plain

@[simp] theorem plain_nil : plain [] = [] := rfl

@[simp] theorem plain_cons (w : String) (ws : List String) :
    plain (w :: ws) = .plain w :: plain ws := rfl

@[simp] theorem plain_append (vs ws : List String) : plain (vs ++ ws) = plain vs ++ plain ws :=
  List.map_append

theorem plain_inj {vs ws : List String} (same : plain vs = plain ws) : vs = ws :=
  (List.map_inj_right fun _ _ => Word.plain.inj).mp same

theorem words_of_tokens (tokens : List Token) :
    (Source.ofTokens tokens).words = .ok (plain (tokens.map Token.text)) := by
  rw [Source.ofTokens, Source.words, List.mapM_map, plain, List.map_map]
  exact List.mapM_pure

theorem words_spaced {words : List String} (bare : ∀ word ∈ words, IsBare word) :
    Source.words (.text (spaced words)) = .ok (plain words) := by
  rw [Source.words, Token.of_text_spaced fun word member => .inl (bare word member)]
  have texts : (Token.ofWords 0 words).map (fun token => Word.plain token.text) = plain words := by
    calc
      (Token.ofWords 0 words).map (fun token => Word.plain token.text)
          = ((Token.ofWords 0 words).map Token.text).map .plain := by rw [List.map_map]; rfl
      _ = plain words := by rw [Token.map_text_of_words, plain]
  exact congrArg Except.ok texts

end ControlledEnglish
