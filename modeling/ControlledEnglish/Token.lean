import ControlledEnglish.Text.Blank

/-! Tokens: the words of a text, each with its offset, gathered into sentences.

Blanks separate words and a period ends a sentence. A word that starts with a double quote runs to
the next one, blanks and periods included, and keeps its quotes. Sentences without words are
dropped. -/

namespace ControlledEnglish

structure Token where
  text : String
  position : Nat
  deriving DecidableEq, Repr

namespace Token

/-- What a text breaks into: words, and the periods between sentences. -/
inductive Piece where
  | word (token : Token)
  | period
  deriving DecidableEq, Repr

structure Unterminated where
  position : Nat
  deriving DecidableEq, Repr

def Unterminated.message (fault : Unterminated) : String :=
  "Column " ++ toString fault.position ++ ": unterminated quoted word"

def endsBare (c : Char) : Bool := Text.isBlank c || c == '.'

theorem length_drop_while_le (p : Char → Bool) (text : List Char) :
    (text.dropWhile p).length ≤ text.length :=
  (List.dropWhile_sublist p).length_le

def pieces (position : Nat) : List Char → Except Unterminated (List Piece)
  | [] => .ok []
  | c :: rest =>
      if c = '.' then do return .period :: (← pieces (position + 1) rest)
      else if Text.isBlank c then pieces (position + 1) rest
      else if c = '"' then
        let inner := rest.takeWhile (· != '"')
        match h : rest.dropWhile (· != '"') with
        | [] => .error ⟨position⟩
        | _ :: after => do
            let token := ⟨String.ofList ('"' :: (inner ++ ['"'])), position⟩
            return .word token :: (← pieces (position + inner.length + 2) after)
      else
        let more := rest.takeWhile (!endsBare ·)
        do
          let token := ⟨String.ofList (c :: more), position⟩
          let after := rest.dropWhile (!endsBare ·)
          return .word token :: (← pieces (position + more.length + 1) after)
termination_by text => text.length
decreasing_by
  all_goals simp only [List.length_cons]
  · omega
  · omega
  · have shorter := length_drop_while_le (· != '"') rest
    rw [h, List.length_cons] at shorter
    omega
  · have shorter := length_drop_while_le (!endsBare ·) rest
    omega

/-- The runs of words between periods, without the empty ones. -/
def gather (sentence : List Token) : List Piece → List (List Token)
  | [] => if sentence = [] then [] else [sentence]
  | .word token :: rest => gather (sentence ++ [token]) rest
  | .period :: rest =>
      if sentence = [] then gather [] rest else sentence :: gather [] rest

def sentences (text : String) : Except Unterminated (List (List Token)) := do
  return gather [] (← pieces 0 text.toList)

def ofText (text : String) : Except Unterminated (List Token) := do
  return (← sentences text).flatten

end Token

end ControlledEnglish
