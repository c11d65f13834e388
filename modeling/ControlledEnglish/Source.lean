import ControlledEnglish.Token
import ControlledEnglish.Word

namespace ControlledEnglish

/-- Things that a list may hold by mistake where a word belongs. -/
inductive Stray where
  | integer
  | decimal
  | boolean
  | nothing
  | list
  deriving DecidableEq, Repr

def Stray.name : Stray → String
  | integer => "int"
  | decimal => "float"
  | boolean => "bool"
  | nothing => "NoneType"
  | list => "list"

inductive Item where
  | word (given : Word)
  | token (given : Token)
  | stray (thing : Stray)
  deriving DecidableEq, Repr

inductive Source where
  | text (raw : String)
  | items (given : List Item)
  deriving DecidableEq, Repr

inductive SourceError where
  | unterminated (fault : Token.Unterminated)
  | stray (thing : Stray)
  deriving DecidableEq, Repr

def SourceError.message : SourceError → String
  | unterminated fault => fault.message
  | stray thing => "Expected a token, got " ++ thing.name

def Item.word? : Item → Except SourceError Word
  | .word given => .ok given
  | .token given => .ok (.plain given.text)
  | .stray thing => .error (.stray thing)

def Source.words : Source → Except SourceError (List Word)
  | .text raw =>
      match Token.ofText raw with
      | .ok tokens => .ok (tokens.map fun token => .plain token.text)
      | .error fault => .error (.unterminated fault)
  | .items given => given.mapM Item.word?

def Source.ofTokens (tokens : List Token) : Source := .items (tokens.map .token)

end ControlledEnglish
