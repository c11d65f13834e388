import ControlledEnglish.Attribute
import ControlledEnglish.Json.Basic
import ControlledEnglish.Text.Integer
import ControlledEnglish.Word

namespace ControlledEnglish.Service

def text? : Json → Option String
  | .string text => some text
  | _ => none

def truth? : Json → Option Bool
  | .bool value => some value
  | .integer 0 => some false
  | .integer 1 => some true
  | .decimal mantissa exponent =>
      if mantissa = 0 then some false
      else if exponent ≤ 0 ∧ mantissa = Int.pow 10 exponent.natAbs then some true
      else none
  | .string text =>
      let word := text.map Char.toLower
      if ["0", "f", "n", "no", "off", "false"].contains word then some false
      else if ["1", "t", "y", "on", "yes", "true"].contains word then some true
      else none
  | _ => none

def kind? (json : Json) : Option Kind := (text? json).bind Kind.ofTag?

mutual

def attr? : Json → Option Attr
  | .object members => do
      let kind ← (Json.lookup? "kind" members).bind kind?
      let value ← (Json.lookup? "value" members).bind text?
      return ⟨kind, value, ← member? "children" (some []) members⟩
  | _ => none

def member? (name : String) (found : Option (List Attr)) :
    List (String × Json) → Option (List Attr)
  | [] => found
  | (other, value) :: rest => member? name (if other = name then attrs? value else found) rest

def attrs? : Json → Option (List Attr)
  | .array items => items? items
  | _ => none

def items? : List Json → Option (List Attr)
  | [] => some []
  | item :: rest => do return (← attr? item) :: (← items? rest)

end

def rule? : Json → Option Rule
  | .object members => do
      let head ← (Json.lookup? "head" members).bind attr?
      return ⟨head, ← member? "body" (some []) members⟩
  | _ => none

def rules? : Json → Option (List Rule)
  | .array items => items.mapM rule?
  | _ => none

structure ParseRequest where
  text : String
  showAll : Bool
  deriving DecidableEq, Repr

def ParseRequest.ofBody? (body : Json) : Option ParseRequest := do
  let text ← (body.get? "text").bind text?
  let showAll ← (body.get? "all").elim (some false) truth?
  return ⟨text, showAll⟩

structure DeclareRequest where
  text : String
  deriving DecidableEq, Repr

def DeclareRequest.ofBody? (body : Json) : Option DeclareRequest := do
  return ⟨← (body.get? "text").bind text?⟩

structure GlossRequest where
  rules : Option (List Rule)
  attrs : Option (List Attr)
  deriving DecidableEq, Repr

def optional? {α : Type} (read : Json → Option α) : Option Json → Option (Option α)
  | none | some .null => some none
  | some json => (read json).map some

def GlossRequest.ofBody? (body : Json) : Option GlossRequest :=
  match body with
  | .object members => do
      let rules ← optional? rules? (Json.lookup? "rules" members)
      let attrs ← optional? attrs? (Json.lookup? "attrs" members)
      return ⟨rules, attrs⟩
  | _ => none

/-- Of parameters with one name the last counts. -/
def parameter? (name : String) (query : List (String × String)) : Option String :=
  query.reverse.lookup name

def withoutZeroDecimals (text : String) : String :=
  match (Text.trimmed text.toList).span (· != '.') with
  | (whole, '.' :: '0' :: zeros) => if zeros.all (· == '0') then String.ofList whole else text
  | _ => text

def db? (query : List (String × String)) : Option (Option Int) :=
  match parameter? "db" query with
  | none => some none
  | some text => (Text.integer? Text.asciiDigit? (withoutZeroDecimals text)).map some

def category? (query : List (String × String)) : Option (Option Category) :=
  match parameter? "category" query with
  | none => some none
  | some tag => (Category.ofTag? tag).map some

end ControlledEnglish.Service
