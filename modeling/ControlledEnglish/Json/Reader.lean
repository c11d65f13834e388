import ControlledEnglish.Json.Basic
import ControlledEnglish.Text.Integer

namespace ControlledEnglish.Json

inductive Fault where
  | byteOrderMark
  | value
  | name
  | colon
  | comma
  | extra
  | unterminated
  | control
  | escape
  | unicodeEscape
  | tooLong (digits : Nat)
  deriving DecidableEq, Repr

def Fault.message : Fault → String
  | byteOrderMark => "Unexpected UTF-8 BOM (decode using utf-8-sig)"
  | value => "Expecting value"
  | name => "Expecting property name enclosed in double quotes"
  | colon => "Expecting ':' delimiter"
  | comma => "Expecting ',' delimiter"
  | extra => "Extra data"
  | unterminated => "Unterminated string starting at"
  | control => "Invalid control character at"
  | escape => "Invalid \\escape"
  | unicodeEscape => "Invalid \\uXXXX escape"
  | tooLong digits => "Exceeds the limit (" ++ toString Text.maxDigits ++
      " digits) for integer string conversion: value has " ++ toString digits ++
      " digits; use sys.set_int_max_str_digits() to increase the limit"

structure Refusal where
  fault : Fault
  left : Nat
  deriving DecidableEq, Repr

/-- Where a fault is does not matter if it is only the length of a number. -/
def Refusal.message (refusal : Refusal) (text : String) : String :=
  let before := text.toList.take (text.length - refusal.left)
  let column := (before.reverse.takeWhile (· != '\n')).length + 1
  match refusal.fault with
  | .tooLong digits => (Fault.tooLong digits).message
  | fault => fault.message ++ ": line " ++ toString (before.count '\n' + 1) ++ " column " ++
      toString column ++ " (char " ++ toString before.length ++ ")"

def isSpace (c : Char) : Bool := c == ' ' || c == '\t' || c == '\n' || c == '\r'

def skipSpace (text : List Char) : List Char := text.dropWhile isSpace

def hexValue? (c : Char) : Option Nat :=
  if c.isDigit then some (c.toNat - '0'.toNat)
  else if 'a' ≤ c ∧ c ≤ 'f' then some (c.toNat - 'a'.toNat + 10)
  else if 'A' ≤ c ∧ c ≤ 'F' then some (c.toNat - 'A'.toNat + 10)
  else none

def fourHex? (a b c d : Char) : Option Nat := do
  return ((← hexValue? a) * 16 + (← hexValue? b)) * 256 + ((← hexValue? c) * 16 + (← hexValue? d))

def simpleEscape? : Char → Option Char
  | '"' => some '"'
  | '\\' => some '\\'
  | '/' => some '/'
  | 'b' => some '\x08'
  | 'f' => some '\x0c'
  | 'n' => some '\n'
  | 'r' => some '\r'
  | 't' => some '\t'
  | _ => none

def isHigh (unit : Nat) : Bool := 0xd800 ≤ unit && unit < 0xdc00

def isLow (unit : Nat) : Bool := 0xdc00 ≤ unit && unit < 0xe000

/-- A half of a pair without the other half stands for no character. -/
def unitChar (unit : Nat) : Char := if isHigh unit || isLow unit then '\ufffd' else Char.ofNat unit

def stringRest (opened : Nat) : List Char → Except Refusal (List Char × List Char)
  | [] => .error ⟨.unterminated, opened⟩
  | '"' :: rest => .ok ([], rest)
  | '\\' :: 'u' :: a :: b :: c :: d :: '\\' :: 'u' :: e :: f :: g :: h :: rest => do
      let refused : Refusal := ⟨.unicodeEscape, rest.length + 11⟩
      let some high := fourHex? a b c d | throw refused
      if isHigh high then
        let some low := fourHex? e f g h | throw ⟨.unicodeEscape, rest.length + 5⟩
        if isLow low then
          let (text, rest) ← stringRest opened rest
          return (Char.ofNat (0x10000 + (high - 0xd800) * 0x400 + (low - 0xdc00)) :: text, rest)
        else
          let (text, rest) ← stringRest opened ('\\' :: 'u' :: e :: f :: g :: h :: rest)
          return (unitChar high :: text, rest)
      else
        let (text, rest) ← stringRest opened ('\\' :: 'u' :: e :: f :: g :: h :: rest)
        return (unitChar high :: text, rest)
  | '\\' :: 'u' :: a :: b :: c :: d :: rest => do
      let some unit := fourHex? a b c d | throw ⟨.unicodeEscape, rest.length + 5⟩
      let (text, rest) ← stringRest opened rest
      return (unitChar unit :: text, rest)
  | '\\' :: 'u' :: rest => .error ⟨.unicodeEscape, rest.length + 1⟩
  | ['\\'] => .error ⟨.unterminated, opened⟩
  | '\\' :: c :: rest => do
      let some escaped := simpleEscape? c | throw ⟨.escape, rest.length + 2⟩
      let (text, rest) ← stringRest opened rest
      return (escaped :: text, rest)
  | c :: rest => do
      if c.toNat < 0x20 then throw ⟨.control, rest.length + 1⟩
      let (text, rest) ← stringRest opened rest
      return (c :: text, rest)

def digits (text : List Char) : List Char × List Char := text.span Char.isDigit

def digitsValue (text : List Char) : Nat :=
  text.foldl (fun value c => 10 * value + (c.toNat - '0'.toNat)) 0

def signed (negative : Bool) (value : Nat) : Int := if negative then -value else value

def fraction : List Char → List Char × List Char
  | '.' :: rest => match digits rest with
    | ([], _) => ([], '.' :: rest)
    | found => found
  | text => ([], text)

def exponent? : List Char → Option Int × List Char
  | [] => (none, [])
  | e :: rest =>
      if e = 'e' ∨ e = 'E' then
        let (negative, unsigned) := match rest with
          | '-' :: rest => (true, rest)
          | '+' :: rest => (false, rest)
          | _ => (false, rest)
        match digits unsigned with
        | ([], _) => (none, e :: rest)
        | (found, after) => (some (signed negative (digitsValue found)), after)
      else (none, e :: rest)

/-- A number, unless it is an integer with too many digits. -/
def number? (text : List Char) : Option (Except Nat Json × List Char) :=
  let (negative, unsigned) := match text with
    | '-' :: rest => (true, rest)
    | _ => (false, text)
  let whole := match unsigned with
    | '0' :: rest => (['0'], rest)
    | _ => digits unsigned
  match whole with
  | ([], _) => none
  | (whole, rest) =>
      let (decimals, rest) := fraction rest
      match exponent? rest with
      | (none, rest) =>
          if decimals = [] then
            if Text.maxDigits < whole.length then some (.error whole.length, rest)
            else some (.ok (integer (signed negative (digitsValue whole))), rest)
          else some (.ok (decimal (signed negative (digitsValue (whole ++ decimals)))
            (-decimals.length)), rest)
      | (some exponent, rest) =>
          some (.ok (decimal (signed negative (digitsValue (whole ++ decimals)))
            (exponent - decimals.length)), rest)

mutual

/-- A value and what follows it. Every call but the last of a list or an object uses up a character,
so the fuel lasts if it is more than twice the characters. -/
def value (fuel : Nat) (text : List Char) : Except Refusal (Json × List Char) :=
  match fuel with
  | 0 => .error ⟨.value, text.length⟩
  | fuel + 1 =>
      match text with
      | '"' :: rest => do
          let (text, rest) ← stringRest (rest.length + 1) rest
          return (string (String.ofList text), rest)
      | '\x7b' :: rest =>
          match skipSpace rest with
          | '\x7d' :: rest => .ok (object [], rest)
          | rest => do
              let (members, rest) ← members fuel rest
              return (object members, rest)
      | '[' :: rest =>
          match skipSpace rest with
          | ']' :: rest => .ok (array [], rest)
          | rest => do
              let (items, rest) ← items fuel rest
              return (array items, rest)
      | 'n' :: 'u' :: 'l' :: 'l' :: rest => .ok (null, rest)
      | 't' :: 'r' :: 'u' :: 'e' :: rest => .ok (bool true, rest)
      | 'f' :: 'a' :: 'l' :: 's' :: 'e' :: rest => .ok (bool false, rest)
      | text =>
          match number? text with
          | some (.ok number, rest) => .ok (number, rest)
          | some (.error digits, _) => .error ⟨.tooLong digits, text.length⟩
          | none => .error ⟨.value, text.length⟩

def items (fuel : Nat) (text : List Char) : Except Refusal (List Json × List Char) :=
  match fuel with
  | 0 => .error ⟨.value, text.length⟩
  | fuel + 1 => do
      let (first, rest) ← value fuel text
      match skipSpace rest with
      | ']' :: rest => return ([first], rest)
      | ',' :: rest =>
          let (others, rest) ← items fuel (skipSpace rest)
          return (first :: others, rest)
      | rest => throw ⟨.comma, rest.length⟩

def members (fuel : Nat) (text : List Char) :
    Except Refusal (List (String × Json) × List Char) :=
  match fuel with
  | 0 => .error ⟨.value, text.length⟩
  | fuel + 1 =>
      match text with
      | '"' :: rest => do
          let (name, rest) ← stringRest (rest.length + 1) rest
          match skipSpace rest with
          | ':' :: rest =>
              let (first, rest) ← value fuel (skipSpace rest)
              match skipSpace rest with
              | '\x7d' :: rest => return ([(String.ofList name, first)], rest)
              | ',' :: rest =>
                  let (others, rest) ← members fuel (skipSpace rest)
                  return ((String.ofList name, first) :: others, rest)
              | rest => throw ⟨.comma, rest.length⟩
          | rest => throw ⟨.colon, rest.length⟩
      | text => .error ⟨.name, text.length⟩

end

def ofText (text : String) : Except Refusal Json :=
  match text.toList with
  | '\ufeff' :: rest => .error ⟨.byteOrderMark, rest.length + 1⟩
  | chars => do
      let (json, rest) ← value (2 * chars.length + 2) (skipSpace chars)
      match skipSpace rest with
      | [] => return json
      | rest => throw ⟨.extra, rest.length⟩

end ControlledEnglish.Json
