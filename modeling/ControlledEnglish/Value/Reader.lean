import ControlledEnglish.Attribute.Written
import ControlledEnglish.Value.Shown

namespace ControlledEnglish.Value

inductive ReadFault where
  | missing (name : String)
  | unknownKind (given : Json)
  | notObject
  | notCollection
  deriving Repr

def ReadFault.message? : ReadFault → Option String
  | missing name => some name
  | unknownKind given => some (given.shown ++ " is not a valid Kind")
  | notObject | notCollection => none

def readKind (given : Json) : Except ReadFault Kind :=
  match given with
  | .string tag =>
      match Kind.ofTag? tag with
      | some k => .ok k
      | none => .error (.unknownKind given)
  | _ => .error (.unknownKind given)

def required (name : String) (members : List (String × Json)) : Except ReadFault Json :=
  match Json.lookup? name members with
  | some found => .ok found
  | none => .error (.missing name)

mutual

def readAttr : Json → Except ReadFault Value
  | .object members => do
      let children ← readMember "children" (.ok []) members
      let k ← readKind (← required "kind" members)
      let v ← required "value" members
      return attr (kind k) (json v) (tuple children)
  | _ => .error .notObject

/-- The attributes in the last member of the name, or those found before. -/
def readMember (name : String) (found : Except ReadFault (List Value)) :
    List (String × Json) → Except ReadFault (List Value)
  | [] => found
  | (other, value) :: rest => readMember name (if other = name then readAttrs value else found) rest

/-- The names in an object and the characters in a text are no attributes, but there may be none. -/
def readAttrs : Json → Except ReadFault (List Value)
  | .array items => readItems items
  | .object [] => .ok []
  | .object _ => .error .notObject
  | .string text => if text = "" then .ok [] else .error .notObject
  | _ => .error .notCollection

def readItems : List Json → Except ReadFault (List Value)
  | [] => .ok []
  | item :: rest => do
      let first ← readAttr item
      return first :: (← readItems rest)

end

def readRule : Json → Except ReadFault Value
  | .object members => do
      let head ← readAttr (← required "head" members)
      let body ← readMember "body" (.ok []) members
      return rule head (tuple body)
  | _ => .error .notCollection

def mentions (part : List Char) : List Char → Bool
  | [] => part.isEmpty
  | c :: rest => part.isPrefixOf (c :: rest) || mentions part rest

def isHeadName : Json → Bool
  | .string name => name == "head"
  | _ => false

/-- A rule if there is a head, and else an attribute. A text or a list may mention the name of the
head, but it has no members to read. -/
def readItem (given : Json) : Except ReadFault Value :=
  match given with
  | .object members => if members.any (·.1 == "head") then readRule given else readAttr given
  | .string text => if mentions "head".toList text.toList then readRule given else readAttr given
  | .array items => if items.any isHeadName then readRule given else readAttr given
  | _ => .error .notCollection

def readDocument (given : Json) : Except ReadFault Value :=
  match given with
  | .array items => do return list (← items.mapM readItem)
  | _ => readItem given

def isFact : Value → Bool
  | rule _ (tuple body) => body.isEmpty
  | _ => false

mutual

def toJson : Value → Json
  | json data => data
  | kind k => .string k.tag
  | list items => .array (toJsonAll items)
  | tuple items => .array (toJsonAll items)
  | attr k v children =>
      .object [("kind", k.toJson), ("value", v.toJson), ("children", children.toJson)]
  | rule head body => .object [("head", head.toJson), ("body", body.toJson)]

def toJsonAll : List Value → List Json
  | [] => []
  | value :: rest => value.toJson :: toJsonAll rest

end

mutual

def written : Value → String
  | attr (kind k) v children => writtenAttr k.tag v.text (writtenItems children)
  | rule head body => writtenRule head.written (writtenItems body)
  | value => value.text

def writtenItems : Value → List String
  | tuple items => writtenAll items
  | list items => writtenAll items
  | _ => []

def writtenAll : List Value → List String
  | [] => []
  | value :: rest => value.written :: writtenAll rest

end

end ControlledEnglish.Value
