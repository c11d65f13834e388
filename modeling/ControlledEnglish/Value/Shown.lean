import ControlledEnglish.Text.Integer
import ControlledEnglish.Text.Quoted
import ControlledEnglish.Value.Basic

namespace ControlledEnglish

def shownList (items : List String) : String := "[" ++ ", ".intercalate items ++ "]"

def shownTuple : List String → String
  | [item] => "(" ++ item ++ ",)"
  | items => "(" ++ ", ".intercalate items ++ ")"

def Kind.shown (kind : Kind) : String :=
  "<Kind." ++ kind.tag.toUpper ++ ": " ++ Text.quoted kind.tag ++ ">"

namespace Json

mutual

def shown : Json → String
  | null => "None"
  | bool true => "True"
  | bool false => "False"
  | integer value => toString value
  | decimal mantissa exponent => toString mantissa ++ "e" ++ toString exponent
  | string value => Text.quoted value
  | array items => shownList (shownItems items)
  | object members => "\x7b" ++ ", ".intercalate (shownMembers members) ++ "\x7d"

def shownItems : List Json → List String
  | [] => []
  | item :: rest => item.shown :: shownItems rest

def shownMembers : List (String × Json) → List String
  | [] => []
  | (name, value) :: rest => (Text.quoted name ++ ": " ++ value.shown) :: shownMembers rest

end

mutual

def isShowable : Json → Bool
  | integer value => Text.hasFewDigits value
  | array items => allShowable items
  | object members => membersShowable members
  | _ => true

def allShowable : List Json → Bool
  | [] => true
  | item :: rest => item.isShowable && allShowable rest

def membersShowable : List (String × Json) → Bool
  | [] => true
  | (_, value) :: rest => value.isShowable && membersShowable rest

end

/-- A string stands for itself where it is not part of another value. -/
def text : Json → String
  | string value => value
  | json => json.shown

end Json

namespace Value

mutual

def shown : Value → String
  | json data => data.shown
  | kind k => k.shown
  | list items => shownList (shownAll items)
  | tuple items => shownTuple (shownAll items)
  | attr k v children =>
      "Attr(kind=" ++ k.shown ++ ", value=" ++ v.shown ++ ", children=" ++ children.shown ++ ")"
  | rule head body => "Rule(head=" ++ head.shown ++ ", body=" ++ body.shown ++ ")"

def shownAll : List Value → List String
  | [] => []
  | value :: rest => value.shown :: shownAll rest

end

mutual

def isShowable : Value → Bool
  | json data => data.isShowable
  | kind _ => true
  | list items => allShowable items
  | tuple items => allShowable items
  | attr k v children => k.isShowable && v.isShowable && children.isShowable
  | rule head body => head.isShowable && body.isShowable

def allShowable : List Value → Bool
  | [] => true
  | value :: rest => value.isShowable && allShowable rest

end

def text : Value → String
  | json data => data.text
  | value => value.shown

end Value

end ControlledEnglish
