
namespace ControlledEnglish

/-- A number is an integer unless it is written with a fraction or an exponent. -/
inductive Json where
  | null
  | bool (value : Bool)
  | integer (value : Int)
  | decimal (mantissa exponent : Int)
  | string (value : String)
  | array (items : List Json)
  | object (members : List (String × Json))
  deriving Repr

namespace Json

/-- Of members with one name the last counts. -/
def lookup? (name : String) (members : List (String × Json)) : Option Json :=
  (members.reverse.find? fun member => member.1 == name).map (·.2)

def get? (json : Json) (name : String) : Option Json :=
  match json with
  | object members => lookup? name members
  | _ => none

def strings (texts : List String) : Json := array (texts.map string)

end Json

end ControlledEnglish
