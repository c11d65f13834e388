import ControlledEnglish.Attribute
import ControlledEnglish.Json.Basic

namespace ControlledEnglish

def writtenAttr (kind value : String) (children : List String) : String :=
  "attr(" ++ kind ++ ", " ++ value ++ ", [" ++ ", ".intercalate children ++ "])"

def writtenRule (head : String) (body : List String) : String :=
  "rule(" ++ head ++ ", [" ++ ", ".intercalate body ++ "])"

def jsonAttr (kind value : Json) (children : List Json) : Json :=
  .object [("kind", kind), ("value", value), ("children", .array children)]

def jsonRule (head : Json) (body : List Json) : Json :=
  .object [("head", head), ("body", .array body)]

namespace Attr

mutual

def written : Attr → String
  | ⟨kind, value, children⟩ => writtenAttr kind.tag value (writtenAll children)

def writtenAll : List Attr → List String
  | [] => []
  | attr :: attrs => attr.written :: writtenAll attrs

end

mutual

def toJson : Attr → Json
  | ⟨kind, value, children⟩ => jsonAttr (.string kind.tag) (.string value) (toJsonAll children)

def toJsonAll : List Attr → List Json
  | [] => []
  | attr :: attrs => attr.toJson :: toJsonAll attrs

end

end Attr

namespace Rule

def written (rule : Rule) : String := writtenRule rule.head.written (Attr.writtenAll rule.body)

def toJson (rule : Rule) : Json := jsonRule rule.head.toJson (Attr.toJsonAll rule.body)

end Rule

end ControlledEnglish
