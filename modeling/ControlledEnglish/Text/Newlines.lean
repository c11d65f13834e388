namespace ControlledEnglish.Text

/-- Line ends of any system as one newline each. -/
def newlines : List Char → List Char
  | [] => []
  | '\r' :: '\n' :: rest => '\n' :: newlines rest
  | '\r' :: rest => '\n' :: newlines rest
  | c :: rest => c :: newlines rest

def withNewlines (text : String) : String := String.ofList (newlines text.toList)

end ControlledEnglish.Text
