import ControlledEnglish.Attribute.Written
import ControlledEnglish.Reading
import ControlledEnglish.Service.Model
import ControlledEnglish.Stores
import ControlledEnglish.Value.Gloss

namespace ControlledEnglish.Service

structure Request where
  method : String
  path : String
  query : List (String × String) := []
  body : Option Json := none
  deriving Repr

/-- A refused or broken request has no body to show. -/
structure Response where
  status : Nat
  body : Option Json
  deriving Repr

namespace Response

def ok (body : Json) : Response := ⟨200, some body⟩

def failed (status : Nat) (detail : Json) : Response :=
  ⟨status, some (.object [("detail", detail)])⟩

def bad (message : String) : Response := failed 400 (.string message)

def refused : Response := ⟨422, none⟩

/-- What is left to answer after a mistake of the service itself. -/
def broken : Response := ⟨500, none⟩

end Response

inductive Handler where
  | root
  | parseSentence
  | glossRules
  | listWords
  | declare
  deriving DecidableEq, Repr

def Handler.name : Handler → String
  | root => "root"
  | parseSentence => "parse_sentence"
  | glossRules => "gloss_rules"
  | listWords => "list_words"
  | declare => "declare"

structure Route where
  method : String
  path : String
  handler : Handler
  deriving DecidableEq, Repr

def routes : List Route :=
  [⟨"GET", "/", .root⟩,
    ⟨"POST", "/api/gloss", .glossRules⟩,
    ⟨"POST", "/api/parse", .parseSentence⟩,
    ⟨"GET", "/api/vocab", .listWords⟩,
    ⟨"POST", "/api/vocab", .declare⟩]

def version : String := "0.1.0"

def backend : Store → String
  | .database number _ => "redis db=" ++ toString number
  | _ => "memory"

def described (store : Store) (lexicon : Lexicon) : Json :=
  .object [("backend", .string (backend store)),
    ("words", .object (Category.all.map fun category =>
      (category.keyword, .integer (lexicon.count category))))]

def startup (stores : Stores) : List String :=
  let counted (category : Category) : String :=
    toString (stores.shared.count category) ++ " " ++ category.keyword ++ "s"
  ["PESS API " ++ version, "Method | Path | Handler"] ++
    routes.map (fun route => " | ".intercalate [route.method, route.path, route.handler.name]) ++
    ["Lexicon: " ++ backend .shared ++ " (" ++ ", ".intercalate (Category.all.map counted) ++ ")"]

def root (store : Store) (stores : Stores) : Response :=
  .ok (.object [("name", .string "PESS API"), ("version", .string version),
    ("lexicon", described store (stores.contents store))])

def readingFailed (fault : ReadingError) : Response :=
  match fault with
  | .unknownWord _ word position | .malformedLiteral _ word position =>
      .failed 400 (.object [("message", .string fault.message), ("unknown_word", .string word),
        ("position", .integer position)])
  | _ => .bad fault.message

def parsed (readings : List (List Rule)) : Response :=
  .ok (.object [("parses", .array (readings.map fun rules => .array (rules.map Rule.toJson))),
    ("gloss", .strings (readings.map Value.glossRules))])

/-- All readings, or the first. That there are none is said of the text as it was given, or of the
words that were looked for. -/
def parse (request : ParseRequest) (lexicon : Lexicon) : Response :=
  if request.showAll then
    match readAll (.text request.text) lexicon with
    | .ok [] => .bad ("Could not parse: " ++ request.text)
    | .ok readings => parsed readings
    | .error fault => readingFailed fault
  else
    match read (.text request.text) lexicon with
    | .ok rules => parsed [rules]
    | .error fault => readingFailed fault

/-- Rules come before attributes. -/
def GlossRequest.value? (request : GlossRequest) : Option Value :=
  match request.rules, request.attrs with
  | some rules, _ => some (.ofRules rules)
  | none, some attrs => some (.list (Value.ofAttrs attrs))
  | none, none => none

def gloss (request : GlossRequest) : Response :=
  match request.value? with
  | none => .bad "Expected 'rules' or 'attrs'"
  | some value =>
      match value.gloss with
      | .ok (.words words) =>
          .ok (.object [("tokens", .strings words), ("text", .string (spaced words))])
      | .ok (.itself _) => .bad "Nothing to gloss"
      | .error _ => .broken

def listed (category : Option Category) (lexicon : Lexicon) : Response :=
  let categories := category.elim Category.all fun category => [category]
  .ok (.object (categories.map fun category =>
    (category.tag, .strings (lexicon.listing category))))

def declaredWord (declaration : Declaration) : Json :=
  .object [("word", .string declaration.word), ("category", .string declaration.category.tag)]

def declared (registered : Bool) (declarations : List Declaration) : Response :=
  .ok (.object [("registered", .bool registered),
    ("words", .array (declarations.map declaredWord))])

def declare (request : DeclareRequest) (store : Store) (stores : Stores) : Response × Stores :=
  match Declaration.ofSource (.text request.text) with
  | .ok declarations => (declared true declarations, stores.declare store declarations)
  | .error (.notDeclaration _) => (declared false [], stores)
  | .error (.source fault) => (.bad fault.message, stores)

def withStore (request : Request) (stores : Stores)
    (go : Store → Stores → Response × Stores) : Response × Stores :=
  match db? request.query with
  | none => (.refused, stores)
  | some db =>
      let (store, stores) := stores.openStore db
      go store stores

def orRefused {α : Type} (found : Option α) (stores : Stores) (go : α → Response × Stores) :
    Response × Stores :=
  match found with
  | some value => go value
  | none => (.refused, stores)

def perform (stores : Stores) (request : Request) : Handler → Response × Stores
  | .root => withStore request stores fun store stores => (root store stores, stores)
  | .parseSentence =>
      withStore request stores fun store stores =>
        orRefused (request.body.bind ParseRequest.ofBody?) stores fun parseRequest =>
          (parse parseRequest (stores.contents store), stores)
  | .glossRules =>
      orRefused (request.body.bind GlossRequest.ofBody?) stores fun glossRequest =>
        (gloss glossRequest, stores)
  | .listWords =>
      withStore request stores fun store stores =>
        orRefused (category? request.query) stores fun category =>
          (listed category (stores.contents store), stores)
  | .declare =>
      withStore request stores fun store stores =>
        orRefused (request.body.bind DeclareRequest.ofBody?) stores fun declareRequest =>
          declare declareRequest store stores

def handle (stores : Stores) (request : Request) : Response × Stores :=
  match routes.filter fun route => route.path == request.path with
  | [] => (.failed 404 (.string "Not Found"), stores)
  | found =>
      match found.find? fun route => route.method == request.method with
      | none => (.failed 405 (.string "Method Not Allowed"), stores)
      | some route => perform stores request route.handler

end ControlledEnglish.Service
