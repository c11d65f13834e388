import ControlledEnglish.Command.Basic
import ControlledEnglish.Console
import ControlledEnglish.Json.Printer
import ControlledEnglish.Json.Reader
import ControlledEnglish.Reading
import ControlledEnglish.Stores
import ControlledEnglish.Text.Newlines
import ControlledEnglish.Value.Gloss
import ControlledEnglish.Value.Reader

/-! What a command prints, and how it ends.

The sentences of a text are read one by one. One that cannot be read does not keep the others from
being read, but it decides the exit code. Only a line that the console refuses breaks the command
off. -/

namespace ControlledEnglish

/-- A command exits with a code, or it breaks off: at a value of the wrong shape, at a number that is
too long to be shown, or at a line that the console refuses. -/
inductive Ending where
  | exit (code : Nat)
  | misshapen (fault : Value.ReadFault)
  | unshowable
  | refused
  deriving Repr

structure Report where
  lines : List String := []
  ending : Ending := .exit 0
  deriving Repr

namespace Report

/-- Prints lines, as long as none is refused. -/
def printing (code : Nat) : List (Option String) → Report
  | [] => ⟨[], .exit code⟩
  | some line :: rest => { printing code rest with lines := line :: (printing code rest).lines }
  | none :: _ => ⟨[], .refused⟩

/-- One report behind another, unless that one breaks off. The larger exit code counts. -/
def followedBy (first second : Report) : Report :=
  match first.ending, second.ending with
  | .exit code, .exit other => ⟨first.lines ++ second.lines, .exit (max code other)⟩
  | .exit _, ending => ⟨first.lines ++ second.lines, ending⟩
  | _, _ => first

def joined (reports : List Report) : Report := reports.foldr followedBy {}

end Report

def Console.failed (console : Console) (message : String) : Report :=
  .printing 1 [console.marked (Style.red.mark ("✗ " ++ message))]

def Token.sentence (tokens : List Token) : String := spaced (tokens.map Token.text)

namespace Command

def usage : List String :=
  ["usage: pess [-h] [-v] \x7bparse,gloss,vocab\x7d ...",
    "",
    "PESS English ⇄ rule translator",
    "",
    "positional arguments:",
    "  \x7bparse,gloss,vocab\x7d",
    "    parse              Parse sentences into rules",
    "    gloss              Gloss JSON rules into English",
    "    vocab              Lexicon tools",
    "",
    "options:",
    "  -h, --help           show this help message and exit",
    "  -v, --verbose        Debug logging"]

/-! Reading sentences -/

/-- The first reading, or all of them, of which there has to be one. -/
def readings (showAll : Bool) (tokens : List Token) (lexicon : Lexicon) :
    Except ReadingError (List (List Rule)) := do
  let source := Source.ofTokens tokens
  if showAll then
    let readings ← readAll source lexicon
    if readings = [] then throw (.noReading (tokens.map fun token => .plain token.text))
    return readings
  else
    return [← read source lexicon]

def fault (sentence : String) (error : ReadingError) : String :=
  match error with
  | .unknownWord .. | .malformedLiteral .. => sentence ++ ": " ++ error.message
  | _ => error.message

section Console

variable (console : Console)

def shownReading (rules : List Rule) : List (Option String) :=
  [console.marked "Parsed structure is:"] ++
    rules.map (fun rule => some (console.plain ("  " ++ rule.written))) ++
    [some (console.plain ("Understood: " ++ Value.glossRules rules))]

def numbered (readings : List (List Rule)) : List (Option String) :=
  readings.zipIdx.flatMap fun (rules, i) =>
    (if readings.length > 1 then
      [console.marked (Style.dim.mark ("--- parse " ++ toString (i + 1) ++ " ---"))]
    else []) ++ shownReading console rules

def inJson (sentence : String) (readings : List (List Rule)) : Json :=
  .object [("sentence", .string sentence),
    ("parses", .array (readings.map fun rules => .array (rules.map Rule.toJson)))]

def parseSentence (showAll asJson : Bool) (lexicon : Lexicon) (tokens : List Token) : Report :=
  let sentence := Token.sentence tokens
  match readings showAll tokens lexicon with
  | .error error => console.failed (fault sentence error)
  | .ok readings =>
      if asJson then ⟨[(inJson sentence readings).indented 0], .exit 0⟩
      else .printing 0 ([console.marked (Style.bold.mark sentence)] ++ numbered console readings ++
        [some ""])

def parseText (stores : Stores) (text : String) (showAll asJson : Bool) (db : Option Int) :
    Report × Stores :=
  match Token.sentences text with
  | .error unterminated => (console.failed ("Tokenize error: " ++ unterminated.message), stores)
  | .ok sentences =>
      let (store, stores) := stores.openStore db
      (.joined (sentences.map (parseSentence console showAll asJson (stores.contents store))), stores)

/-! Glosses of files -/

/-- It very slowly and carefully eats languidly flying very very small insects and brown worms. -/
def sample : Attr :=
  ⟨.does, "eats",
    [⟨.isHow, "slowly", [⟨.isHow, "very", []⟩]⟩,
      ⟨.isHow, "carefully", []⟩,
      ⟨.isA, "insects",
        [⟨.isLike, "flying", [⟨.isHow, "languidly", []⟩]⟩,
          ⟨.isLike, "small", [⟨.isHow, "very", [⟨.isHow, "very", []⟩]⟩]⟩]⟩,
      ⟨.isA, "worms", [⟨.isLike, "brown", []⟩]⟩]⟩

def showGloss (value : Value) : Report :=
  match value.glossText with
  | .ok text => .printing 0 [some (console.plain text)]
  | .error _ => ⟨[], .unshowable⟩

def badFile (message : String) : Report := console.failed ("Bad rule file: " ++ message)

def glossText (text : String) : Report :=
  match Json.ofText text with
  | .error refusal => badFile console (refusal.message text)
  | .ok json =>
      match Value.readDocument json with
      | .ok value => showGloss console value
      | .error fault =>
          match fault, fault.message? with
          | .missing name, _ => badFile console (Text.quoted name)
          | _, some message => badFile console message
          | _, none => ⟨[], .misshapen fault⟩

/-! Words -/

def addSentence (store : Store) (stores : Stores) (tokens : List Token) : Report × Stores :=
  let sentence := Token.sentence tokens
  match stores.declareSource store (.ofTokens tokens) with
  | (.ok true, stores) => (.printing 0 [some (console.plain ("✓ " ++ sentence))], stores)
  | (_, stores) => (console.failed ("Not a declaration: " ++ sentence), stores)

/-- Teaches sentence by sentence, until a line is refused. -/
def addSentences (store : Store) (stores : Stores) : List (List Token) → Report × Stores
  | [] => ({}, stores)
  | tokens :: rest =>
      let (first, stores) := addSentence console store stores tokens
      match first.ending with
      | .exit _ =>
          let (others, stores) := addSentences store stores rest
          (first.followedBy others, stores)
      | _ => (first, stores)

def addText (stores : Stores) (text : String) (db : Option Int) : Report × Stores :=
  match Token.sentences text with
  | .error unterminated => (console.failed ("Tokenize error: " ++ unterminated.message), stores)
  | .ok sentences =>
      let (store, stores) := stores.openStore db
      addSentences console store stores sentences

def row (cells : List String) : Option String :=
  (cells.mapM console.marked).map (" | ".intercalate ·)

def listed (lexicon : Lexicon) (category : Category) : Option String :=
  row console [category.keyword ++ " (" ++ toString (lexicon.count category) ++ ")",
    spaced (lexicon.listing category)]

/-- The table is printed as a whole or not at all. -/
def list (lexicon : Lexicon) (category : Option Category) : Report :=
  let categories := category.elim Category.all fun category => [category]
  let rows := row console ["Category", "Words"] :: categories.map (listed console lexicon)
  match (console.marked "Lexicon" :: rows).mapM id with
  | some lines => ⟨lines, .exit 0⟩
  | none => ⟨[], .refused⟩

def seed (stores : Stores) (db : Int) : Report × Stores :=
  let (store, stores) := stores.openStore (some db)
  let (count, stores) := stores.seed store
  let line := "✓ Seeded db " ++ toString db ++ ": " ++ toString count ++ " new words"
  (.printing 0 [console.marked line], stores)

/-- Runs a command. The contents are those of the file that it reads, if there is such a file. -/
def run (stores : Stores) (contents : Option String) (command : Command) : Report × Stores :=
  match command.file?, contents with
  | some file, none => (console.failed ("File not found: " ++ file), stores)
  | _, _ =>
      match command with
      | help => (⟨usage, .exit 0⟩, stores)
      | parse text _ showAll asJson db =>
          match contents.map Text.withNewlines, text with
          | some text, _ => parseText console stores text showAll asJson db
          | none, some text => parseText console stores text showAll asJson db
          | none, none => (console.failed "Give a sentence or --file", stores)
      | gloss _ showExample =>
          if showExample then (showGloss console (.list [.ofAttr sample]), stores)
          else
            match contents.map Text.withNewlines with
            | some text => (glossText console text, stores)
            | none => (console.failed "Give a JSON file or --example", stores)
      | addWords text db => addText console stores text db
      | listWords category db =>
          let (store, stores) := stores.openStore db
          (list console (stores.contents store) category, stores)
      | seedWords db => seed console stores db

end Console

end Command

end ControlledEnglish
