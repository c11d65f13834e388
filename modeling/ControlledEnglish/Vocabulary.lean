import ControlledEnglish.Lexicon

namespace ControlledEnglish

namespace Vocabulary

def nouns : List String :=
  ["order", "nostrils", "bill", "waterfowl", "falconiforms", "meat", "talons", "feet",
    "passerformes", "flycatcher", "voice", "toe", "size", "wings", "family", "albatross", "neck",
    "colour", "flight", "profile", "birds", "swan", "goose", "duck", "vulture", "head", "tail",
    "falcon", "insect", "swallow", "fulmar", "whistle", "trumpeting", "season", "country", "cheeks",
    "summer", "winter", "canada", "quack", "mallard", "pintail", "bird", "throat", "insects"]

def adjectives : List String :=
  ["external", "tubular", "hooked", "webbed", "flat", "curved", "sharp", "one", "long", "pointed",
    "backward", "large", "narrow", "white", "dark", "black", "ponderous", "plump", "powerful",
    "broad", "flying", "forked", "short", "medium", "muffled", "musical", "loud", "green", "brown",
    "v-shaped", "rusty", "square"]

def adverbs : List String :=
  ["very", "slowly", "carefully", "languidly", "ponderously", "powerfully", "agilely", "mottled"]

def verbs : List String :=
  ["eats", "flies", "lives", "feeds", "scavenges", "quacks", "summers", "winters"]

def words : Category → List String
  | .noun => nouns
  | .adjective => adjectives
  | .adverb => adverbs
  | .verb => verbs

def entries : List (String × Category) :=
  Category.all.flatMap fun category => (words category).map fun word => (word, category)

end Vocabulary

def Lexicon.builtin : Lexicon := Lexicon.empty.insertAll Vocabulary.entries

end ControlledEnglish
