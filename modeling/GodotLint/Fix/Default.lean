import GodotLint.Naming.Words

/-!
# Defaults for missing keys

What stands in for the value of a missing key, told by the words of its name.
-/

namespace GodotLint

/-- What stands in for a missing value. -/
inductive KeyDefault where
  | no
  | zero
  | emptyString
  | emptyArray
  | emptyDictionary
  | null
  deriving DecidableEq, Repr

namespace KeyDefault

/-- The default as an expression of a script. -/
def expression : KeyDefault → String
  | .no => "false"
  | .zero => "0"
  | .emptyString => "\"\""
  | .emptyArray => "[]"
  | .emptyDictionary => "\x7b\x7d"
  | .null => "null"

/-- First words of names of truth values. -/
def questionWords : List String :=
  ["is", "has", "can", "should", "was", "did", "allow", "use"]

/-- Last words and what they tell, the first entry that has the word being the one that counts. -/
def lastWords : List (KeyDefault × List String) :=
  [(.zero, ["count", "total", "index", "idx", "level", "amount", "score", "num", "number", "size",
      "cost", "price", "damage", "hp", "health", "gold", "speed", "rate", "duration", "delay",
      "width", "height", "tier", "wave"]),
   (.emptyString, ["name", "text", "id", "path", "title", "label", "type", "description", "key",
      "message", "word", "string", "str", "icon"]),
   (.emptyArray, ["items", "list", "ids", "entries", "names", "tags", "children", "array", "keys",
      "values", "words", "rewards", "requires", "prerequisites"]),
   (.emptyDictionary, ["data", "map", "dict", "config", "settings", "stats", "meta", "info",
      "props", "properties"])]

/-- The default for a key with the given words. -/
def ofWords (words : List String) : KeyDefault :=
  match words, words.getLast? with
  | first :: _ :: _, some last => if questionWords.contains first then .no else ofLastWord last
  | _, some last => ofLastWord last
  | _, none => .null
where
  /-- The default that the last word tells. -/
  ofLastWord (last : String) : KeyDefault :=
    ((lastWords.find? (·.2.contains last)).map (·.1)).getD .null

/-- The default for a key. -/
def ofKey (key : String) : KeyDefault :=
  ofWords ((Naming.words key.toList).map fun w => str (Text.lower w))

end KeyDefault

/-- An access by `get` that stands in for one by brackets. -/
def getExpression (receiver key : String) : String :=
  receiver ++ ".get(\"" ++ key ++ "\", " ++ (KeyDefault.ofKey key).expression ++ ")"

end GodotLint
