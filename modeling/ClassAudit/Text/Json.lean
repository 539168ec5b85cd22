import ClassAudit.Text.Quoted

/-!
# JSON text

A JSON document is written either on one line or spread over lines with two spaces of
indentation. Numbers are carried as the text they are written with, and objects keep
the order of their fields. The one-line form is produced in fragments, in the order in
which a stream would receive them.
-/

namespace ClassAudit.Text

/-- A JSON document to be written. -/
inductive Json
  | null
  | bool (value : Bool)
  | number (text : String)
  | string (value : String)
  | array (items : List Json)
  | object (fields : List (String × Json))

namespace Json

/-- An integer. -/
def int (n : Int) : Json := .number (toString n)

/-- One character inside a JSON string: only quotes, backslashes and the characters
below space are escaped. -/
def escapeChar (c : Char) : String :=
  match c with
  | '"' => "\\\""
  | '\\' => "\\\\"
  | '\n' => "\\n"
  | '\r' => "\\r"
  | '\t' => "\\t"
  | _ =>
    if c.toNat = 0x08 then "\\b"
    else if c.toNat = 0x0c then "\\f"
    else if c.toNat < 0x20 then "\\u" ++ hexPadded 4 c.toNat
    else String.singleton c

/-- A JSON string literal. -/
def stringLiteral (text : String) : String :=
  "\"" ++ String.join (text.toList.map escapeChar) ++ "\""

mutual

/-- The pieces of the one-line form, in the order in which they are written. -/
def fragments : Json → List String
  | .null => ["null"]
  | .bool value => [if value then "true" else "false"]
  | .number text => [text]
  | .string value => [stringLiteral value]
  | .array items => "[" :: (itemFragments true items ++ ["]"])
  | .object fields => "\x7b" :: (fieldFragments true fields ++ ["\x7d"])

/-- The items of an array; all but the first have a comma in front. -/
def itemFragments (first : Bool) : List Json → List String
  | [] => []
  | item :: rest =>
    (if first then [] else [","]) ++ item.fragments ++ itemFragments false rest

/-- The fields of an object; all but the first have a comma in front. -/
def fieldFragments (first : Bool) : List (String × Json) → List String
  | [] => []
  | (key, value) :: rest =>
    (if first then [] else [","]) ++ [stringLiteral key, ":"] ++ value.fragments
      ++ fieldFragments false rest

end

/-- The document on one line. -/
def compact (document : Json) : String := String.join document.fragments

/-- A line break and the indentation of the given depth. -/
def lineBreak (depth : Nat) : String := "\n".pushn ' ' (2 * depth)

mutual

/-- The document over several lines, inside `depth` levels of nesting. -/
def prettyAt (depth : Nat) : Json → String
  | .array [] => "[]"
  | .object [] => "\x7b\x7d"
  | .array items => "[" ++ prettyItems (depth + 1) true items ++ lineBreak depth ++ "]"
  | .object fields =>
    "\x7b" ++ prettyFields (depth + 1) true fields ++ lineBreak depth ++ "\x7d"
  | .null => "null"
  | .bool value => if value then "true" else "false"
  | .number text => text
  | .string value => stringLiteral value

/-- The items of an array, each on lines of its own. -/
def prettyItems (depth : Nat) (first : Bool) : List Json → String
  | [] => ""
  | item :: rest =>
    (if first then "" else ",") ++ lineBreak depth ++ item.prettyAt depth
      ++ prettyItems depth false rest

/-- The fields of an object, each on lines of its own. -/
def prettyFields (depth : Nat) (first : Bool) : List (String × Json) → String
  | [] => ""
  | (key, value) :: rest =>
    (if first then "" else ",") ++ lineBreak depth ++ stringLiteral key ++ ": "
      ++ value.prettyAt depth ++ prettyFields depth false rest

end

/-- The document over several lines. -/
def pretty (document : Json) : String := document.prettyAt 0

end Json

end ClassAudit.Text
