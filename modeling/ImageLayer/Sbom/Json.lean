import ImageLayer.Bytes
/-!
JSON documents and their indented form.

Members of an object keep their order, and names may be given twice as far as the type is concerned. Numbers are
natural ones, as no document here has others.

The indented form puts every element on a line of its own, two blanks deeper than the line that opens the array
or object around it; empty arrays and objects stay on one line. In texts only quotes, backslashes and controls
are escaped, so that all else stands there as it is.
-/

namespace ImageLayer

/-- A JSON value. -/
inductive Json where
  /-- A truth value. -/
  | bool (b : Bool)
  /-- A number. -/
  | number (n : Nat)
  /-- A text. -/
  | text (s : String)
  /-- A sequence of values. -/
  | array (elements : List Json)
  /-- Named values in order. -/
  | object (members : List (String × Json))

namespace Json

/-- An array of texts. -/
def texts (values : List String) : Json := .array (values.map .text)

/-- How a character stands in a quoted text: only quotes, backslashes and controls are written in
another form. -/
def escape (c : Char) : List Char :=
  if c = '"' then ['\\', '"']
  else if c = '\\' then ['\\', '\\']
  else if c = '\x08' then ['\\', 'b']
  else if c = '\x0c' then ['\\', 'f']
  else if c = '\n' then ['\\', 'n']
  else if c = '\r' then ['\\', 'r']
  else if c = '\t' then ['\\', 't']
  else if c.toNat < 32 then
    ['\\', 'u', '0', '0', Bytes.hexDigit (c.toNat / 16), Bytes.hexDigit (c.toNat % 16)]
  else [c]

/-- A text between quotes. -/
def quote (s : String) : List Char := '"' :: s.toList.flatMap escape ++ ['"']

/-- The start of a line at a depth. -/
def newLine (depth : Nat) : List Char := '\n' :: List.replicate (2 * depth) ' '

mutual

/-- The indented form of a value whose first line is at a depth. -/
def renderAt (depth : Nat) : Json → List Char
  | .bool b => (if b then "true" else "false").toList
  | .number n => Nat.toDigits 10 n
  | .text s => quote s
  | .array [] => ['[', ']']
  | .array (v :: rest) =>
    '[' :: newLine (depth + 1) ++ renderAt (depth + 1) v ++ renderElements depth rest
  | .object [] => ['\x7b', '\x7d']
  | .object ((name, v) :: rest) =>
    '\x7b' :: newLine (depth + 1) ++ quote name ++ [':', ' '] ++ renderAt (depth + 1) v ++
      renderMembers depth rest

/-- The further elements of an array at a depth, and its end. -/
def renderElements (depth : Nat) : List Json → List Char
  | [] => newLine depth ++ [']']
  | v :: rest =>
    ',' :: newLine (depth + 1) ++ renderAt (depth + 1) v ++ renderElements depth rest

/-- The further members of an object at a depth, and its end. -/
def renderMembers (depth : Nat) : List (String × Json) → List Char
  | [] => newLine depth ++ ['\x7d']
  | (name, v) :: rest =>
    ',' :: newLine (depth + 1) ++ quote name ++ [':', ' '] ++ renderAt (depth + 1) v ++
      renderMembers depth rest

end

/-- The indented form of a document, which ends its last line. -/
def render (v : Json) : String := String.ofList (renderAt 0 v ++ ['\n'])

end Json

end ImageLayer
