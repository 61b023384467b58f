import ApiSurface.Json.Basic
import ApiSurface.Text.Hex

/-!
Writing JSON. In the indented form every element and every member stands on a line of its own, two
spaces deeper than what contains it, and an empty array or object stays on one line. The compact form
has no blanks at all. Only quotes, backslashes and control characters are escaped.
-/

namespace ApiSurface.Json

def escapeChar (c : Char) : List Char :=
  match c with
  | '"' => ['\\', '"']
  | '\\' => ['\\', '\\']
  | '\x08' => ['\\', 'b']
  | '\x0c' => ['\\', 'f']
  | '\n' => ['\\', 'n']
  | '\r' => ['\\', 'r']
  | '\t' => ['\\', 't']
  | c =>
    if c.toNat < 0x20 then
      ['\\', 'u'] ++ Text.hexDigits 4 c.toNat
    else [c]

def quote (text : String) : String := String.ofList ('"' :: text.toList.flatMap escapeChar ++ ['"'])

/-- A line break, and the blanks before what stands `depth` levels deep. -/
def newline (depth : Nat) : String := "\n" ++ String.ofList (List.replicate (2 * depth) ' ')

mutual
/-- The indented form of a document that starts `depth` levels deep. -/
def prettyAt (depth : Nat) : Json → String
  | .null => "null"
  | .bool value => if value then "true" else "false"
  | .number literal => literal
  | .string value => quote (value.getD "")
  | .array [] => "[]"
  | .array (first :: rest) =>
    "[" ++ newline (depth + 1) ++ prettyAt (depth + 1) first ++ prettyElements (depth + 1) rest ++
      newline depth ++ "]"
  | .object [] => "\x7b\x7d"
  | .object ((name, value) :: rest) =>
    "\x7b" ++ newline (depth + 1) ++ quote (name.getD "") ++ ": " ++ prettyAt (depth + 1) value ++
      prettyMembers (depth + 1) rest ++ newline depth ++ "\x7d"

def prettyElements (depth : Nat) : List Json → String
  | [] => ""
  | value :: rest => "," ++ newline depth ++ prettyAt depth value ++ prettyElements depth rest

def prettyMembers (depth : Nat) : List (Option String × Json) → String
  | [] => ""
  | (name, value) :: rest =>
    "," ++ newline depth ++ quote (name.getD "") ++ ": " ++ prettyAt depth value ++
      prettyMembers depth rest
end

def pretty (document : Json) : String := prettyAt 0 document

mutual
def compact : Json → String
  | .null => "null"
  | .bool value => if value then "true" else "false"
  | .number literal => literal
  | .string value => quote (value.getD "")
  | .array [] => "[]"
  | .array (first :: rest) => "[" ++ compact first ++ compactElements rest ++ "]"
  | .object [] => "\x7b\x7d"
  | .object ((name, value) :: rest) =>
    "\x7b" ++ quote (name.getD "") ++ ":" ++ compact value ++ compactMembers rest ++ "\x7d"

def compactElements : List Json → String
  | [] => ""
  | value :: rest => "," ++ compact value ++ compactElements rest

def compactMembers : List (Option String × Json) → String
  | [] => ""
  | (name, value) :: rest =>
    "," ++ quote (name.getD "") ++ ":" ++ compact value ++ compactMembers rest
end

end ApiSurface.Json
