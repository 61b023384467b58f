import ApiSurface.Toml.Basic
import ApiSurface.Toml.Scalar
import ApiSurface.Text.Hex

/-!
Reading the lines of a TOML document. A line assigns a value to a key, opens a table or opens an
element of an array of tables; what the lines amount to together is not asked here.

Readers return what they read and the characters after it. Those that repeat something take a bound
for the repetitions, and the number of characters is always enough.
-/

namespace ApiSurface.Toml.Parser

def isSpace (c : Char) : Bool := c == ' ' || c == '\t'

def skipSpaces (cs : List Char) : List Char := cs.dropWhile isSpace

/-- Whether the character may stand in a text or a comment at all, but for line breaks. -/
def isPrintable (c : Char) : Bool := c == '\t' || (0x20 ≤ c.toNat && c.toNat != 0x7F)

def newline? : List Char → Option (List Char)
  | '\n' :: rest => some rest
  | '\r' :: '\n' :: rest => some rest
  | _ => none

def skipComment : List Char → List Char
  | '#' :: rest => rest.dropWhile isPrintable
  | cs => cs

/-- The characters after the end of a line, before which there may be blanks and a comment. -/
def lineEnd? (cs : List Char) : Option (List Char) :=
  match skipComment (skipSpaces cs) with
  | [] => some []
  | cs => newline? cs

/-- The characters after blanks, line breaks and comments. A comment ends with its line. -/
def skipLines : Nat → List Char → Option (List Char)
  | 0, cs => some cs
  | bound + 1, cs =>
    match skipSpaces cs with
    | '#' :: rest => (newline? (rest.dropWhile isPrintable)).bind (skipLines bound)
    | cs =>
      match newline? cs with
      | some rest => skipLines bound rest
      | none => some cs

def shortEscape? : Char → Option Char
  | 'b' => some '\x08'
  | 't' => some '\t'
  | 'n' => some '\n'
  | 'f' => some '\x0c'
  | 'r' => some '\r'
  | '"' => some '"'
  | '\\' => some '\\'
  | _ => none

/-- The character that an escape stands for, without its backslash. -/
def escape? : List Char → Option (Char × List Char)
  | 'u' :: rest =>
    if 4 ≤ rest.length then
      ((Text.hexNumber? (rest.take 4)).bind Text.scalar?).map fun c => (c, rest.drop 4)
    else none
  | 'U' :: rest =>
    if 8 ≤ rest.length then
      ((Text.hexNumber? (rest.take 8)).bind Text.scalar?).map fun c => (c, rest.drop 8)
    else none
  | c :: rest => (shortEscape? c).map fun c => (c, rest)
  | [] => none

/-- The rest of a text in double quotes on one line. -/
def basicText : Nat → List Char → Option (List Char × List Char)
  | 0, _ => none
  | bound + 1, cs =>
    match cs with
    | [] => none
    | '"' :: rest => some ([], rest)
    | '\\' :: rest => do
      let (c, rest) ← escape? rest
      let (content, rest) ← basicText bound rest
      return (c :: content, rest)
    | c :: rest =>
      if isPrintable c then do
        let (content, rest) ← basicText bound rest
        return (c :: content, rest)
      else none

/-- The rest of a text in single quotes on one line, in which nothing is escaped. -/
def literalText : List Char → Option (List Char × List Char)
  | [] => none
  | '\'' :: rest => some ([], rest)
  | c :: rest =>
    if isPrintable c then do
      let (content, rest) ← literalText rest
      return (c :: content, rest)
    else none

/-- What a run of quotes means in a text between three of them. Fewer than three belong to the text.
Three end it, and up to two more before them belong to it. -/
def quoteRun (quote : Char) (cs : List Char) : Bool × List Char × List Char :=
  let run := (cs.takeWhile (· == quote)).length
  if run < 3 then (false, List.replicate run quote, cs.drop run)
  else (true, List.replicate (min run 5 - 3) quote, cs.drop (min run 5))

/-- Whether the character is a blank or part of a line break. -/
def isSpaceOrBreak (c : Char) : Bool := isSpace c || c == '\n' || c == '\r'

/-- The characters after blanks and line breaks. A carriage return alone is no line break. -/
def skipBreaks : Nat → List Char → List Char
  | 0, cs => cs
  | bound + 1, cs =>
    match newline? (skipSpaces cs) with
    | some rest => skipBreaks bound rest
    | none => skipSpaces cs

/-- The rest of a text between three double quotes. A backslash at the end of a line takes away the
line break and all blanks after it. -/
def basicLines : Nat → List Char → Option (List Char × List Char)
  | 0, _ => none
  | bound + 1, cs =>
    match cs with
    | [] => none
    | '"' :: _ =>
      match quoteRun '"' cs with
      | (true, content, rest) => some (content, rest)
      | (false, quotes, rest) => do
        let (content, rest) ← basicLines bound rest
        return (quotes ++ content, rest)
    | '\\' :: rest =>
      match newline? (skipSpaces rest) with
      | some rest => basicLines bound (skipBreaks rest.length rest)
      | none => do
        let (c, rest) ← escape? rest
        let (content, rest) ← basicLines bound rest
        return (c :: content, rest)
    | c :: rest =>
      match newline? cs with
      | some rest => do
        let (content, rest) ← basicLines bound rest
        return ('\n' :: content, rest)
      | none =>
        if isPrintable c then do
          let (content, rest) ← basicLines bound rest
          return (c :: content, rest)
        else none

/-- The rest of a text between three single quotes. -/
def literalLines : Nat → List Char → Option (List Char × List Char)
  | 0, _ => none
  | bound + 1, cs =>
    match cs with
    | [] => none
    | '\'' :: _ =>
      match quoteRun '\'' cs with
      | (true, content, rest) => some (content, rest)
      | (false, quotes, rest) => do
        let (content, rest) ← literalLines bound rest
        return (quotes ++ content, rest)
    | c :: rest =>
      match newline? cs with
      | some rest => do
        let (content, rest) ← literalLines bound rest
        return ('\n' :: content, rest)
      | none =>
        if isPrintable c then do
          let (content, rest) ← literalLines bound rest
          return (c :: content, rest)
        else none

/-- The characters after a line break right at the start, if there is one. -/
def dropFirstBreak (cs : List Char) : List Char := (newline? cs).getD cs

def text? : List Char → Option (String × List Char)
  | '"' :: '"' :: '"' :: rest =>
    (basicLines (rest.length + 1) (dropFirstBreak rest)).map fun (content, rest) =>
      (String.ofList content, rest)
  | '\'' :: '\'' :: '\'' :: rest =>
    (literalLines (rest.length + 1) (dropFirstBreak rest)).map fun (content, rest) =>
      (String.ofList content, rest)
  | '"' :: rest =>
    (basicText (rest.length + 1) rest).map fun (content, rest) => (String.ofList content, rest)
  | '\'' :: rest => (literalText rest).map fun (content, rest) => (String.ofList content, rest)
  | _ => none

def isBareKeyChar (c : Char) : Bool := c.isAlphanum || c == '_' || c == '-'

/-- One key, in quotes on one line or without quotes. -/
def simpleKey? : List Char → Option (String × List Char)
  | '"' :: rest =>
    (basicText (rest.length + 1) rest).map fun (content, rest) => (String.ofList content, rest)
  | '\'' :: rest => (literalText rest).map fun (content, rest) => (String.ofList content, rest)
  | cs =>
    match cs.takeWhile isBareKeyChar with
    | [] => none
    | key => some (String.ofList key, cs.dropWhile isBareKeyChar)

/-- At most `bound` keys with dots and blanks between them: those on the way, and the last one. -/
def keys? : Nat → List Char → Option ((List String × String) × List Char)
  | 0, _ => none
  | bound + 1, cs => do
    let (key, rest) ← simpleKey? (skipSpaces cs)
    match skipSpaces rest with
    | '.' :: rest =>
      let ((path, last), rest) ← keys? bound rest
      return ((key :: path, last), rest)
    | rest => return (([], key), rest)

def keyPath? (cs : List Char) : Option ((List String × String) × List Char) := keys? pathLimit cs

/-- Whether the character may stand in a number, a truth value, a date or a time. -/
def isScalarChar (c : Char) : Bool :=
  c.isAlphanum || c == '_' || c == '+' || c == '-' || c == '.' || c == ':'

/-- A number, a truth value, a date or a time. A blank between a date and a time belongs to them. -/
def scalar? (cs : List Char) : Option (Toml × List Char) :=
  let word := cs.takeWhile isScalarChar
  let rest := cs.dropWhile isScalarChar
  let withTime := word ++ ' ' :: (rest.drop 1).takeWhile isScalarChar
  if Scalar.isDate word && rest.head? == some ' ' && Scalar.isDateTime withTime then
    some (.scalar (String.ofList withTime), (rest.drop 1).dropWhile isScalarChar)
  else if Scalar.isScalar word then some (.scalar (String.ofList word), rest)
  else none

/-- The entries of a table, some of which are tables that dots between keys made. -/
inductive Entry where
  | value (value : Toml)
  | dotted (entries : List (String × Entry))

mutual
def Entry.toToml : Entry → Toml
  | .value value => value
  | .dotted entries => .table (entryValues entries)

def entryValues : List (String × Entry) → List (String × Toml)
  | [] => []
  | (key, entry) :: rest => (key, entry.toToml) :: entryValues rest
end

def putEntry (entries : List (String × Entry)) (key : String) (entry : Entry) :
    List (String × Entry) :=
  if entries.any fun e => e.1 == key then
    entries.map fun e => if e.1 == key then (key, entry) else e
  else entries ++ [(key, entry)]

/-- The entries of an inline table with one more assignment. A key is assigned once, and a table is
made either by dots or by a value. -/
def assignEntry (value : Toml) (key : String) : List String → List (String × Entry) →
    Option (List (String × Entry))
  | [], entries =>
    if entries.any fun e => e.1 == key then none else some (putEntry entries key (.value value))
  | first :: path, entries =>
    match entries.lookup first with
    | none => do
      let inner ← assignEntry value key path []
      return putEntry entries first (.dotted inner)
    | some (.dotted inner) => do
      let inner ← assignEntry value key path inner
      return putEntry entries first (.dotted inner)
    | some (.value _) => none

mutual
/-- A value that may go down some levels of arrays and inline tables. -/
def value? : Nat → Nat → List Char → Option (Toml × List Char)
  | 0, _, _ => none
  | bound + 1, levels, cs =>
    match cs with
    | '"' :: _ | '\'' :: _ => (text? cs).map fun (content, rest) => (.text content, rest)
    | '[' :: rest =>
      if levels ≤ 1 then none
      else do
        let (elements, rest) ← elements? bound (levels - 1) rest
        return (.array elements, rest)
    | '\x7b' :: rest =>
      if levels ≤ 1 then none
      else
        match skipSpaces rest with
        | '\x7d' :: rest => some (.table [], rest)
        | rest => do
          let (entries, rest) ← entries? bound (levels - 1) [] rest
          return (.table (entryValues entries), rest)
    | cs => scalar? cs

/-- The elements of an array up to its closing bracket. A comma after the last one is allowed. -/
def elements? : Nat → Nat → List Char → Option (List Toml × List Char)
  | 0, _, _ => none
  | bound + 1, levels, cs => do
    match ← skipLines cs.length cs with
    | ']' :: rest => return ([], rest)
    | cs =>
      let (value, rest) ← value? bound levels cs
      match ← skipLines rest.length rest with
      | ']' :: rest => return ([value], rest)
      | ',' :: rest =>
        let (values, rest) ← elements? bound levels rest
        return (value :: values, rest)
      | _ => none

/-- The entries of an inline table up to its closing brace, after those read before. -/
def entries? : Nat → Nat → List (String × Entry) → List Char →
    Option (List (String × Entry) × List Char)
  | 0, _, _, _ => none
  | bound + 1, levels, before, cs => do
    let ((path, key), rest) ← keyPath? cs
    match rest with
    | '=' :: rest =>
      let (value, rest) ← value? bound levels (skipSpaces rest)
      let entries ← assignEntry value key path before
      match skipSpaces rest with
      | '\x7d' :: rest => return (entries, rest)
      | ',' :: rest => entries? bound levels entries rest
      | _ => none
    | _ => none
end

/-- The statement on a line that has one, and the characters after the line. -/
def statement? (cs : List Char) : Option (Statement × List Char) :=
  match cs with
  | '[' :: '[' :: rest => do
    let ((path, key), rest) ← keyPath? rest
    match rest with
    | ']' :: ']' :: rest => return (.openElement path key, ← lineEnd? rest)
    | _ => none
  | '[' :: rest => do
    let ((path, key), rest) ← keyPath? rest
    match rest with
    | ']' :: rest => return (.openTable path key, ← lineEnd? rest)
    | _ => none
  | cs => do
    let ((path, key), rest) ← keyPath? cs
    match rest with
    | '=' :: rest =>
      let (value, rest) ← value? (2 * rest.length + 1) depthLimit (skipSpaces rest)
      return (.assign path key value, ← lineEnd? rest)
    | _ => none

/-- The statements of a document, at most `bound` lines of it. -/
def statements : Nat → List Char → Option (List Statement)
  | 0, _ => none
  | bound + 1, cs => do
    match skipSpaces cs with
    | [] => return []
    | '#' :: rest => statements bound (← lineEnd? ('#' :: rest))
    | cs =>
      match newline? cs with
      | some rest => statements bound rest
      | none =>
        let (statement, rest) ← statement? cs
        return statement :: (← statements bound rest)

/-- The statements of a document. A mark of the byte order before them is skipped. -/
def statements? (text : String) : Option (List Statement) :=
  let cs := text.toList
  let cs := if cs.head? == some '\uFEFF' then cs.drop 1 else cs
  statements (cs.length + 1) cs

end ApiSurface.Toml.Parser
