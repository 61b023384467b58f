import ApiSurface.Json.Basic
import ApiSurface.Text.Hex

/-!
Reading JSON. The text is first cut into tokens and the tokens are then put together. The grammar is
the strict one: no comments, no trailing commas, no raw control characters in strings, and nothing but
blanks around the document.
-/

namespace ApiSurface.Json

inductive Token where
  | openBrace
  | closeBrace
  | openBracket
  | closeBracket
  | colon
  | comma
  | literal (value : Json)

namespace Token

def isSpace (c : Char) : Bool := c == ' ' || c == '\t' || c == '\n' || c == '\r'

def shortEscape? : Char → Option Char
  | '"' => some '"'
  | '\\' => some '\\'
  | '/' => some '/'
  | 'b' => some '\x08'
  | 'f' => some '\x0c'
  | 'n' => some '\n'
  | 'r' => some '\r'
  | 't' => some '\t'
  | _ => none

/-- The codes of a string up to its closing quote, and the characters after it. Every character and
every escape gives one code. -/
def stringCodes : List Char → Option (List Nat × List Char)
  | [] => none
  | '"' :: rest => some ([], rest)
  | '\\' :: 'u' :: a :: b :: c :: d :: rest => do
    let code ← Text.hexNumber? [a, b, c, d]
    let (codes, rest) ← stringCodes rest
    return (code :: codes, rest)
  | '\\' :: c :: rest => do
    let escaped ← shortEscape? c
    let (codes, rest) ← stringCodes rest
    return (escaped.toNat :: codes, rest)
  | c :: rest =>
    if c == '\\' || c.toNat < 0x20 then none
    else do
      let (codes, rest) ← stringCodes rest
      return (c.toNat :: codes, rest)

def isHighSurrogate (code : Nat) : Bool := 0xD800 ≤ code && code < 0xDC00

def isLowSurrogate (code : Nat) : Bool := 0xDC00 ≤ code && code < 0xE000

/-- The characters with the given codes, two halves of a surrogate pair making one character. Nothing
if a half stands alone. -/
def joinSurrogates : List Nat → Option (List Char)
  | [] => some []
  | high :: low :: rest =>
    if isHighSurrogate high && isLowSurrogate low then
      (joinSurrogates rest).map
        (Char.ofNat (0x10000 + (high - 0xD800) * 0x400 + (low - 0xDC00)) :: ·)
    else if isHighSurrogate high || isLowSurrogate high then none
    else (joinSurrogates (low :: rest)).map (Char.ofNat high :: ·)
  | [code] => if isHighSurrogate code || isLowSurrogate code then none else some [Char.ofNat code]

/-- The leading digits and what follows them, if there is a digit at all. -/
def digits? (cs : List Char) : Option (List Char × List Char) :=
  match cs.takeWhile Char.isDigit with
  | [] => none
  | digits => some (digits, cs.dropWhile Char.isDigit)

/-- An integral part: a zero, or digits that do not start with one. -/
def integral? : List Char → Option (List Char × List Char)
  | '0' :: rest => some (['0'], rest)
  | cs => digits? cs

/-- The fractional part of a number, empty if there is none. -/
def fraction? : List Char → Option (List Char × List Char)
  | '.' :: rest => (digits? rest).map fun (digits, rest) => ('.' :: digits, rest)
  | cs => some ([], cs)

/-- The digits of an exponent, behind a sign or not. -/
def signedDigits? : List Char → Option (List Char × List Char)
  | '+' :: rest => (digits? rest).map fun (digits, rest) => ('+' :: digits, rest)
  | '-' :: rest => (digits? rest).map fun (digits, rest) => ('-' :: digits, rest)
  | cs => digits? cs

/-- The exponent of a number, empty if there is none. -/
def exponent? : List Char → Option (List Char × List Char)
  | 'e' :: rest | 'E' :: rest => (signedDigits? rest).map fun (digits, rest) => ('e' :: digits, rest)
  | cs => some ([], cs)

def unsigned? (cs : List Char) : Option (List Char × List Char) := do
  let (integral, rest) ← integral? cs
  let (fraction, rest) ← fraction? rest
  let (exponent, rest) ← exponent? rest
  return (integral ++ fraction ++ exponent, rest)

def number? : List Char → Option (List Char × List Char)
  | '-' :: rest => (unsigned? rest).map fun (digits, rest) => ('-' :: digits, rest)
  | cs => unsigned? cs

/-- The first token of a text that starts with one, and the text after it. -/
def first? : List Char → Option (Token × List Char)
  | '{' :: rest => some (.openBrace, rest)
  | '}' :: rest => some (.closeBrace, rest)
  | '[' :: rest => some (.openBracket, rest)
  | ']' :: rest => some (.closeBracket, rest)
  | ':' :: rest => some (.colon, rest)
  | ',' :: rest => some (.comma, rest)
  | 'n' :: 'u' :: 'l' :: 'l' :: rest => some (.literal .null, rest)
  | 't' :: 'r' :: 'u' :: 'e' :: rest => some (.literal (.bool true), rest)
  | 'f' :: 'a' :: 'l' :: 's' :: 'e' :: rest => some (.literal (.bool false), rest)
  | '"' :: rest => do
    let (codes, rest) ← stringCodes rest
    return (.literal (.string ((joinSurrogates codes).map String.ofList)), rest)
  | cs => do
    let (digits, rest) ← number? cs
    return (.literal (.number (String.ofList digits)), rest)

/-- The tokens of a text, at most `bound` of them. -/
def scan : Nat → List Char → Option (List Token)
  | 0, _ => none
  | bound + 1, cs =>
    match cs.dropWhile isSpace with
    | [] => some []
    | cs => do
      let (token, rest) ← first? cs
      return token :: (← scan bound rest)

/-- The tokens of a text. A token has at least one character, so there are no more tokens than
characters. -/
def ofChars? (cs : List Char) : Option (List Token) := scan (cs.length + 1) cs

end Token

mutual
def value? : Nat → List Token → Option (Json × List Token)
  | 0, _ => none
  | bound + 1, tokens =>
    match tokens with
    | .literal value :: rest => some (value, rest)
    | .openBracket :: .closeBracket :: rest => some (.array [], rest)
    | .openBracket :: rest => do
      let (elements, rest) ← elements? bound rest
      return (.array elements, rest)
    | .openBrace :: .closeBrace :: rest => some (.object [], rest)
    | .openBrace :: rest => do
      let (members, rest) ← members? bound rest
      return (.object members, rest)
    | _ => none

/-- The elements of an array from the first one to the closing bracket, and the tokens after it. -/
def elements? : Nat → List Token → Option (List Json × List Token)
  | 0, _ => none
  | bound + 1, tokens => do
    let (value, rest) ← value? bound tokens
    match rest with
    | .closeBracket :: rest => return ([value], rest)
    | .comma :: rest =>
      let (values, rest) ← elements? bound rest
      return (value :: values, rest)
    | _ => none

/-- The members of an object from the first one to the closing brace, and the tokens after it. -/
def members? : Nat → List Token → Option (List (Option String × Json) × List Token)
  | 0, _ => none
  | bound + 1, tokens =>
    match tokens with
    | .literal (.string name) :: .colon :: rest => do
      let (value, rest) ← value? bound rest
      match rest with
      | .closeBrace :: rest => return ([(name, value)], rest)
      | .comma :: rest =>
        let (members, rest) ← members? bound rest
        return ((name, value) :: members, rest)
      | _ => none
    | _ => none
end

/-- The document that a text writes. Every step of the reader takes a token or goes one level down, so
twice the number of tokens bounds the steps. -/
def parse? (text : String) : Option Json := do
  let tokens ← Token.ofChars? text.toList
  match ← value? (2 * tokens.length + 1) tokens with
  | (value, []) => some value
  | _ => none

end ApiSurface.Json
