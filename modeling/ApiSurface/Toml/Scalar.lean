import ApiSurface.Decimal

/-!
Numbers, truth values, dates and times of TOML documents, as far as to tell what is well written.
-/

namespace ApiSurface.Toml.Scalar

/-- Whether the characters are digits with single underscores between them, and at least one. -/
def areDigits (isDigit : Char → Bool) : List Char → Bool
  | [] => false
  | [c] => isDigit c
  | c :: '_' :: rest => isDigit c && areDigits isDigit rest
  | c :: rest => isDigit c && areDigits isDigit rest

/-- The value of digits of a base, underscores and what is no digit of it left out. -/
def value (base : Nat) (digits : List Char) : Nat :=
  digits.foldl (fun n c =>
    if c == '_' then n
    else if c.isDigit then n * base + (c.toNat - '0'.toNat)
    else n * base + (c.toLower.toNat - 'a'.toNat + 10)) 0

def dropSign : List Char → List Char
  | '+' :: rest | '-' :: rest => rest
  | cs => cs

/-- Whether the characters are a decimal number without a sign: digits that do not start with a
superfluous zero. -/
def isDecimal : List Char → Bool
  | ['0'] => true
  | '0' :: _ => false
  | cs => areDigits Char.isDigit cs

def isHexDigit (c : Char) : Bool := c.isDigit || ('a' ≤ c.toLower && c.toLower ≤ 'f')

/-- Whether the characters are an integer of 64 bits. -/
def isInteger : List Char → Bool
  | '0' :: 'x' :: digits => areDigits isHexDigit digits && value 16 digits < Nat.pow 2 63
  | '0' :: 'o' :: digits => areDigits (fun c => '0' ≤ c && c ≤ '7') digits && value 8 digits < Nat.pow 2 63
  | '0' :: 'b' :: digits => areDigits (fun c => c == '0' || c == '1') digits && value 2 digits < Nat.pow 2 63
  | '-' :: digits => isDecimal digits && value 10 digits ≤ Nat.pow 2 63
  | cs => isDecimal (dropSign cs) && value 10 (dropSign cs) < Nat.pow 2 63

/-- Whether the characters are a number with a fraction, an exponent or both, but for a sign. -/
def hasFloatForm (cs : List Char) : Bool :=
  let mantissa := cs.takeWhile fun c => c != 'e' && c != 'E'
  let exponent := cs.dropWhile fun c => c != 'e' && c != 'E'
  let integral := mantissa.takeWhile (· != '.')
  let fraction := mantissa.dropWhile (· != '.')
  isDecimal integral && (fraction.isEmpty || areDigits Char.isDigit (fraction.drop 1)) &&
    (exponent.isEmpty || areDigits Char.isDigit (dropSign (exponent.drop 1))) &&
    !(fraction.isEmpty && exponent.isEmpty)

/-- Whether the characters are a number in double precision or one of the values that are no finite
number. A number too large for double precision is infinite, which may be so below zero only. -/
def isFloat (cs : List Char) : Bool :=
  dropSign cs == ['i', 'n', 'f'] || dropSign cs == ['n', 'a', 'n'] ||
    (hasFloatForm (dropSign cs) &&
      (cs.head? == some '-' || (Decimal.ofChars (cs.filter (· != '_'))).isFinite))

def twoDigits? (a b : Char) : Option Nat :=
  if a.isDigit && b.isDigit then some (value 10 [a, b]) else none

def daysIn (year month : Nat) : Nat :=
  if month = 2 then if year % 4 = 0 ∧ (year % 100 ≠ 0 ∨ year % 400 = 0) then 29 else 28
  else if month = 4 ∨ month = 6 ∨ month = 9 ∨ month = 11 then 30
  else 31

def isDate : List Char → Bool
  | [a, b, c, d, '-', e, f, '-', g, h] =>
    [a, b, c, d].all Char.isDigit &&
      match twoDigits? e f, twoDigits? g h with
      | some month, some day =>
        1 ≤ month && month ≤ 12 && 1 ≤ day && day ≤ daysIn (value 10 [a, b, c, d]) month
      | _, _ => false
  | _ => false

def isHourMinute : List Char → Bool
  | [a, b, ':', c, d] =>
    (twoDigits? a b).any (· < 24) && (twoDigits? c d).any (· < 60)
  | _ => false

/-- Whether the characters are a time of day, with a fraction of a second or not. -/
def isTime (cs : List Char) : Bool :=
  isHourMinute (cs.take 5) &&
    match cs.drop 5 with
    | [':', a, b] => (twoDigits? a b).any (· ≤ 60)
    | ':' :: a :: b :: '.' :: fraction =>
      (twoDigits? a b).any (· ≤ 60) && !fraction.isEmpty && fraction.all Char.isDigit
    | _ => false

/-- Whether the characters are a time of day with the distance from universal time or without it. -/
def isOffsetTime (cs : List Char) : Bool :=
  let time := cs.takeWhile fun c => c.isDigit || c == ':' || c == '.'
  isTime time &&
    match cs.drop time.length with
    | [] | ['Z'] | ['z'] => true
    | '+' :: offset | '-' :: offset => isHourMinute offset
    | _ => false

def isDateTime (cs : List Char) : Bool :=
  isDate cs || isTime cs ||
    (isDate (cs.take 10) &&
      match cs.drop 10 with
      | 'T' :: time | 't' :: time | ' ' :: time => isOffsetTime time
      | _ => false)

/-- Whether the characters are a truth value, a number, a date or a time. -/
def isScalar (cs : List Char) : Bool :=
  cs == ['t', 'r', 'u', 'e'] || cs == ['f', 'a', 'l', 's', 'e'] || isInteger cs || isFloat cs ||
    isDateTime cs

end ApiSurface.Toml.Scalar
