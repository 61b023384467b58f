/-!
Decimal numerals, and which of them double precision can hold. Only the size of a number matters here,
so signs are left out and everything is computed with whole numbers.

A reader may take the number of double precision that is nearest to a numeral. It may also put the
number together from parts: the digits that fit into 64 bits, and a power of ten for the others. The
two ways disagree close to the largest number of double precision, because the parts are rounded
before they are multiplied.
-/

namespace ApiSurface

/-- A decimal numeral without a sign. The exponent is the power of ten that the point moves by. -/
structure Decimal where
  integral : List Char
  fraction : List Char
  exponent : Int
  deriving DecidableEq, Repr

namespace Decimal

def valueOf (digits : List Char) : Nat := Nat.ofDigitChars 10 digits 0

/-- The numeral that the characters write, with a sign or without it. -/
def ofChars (cs : List Char) : Decimal :=
  let unsigned := cs.dropWhile fun c => c == '-' || c == '+'
  let mantissa := unsigned.takeWhile fun c => c != 'e' && c != 'E'
  let exponent := (unsigned.dropWhile fun c => c != 'e' && c != 'E').drop 1
  { integral := mantissa.takeWhile (· != '.')
    fraction := (mantissa.dropWhile (· != '.')).drop 1
    exponent :=
      match exponent with
      | '-' :: digits => -(valueOf digits : Int)
      | '+' :: digits => valueOf digits
      | digits => valueOf digits }

/-- The least number that is too large for double precision: halfway from the largest finite value to
the next power of two. -/
def doubleLimit : Nat := Nat.pow 2 1024 - Nat.pow 2 970

/-- Whether the number of double precision that is nearest to the numeral is finite. Numerals far from
the limit are decided by the place of their first digit alone, so a huge exponent costs nothing. -/
def isFinite (d : Decimal) : Bool :=
  let digits := (d.integral ++ d.fraction).dropWhile (· == '0')
  let place : Int := digits.length - d.fraction.length + d.exponent
  if digits.isEmpty || place < 300 then true
  else if place > 320 then false
  else
    let shift := d.exponent - d.fraction.length
    if 0 ≤ shift then valueOf digits * Nat.pow 10 shift.toNat < doubleLimit
    else valueOf digits < doubleLimit * Nat.pow 10 (-shift).toNat

/-- The nearest number with at most 53 binary digits before its trailing zeros. Of two numbers equally
near, it is the one whose last binary digit is even. -/
def roundToDouble (n : Nat) : Nat :=
  let unit := Nat.pow 2 (Nat.log2 n - 52)
  let units := n / unit
  let rest := n % unit
  if 2 * rest < unit ∨ (2 * rest = unit ∧ units % 2 = 0) then units * unit else (units + 1) * unit

/-- Appends digits to a number for as long as it stays within 64 bits. Gives the number that is reached
and the digits from the first one that does not fit. -/
def append : Nat → List Char → Nat × List Char
  | n, [] => (n, [])
  | n, c :: rest =>
    let longer := n * 10 + (c.toNat - '0'.toNat)
    if longer < Nat.pow 2 64 then append longer rest else (n, c :: rest)

/-- The digits of a numeral that fit into 64 bits, as a number, and the power of ten that it is scaled
by. Digits before the point that do not fit still count as places; digits after it do not. -/
def parts (d : Decimal) : Nat × Int :=
  let (n, left) := append 0 d.integral
  let (n, ignored) := append n d.fraction
  (n, (left.length : Int) - (d.fraction.length - ignored.length) + d.exponent)

/-- The largest power of ten that double precision can hold. -/
def largestPower : Nat := 308

/-- Whether a reader that puts the numeral together from its parts gets a finite number. Each part is
rounded first, and a power of ten too large for double precision is refused unless nothing is scaled. -/
def isFiniteByParts (d : Decimal) : Bool :=
  let (n, power) := d.parts
  if n = 0 ∨ power ≤ 0 then true
  else if power > largestPower then false
  else roundToDouble n * roundToDouble (Nat.pow 10 power.toNat) < doubleLimit

/-- A number of at most 53 binary digits is its own nearest one. -/
theorem roundToDouble_of_lt {n : Nat} (h : n < Nat.pow 2 53) : roundToDouble n = n := by
  have hlog : Nat.log2 n - 52 = 0 := by
    by_cases hn : n = 0
    · subst hn
      rfl
    · have := (Nat.log2_lt hn).mpr h
      omega
  simp [roundToDouble, hlog, Nat.mod_one]

end Decimal

end ApiSurface
