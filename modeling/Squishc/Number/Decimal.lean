import Squishc.Number.Binary64

/-!
# Decimal numerals

Reading a decimal numeral gives the nearest binary64 value, and writing a value
gives the shortest decimal that reads back as that value, the one nearest to it
where there are several.
-/

namespace Squishc.Number

/-- The value of a list of decimal digits. -/
def natOfDigits (digits : List Char) : Nat :=
  digits.foldl (fun n c => 10 * n + (c.toNat - '0'.toNat)) 0

/-- A power of ten. -/
def tenTo (exponent : Nat) : Nat := Nat.pow 10 exponent

/-- A decimal numeral `coefficient * 10 ^ exponent`. -/
structure Decimal where
  coefficient : Nat
  exponent : Int
deriving DecidableEq, Repr, Inhabited

namespace Decimal

/-- The exponent part of a numeral: an `e`, a sign that may be missing and
digits.  An absent part counts as zero. -/
def readExponent? : List Char → Option Int
  | [] => some 0
  | mark :: rest =>
    if mark = 'e' || mark = 'E' then
      let (negative, digits) :=
        match rest with
        | '-' :: digits => (true, digits)
        | '+' :: digits => (false, digits)
        | digits => (false, digits)
      if digits.isEmpty || !digits.all Char.isDigit then none
      else
        let magnitude : Int := natOfDigits digits
        some (if negative then -magnitude else magnitude)
    else none

/-- Reads a numeral without sign: digits, a fraction and an exponent, of which
the last two may be missing. -/
def read? (text : List Char) : Option Decimal :=
  let whole := text.takeWhile Char.isDigit
  let rest := text.dropWhile Char.isDigit
  let (fraction, rest) :=
    match rest with
    | '.' :: rest => (rest.takeWhile Char.isDigit, rest.dropWhile Char.isDigit)
    | rest => ([], rest)
  if whole.isEmpty && fraction.isEmpty then none
  else
    match readExponent? rest with
    | some exponent => some ⟨natOfDigits (whole ++ fraction), exponent - fraction.length⟩
    | none => none

/-- The value nearest to a numeral.  Numerals beyond the range give infinity and
numerals below half the least positive value give zero; the two early answers
keep the powers of ten within bounds. -/
def toFloat (d : Decimal) : Float :=
  let order : Int := (Nat.toDigits 10 d.coefficient).length + d.exponent
  if d.coefficient = 0 || order < -400 then ofMagnitude false 0
  else if 400 < order then ofMagnitude false infinityBits
  else
    let bits := nearestBits (d.coefficient * tenTo d.exponent.toNat) (tenTo (-d.exponent).toNat)
    ofMagnitude false (min bits infinityBits)

end Decimal

/-! ## The shortest decimal -/

/-- Compares `a * 10 ^ p` with `b * 2 ^ e` exactly. -/
def compareScaled (a : Nat) (p : Int) (b : Nat) (e : Int) : Ordering :=
  compare (a * tenTo p.toNat * twoTo (-e).toNat) (b * twoTo e.toNat * tenTo (-p).toNat)

/-- Whether `c * 10 ^ p` rounds to `m * 2 ^ q`.  The ends of the interval of
numbers that do belong to it when the mantissa is even; below a power of two
the interval is half as wide. -/
def readsBack (m : Nat) (q : Int) (c : Nat) (p : Int) : Bool :=
  let low := if m = twoTo 52 && decide (-1074 < q) then 4 * m - 1 else 4 * m - 2
  let high := 4 * m + 2
  let above := compareScaled c p low (q - 2)
  let below := compareScaled c p high (q - 2)
  (above == .gt || (above == .eq && m % 2 == 0)) &&
    (below == .lt || (below == .eq && m % 2 == 0))

/-- The least `k` with `m * 2 ^ q < 10 ^ k`, for a positive mantissa. -/
def decimalOrder (m : Nat) (q : Int) : Int :=
  let guess : Int := ((m.log2 : Int) + q) * 30103 / 100000
  if compareScaled 1 guess m q == .gt then guess
  else if compareScaled 1 (guess + 1) m q == .gt then guess + 1
  else guess + 2

/-- The neighbour of `m * 2 ^ q` among the multiples of `10 ^ p` that reads
back, the nearer one if both do, and the even one in a tie. -/
def gridPoint? (m : Nat) (q : Int) (p : Int) : Option Nat :=
  let lower := m * twoTo q.toNat * tenTo (-p).toNat / (twoTo (-q).toNat * tenTo p.toNat)
  let upper := lower + 1
  match readsBack m q lower p, readsBack m q upper p with
  | true, false => some lower
  | false, true => some upper
  | false, false => none
  | true, true =>
    match compareScaled (2 * lower + 1) p (2 * m) q with
    | .gt => some lower
    | .lt => some upper
    | .eq => some (if lower % 2 = 0 then lower else upper)

/-- Scans the grids from `10 ^ (order - digits)` on for the first that holds a
numeral of the value. -/
def scanGrids (m : Nat) (q order : Int) : (digits left : Nat) → Decimal
  | digits, 0 => ⟨(gridPoint? m q (order - digits)).getD 0, order - digits⟩
  | digits, left + 1 =>
    match gridPoint? m q (order - digits) with
    | some c => ⟨c, order - digits⟩
    | none => scanGrids m q order (digits + 1) left

/-- The shortest decimal that reads back as `m * 2 ^ q`.  Seventeen digits are
always enough. -/
def shortest (m : Nat) (q : Int) : Decimal :=
  scanGrids m q (decimalOrder m q) 1 16

/-- Drops zeros from the end of a list of digits. -/
def dropTrailingZeros (digits : List Char) : List Char :=
  (digits.reverse.dropWhile (· == '0')).reverse

/-- How a decimal is laid out: exponents of ten between the two bounds are
written with a plain point, others with an exponent of a least width. -/
structure Layout where
  /-- Numbers below `10 ^ leastOrder` are written with an exponent. -/
  leastOrder : Int
  /-- Numbers from `10 ^ greatestOrder` on are written with an exponent. -/
  greatestOrder : Int
  /-- Least number of digits of a written exponent. -/
  exponentWidth : Nat

/-- Numbers from `0.0001` up to `10 ^ 16` are written positionally and always
with a fraction; others have a signed exponent of at least two digits. -/
def Layout.standard : Layout := ⟨-4, 16, 2⟩

/-- Lays out the digits of a number `0.d₁d₂… * 10 ^ order`. -/
def Layout.write (layout : Layout) (digits : List Char) (order : Int) : List Char :=
  if layout.leastOrder < order && order ≤ layout.greatestOrder then
    if order ≤ 0 then
      '0' :: '.' :: List.replicate (-order).toNat '0' ++ digits
    else if digits.length ≤ order.toNat then
      digits ++ List.replicate (order.toNat - digits.length) '0' ++ ['.', '0']
    else
      digits.take order.toNat ++ '.' :: digits.drop order.toNat
  else
    let exponent := order - 1
    let written := Nat.toDigits 10 exponent.natAbs
    let padded := List.replicate (layout.exponentWidth - written.length) '0' ++ written
    let mantissa :=
      match digits with
      | first :: second :: rest => first :: '.' :: second :: rest
      | digits => digits
    mantissa ++ 'e' :: (if exponent < 0 then '-' else '+') :: padded

/-- The text of a finite value. -/
def finiteText (x : Float) : String :=
  let s := Scaled.ofFloat x
  let body :=
    if s.mantissa = 0 then ['0', '.', '0']
    else
      let d := shortest s.mantissa s.exponent
      let digits := Nat.toDigits 10 d.coefficient
      Layout.standard.write (dropTrailingZeros digits) (digits.length + d.exponent)
  String.ofList (if s.negative then '-' :: body else body)

end Squishc.Number
