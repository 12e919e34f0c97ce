/-!
# Shortest decimals of binary floating-point numbers

A finite double is m · 2^q.  The reals that round to it form an interval, whose ends belong to it
when m is even.  The shortest decimal is the one with the fewest digits in that interval; of two on
the same grid the nearer one is taken, and on a tie the one with the even last digit.  All
arithmetic is on natural numbers.
-/

namespace ComponentRegistry.Decimal

/-- A positive finite double as `mantissa · 2^(power - 1074)`. -/
structure Binary where
  mantissa : Nat
  power : Nat
  deriving DecidableEq, Repr

/-- What the bits of a double say. -/
inductive Double where
  | finite (negative : Bool) (value : Binary)
  | infinite (negative : Bool)
  | notANumber
  deriving DecidableEq, Repr

/-- The double with these bits. -/
def Double.ofBits (bits : UInt64) : Double :=
  let n := bits.toNat
  let negative := n / Nat.pow 2 63 == 1
  let exponent := n / Nat.pow 2 52 % Nat.pow 2 11
  let fraction := n % Nat.pow 2 52
  if exponent = 2047 then (if fraction = 0 then .infinite negative else .notANumber)
  else if exponent = 0 then .finite negative ⟨fraction, 0⟩
  else .finite negative ⟨Nat.pow 2 52 + fraction, exponent - 1⟩

/-- Decimal digits `d₁d₂…` that stand for `0.d₁d₂… · 10^point`. -/
structure Digits where
  digits : Nat
  count : Nat
  point : Int
  deriving DecidableEq, Repr

/-- The interval of a double in units of `2^(power - 1076)`: lower end, value, upper end. -/
def Binary.interval (b : Binary) : Nat × Nat × Nat :=
  let isLeast := b.mantissa = Nat.pow 2 52 && 0 < b.power
  let lower := if isLeast then 4 * b.mantissa - 1 else 4 * b.mantissa - 2
  (lower, 4 * b.mantissa, 4 * b.mantissa + 2)

/-- A ratio `num / den` equal to `n · 2^(power - 1076)`. -/
def ratio (power n : Nat) : Nat × Nat :=
  if 1076 ≤ power then (n * Nat.pow 2 (power - 1076), 1) else (n, Nat.pow 2 (1076 - power))

/-- The least `k` with `num / den < 10^k`, searched upwards from `k - fuel`. -/
def magnitude (num den : Nat) : Nat → Int → Int
  | 0, k => k
  | fuel + 1, k =>
    let below := if 0 ≤ k then num < den * Nat.pow 10 k.toNat
      else num * Nat.pow 10 (-k).toNat < den
    if below then k else magnitude num den fuel (k + 1)

/-- The multiple of `10^(point - count)` nearest to the value that lies in the interval. -/
def onGrid (b : Binary) (point : Int) (count : Nat) : Option Nat :=
  let (lo, mid, hi) := b.interval
  let (num, den) := ratio b.power 1
  let scale : Int := count - point
  -- one unit of the interval is `u / v` grid steps
  let u := if 0 ≤ scale then num * Nat.pow 10 scale.toNat else num
  let v := if 0 ≤ scale then den else den * Nat.pow 10 (-scale).toNat
  let below := mid * u / v
  let closed := b.mantissa % 2 = 0
  let inside (n : Nat) : Bool :=
    if closed then lo * u ≤ n * v && n * v ≤ hi * u else lo * u < n * v && n * v < hi * u
  let above := below + 1
  let dBelow := mid * u - below * v
  let dAbove := above * v - mid * u
  match inside below && 0 < below, inside above with
  | true, true =>
    if dBelow < dAbove || (dBelow = dAbove && below % 2 = 0) then some below else some above
  | true, false => some below
  | false, true => some above
  | false, false => none

/-- The first grid from `count` digits on that has a point in the interval. -/
def firstGrid (b : Binary) (point : Int) : Nat → Nat → Digits
  | 0, count => ⟨0, count, point⟩
  | fuel + 1, count =>
    match onGrid b point count with
    | some n => if n = Nat.pow 10 count then ⟨1, 1, point + 1⟩ else ⟨n, count, point⟩
    | none => firstGrid b point fuel (count + 1)

/-- The shortest decimal that reads back as the double. -/
def shortest (b : Binary) : Digits :=
  let (num, den) := ratio b.power (4 * b.mantissa)
  firstGrid b (magnitude num den 700 (-330)) 17 1

/-- How the digits of a number are laid out. -/
structure Layout where
  /-- Exponents of the first digit that are written without an exponent. -/
  leastPlain : Int
  greatestPlain : Int
  deriving DecidableEq, Repr

/-- `digits` as exactly `count` characters. -/
def padded (digits count : Nat) : List Char :=
  let ds := Nat.toDigits 10 digits
  List.replicate (count - ds.length) '0' ++ ds

/-- A positive number's text. -/
def Digits.layOut (layout : Layout) (d : Digits) : List Char :=
  let ds := padded d.digits d.count
  let first := d.point - 1
  if layout.leastPlain ≤ first ∧ first ≤ layout.greatestPlain then
    if d.point ≤ 0 then '0' :: '.' :: List.replicate (-d.point).toNat '0' ++ ds
    else if d.count ≤ d.point.toNat then
      ds ++ List.replicate (d.point.toNat - d.count) '0' ++ ['.', '0']
    else ds.take d.point.toNat ++ '.' :: ds.drop d.point.toNat
  else
    let tail := if ds.length ≤ 1 then ds else ds.take 1 ++ '.' :: ds.drop 1
    let sign := if first < 0 then '-' else '+'
    tail ++ 'e' :: sign :: Nat.toDigits 10 first.natAbs

/-- The text of a double. -/
def Double.text (layout : Layout) : Double → String
  | .finite negative b =>
    let body := if b.mantissa = 0 then ['0', '.', '0'] else (shortest b).layOut layout
    String.ofList (if negative then '-' :: body else body)
  | .infinite negative => if negative then "-inf" else "inf"
  | .notANumber => "NaN"

end ComponentRegistry.Decimal
