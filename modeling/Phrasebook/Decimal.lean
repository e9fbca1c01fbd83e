/-!
# The decimal of a binary64 value

`Binary.shortest` finds the decimal with the fewest digits that reads back to a given value, and
of those the nearest to it. Everything is exact arithmetic on naturals: with `4 * significand` as
the unit, the numbers that round to the value lie between two integers, and the grids of decimals
are tried from coarse to fine.

A finite value is written with its shortest digits: positionally, with at least one digit on each
side of the point, from 1e-5 up to below 1e16, and otherwise with an exponent that always has its
sign.
-/

namespace Phrasebook.Decimal

/-- The positive value `significand * 2 ^ exponent`. -/
structure Binary where
  significand : Nat
  exponent : Int
  /-- The gap to the value below is half the gap to the value above. -/
  narrowBelow : Bool
  deriving DecidableEq, Repr

/-- The decimal `digits * 10 ^ exponent`. -/
structure Scaled where
  digits : Nat
  exponent : Int
  deriving DecidableEq, Repr

namespace Binary

/-- The magnitude of a finite binary64 value, from its bits. -/
def ofBits (bits : UInt64) : Binary :=
  let biased : Nat := (bits.toNat / Nat.pow 2 52) % Nat.pow 2 11
  let fraction : Nat := bits.toNat % Nat.pow 2 52
  if biased = 0 then ⟨fraction, -1074, false⟩
  else ⟨Nat.pow 2 52 + fraction, (biased : Int) - 1075, fraction == 0 && 1 < biased⟩

/-- The lower end of the numbers that round to `v`, in quarters of `2 ^ v.exponent`. -/
def lower (v : Binary) : Nat := 4 * v.significand - if v.narrowBelow then 1 else 2

/-- The upper end of the numbers that round to `v`, in quarters of `2 ^ v.exponent`. -/
def upper (v : Binary) : Nat := 4 * v.significand + 2

/-- What a step of the grid `10 ^ e` and a quarter of `2 ^ v.exponent` weigh against each other. -/
def weights (v : Binary) (e : Int) : Nat × Nat :=
  (Nat.pow 10 e.toNat * Nat.pow 2 (2 - v.exponent).toNat,
    Nat.pow 2 (v.exponent - 2).toNat * Nat.pow 10 (-e).toNat)

/-- `d * 10 ^ e` reads back to `v`; the ends count when the significand is even. -/
def readsBack (v : Binary) (d : Nat) (e : Int) : Bool :=
  let (step, quarter) := v.weights e
  let point := d * step
  if v.significand % 2 = 0 then v.lower * quarter ≤ point && point ≤ v.upper * quarter
  else v.lower * quarter < point && point < v.upper * quarter

/-- The point of the grid `10 ^ e` to write for `v`: the nearer of the two around `v` that reads
back, the even one if both are equally near. -/
def nearestOn (v : Binary) (e : Int) : Option Nat :=
  let (step, quarter) := v.weights e
  let value := 4 * v.significand * quarter
  let below := value / step
  match v.readsBack below e, v.readsBack (below + 1) e with
  | false, false => none
  | true, false => some below
  | false, true => some (below + 1)
  | true, true =>
    match compare (2 * value) ((2 * below + 1) * step) with
    | .lt => some below
    | .gt => some (below + 1)
    | .eq => some (if below % 2 = 0 then below else below + 1)

def exact (v : Binary) : Scaled :=
  if 0 ≤ v.exponent then ⟨v.significand * Nat.pow 2 v.exponent.toNat, 0⟩
  else ⟨v.significand * Nat.pow 5 (-v.exponent).toNat, v.exponent⟩

/-- The first hit on the grids `10 ^ e`, `10 ^ (e - 1)`, …; the exact value if there is none. -/
def searchFrom (v : Binary) : Nat → Int → Scaled
  | 0, _ => v.exact
  | grids + 1, e =>
    match v.nearestOn e with
    | some d => ⟨d, e⟩
    | none => v.searchFrom grids (e - 1)

/-- A power of ten just above `v`; `30103 / 100000` is the decimal logarithm of two. -/
def coarsest (v : Binary) : Int :=
  (((v.significand.log2 + 1 : Nat) : Int) + v.exponent) * 30103 / 100000 + 1

/-- The shortest decimal that reads back to `v`. Seventeen digits always do, and the coarsest
grid starts at most two powers of ten above the leading digit. -/
def shortest (v : Binary) : Scaled := v.searchFrom 24 v.coarsest

end Binary

/-! ## Notation -/

/-- Exponents of the leading digit that are written positionally. -/
def positionalFrom : Int := -5

def positionalBelow : Int := 16

/-- A positive number with the given decimal digits, positionally. -/
def positional (digits : List Char) (exponent : Int) : List Char :=
  if 0 ≤ exponent then digits ++ List.replicate exponent.toNat '0' ++ ['.', '0']
  else
    let places := (-exponent).toNat
    if places < digits.length then
      digits.take (digits.length - places) ++ '.' :: digits.drop (digits.length - places)
    else '0' :: '.' :: List.replicate (places - digits.length) '0' ++ digits

/-- A positive number with the given decimal digits, with `leading` as its exponent. -/
def scientific (digits : List Char) (leading : Int) : List Char :=
  let mantissa :=
    match digits with
    | d :: rest => if rest.isEmpty then [d] else d :: '.' :: rest
    | [] => []
  let sign := if leading < 0 then '-' else '+'
  mantissa ++ 'e' :: sign :: Nat.toDigits 10 leading.natAbs

def Scaled.layout (s : Scaled) : List Char :=
  let digits := Nat.toDigits 10 s.digits
  let leading := s.exponent + digits.length - 1
  if positionalFrom ≤ leading ∧ leading < positionalBelow then positional digits s.exponent
  else scientific digits leading

/-- The text of the finite binary64 value with these bits. -/
def text (bits : UInt64) : String :=
  let value := Binary.ofBits bits
  let magnitude := if value.significand = 0 then ['0', '.', '0'] else value.shortest.layout
  String.ofList (if bits.toNat < Nat.pow 2 63 then magnitude else '-' :: magnitude)

example : text (0.1 + 0.2 : Float).toBits = "0.30000000000000004" := by decide +kernel
example : text (1e16 : Float).toBits = "1e+16" := by decide +kernel
example : text (-0.00001 : Float).toBits = "-0.00001" := by decide +kernel
example : text 1 = "5e-324" := by decide +kernel
example : text (1e23 : Float).toBits = "1e+23" := by decide +kernel

end Phrasebook.Decimal
