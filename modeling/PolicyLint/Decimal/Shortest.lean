import PolicyLint.Decimal.Binary64

/-!
# The shortest decimal that reads back

`Binary64.shortest` is the decimal with the fewest digits that rounds back to a number, and of
several such the nearest. It tries one digit, two digits, and so on up to 17. On the grid of
decimals with so many digits only the two neighbours of the number need a test : if any point
of the grid lies in the interval of reals that round to the number, one of these does.

`Binary64.text` writes it with a point : in positional notation if the first digit stands
between the fifth place after the point and the sixteenth before it, otherwise with an
exponent.
-/

namespace PolicyLint.Binary64

/-! ## Digits -/

/-- The whole number part of the common logarithm of a quotient. -/
def logTen (num den : Nat) : Int :=
  if den ≤ num then ((Nat.toDigits 10 (num / den)).length : Int) - 1
  else
    let least := (den + num - 1) / num
    Int.negOfNat (Nat.toDigits 10 (least - 1)).length

/-- A positive number as a quotient. -/
def ratio (x : Binary64) : Nat × Nat :=
  if 0 ≤ x.exponent then (x.mantissa * Nat.pow 2 x.exponent.toNat, 1)
  else (x.mantissa, Nat.pow 2 (-x.exponent).toNat)

/-- Whether the quotient `num / den` rounds to the positive number `x` : it lies between the
middles to the two neighbours, which count if the mantissa is even. In units of a quarter of
the last place, the upper middle is 2 above, and the lower one 2 below, or 1 below where the
lower neighbour has a smaller exponent. -/
def roundsTo (x : Binary64) (num den : Nat) : Bool :=
  let (xn, xd) := { x with mantissa := 1 }.ratio
  let below := if x.mantissa = Nat.pow 2 52 ∧ minExponent < x.exponent then 1 else 2
  let low := (4 * x.mantissa - below) * xn * den
  let high := (4 * x.mantissa + 2) * xn * den
  let here := 4 * num * xd
  if x.mantissa % 2 = 0 then low ≤ here && here ≤ high else low < here && here < high

/-- The multiple of `10 ^ k` nearest to the positive number `x`, as a factor of that power, if
it or the neighbour on the other side of `x` rounds to `x`. A tie goes to the even factor. -/
def onGrid? (x : Binary64) (k : Int) : Option Nat :=
  let (num, den) := x.ratio
  let (num, den) :=
    if 0 ≤ k then (num, den * Nat.pow 10 k.toNat) else (num * Nat.pow 10 (-k).toNat, den)
  let (unitNum, unitDen) := if 0 ≤ k then (Nat.pow 10 k.toNat, 1) else (1, Nat.pow 10 (-k).toNat)
  let isHit (f : Nat) := x.roundsTo (f * unitNum) unitDen
  let near := divNearestEven num den
  let far := if near = num / den then near + 1 else num / den
  if isHit near then some near else if isHit far then some far else none

/-- The shortest decimal that rounds to the positive number `x`, as a factor and a power of
ten. -/
def shortest (x : Binary64) : Nat × Int :=
  let (num, den) := x.ratio
  let top := logTen num den
  let grids := (List.range 17).map fun (n : Nat) => top - n
  match grids.findSome? fun k => (x.onGrid? k).map fun f => (f, k) with
  | some found => found
  | none => (x.mantissa, 0)

/-! ## Text -/

/-- The text of an exponent with its sign. -/
def exponentText (e : Int) : String :=
  (if e < 0 then "e-" else "e+") ++ toString e.natAbs

/-- The text of a positive decimal with the digits `digits`, which do not start with a zero,
of which the first counts `10 ^ e`. -/
def decimalText (digits : List Char) (e : Int) : String :=
  let text :=
    if 0 ≤ e ∧ e < 16 then
      let whole := e.toNat + 1
      let tail := digits.drop whole
      digits.take whole ++ List.replicate (whole - digits.length) '0' ++
        '.' :: (if tail.isEmpty then ['0'] else tail)
    else if -5 ≤ e ∧ e < 0 then
      '0' :: '.' :: List.replicate ((-e).toNat - 1) '0' ++ digits
    else
      let tail := digits.drop 1
      digits.take 1 ++ (if tail.isEmpty then [] else '.' :: tail) ++ (exponentText e).toList
  String.ofList text

/-- The text of a number. -/
def text (x : Binary64) : String :=
  let sign := if x.negative then "-" else ""
  if x.mantissa = 0 then sign ++ "0.0"
  else
    let (f, k) := x.shortest
    let digits := Nat.toDigits 10 f
    let significant := (digits.reverse.dropWhile (· == '0')).reverse
    sign ++ decimalText significant (k + digits.length - 1)

end PolicyLint.Binary64
