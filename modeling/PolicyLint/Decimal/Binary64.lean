/-!
# Finite binary floating point numbers

`Binary64` is a finite number of the double format, held exactly as `± m · 2 ^ e`.
`Binary64.ofDecimal?` rounds `± d · 10 ^ k` to the nearest such number, a tie going to the
even neighbour, and is `none` if the number is too large for the format.
-/

namespace PolicyLint

/-- The number `± mantissa · 2 ^ exponent`. The mantissa has 53 bits, or fewer with the least
exponent. -/
structure Binary64 where
  negative : Bool
  mantissa : Nat
  exponent : Int
deriving DecidableEq, Repr

namespace Binary64

/-- The least exponent of the format. -/
def minExponent : Int := -1074

/-- The greatest exponent of the format. -/
def maxExponent : Int := 971

/-- The quotient rounded to the nearest whole number, a tie going to the even one. -/
def divNearestEven (num den : Nat) : Nat :=
  let q := num / den
  let r := 2 * (num % den)
  if r < den then q
  else if den < r then q + 1
  else if q % 2 = 0 then q else q + 1

/-- The two numbers whose quotient is `num / den / 2 ^ e`. -/
def scaleDown (num den : Nat) (e : Int) : Nat × Nat :=
  if 0 ≤ e then (num, den * Nat.pow 2 e.toNat) else (num * Nat.pow 2 (-e).toNat, den)

/-- The exponent for which the quotient, scaled down by it, has 53 bits before the point; the
least exponent if it would be smaller. -/
def exponentOf (num den : Nat) : Int :=
  let e : Int := (num.log2 : Int) - den.log2 - 52
  let (n, d) := scaleDown num den e
  max minExponent (if n / d < Nat.pow 2 52 then e - 1 else e)

/-- The number nearest to `± num / den`, unless that is too large. -/
def ofRatio? (negative : Bool) (num den : Nat) : Option Binary64 :=
  if num = 0 then some ⟨negative, 0, minExponent⟩
  else
    let e := exponentOf num den
    let (n, d) := scaleDown num den e
    let m := divNearestEven n d
    let (m, e) := if m = Nat.pow 2 53 then (Nat.pow 2 52, e + 1) else (m, e)
    if maxExponent < e then none else some ⟨negative, m, e⟩

/-- The number nearest to `± d · 10 ^ k`, unless that is too large. Powers that would take it
far outside the format are not computed. -/
def ofDecimal? (negative : Bool) (d : Nat) (k : Int) : Option Binary64 :=
  let magnitude : Int := (Nat.toDigits 10 d).length + k
  if d = 0 || magnitude < -330 then some ⟨negative, 0, minExponent⟩
  else if 310 < magnitude then none
  else if 0 ≤ k then ofRatio? negative (d * Nat.pow 10 k.toNat) 1
  else ofRatio? negative d (Nat.pow 10 (-k).toNat)

end Binary64

end PolicyLint
