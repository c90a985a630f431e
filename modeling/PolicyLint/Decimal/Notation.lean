import PolicyLint.Decimal.Binary64

/-!
# Decimal notation

`Decimal.ofChars?` reads a number written with digits, at most one point and at most one
exponent : `12`, `1.5`, `.5`, `5.`, `1e3`. There must be a digit before the exponent, and one
in it.
-/

namespace PolicyLint

/-- The decimal `± digits · 10 ^ exponent`. -/
structure Decimal where
  negative : Bool
  digits : Nat
  exponent : Int
deriving DecidableEq, Repr

namespace Decimal

/-- The number that decimal digits spell. -/
def natOfDigits (digits : List Char) : Nat :=
  Nat.ofDigitChars 10 digits 0

/-- The exponent that stands at the end of a number, 0 if nothing does. -/
def exponent? : List Char → Option Int
  | [] => some 0
  | c :: text =>
    if c == 'e' || c == 'E' then
      let (isNegative, digits) := match text with
        | '-' :: text => (true, text)
        | '+' :: text => (false, text)
        | text => (false, text)
      if digits.isEmpty || !digits.all Char.isDigit then none
      else
        let n : Int := natOfDigits digits
        some (if isNegative then -n else n)
    else none

/-- A number without a sign. -/
def ofUnsigned? (negative : Bool) (text : List Char) : Option Decimal := do
  let whole := text.takeWhile Char.isDigit
  let rest := text.drop whole.length
  let (fraction, rest) := match rest with
    | '.' :: rest =>
      let fraction := rest.takeWhile Char.isDigit
      (fraction, rest.drop fraction.length)
    | rest => ([], rest)
  if whole.isEmpty && fraction.isEmpty then none
  let exponent ← exponent? rest
  some ⟨negative, natOfDigits (whole ++ fraction), exponent - fraction.length⟩

/-- A number with or without a sign. -/
def ofChars? : List Char → Option Decimal
  | '-' :: text => ofUnsigned? true text
  | '+' :: text => ofUnsigned? false text
  | text => ofUnsigned? false text

/-- The binary number nearest to a decimal, unless that is too large. -/
def toBinary64? (x : Decimal) : Option Binary64 :=
  Binary64.ofDecimal? x.negative x.digits x.exponent

end Decimal

end PolicyLint
