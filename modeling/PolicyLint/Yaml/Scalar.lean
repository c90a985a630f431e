import PolicyLint.Decimal.Notation
import PolicyLint.Yaml.Node

/-!
# The value of a scalar

`Scalar.atom?` reads the value of a scalar from its tag and its text. A plain scalar without a
tag is a null, a truth value or a number if it is written like one, and text otherwise; a
quoted one is text; a tag of the core schema forces its type, and a type of the application
has no value here.

A whole number is a number of 64 bits, signed or not. One that needs up to 128 bits has no
value, and beyond that it is read as a floating point number.
-/

namespace PolicyLint.Yaml

/-- A whole number as it is written : with a minus or without, which tells `-0` from `0`. -/
structure Whole where
  hasMinus : Bool
  magnitude : Nat
deriving DecidableEq, Repr

namespace Whole

/-- The value of a number. -/
def toInt (n : Whole) : Int :=
  if n.hasMinus then -n.magnitude else n.magnitude

/-- Whether a number fits into `bits` bits, which are signed if it has a minus. -/
def fits (bits : Nat) (n : Whole) : Bool :=
  if n.hasMinus then n.magnitude ≤ Nat.pow 2 (bits - 1) else n.magnitude < Nat.pow 2 bits

end Whole

/-- The value of a scalar. A floating point number may be an infinity or no number at all,
which is `irregular`. -/
inductive Atom
  | null
  | boolean (value : Bool)
  | whole (value : Whole)
  | float (value : Binary64)
  | irregular
  | text (value : String)
deriving DecidableEq, Repr

namespace Atom

/-! ## Null and truth values -/

/-- Whether a text is one of the words for null. -/
def isNull (text : String) : Bool :=
  ["null", "Null", "NULL", "~"].contains text

/-- The truth value that a text is a word for. -/
def boolean? (text : String) : Option Bool :=
  if ["true", "True", "TRUE"].contains text then some true
  else if ["false", "False", "FALSE"].contains text then some false
  else none

/-! ## Whole numbers -/

/-- A sign before a number. -/
def isSign (c : Char) : Bool :=
  c == '+' || c == '-'

/-- The number that digits of a base spell; there must be one. -/
def natOfBase? (base : Nat) (digits : List Char) : Option Nat :=
  if digits.isEmpty then none
  else digits.foldlM (fun n c => do
    let d ← hexDigit? c
    if d < base then some (base * n + d) else none) 0

/-- The base that a number names at its start, and what follows. -/
def base? : List Char → Option (Nat × List Char)
  | '0' :: 'x' :: digits => some (16, digits)
  | '0' :: 'o' :: digits => some (8, digits)
  | '0' :: 'b' :: digits => some (2, digits)
  | _ => none

/-- Whether a text consists of digits, after a sign, with a needless zero at the start. -/
def hasLeadingZero (text : List Char) : Bool :=
  let digits := match text with
    | c :: rest => if isSign c then rest else text
    | [] => text
  1 < digits.length && digits.head? == some '0' && digits.all Char.isDigit

/-- The whole number without its sign, in a base that it may name. -/
def magnitude? (digits : List Char) : Option Nat :=
  match base? digits with
  | some (base, digits) => natOfBase? base digits
  | none => if hasLeadingZero digits then none else natOfBase? 10 digits

/-- The whole number that a text is written as, with at most one sign. -/
def whole? (text : String) : Option Whole :=
  match text.toList with
  | '-' :: digits => (magnitude? digits).map (⟨true, ·⟩)
  | '+' :: digits => (magnitude? digits).map (⟨false, ·⟩)
  | digits => (magnitude? digits).map (⟨false, ·⟩)

/-! ## Floating point numbers -/

/-- The floating point number that a text is written as. It has no more than one sign, and one
that is too large has no value. -/
def float? (text : String) : Option Atom :=
  let chars := text.toList
  let unsigned := match chars with
    | '+' :: rest => if rest.head?.any isSign then [] else rest
    | _ => chars
  if [".inf", ".Inf", ".INF"].contains (String.ofList unsigned)
      || ["-.inf", "-.Inf", "-.INF", ".nan", ".NaN", ".NAN"].contains text then
    some .irregular
  else ((Decimal.ofChars? unsigned).bind Decimal.toBinary64?).map .float

/-! ## Scalars -/

/-- The whole or floating point number that a text is written as, `none` if it is written as
neither. A whole number that has no value gives `some none`. -/
def number? (text : String) : Option (Option Atom) :=
  match whole? text with
  | some n =>
    if n.fits 64 then some (some (.whole n))
    else if n.fits 128 then some none
    else (float? text).map some
  | none =>
    if hasLeadingZero text.toList then none
    else (float? text).map some

/-- The value of a plain scalar. -/
def ofPlain? (text : String) : Option Atom :=
  if text.isEmpty || isNull text then some .null
  else match boolean? text with
    | some value => some (.boolean value)
    | none => (number? text).getD (some (.text text))

/-- The value of a whole number that a tag asks for. -/
def ofInteger? (text : String) : Option Atom := do
  let n ← whole? text
  if n.fits 64 then some (.whole n) else none

end Atom

/-- The value of a scalar, if it has one. -/
def Scalar.atom? (s : Scalar) : Option Atom :=
  match s.tag with
  | .none => if s.isPlain then Atom.ofPlain? s.text else some (.text s.text)
  | .boolean => (Atom.boolean? s.text).map .boolean
  | .integer => Atom.ofInteger? s.text
  | .float => Atom.float? s.text
  | .null => if Atom.isNull s.text then some .null else none
  | .application => none
  | .other => some (.text s.text)

end PolicyLint.Yaml
