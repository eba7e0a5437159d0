/-!
# Shortest decimals

The number of a decimal text is the nearest binary number with 53 significant bits, and a binary
number is written with the fewest digits that lead back to it. Everything is computed exactly.
-/

namespace SwiftMacro.Decimal

/-- The number `significand · 2 ^ exponent`. -/
structure Binary where
  significand : Nat
  exponent : Int
deriving DecidableEq, Repr

/-- The number `digits · 10 ^ exponent`. -/
structure Digits where
  digits : Nat
  exponent : Int
deriving DecidableEq, Repr

/-- The least exponent of a binary number. -/
def leastExponent : Int := -1074

/-- The least significand with all 53 bits. -/
def leastFull : Nat := 0x10000000000000

/-- The nearest natural number; halfway between two, the even one. -/
def roundToEven (x : Rat) : Nat :=
  let below := x.floor.toNat
  let rest := x - below
  if rest < 1 / 2 || (rest == 1 / 2 && below % 2 == 0) then below else below + 1

/-- The exponent with which a positive number has 53 significant bits, or the least exponent. -/
def exponentOf (x : Rat) : Int :=
  let width : Int := (Nat.log2 x.num.natAbs : Int) - (Nat.log2 x.den : Int)
  let e := width - 52
  max (if x < (2 : Rat) ^ (e + 52) then e - 1 else e) leastExponent

namespace Binary

def toRat (b : Binary) : Rat := (b.significand : Rat) * (2 : Rat) ^ b.exponent

/-- The nearest binary number to a positive number; `none` if that is too large. -/
def nearest? (x : Rat) : Option Binary :=
  let e := exponentOf x
  let m := roundToEven (x / (2 : Rat) ^ e)
  let b : Binary := if m = 2 * leastFull then ⟨leastFull, e + 1⟩ else ⟨m, e⟩
  if b.toRat < (2 : Rat) ^ (1024 : Int) then some b else none

/-- Whether a number is nearer to `b` than to the binary numbers beside it. The middle between two
belongs to the even one. -/
def owns (b : Binary) (x : Rat) : Bool :=
  let unit := (2 : Rat) ^ b.exponent
  let lower := b.toRat -
    (if b.significand = leastFull && b.exponent > leastExponent then unit / 4 else unit / 2)
  let upper := b.toRat + unit / 2
  if b.significand % 2 == 0 then lower ≤ x && x ≤ upper else lower < x && x < upper

end Binary

/-- The number of digits before the point; zero or less for numbers below one. -/
def magnitude (x : Rat) : Int :=
  if 1 ≤ x then (Nat.toDigits 10 x.floor.toNat).length
  else 1 - ((List.range 400).find? fun j => 1 ≤ x * (10 : Rat) ^ j).getD 0

namespace Digits

def toRat (d : Digits) : Rat := (d.digits : Rat) * (10 : Rat) ^ d.exponent

/-- The decimal with `n` digits that is nearest to a binary number, if that leads back to it. -/
def withCount? (b : Binary) (n : Nat) : Option Digits :=
  let x := b.toRat
  let e := magnitude x - n
  let below : Digits := ⟨(x / (10 : Rat) ^ e).floor.toNat, e⟩
  let above : Digits :=
    if below.digits + 1 = Nat.pow 10 n then ⟨Nat.pow 10 (n - 1), e + 1⟩ else ⟨below.digits + 1, e⟩
  let nearer := if x - below.toRat ≤ above.toRat - x then [below, above] else [above, below]
  nearer.find? fun d => b.owns d.toRat

/-- The shortest decimal that leads back to a binary number. -/
def shortest (b : Binary) : Digits :=
  ((List.range 17).findSome? fun n => withCount? b (n + 1)).getD ⟨0, 0⟩

/-- The decimal without an exponent; it always has a point. -/
def positional (d : Digits) : String :=
  let digits := Nat.toDigits 10 d.digits
  if 0 ≤ d.exponent then
    String.ofList (digits ++ List.replicate d.exponent.toNat '0' ++ ['.', '0'])
  else
    let places := d.exponent.natAbs
    let padded := List.replicate (places + 1 - digits.length) '0' ++ digits
    let whole := padded.length - places
    String.ofList (padded.take whole ++ '.' :: padded.drop whole)

end Digits

/-- Reads a sign: whether it is a minus. -/
def sign : List Char → Bool × List Char
  | '-' :: cs => (true, cs)
  | '+' :: cs => (false, cs)
  | cs => (false, cs)

/-- The value of decimal digits. -/
def ofDigits (cs : List Char) : Nat := cs.foldl (fun n c => 10 * n + (c.toNat - '0'.toNat)) 0

/-- Reads the exponent of a decimal: nothing, or `e`, a sign and digits. -/
def exponent? : List Char → Option Int
  | [] => some 0
  | c :: cs =>
      let (negative, digits) := sign cs
      if (c == 'e' || c == 'E') && !digits.isEmpty && digits.all Char.isDigit then
        let n : Int := ofDigits digits
        some (if negative then -n else n)
      else none

/-- A decimal that is far out of range is cut off there. -/
def clamp (low high n : Int) : Int := max low (min high n)

/-- The number of a decimal text, as its shortest decimal: a sign, digits with or without a point,
and an exponent. `none` if the text is no decimal, or its number is too large. -/
def normalize? (text : List Char) : Option String :=
  let (negative, cs) := sign text
  let whole := cs.takeWhile Char.isDigit
  let rest := cs.drop whole.length
  let (fraction, rest) := match rest with
    | '.' :: more => (more.takeWhile Char.isDigit, more.dropWhile Char.isDigit)
    | _ => ([], rest)
  if whole.isEmpty && fraction.isEmpty then none
  else
    (exponent? rest).bind fun e =>
      let digits := ofDigits (whole ++ fraction)
      let scale := clamp (-2000) 2000 (e + (Nat.toDigits 10 digits).length - fraction.length) -
        (Nat.toDigits 10 digits).length
      let minus := if negative then "-" else ""
      if digits = 0 then some (minus ++ "0.0")
      else
        (Binary.nearest? (Digits.toRat ⟨digits, scale⟩)).map fun b =>
          minus ++ (if b.significand = 0 then "0.0" else (Digits.shortest b).positional)

end SwiftMacro.Decimal
