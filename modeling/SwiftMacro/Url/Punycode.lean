/-!
# Punycode

`Punycode.decode?` reads the ASCII form of a label: the characters before the last hyphen stand for
themselves, and the digits behind it say which other characters are inserted where.
-/

namespace SwiftMacro.Punycode

/-- The value of a digit: `a` to `z` are 0 to 25, `0` to `9` are 26 to 35. -/
def digit? (c : Char) : Option Nat :=
  if 'a' ≤ c ∧ c ≤ 'z' then some (c.toNat - 'a'.toNat)
  else if 'A' ≤ c ∧ c ≤ 'Z' then some (c.toNat - 'A'.toNat)
  else if '0' ≤ c ∧ c ≤ '9' then some (c.toNat - '0'.toNat + 26)
  else none

/-- The number of digits. -/
def base : Nat := 36

/-- The threshold at the place `k` of a number, between 1 and 26. -/
def threshold (k bias : Nat) : Nat := min (max (k - bias) 1) 26

/-- Scales a difference down while it is large, and counts the steps in units of the base. -/
def scale (delta k : Nat) : Nat × Nat :=
  if 455 < delta then scale (delta / 35) (k + base) else (delta, k)
termination_by delta
decreasing_by exact Nat.div_lt_self (by omega) (by omega)

/-- The bias for the next number. -/
def adapt (delta count : Nat) (first : Bool) : Nat :=
  let delta := if first then delta / 700 else delta / 2
  let (delta, k) := scale (delta + delta / count) 0
  k + base * delta / (delta + 38)

/-- Numbers have to stay below this. -/
def limit : Nat := 0x100000000

/-- The state of decoding: the characters so far, the last one inserted, where the next one goes, and
the number being read (`index` with its last digit at the place `k` of weight `weight`; it started
from `start`). -/
structure State where
  output : List Char
  code : Nat
  bias : Nat
  start : Nat
  index : Nat
  weight : Nat
  k : Nat

/-- Puts the next character in, once its number is complete. -/
def State.insert? (s : State) : Option State :=
  let count := s.output.length + 1
  let code := s.code + s.index / count
  let place := s.index % count
  if code.isValidChar then
    some { output := s.output.insertIdx place (Char.ofNat code)
           code
           bias := adapt (s.index - s.start) count (s.start == 0)
           start := place + 1
           index := place + 1
           weight := 1
           k := base }
  else none

/-- Reads one digit. -/
def State.digit? (s : State) (c : Char) : Option State :=
  (Punycode.digit? c).bind fun d =>
    let index := s.index + d * s.weight
    let t := threshold s.k s.bias
    if limit ≤ index then none
    else if d < t then { s with index }.insert?
    else
      let weight := s.weight * (base - t)
      if limit ≤ weight then none else some { s with index, weight, k := s.k + base }

/-- Reads all digits; the last number has to be complete. -/
def State.digits? (s : State) : List Char → Option State
  | [] => if s.weight = 1 ∧ s.k = base then some s else none
  | c :: cs => (s.digit? c).bind fun s => s.digits? cs

/-- Splits a text at its last hyphen. A hyphen at the very start is part of the digits. -/
def split (s : List Char) : List Char × List Char :=
  let digits := (s.reverse.takeWhile (· != '-')).reverse
  let front := s.take (s.length - digits.length)
  if front.length ≤ 1 then ([], s) else (front.dropLast, digits)

/-- Reads the ASCII form of a label, without its leading `xn--`. -/
def decode? (s : List Char) : Option (List Char) :=
  let (plain, digits) := split s
  let start : State := ⟨plain, 128, 72, 0, 0, 1, base⟩
  (start.digits? digits).map (·.output)

end SwiftMacro.Punycode
