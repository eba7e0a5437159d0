import SwiftMacro.Text.Blank
import SwiftMacro.Text.Escape
/-!
# Network addresses

Which texts are IPv4 and IPv6 addresses in the place of a host.
-/

namespace SwiftMacro

namespace Ipv4

/-- The value of digits in a base of at most 16. -/
def valueIn? (base : Nat) (digits : List Char) : Option Nat :=
  digits.foldl (fun n c => n.bind fun n =>
    (Text.hexDigit? c).bind fun d => if d < base then some (n * base + d) else none) (some 0)

/-- A part of an address: decimal, octal behind `0`, hexadecimal behind `0x`. A `0x` alone is zero. -/
def number? (part : List Char) : Option Nat :=
  match part with
  | [] => none
  | '0' :: 'x' :: digits | '0' :: 'X' :: digits => valueIn? 16 digits
  | '0' :: d :: digits => valueIn? 8 (d :: digits)
  | digits => valueIn? 10 digits

/-- Whether a host has to be read as an address: its last label, not counting one empty label at the
end, is a number. -/
def endsInNumber (host : List Char) : Bool :=
  let labels := (Text.splitOn '.' host).reverse
  let last := match labels with
    | [] :: label :: _ => label
    | label :: _ => label
    | [] => []
  (!last.isEmpty && last.all Char.isDigit) || (number? last).isSome

/-- Whether a text is an address: at most four numbers, where the last one fills what the others
leave of 32 bits. One empty part at the end is dropped. -/
def isAddress (host : List Char) : Bool :=
  let parts := Text.splitOn '.' host
  let parts := if parts.getLast? = some [] then parts.dropLast else parts
  match parts.mapM number? with
  | none => false
  | some numbers =>
      numbers.length ≤ 4 && numbers.dropLast.all (· ≤ 255) &&
        match numbers.getLast? with
        | none => false
        | some last => last < Nat.pow 256 (5 - numbers.length)

end Ipv4

namespace Ipv6

/-- A decimal number of at most 255 without leading zeros, as it stands in the last 32 bits. -/
def isOctet (part : List Char) : Bool :=
  !part.isEmpty && part.all Char.isDigit && (part.length == 1 || part.head? != some '0') &&
    part.length ≤ 3 && (Ipv4.valueIn? 10 part).getD 256 ≤ 255

/-- Four numbers with dots between them. -/
def isDotted (s : List Char) : Bool :=
  let parts := Text.splitOn '.' s
  parts.length == 4 && parts.all isOctet

/-- One to four hexadecimal digits. -/
def isPiece (part : List Char) : Bool :=
  !part.isEmpty && part.length ≤ 4 && part.all fun c => (Text.hexDigit? c).isSome

/-- The number of 16-bit pieces of a part of an address, where the last one may be a dotted address
of two; `none` if it is malformed. -/
def pieces? (last : Bool) (s : List Char) : Option Nat :=
  if s.isEmpty then some 0
  else
    let parts := Text.splitOn ':' s
    if parts.all isPiece then some parts.length
    else if last && parts.dropLast.all isPiece && isDotted (parts.getLastD []) then
      some (parts.length + 1)
    else none

/-- Splits a text at the first `::`. -/
def splitDouble : List Char → Option (List Char × List Char)
  | [] => none
  | ':' :: ':' :: rest => some ([], rest)
  | c :: rest => (splitDouble rest).map fun (front, back) => (c :: front, back)

/-- Whether a text is an address: eight pieces, or fewer with one `::` for those that are missing. -/
def isAddress (s : List Char) : Bool :=
  match splitDouble s with
  | none => pieces? true s == some 8
  | some (front, back) =>
      match pieces? false front, pieces? true back with
      | some m, some n => m + n ≤ 7
      | _, _ => false

end Ipv6
end SwiftMacro
