/-!
# Escapes in string literals

`escape` writes a character so that it can stand between the quotes of a string literal, and
`unescape` resolves the escapes of such a text again.
-/

namespace SwiftMacro.Text

/-- The value of a hexadecimal digit. -/
def hexDigit? (c : Char) : Option Nat :=
  if '0' ≤ c ∧ c ≤ '9' then some (c.toNat - '0'.toNat)
  else if 'a' ≤ c ∧ c ≤ 'f' then some (c.toNat - 'a'.toNat + 10)
  else if 'A' ≤ c ∧ c ≤ 'F' then some (c.toNat - 'A'.toNat + 10)
  else none

/-- The number that hexadecimal digits stand for, continuing from `n`. -/
def hexFrom? (n : Nat) : List Char → Option Nat
  | [] => some n
  | c :: cs => (hexDigit? c).bind fun d => hexFrom? (16 * n + d) cs

/-- The character that hexadecimal digits stand for; surrogates and numbers above `10FFFF` stand for
none. -/
def scalar? (digits : List Char) : Option Char :=
  if digits.isEmpty then none
  else (hexFrom? 0 digits).bind fun n => if n.isValidChar then some (Char.ofNat n) else none

/-- The character that a one-letter escape stands for. -/
def simpleEscape? : Char → Option Char
  | 'n' => some '\n'
  | 't' => some '\t'
  | 'r' => some '\r'
  | '0' => some '\x00'
  | '"' => some '"'
  | '\'' => some '\''
  | '\\' => some '\\'
  | _ => none

/-- Resolves the escapes of a text; `none` when one of them stands for no character. -/
def unescape : List Char → Option (List Char)
  | [] => some []
  | '\\' :: 'u' :: '{' :: rest =>
      match scalar? (rest.takeWhile (· != '}')) with
      | none => none
      | some c => (unescape ((rest.dropWhile (· != '}')).drop 1)).map (c :: ·)
  | '\\' :: c :: rest =>
      match simpleEscape? c with
      | none => none
      | some d => (unescape rest).map (d :: ·)
  | c :: rest => if c = '\\' then none else (unescape rest).map (c :: ·)
termination_by s => s.length
decreasing_by
  all_goals simp only [List.length_cons, List.length_drop]
  · have : (rest.dropWhile (· != '}')).length ≤ rest.length :=
      (List.dropWhile_sublist _).length_le
    omega
  · omega
  · omega

@[simp] theorem unescape_nil : unescape [] = some [] := by rw [unescape]

/-- The control characters: those below space, and from delete up to `9F`. -/
def isControl (c : Char) : Bool := c.toNat < 0x20 || (0x7f ≤ c.toNat && c.toNat < 0xa0)

/-- The digits of a number in base 16, in small letters. -/
def hexDigits (n : Nat) : List Char := Nat.toDigits 16 n

/-- A character as it stands in a string literal: quotes, backslashes and control characters are
escaped. -/
def escape (c : Char) : List Char :=
  if c = '"' then ['\\', '"']
  else if c = '\\' then ['\\', '\\']
  else if c = '\n' then ['\\', 'n']
  else if c = '\t' then ['\\', 't']
  else if c = '\r' then ['\\', 'r']
  else if c = '\x00' then ['\\', '0']
  else if isControl c then ['\\', 'u', '{'] ++ hexDigits c.toNat ++ ['}']
  else [c]

end SwiftMacro.Text
