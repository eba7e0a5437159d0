import SwiftMacro.Url.Address
import SwiftMacro.Url.Domain
/-!
# Hosts

The host of a URL with one of the schemes of the web is a domain name or an address. Other schemes
take any text without the characters that separate the parts of a URL.
-/

namespace SwiftMacro

/-- Why a URL has no host that can be read. -/
inductive UrlProblem where
  /-- The place of the host is empty. -/
  | emptyHost
  | malformed
deriving DecidableEq, Repr

/-- The host of a URL. -/
inductive Host where
  /-- A domain name in normal form. -/
  | domain (name : List Char)
  | ipv4 (text : List Char)
  | ipv6 (text : List Char)
  /-- A host as it was written. -/
  | written (text : List Char)
deriving DecidableEq, Repr

namespace Host

/-- Two hexadecimal digits as a byte. -/
def byte? (a b : UInt8) : Option UInt8 :=
  (Text.hexDigit? (Char.ofNat a.toNat)).bind fun x =>
    (Text.hexDigit? (Char.ofNat b.toNat)).map fun y => UInt8.ofNat (16 * x + y)

/-- Replaces `%` and two hexadecimal digits by the byte they stand for. -/
def percentDecode : List UInt8 → List UInt8
  | [] => []
  | c :: a :: b :: rest =>
      if c = 0x25 then
        match byte? a b with
        | some byte => byte :: percentDecode rest
        | none => c :: percentDecode (a :: b :: rest)
      else c :: percentDecode (a :: b :: rest)
  | c :: rest => c :: percentDecode rest

/-- The text behind the percent signs of a host; `none` if it is no UTF-8. -/
def unquote? (s : List Char) : Option (List Char) :=
  (String.fromUTF8? ⟨(percentDecode (String.ofList s).toUTF8.toList).toArray⟩).map String.toList

/-- The text between brackets, if a text starts with one. -/
def bracketed? (s : List Char) : Option (List Char) :=
  match s with
  | '[' :: rest => some rest
  | _ => none

/-- The address in brackets, without the opening one. -/
def ofBrackets (rest : List Char) : Except UrlProblem Host :=
  if rest.getLast? = some ']' && Ipv6.isAddress rest.dropLast then .ok (.ipv6 rest.dropLast)
  else .error .malformed

/-- The host of a URL of the web. -/
def ofDomain (s : List Char) : Except UrlProblem Host :=
  match bracketed? s with
  | some rest => ofBrackets rest
  | none =>
      match (unquote? s).bind Domain.normalize? with
      | none => .error .malformed
      | some [] => .error .emptyHost
      | some name =>
          if Ipv4.endsInNumber name then
            if Ipv4.isAddress name then .ok (.ipv4 name) else .error .malformed
          else .ok (.domain name)

/-- The characters that no host of another scheme contains. -/
def isSeparator (c : Char) : Bool := "\x00\t\n\r #/:<>?@[\\]^|".toList.contains c

/-- The host of a URL with any other scheme. -/
def ofWritten (s : List Char) : Except UrlProblem Host :=
  match bracketed? s with
  | some rest => ofBrackets rest
  | none => if s.any isSeparator then .error .malformed else .ok (.written s)

/-- Whether the text of a host is empty. -/
def isEmpty : Host → Bool
  | domain name => name.isEmpty
  | written text => text.isEmpty
  | ipv4 _ | ipv6 _ => false

end Host
end SwiftMacro
