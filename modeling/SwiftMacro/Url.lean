import SwiftMacro.Url.Authority
import SwiftMacro.Url.Policy
/-!
# Checking URLs

A URL has to be readable, its scheme has to be allowed and its host must not be empty, in this order.
The check asks a reader of URLs (`checkUrlWith`), and `Url.parse` is the reader that is used.
-/

namespace SwiftMacro

namespace Url

/-- The characters of a scheme behind its first one. -/
def isSchemeChar (c : Char) : Bool := c.isAlphanum || c == '+' || c == '-' || c == '.'

/-- The scheme in front of the first colon, and the text behind that. -/
def scheme? (text : List Char) : Option (List Char × List Char) :=
  let scheme := text.takeWhile (· != ':')
  match scheme, text.drop scheme.length with
  | first :: more, _ :: rest =>
      if first.isAlpha && more.all isSchemeChar then some (scheme, rest) else none
  | _, _ => none

/-- The characters that no URL contains: white space, control characters and the backslash. -/
def isExcluded (c : Char) : Bool := Text.isWhitespace c || Text.isControl c || c == '\\'

/-- Whether a text starts with `//`, in front of the place for a host. -/
def opensAuthority : List Char → Bool
  | '/' :: '/' :: _ => true
  | _ => false

/-! ## Readers -/

/-- Why a text is not read as a URL. -/
inductive ParseProblem where
  /-- Without a scheme, a text is a URL only relative to another one. -/
  | relative
  | inHost (problem : UrlProblem)
deriving DecidableEq, Repr

/-- What the check asks of a URL: its scheme, and its host if it names one. -/
structure Parsed where
  scheme : String
  host : Option Host
deriving DecidableEq, Repr

/-- Whether the URL names a host, and the host is not empty. -/
def Parsed.hasHost (url : Parsed) : Bool := url.host.any (!·.isEmpty)

/-- A reader of URLs. -/
abbrev Parser := String → Except ParseProblem Parsed

/-- Reads a URL with `//` behind its scheme, and puts the scheme into lower case. -/
def parse : Parser := fun text =>
  match scheme? text.toList with
  | none => .error .relative
  | some (scheme, rest) =>
      let lower := UrlPolicy.foldCase (String.ofList scheme)
      match hostOf lower (rest.drop 2) with
      | .error problem => .error (.inHost problem)
      | .ok host => .ok ⟨lower, host⟩

end Url

/-! ## The check -/

/-- What stands for the scheme of a text that has none. -/
def missingScheme : String := "?"

namespace UrlPolicy

/-- Refuses a URL without host. The rule about schemes still comes first. -/
def refuseHost (p : UrlPolicy) (scheme : String) : Except Failure Unit := do
  p.check scheme
  throw .invalidUrlHost

/-- Judges what a reader made of a text; `written` is the scheme that the text starts with. -/
def judge (p : UrlPolicy) (written : Option String) :
    Except Url.ParseProblem Url.Parsed → Except Failure Unit
  | .error .relative => .error (.invalidUrlScheme missingScheme)
  | .error (.inHost .emptyHost) => p.refuseHost (written.getD missingScheme)
  | .error (.inHost .malformed) => .error .invalidUrl
  | .ok url => do
      p.check url.scheme
      if url.hasHost then return () else throw .invalidUrlHost

end UrlPolicy

/-- Checks that a text is a URL, that its scheme is allowed and that it has a host. Without `//` behind
the scheme there is no place for a host, even where the reader would find one. -/
def checkUrlWith (parse : Url.Parser) (policy : UrlPolicy) (text : String) : Except Failure Unit :=
  let chars := text.toList
  if chars.isEmpty || chars.any Url.isExcluded then .error .invalidUrl
  else
    match Url.scheme? chars with
    | none => policy.judge none (parse text)
    | some (scheme, rest) =>
        let written := String.ofList scheme
        if Url.opensAuthority rest then policy.judge (some written) (parse text)
        else policy.refuseHost written

/-- Checks a text with the reader of this library. -/
def checkUrl (policy : UrlPolicy) (text : String) : Except Failure Unit :=
  checkUrlWith Url.parse policy text

end SwiftMacro
