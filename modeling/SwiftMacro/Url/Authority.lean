import SwiftMacro.Url.Host
/-!
# Where a URL names its host

`hostOf` finds the host of a URL in the text behind `scheme://`. There are three kinds of schemes:
those of the web, which always have a host; `file`, which has a host only for files elsewhere; and
all others.
-/

namespace SwiftMacro

namespace Url

/-- The schemes of the web. -/
def webSchemes : List String := ["http", "https", "ws", "wss", "ftp"]

/-- Whether a character ends the authority. -/
def endsAuthority (c : Char) : Bool := c == '/' || c == '?' || c == '#'

/-- Splits a text at the last occurrence of a character. -/
def splitLast (c : Char) (s : List Char) : Option (List Char × List Char) :=
  if s.contains c then
    let back := (s.reverse.takeWhile (· != c)).reverse
    some (s.take (s.length - back.length - 1), back)
  else none

/-- The authority without user and password, and whether there were any. `more` says whether
anything follows the authority. -/
def dropUser (more : Bool) (authority : List Char) : Except UrlProblem (Bool × List Char) :=
  match splitLast '@' authority with
  | none => .ok (false, authority)
  | some ([], rest) => if rest.isEmpty && more then .error .emptyHost else .ok (false, rest)
  | some (user, rest) => .ok (user != [':'], rest)

/-- Splits host and port at the first colon outside brackets; the port keeps its colon. -/
def splitPort : Bool → List Char → List Char × List Char
  | _, [] => ([], [])
  | inside, c :: cs =>
      if c = ':' && !inside then ([], c :: cs)
      else
        let (host, port) := splitPort ((inside || c == '[') && c != ']') cs
        (c :: host, port)

/-- The largest port. -/
def maxPort : Nat := 65535

/-- Whether a text is empty or a colon and a port; the number may be missing. -/
def isPort : List Char → Bool
  | [] => true
  | _ :: digits =>
      digits.all Char.isDigit && (Ipv4.valueIn? 10 digits).getD (maxPort + 1) ≤ maxPort

/-- The host of a URL of the web, in the text behind the colon and all slashes. -/
def webHost (text : List Char) : Except UrlProblem Host := do
  let authority := text.takeWhile (!endsAuthority ·)
  let (_, rest) ← dropUser (authority.length < text.length) authority
  let (host, port) := splitPort false rest
  if host.isEmpty then throw .emptyHost
  let host ← Host.ofDomain host
  if isPort port then return host else throw .malformed

/-- The host of a URL with another scheme, if it names one. -/
def otherHost (text : List Char) : Except UrlProblem (Option Host) := do
  let authority := text.takeWhile (!endsAuthority ·)
  let (user, rest) ← dropUser (authority.length < text.length) authority
  let (host, port) := splitPort false rest
  let host ← Host.ofWritten host
  if host.isEmpty then
    if user || !port.isEmpty then throw .emptyHost else return none
  else if isPort port then return some host
  else throw .malformed

/-! ## Files -/

/-- Whether a text is a drive letter: `C:` or `C|`. -/
def isDrive : List Char → Bool
  | [letter, mark] => letter.isAlpha && (mark == ':' || mark == '|')
  | _ => false

/-- The spellings of the segments `.` and `..`. -/
def isDot (segment : List Char) : Bool :=
  ["." , "%2e", "%2E"].contains (String.ofList segment)

def isDotDot (segment : List Char) : Bool :=
  ["..", "%2e%2e", "%2e%2E", "%2E%2e", "%2E%2E", "%2e.", "%2E.", ".%2e", ".%2E"].contains
    (String.ofList segment)

/-- Whether a path starts with a drive letter, once its dot segments are resolved. `depth` is the
number of segments so far. -/
def startsWithDrive (depth : Nat) : List (List Char) → Bool
  | [] => false
  | segment :: segments =>
      if isDotDot segment then startsWithDrive (depth - 1) segments
      else if isDot segment then startsWithDrive depth segments
      else (depth == 0 && isDrive segment) || startsWithDrive (depth + 1) segments

/-- The host of a file URL, in the text behind `file://`. There is none when its place is empty or
holds a drive letter, when it is `localhost`, and when the path starts with a drive letter. -/
def fileHost (text : List Char) : Except UrlProblem (Option Host) := do
  let written := text.takeWhile (!endsAuthority ·)
  if written.isEmpty || isDrive written then return none
  let host ← Host.ofDomain written
  if host = .domain "localhost".toList then return none
  let path := (text.drop written.length).takeWhile fun c => c != '?' && c != '#'
  if startsWithDrive 0 (Text.splitOn '/' (path.drop 1)) then return none
  return some host

/-- The host of a URL, from its scheme in lower case and the text behind `scheme://`; `none` for a
URL that names no host. -/
def hostOf (scheme : String) (text : List Char) : Except UrlProblem (Option Host) :=
  if webSchemes.contains scheme then (webHost (text.dropWhile (· == '/'))).map some
  else if scheme = "file" then fileHost text
  else otherHost text

end Url
end SwiftMacro
