import SwiftMacro.Failure
/-!
# Which schemes are allowed

Schemes are compared without regard to the case of ASCII letters.
-/

namespace SwiftMacro

/-- The allowed schemes of URLs. -/
structure UrlPolicy where
  allowedSchemes : List String
deriving DecidableEq, Repr

namespace UrlPolicy

instance : Inhabited UrlPolicy := ⟨⟨["http", "https"]⟩⟩

/-- A text with its ASCII letters in lower case. -/
def foldCase (s : String) : String := String.ofList (s.toList.map Char.toLower)

/-- Whether a scheme is allowed. -/
def allows (p : UrlPolicy) (scheme : String) : Bool :=
  p.allowedSchemes.any fun allowed => foldCase allowed == foldCase scheme

/-- Refuses a scheme that is not allowed. -/
def check (p : UrlPolicy) (scheme : String) : Except Failure Unit :=
  if p.allows scheme then .ok () else .error (.invalidUrlScheme scheme)

end UrlPolicy
end SwiftMacro
