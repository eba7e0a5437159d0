import SwiftMacro.Json
import SwiftMacro.Span
/-!
# Why a macro use is rejected

A failure is a cause. Its wording, its stable code and the label put on the source are functions of
the cause.
-/

namespace SwiftMacro

/-- Everything a macro use can be rejected for. -/
inductive Failure where
  | missingArgument
  | argumentNotString
  | noTypeDefined
  | cannotGetBinding
  | cannotGetVariableName
  | invalidUrl
  | invalidUrlScheme (scheme : String)
  | invalidUrlHost
  | invalidSymbolName (name : String)
deriving DecidableEq, Repr

/-- Whether the form of a macro use is wrong, or what it says. -/
inductive FailureCategory where
  | structural | domain
deriving DecidableEq, Repr

def FailureCategory.name : FailureCategory → String
  | structural => "Structural"
  | domain => "Domain"

namespace Failure

/-- The text for the user. -/
def message : Failure → String
  | missingArgument => "You need to provide the argument in the parameter"
  | argumentNotString => "The argument you provided is not a String"
  | noTypeDefined => "You need to provide the value type as a generic argument"
  | cannotGetBinding => "The declaration must bind exactly one variable"
  | cannotGetVariableName => "The variable must be bound to a simple name"
  | invalidUrl => "Cannot initialize an URL from your provided string"
  | invalidUrlScheme scheme => scheme ++ " is not a supported protocol"
  | invalidUrlHost => "The hostname of this URL is invalid"
  | invalidSymbolName name => "\"" ++ name ++ "\" is not a known SF Symbol name"

/-- The stable code of the cause. -/
def code : Failure → String
  | missingArgument => "missing_argument"
  | argumentNotString => "argument_not_string"
  | noTypeDefined => "no_type_defined"
  | cannotGetBinding => "cannot_get_binding"
  | cannotGetVariableName => "cannot_get_variable_name"
  | invalidUrl => "invalid_url"
  | invalidUrlScheme _ => "invalid_url_scheme"
  | invalidUrlHost => "invalid_url_host"
  | invalidSymbolName _ => "invalid_symbol_name"

def category : Failure → FailureCategory
  | missingArgument | argumentNotString | noTypeDefined | cannotGetBinding
  | cannotGetVariableName => .structural
  | invalidUrl | invalidUrlScheme _ | invalidUrlHost | invalidSymbolName _ => .domain

/-- What the label on the source says. -/
def label : Failure → String
  | missingArgument => "argument missing here"
  | argumentNotString => "expected a plain string literal"
  | noTypeDefined => "generic argument missing here"
  | cannotGetBinding => "expected a single binding"
  | cannotGetVariableName => "expected an identifier"
  | invalidUrl => "not a URL"
  | invalidUrlScheme _ => "unsupported scheme"
  | invalidUrlHost => "missing or empty host"
  | invalidSymbolName _ => "unknown symbol"

def toJson (f : Failure) : Json :=
  match f with
  | invalidUrlScheme scheme => .obj [("kind", .str f.code), ("scheme", .str scheme)]
  | invalidSymbolName name => .obj [("kind", .str f.code), ("name", .str name)]
  | _ => .obj [("kind", .str f.code)]

end Failure

/-- A failure and the span of the node at fault. -/
structure Rejection where
  failure : Failure
  span : Span
deriving DecidableEq, Repr

end SwiftMacro
