import SwiftMacro.Diagnostic
import SwiftMacro.Macro.Standard
/-!
# Expanding sites

A site is handed to the macro with its name. A rejection fails only its own site and leaves one
diagnostic; a name that is not registered, or used in the wrong role, is an error of whoever made the
site: it leaves no diagnostic and ends the batch.
-/

namespace SwiftMacro

/-- What an expansion makes. -/
inductive Expansion where
  | expression (node : Node)
  /-- The accessors of a variable; none where the macro does not apply. -/
  | accessors (nodes : List Node)

namespace Expansion

/-- The canonical text; accessors stand in lines of their own. -/
def render : Expansion → String
  | expression node => node.render
  | accessors nodes => joinWith "\n" (nodes.map Node.render)

end Expansion

/-- Why a site has no expansion. -/
inductive ExpansionError where
  | rejected (macroName : String) (failure : Failure)
  | unknownMacro (name : String)
  | roleMismatch (name : String) (expected found : Role)
deriving DecidableEq, Repr

namespace ExpansionError

/-- Whether the error ends a batch. -/
def isFatal : ExpansionError → Bool
  | rejected _ _ => false
  | _ => true

def failure? : ExpansionError → Option Failure
  | rejected _ failure => some failure
  | _ => none

def message : ExpansionError → String
  | rejected macroName failure => macroName ++ ": " ++ failure.message
  | unknownMacro name => "no macro named '" ++ name ++ "' is registered"
  | roleMismatch name expected found =>
      "macro '" ++ name ++ "' is an " ++ expected.name ++ " macro but was used as an " ++
        found.name ++ " macro"

def code : ExpansionError → String
  | rejected _ _ => "sigil::expansion::rejected"
  | unknownMacro _ => "sigil::expansion::unknown_macro"
  | roleMismatch _ _ _ => "sigil::expansion::role_mismatch"

def help? : ExpansionError → Option String
  | unknownMacro _ => some "run `sigil list-macros` to see the available macros"
  | _ => none

end ExpansionError

/-- The diagnostic about a rejected site. -/
def Site.diagnostic (s : Site) (r : Rejection) : Diagnostic :=
  ⟨s.macroName, r.failure, r.span, some s.source⟩

/-- Runs the macro of a site, without saying anything about it. -/
def Site.run (site : Site) (registry : Registry) (services : Services) :
    Except ExpansionError (Except Rejection Expansion) :=
  match registry.lookup? site.macroName with
  | none => .error (.unknownMacro site.macroName)
  | some entry =>
      match entry.handler, site.role with
      | .expression run, .expression => .ok ((run site services).map .expression)
      | .accessor run, .accessor => .ok ((run site services).map .accessors)
      | handler, found => .error (.roleMismatch site.macroName handler.role found)

/-- Expands a site. The diagnostics so far come back, with one more if the site is rejected. -/
def Site.expand (site : Site) (registry : Registry) (services : Services)
    (diagnostics : List Diagnostic) : Except ExpansionError Expansion × List Diagnostic :=
  match site.run registry services with
  | .error e => (.error e, diagnostics)
  | .ok (.ok expansion) => (.ok expansion, diagnostics)
  | .ok (.error rejection) =>
      (.error (.rejected site.macroName rejection.failure),
        diagnostics ++ [site.diagnostic rejection])

/-- What became of a site in a batch. -/
structure SiteOutcome where
  site : Site
  result : Except ExpansionError Expansion
  diagnostics : List Diagnostic

namespace SiteOutcome

def isSuccess (o : SiteOutcome) : Bool :=
  match o.result with
  | .ok _ => true
  | .error _ => false

end SiteOutcome

/-- Expands a site with diagnostics of its own; an error only if it ends the batch. -/
def Site.outcome (site : Site) (registry : Registry) (services : Services) :
    Except ExpansionError SiteOutcome :=
  match site.expand registry services [] with
  | (.error e, diagnostics) =>
      if e.isFatal then .error e else .ok ⟨site, .error e, diagnostics⟩
  | (.ok expansion, diagnostics) => .ok ⟨site, .ok expansion, diagnostics⟩

/-- Expands sites one after the other and stops at the first error that ends the batch. -/
def expandAll (registry : Registry) (services : Services) :
    List Site → Except ExpansionError (List SiteOutcome)
  | [] => .ok []
  | site :: sites =>
      match site.outcome registry services with
      | .error e => .error e
      | .ok outcome =>
          match expandAll registry services sites with
          | .error e => .error e
          | .ok outcomes => .ok (outcome :: outcomes)

/-- The values of a list of results, or the error that comes first in it. -/
def collect {ε α : Type} : List (Except ε α) → Except ε (List α)
  | [] => .ok []
  | .error e :: _ => .error e
  | .ok a :: results =>
      match collect results with
      | .error e => .error e
      | .ok as => .ok (a :: as)

/-- Expands every site on its own and picks the results up afterwards. -/
def expandAllParallel (registry : Registry) (services : Services) (sites : List Site) :
    Except ExpansionError (List SiteOutcome) :=
  collect (sites.map fun site => site.outcome registry services)

end SwiftMacro
