import SwiftMacro.Node.Json
import SwiftMacro.Node.Render
import SwiftMacro.Reader
import SwiftMacro.Report
import SwiftMacro.Main
import SwiftMacro.Proofs.RoundTrip
import SwiftMacro.Proofs.Replacement
import SwiftMacro.Proofs.Reprinting
import SwiftMacro.Proofs.Getter
import SwiftMacro.Proofs.Sites
import SwiftMacro.Proofs.Escapes
import SwiftMacro.Proofs.Parts
import SwiftMacro.Proofs.Placement
import SwiftMacro.Proofs.Dispatch
import SwiftMacro.Proofs.Batches
import SwiftMacro.Proofs.SiteOrder
import SwiftMacro.Proofs.Slices
import SwiftMacro.Proofs.Mergeable
import SwiftMacro.Proofs.Runs
import SwiftMacro.Proofs.Accessors
import SwiftMacro.Proofs.StoreWords
import SwiftMacro.Proofs.Agreement
import SwiftMacro.Proofs.Translation
import SwiftMacro.Proofs.Serialized
import SwiftMacro.Proofs.Verdicts
import SwiftMacro.Proofs.WrittenHosts
import SwiftMacro.Proofs.Faults
import SwiftMacro.Proofs.StoredVariables
import SwiftMacro.Proofs.ExpansionLines
import SwiftMacro.Proofs.Misspellings
import SwiftMacro.Proofs.WholeWords
import SwiftMacro.Proofs.Joints
import SwiftMacro.Proofs.Operands
import SwiftMacro.Proofs.Positions
import SwiftMacro.Proofs.TextLiterals
import SwiftMacro.Proofs.Termination
