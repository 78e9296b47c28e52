import Schemata.Commands.Execution
import Schemata.Main
import Schemata.Path.Specifier
import Schemata.Proofs.Resolution.Reachability
import Schemata.Proofs.Resolution.Rounds
import Schemata.Statement
import Schemata.Proofs.Resolution.Doom
import Schemata.Proofs.Resolution.Diagnosis
import Schemata.Proofs.Expr.Mentions
import Schemata.Proofs.Compilation.Candidate
import Schemata.Proofs.Resolution.Order
import Schemata.Proofs.Generation.Order
import Schemata.Proofs.Compilation.Preservation
import Schemata.Proofs.Expr.Parts
import Schemata.Proofs.Resolution.Deferral
import Schemata.Proofs.Resolution.Locality
import Schemata.Proofs.Expr.ObjectUse
import Schemata.Proofs.Generation.ObjectUse
import Schemata.Proofs.Expr.Marks
import Schemata.Proofs.Expr.Selection
import Schemata.Proofs.Compilation.Components
import Schemata.Proofs.Compilation.Selection
import Schemata.Proofs.Compilation.References
import Schemata.Proofs.Resolution.Imports
import Schemata.Proofs.Generation.Imports
import Schemata.Proofs.Generation.Comments
import Schemata.Proofs.Expr.Chain
import Schemata.Proofs.Text.Delimited
import Schemata.Proofs.Expr.Unambiguous
import Schemata.Proofs.Generation.Bindings
import Schemata.Proofs.Path.Location
import Schemata.Proofs.Path.Specifier
import Schemata.Proofs.Path.Directory
import Schemata.Proofs.Files.Tree
import Schemata.Proofs.Files.Directories
import Schemata.Proofs.Files.Clearance
import Schemata.Proofs.Files.Run
import Schemata.Proofs.Files.Plan
import Schemata.Proofs.Files.Footprint
import Schemata.Proofs.Files.Schedule
import Schemata.Proofs.Commands.Products
import Schemata.Proofs.Commands.Independence
import Schemata.Proofs.Json.Scalars
import Schemata.Proofs.Json.RoundTrip
import Schemata.Proofs.Config.RoundTrip
import Schemata.Proofs.Expr.Children
import Schemata.Proofs.Expr.Erasure
import Schemata.Proofs.Compilation.Occurrences
import Schemata.Proofs.Compilation.Scope
import Schemata.Proofs.Expr.Renaming
import Schemata.Proofs.Compilation.Renaming
import Schemata.Proofs.Generation.Capture
import Schemata.Proofs.Generation.DeclaredNames
import Schemata.Proofs.Compilation.Keys
import Schemata.Proofs.Compilation.Fields
import Schemata.Proofs.Compilation.Injectivity
import Schemata.Proofs.Compilation.Labels
import Schemata.Proofs.Expr.AnythingUse
import Schemata.Proofs.Compilation.Form
import Schemata.Proofs.Compilation.ObjectOperands
import Schemata.Proofs.Generation.Emitted
import Schemata.Proofs.Generation.AnythingUse
import Schemata.Proofs.Compilation.Contexts
import Schemata.Proofs.Compilation.Arrays
import Schemata.Proofs.DocComment.Additions
import Schemata.Proofs.Compilation.Documentation
import Schemata.Proofs.Expr.Layers
import Schemata.Proofs.Compilation.Wrapping
import Schemata.Proofs.Compilation.Layers
import Schemata.Proofs.TypeScript.RegexLiteral
import Schemata.Proofs.DocComment.Pattern
import Schemata.Proofs.Text.Numeral
import Schemata.Proofs.TypeScript.NumericLiteral
import Schemata.Proofs.DocComment.Number
import Schemata.Proofs.Text.Blank
import Schemata.Proofs.DocComment.Layout
import Schemata.Proofs.Text.Casing
import Schemata.Proofs.Naming.Words
import Schemata.Proofs.Naming.Identifier
import Schemata.Proofs.Generation.Completeness
import Schemata.Proofs.Commands.Completeness
import Schemata.Proofs.Path.Relative
import Schemata.Proofs.Compilation.Interfaces
import Schemata.Proofs.Config.Names
import Schemata.Proofs.Report.Cycles
import Schemata.Proofs.Fingerprint.Base62
import Schemata.Proofs.Path.Lexical
import Schemata.Proofs.Expr.Indentation
