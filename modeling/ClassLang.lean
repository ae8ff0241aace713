import ClassLang.Source.Position
import ClassLang.Source.Line
import ClassLang.Source.Reader
import ClassLang.Text.WhiteSpace
import ClassLang.Text.Visible
import ClassLang.Text.Quoted
import ClassLang.Diagnostic.Cause
import ClassLang.Diagnostic.Report
import ClassLang.Token.Basic
import ClassLang.Token.Lexeme
import ClassLang.Token.Scan
import ClassLang.Token.Cursor
import ClassLang.Grammar
import ClassLang.TypeName.Basic
import ClassLang.TypeName.Parser
import ClassLang.Expr.Basic
import ClassLang.Expr.Parser
import ClassLang.Stmt.Basic
import ClassLang.Stmt.Parser
import ClassLang.Decl.Basic
import ClassLang.Decl.Parser
import ClassLang.Id
import ClassLang.Native.Basic
import ClassLang.Native.Dialect
import ClassLang.Types.Registry
import ClassLang.Types.Shape
import ClassLang.Types.Conversion
import ClassLang.Expr.Typed
import ClassLang.Stmt.Typed
import ClassLang.Program.Scope
import ClassLang.Program.Basic
import ClassLang.Program.Resolver
import ClassLang.Program.Operators
import ClassLang.TypeName.Resolve
import ClassLang.Expr.Resolve
import ClassLang.Stmt.Resolve
import ClassLang.Decl.Resolve
import ClassLang.Linkage
import ClassLang.CommandLine
import ClassLang.Main
import ClassLang.Proofs.Outcome
import ClassLang.Proofs.Registry
import ClassLang.Proofs.Scopes
import ClassLang.Proofs.State
import ClassLang.Proofs.Steps
import ClassLang.Proofs.TypeRules
import ClassLang.Proofs.WellTyped
import ClassLang.Proofs.Meaning
import ClassLang.Proofs.Lookup
import ClassLang.Proofs.Operators
import ClassLang.Proofs.Effects
import ClassLang.Proofs.Answers
import ClassLang.Proofs.ExprTyping
import ClassLang.Proofs.StmtTyping
import ClassLang.Proofs.Install
import ClassLang.Proofs.Additions
import ClassLang.Proofs.Announced
import ClassLang.Proofs.Declare
import ClassLang.Proofs.Signatures
import ClassLang.Proofs.Members
import ClassLang.Proofs.SignaturePass
import ClassLang.Proofs.BodyPass
import ClassLang.Proofs.Handles
import ClassLang.Proofs.Resolution
import ClassLang.Proofs.Print
import ClassLang.Proofs.Reading
import ClassLang.Proofs.ReadingSpine
import ClassLang.Proofs.ReadingExpr
import ClassLang.Proofs.ReadingStmt
import ClassLang.Proofs.RoundTrip
import ClassLang.Proofs.Derivation
import ClassLang.Proofs.Accepted
import ClassLang.Proofs.AcceptedExpr
import ClassLang.Proofs.AcceptedUnit
import ClassLang.Proofs.Mirror
import ClassLang.Proofs.Named
import ClassLang.Proofs.Elaborate
import ClassLang.Proofs.Published
import ClassLang.Proofs.MirrorSteps
import ClassLang.Proofs.MirrorExpr
import ClassLang.Proofs.MirrorStmt
import ClassLang.Proofs.MirrorSignature
import ClassLang.Proofs.MirrorMembers
import ClassLang.Proofs.MirrorDeclarations
import ClassLang.Proofs.MirrorBodies
import ClassLang.Proofs.Headers
import ClassLang.Proofs.DeclarationOrder
import ClassLang.Proofs.BodyOrder
import ClassLang.Proofs.Isolation
import ClassLang.Proofs.BodyIndependence
import ClassLang.Proofs.Scoping
import ClassLang.Proofs.ScopingExpr
import ClassLang.Proofs.ScopingBody
import ClassLang.Proofs.ScopingStmt
import ClassLang.Proofs.ScopingUnit
import ClassLang.Proofs.Interning
import ClassLang.Proofs.Trace
import ClassLang.Proofs.FaultPlaces
import ClassLang.Proofs.TraceExpr
import ClassLang.Proofs.TraceBody
import ClassLang.Proofs.TraceUnit
import ClassLang.Proofs.TypeIdentity
import ClassLang.Proofs.Provenance
import ClassLang.Proofs.Scanning
import ClassLang.Proofs.Moving
import ClassLang.Proofs.Caret
import ClassLang.Proofs.LinkageCode
import ClassLang.Proofs.LinkageNames
import ClassLang.Proofs.LongestMatch
import ClassLang.Proofs.Spelling
import ClassLang.Proofs.Layout
import ClassLang.Proofs.Correspondence
import ClassLang.Proofs.CorrespondenceExpr
import ClassLang.Proofs.CorrespondenceStmt
import ClassLang.Proofs.CorrespondenceUnit
import ClassLang.Proofs.Permissive
import ClassLang.Proofs.WellFormed
import ClassLang.Proofs.Placement
import ClassLang.Proofs.PlacementPasses
import ClassLang.Proofs.Coverage
import ClassLang.Proofs.BlockScopes
import ClassLang.Proofs.BlockLaying
import ClassLang.Proofs.BodyScopes
import ClassLang.Proofs.ScopeMap
import ClassLang.Proofs.ClassTables
import ClassLang.Proofs.BodyStates
import ClassLang.Proofs.MemberAccess
import ClassLang.Proofs.Progress
import ClassLang.Proofs.ProgressUnit
import ClassLang.Proofs.ImplicitCasts
import ClassLang.Proofs.Literals
import ClassLang.Proofs.SourceTokens
import ClassLang.Proofs.WrittenNumbers
import ClassLang.Proofs.TypeNames
import ClassLang.Proofs.Outlines
import ClassLang.Proofs.SpanRows
import ClassLang.Proofs.SpanReaders
import ClassLang.Proofs.SpanNesting
import ClassLang.Proofs.OperatorChoice
import ClassLang.Proofs.Shadowing
import ClassLang.Proofs.MethodListing
