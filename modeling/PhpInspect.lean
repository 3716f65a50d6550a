import PhpInspect.Main
import PhpInspect.Proofs.Tree.Walk
import PhpInspect.Proofs.Tree.Graft
import PhpInspect.Proofs.Php.Grammar
import PhpInspect.Proofs.Php.AnalysisTree
import PhpInspect.Proofs.Outcome
import PhpInspect.Proofs.Rule.Totality
import PhpInspect.Proofs.Rule.Renumbering
import PhpInspect.Proofs.Composition
import PhpInspect.Proofs.Php.DeadEnds
import PhpInspect.Proofs.Rule.Unreachable
import PhpInspect.Proofs.Rule.Ownership
import PhpInspect.Proofs.Tree.Siblings
import PhpInspect.Proofs.Rule.Failure
import PhpInspect.Proofs.Php.Origin
import PhpInspect.Proofs.Php.Layout
import PhpInspect.Proofs.Php.Shape
import PhpInspect.Proofs.Rule.LineFinality
import PhpInspect.Proofs.Tree.Preorder
import PhpInspect.Proofs.Php.Mentions
import PhpInspect.Proofs.Php.Nesting
import PhpInspect.Proofs.Php.DocumentOrder
import PhpInspect.Proofs.Php.LineRanges
import PhpInspect.Proofs.Rule.LineRanges
import PhpInspect.Proofs.Rule.Isolation
import PhpInspect.Proofs.Independence
import PhpInspect.Proofs.Rule.Undefined
import PhpInspect.Proofs.FileSystem
import PhpInspect.Proofs.Collection
import PhpInspect.Proofs.Rule.Definitions
import PhpInspect.Proofs.Php.Destructuring
import PhpInspect.Proofs.Tree.Traversal
import PhpInspect.Proofs.Rule.Renaming
import PhpInspect.Proofs.Rule.Settings
import PhpInspect.Proofs.Rule.FinalityModes
import PhpInspect.Proofs.Php.MatchOutputs
import PhpInspect.Proofs.Rule.ElementWrites
import PhpInspect.Proofs.Issue.Groups
import PhpInspect.Proofs.Issue.Order
import PhpInspect.Proofs.Text.ByteOrder
import PhpInspect.Proofs.Exclusion
import PhpInspect.Proofs.Selection
import PhpInspect.Proofs.Source.Positions
import PhpInspect.Proofs.Report.Annotations
