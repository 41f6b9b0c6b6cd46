import BuildPlan.Text.Basic
import BuildPlan.Text.Words
import BuildPlan.Text.Lines
import BuildPlan.Text.Utf8
import BuildPlan.Text.Printable
import BuildPlan.Text.Quoted
import BuildPlan.Text.Json
import BuildPlan.Text.Style
import BuildPlan.Bindings
import BuildPlan.Listing
import BuildPlan.FileTree.Basic
import BuildPlan.FileTree.Workspace
import BuildPlan.FileTree.Replace
import BuildPlan.Wildcard.Token
import BuildPlan.Wildcard.Pattern
import BuildPlan.Wildcard.Expansion
import BuildPlan.PathWord
import BuildPlan.WordFunction
import BuildPlan.Template.Segment
import BuildPlan.Template.Expansion
import BuildPlan.Description.Statement
import BuildPlan.Description.Sections
import BuildPlan.Description.Basic
import BuildPlan.Rule
import BuildPlan.Resolution.Error
import BuildPlan.Resolution.Globals
import BuildPlan.Resolution.Rules
import BuildPlan.Manifest.Edge
import BuildPlan.Manifest.Basic
import BuildPlan.Evaluation
import BuildPlan.Log.Event
import BuildPlan.Log.Trace
import BuildPlan.Command.Basic
import BuildPlan.Command.Arguments
import BuildPlan.Command.Run
import BuildPlan.Main
import BuildPlan.Proofs.Outcome
import BuildPlan.Proofs.Cutting
import BuildPlan.Proofs.BindingOrder
import BuildPlan.Proofs.Assignment
import BuildPlan.Proofs.Publication
import BuildPlan.Proofs.Emission
import BuildPlan.Proofs.ManifestReading
import BuildPlan.Proofs.TemplateGrammar
import BuildPlan.Proofs.Mentions
import BuildPlan.Proofs.AssignmentOrder
import BuildPlan.Proofs.GlobalOrder
import BuildPlan.Proofs.SectionContents
import BuildPlan.Proofs.Trimming
import BuildPlan.Proofs.LineRoles
import BuildPlan.Proofs.SectionLayout
import BuildPlan.Proofs.SectionsRoundTrip
import BuildPlan.Proofs.UnmentionedGlobal
import BuildPlan.Proofs.FaultyLine
import BuildPlan.Proofs.SectionsAppend
import BuildPlan.Proofs.PatternOutput
import BuildPlan.Proofs.EdgeLines
import BuildPlan.Proofs.EdgeGroups
import BuildPlan.Proofs.DeclaredNames
import BuildPlan.Proofs.FinalNames
import BuildPlan.Proofs.NamedFiles
import BuildPlan.Proofs.FileReplacement
import BuildPlan.Proofs.CommandEffects
import BuildPlan.Proofs.TemporaryDirectory
import BuildPlan.Proofs.AllOrNothing
import BuildPlan.Proofs.AnyDepth
import BuildPlan.Proofs.CallArguments
import BuildPlan.Proofs.ExpansionDepth
import BuildPlan.Proofs.ExpansionFaults
import BuildPlan.Proofs.BareReference
import BuildPlan.Proofs.HandedOutputs
import BuildPlan.Proofs.RefusedAssignments
import BuildPlan.Proofs.LastAssignment
import BuildPlan.Proofs.GlobalsInOrder
import BuildPlan.Proofs.LayoutEdits
import BuildPlan.Proofs.PatternFaults
import BuildPlan.Proofs.WordwiseFunctions
import BuildPlan.Proofs.PathAlgebra
import BuildPlan.Proofs.ListingReading
