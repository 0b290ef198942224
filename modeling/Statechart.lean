import Statechart.Datum
import Statechart.Datum.Layout
import Statechart.Datum.Read
import Statechart.Decimal.Binary
import Statechart.Decimal.Layout
import Statechart.Decimal.Numeral
import Statechart.Decimal.Shortest
import Statechart.Draft.OneOrMany
import Statechart.Draft.State
import Statechart.Draft.Transition
import Statechart.Edit.Apply
import Statechart.Edit.Basic
import Statechart.Edit.Block
import Statechart.Edit.Editor
import Statechart.Edit.Record
import Statechart.Edit.State
import Statechart.Edit.Transition
import Statechart.Graph.Basic
import Statechart.Graph.Extraction
import Statechart.Graph.Problem
import Statechart.Graph.Query
import Statechart.Graph.Reading
import Statechart.Graph.Record
import Statechart.Graph.Target
import Statechart.Parser
import Statechart.Patch.Basic
import Statechart.Patch.Model
import Statechart.Patch.Order
import Statechart.Patch.Record
import Statechart.Patch.Session
import Statechart.Project.Discovery
import Statechart.Project.FileTree
import Statechart.Project.Files
import Statechart.Proofs.ActionLists
import Statechart.Proofs.AddedDepths
import Statechart.Proofs.AddedEdges
import Statechart.Proofs.AddressAgreement
import Statechart.Proofs.Addresses
import Statechart.Proofs.Agreement
import Statechart.Proofs.AttributeEdits
import Statechart.Proofs.BlockAddresses
import Statechart.Proofs.BlockOrder
import Statechart.Proofs.BlockPatches
import Statechart.Proofs.BlockPlaces
import Statechart.Proofs.BlocksBuilt
import Statechart.Proofs.BlocksInStep
import Statechart.Proofs.BuilderInvariant
import Statechart.Proofs.Builders
import Statechart.Proofs.CheckedScans
import Statechart.Proofs.CommentClimbs
import Statechart.Proofs.DerivedOrder
import Statechart.Proofs.DescriptorFamilies
import Statechart.Proofs.Descriptors
import Statechart.Proofs.DroppedTargets
import Statechart.Proofs.EdgePatches
import Statechart.Proofs.EdgePlaces
import Statechart.Proofs.EdgesInStep
import Statechart.Proofs.EditedText
import Statechart.Proofs.Editors
import Statechart.Proofs.Encoding
import Statechart.Proofs.EntryEdits
import Statechart.Proofs.EntryOrder
import Statechart.Proofs.Extraction
import Statechart.Proofs.HandleOrder
import Statechart.Proofs.Hierarchy
import Statechart.Proofs.InlineBlocks
import Statechart.Proofs.KeptText
import Statechart.Proofs.KeyedLists
import Statechart.Proofs.LayoutEdits
import Statechart.Proofs.LayoutKept
import Statechart.Proofs.LayoutScripts
import Statechart.Proofs.Layouts
import Statechart.Proofs.LeafTexts
import Statechart.Proofs.LineScans
import Statechart.Proofs.ListChanges
import Statechart.Proofs.LiveHandles
import Statechart.Proofs.Mending
import Statechart.Proofs.MergedEdits
import Statechart.Proofs.NamedReferences
import Statechart.Proofs.NodeLists
import Statechart.Proofs.Outcome
import Statechart.Proofs.PartEdits
import Statechart.Proofs.PatchBatch
import Statechart.Proofs.PatchChanges
import Statechart.Proofs.PatchOrder
import Statechart.Proofs.PatchSteps
import Statechart.Proofs.PlacedStrings
import Statechart.Proofs.Placement
import Statechart.Proofs.PropertyLists
import Statechart.Proofs.ReadingProblems
import Statechart.Proofs.Redirection
import Statechart.Proofs.ReentryFlags
import Statechart.Proofs.ReferenceOrigins
import Statechart.Proofs.References
import Statechart.Proofs.Relocation
import Statechart.Proofs.RemovalOrder
import Statechart.Proofs.ReportedEntries
import Statechart.Proofs.Resolution
import Statechart.Proofs.Retargeting
import Statechart.Proofs.Scripts
import Statechart.Proofs.ShadowedEntries
import Statechart.Proofs.SlotChanges
import Statechart.Proofs.SlotEdges
import Statechart.Proofs.SlotEdits
import Statechart.Proofs.SlotItems
import Statechart.Proofs.SlotLists
import Statechart.Proofs.Slots
import Statechart.Proofs.SortKeys
import Statechart.Proofs.SoundExtraction
import Statechart.Proofs.Spellings
import Statechart.Proofs.Splicing
import Statechart.Proofs.StableDescriptors
import Statechart.Proofs.StateAttributes
import Statechart.Proofs.StateChanges
import Statechart.Proofs.StateLookup
import Statechart.Proofs.StateOrder
import Statechart.Proofs.StatePaths
import Statechart.Proofs.StateRemoval
import Statechart.Proofs.StateTrees
import Statechart.Proofs.StatesRead
import Statechart.Proofs.StringEdits
import Statechart.Proofs.StringLiterals
import Statechart.Proofs.Subtrees
import Statechart.Proofs.TextEdits
import Statechart.Proofs.TransitionEdits
import Statechart.Proofs.TransitionParts
import Statechart.Proofs.TransitionsRead
import Statechart.Proofs.TreeEquality
import Statechart.Proofs.Trivia
import Statechart.Proofs.TriviaGrammar
import Statechart.Proofs.Validation
import Statechart.Proofs.WalkSteps
import Statechart.Proofs.Walks
import Statechart.Proofs.WellFormedness
import Statechart.QueryReport
import Statechart.Reference
import Statechart.Settings.Basic
import Statechart.Settings.File
import Statechart.Shape
import Statechart.Source.ClassBody
import Statechart.Source.Dialect
import Statechart.Source.Grammar
import Statechart.Source.Leading
import Statechart.Source.Lexeme
import Statechart.Source.Literal
import Statechart.Source.Machine
import Statechart.Source.Markup
import Statechart.Source.Operand
import Statechart.Source.Parameter
import Statechart.Source.Pending
import Statechart.Source.Place
import Statechart.Source.Primary
import Statechart.Source.Program
import Statechart.Source.Semicolon
import Statechart.Source.Stage
import Statechart.Source.Statement
import Statechart.Source.Trailing
import Statechart.Source.TypeExpr
import Statechart.Splice.Difference
import Statechart.Splice.Entry
import Statechart.Splice.Matching
import Statechart.Splice.Record
import Statechart.Splice.Style
import Statechart.Splice.TextEdit
import Statechart.Text.Bytes
import Statechart.Text.Letter
import Statechart.Text.Lines
import Statechart.Text.Quoted
import Statechart.Text.Trivia
import Statechart.Toml.Document
import Statechart.Toml.Lexical
import Statechart.Toml.Number
import Statechart.Toml.Table
import Statechart.Tree.Basic
import Statechart.Tree.Property
import Statechart.Tree.Record
import Statechart.Tree.Shape
