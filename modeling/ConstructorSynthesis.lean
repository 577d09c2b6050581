import ConstructorSynthesis.Blueprint.Basic
import ConstructorSynthesis.Blueprint.Schedule
import ConstructorSynthesis.Blueprint.Selection
import ConstructorSynthesis.Blueprint.Target
import ConstructorSynthesis.CommandLine.Arguments
import ConstructorSynthesis.CommandLine.Run
import ConstructorSynthesis.Declaration.Basic
import ConstructorSynthesis.Declaration.Catalog
import ConstructorSynthesis.Declaration.Consistency
import ConstructorSynthesis.Declaration.Id
import ConstructorSynthesis.Declaration.Kind
import ConstructorSynthesis.Document.Element
import ConstructorSynthesis.Document.Error
import ConstructorSynthesis.Document.Reading
import ConstructorSynthesis.Files.Delivery
import ConstructorSynthesis.Files.Fault
import ConstructorSynthesis.Files.FileSystem
import ConstructorSynthesis.Generation.Basic
import ConstructorSynthesis.Generation.Error
import ConstructorSynthesis.Generation.Sample
import ConstructorSynthesis.Generation.Tally
import ConstructorSynthesis.Generation.Trace
import ConstructorSynthesis.Log
import ConstructorSynthesis.Main
import ConstructorSynthesis.Markup.Attribute
import ConstructorSynthesis.Markup.Doctype
import ConstructorSynthesis.Markup.Escape
import ConstructorSynthesis.Markup.Event
import ConstructorSynthesis.Markup.Fault
import ConstructorSynthesis.Markup.Scan
import ConstructorSynthesis.Proofs.Blueprint.Alignment
import ConstructorSynthesis.Proofs.Blueprint.Chain
import ConstructorSynthesis.Proofs.Blueprint.Collection
import ConstructorSynthesis.Proofs.Blueprint.Forwarding
import ConstructorSynthesis.Proofs.Blueprint.Order
import ConstructorSynthesis.Proofs.Blueprint.ParameterNames
import ConstructorSynthesis.Proofs.Blueprint.Reordering
import ConstructorSynthesis.Proofs.Blueprint.Run
import ConstructorSynthesis.Proofs.Blueprint.Selection
import ConstructorSynthesis.Proofs.CommandLine.Modes
import ConstructorSynthesis.Proofs.Declaration.BaseWalk
import ConstructorSynthesis.Proofs.Declaration.Consistency
import ConstructorSynthesis.Proofs.Declaration.FirstIssue
import ConstructorSynthesis.Proofs.Declaration.Lookup
import ConstructorSynthesis.Proofs.Declaration.Normalization
import ConstructorSynthesis.Proofs.Declaration.Path
import ConstructorSynthesis.Proofs.Declaration.Reference
import ConstructorSynthesis.Proofs.Document.AttributeOrder
import ConstructorSynthesis.Proofs.Document.Completion
import ConstructorSynthesis.Proofs.Document.Nesting
import ConstructorSynthesis.Proofs.Document.Printing
import ConstructorSynthesis.Proofs.Document.Reading
import ConstructorSynthesis.Proofs.Document.Spelling
import ConstructorSynthesis.Proofs.Document.Tree
import ConstructorSynthesis.Proofs.Files.Delivery
import ConstructorSynthesis.Proofs.Files.Safekeeping
import ConstructorSynthesis.Proofs.Files.Walk
import ConstructorSynthesis.Proofs.Generation.Confinement
import ConstructorSynthesis.Proofs.Generation.Insertion
import ConstructorSynthesis.Proofs.Generation.Outcome
import ConstructorSynthesis.Proofs.Generation.Sample
import ConstructorSynthesis.Proofs.Generation.SampleChain
import ConstructorSynthesis.Proofs.Generation.UnitNames
import ConstructorSynthesis.Proofs.Markup.Concatenation
import ConstructorSynthesis.Proofs.Markup.Writing
import ConstructorSynthesis.Proofs.Repetition
import ConstructorSynthesis.Proofs.Result
import ConstructorSynthesis.Proofs.Source.Balance
import ConstructorSynthesis.Proofs.Source.Layout
import ConstructorSynthesis.Source.Page
import ConstructorSynthesis.Source.Rendering
import ConstructorSynthesis.Source.Settings
import ConstructorSynthesis.Source.SourceUnit
import ConstructorSynthesis.Text.Space
