import GrammarLab.Text.Utf8
import GrammarLab.Text.Quoted
import GrammarLab.Body.Outline
import GrammarLab.Body.Structure.Parser
import GrammarLab.Grammar
import GrammarLab.Diagnostic.Basic
import GrammarLab.Source.Comment
import GrammarLab.Source.Cursor
import GrammarLab.Config
import GrammarLab.Source.Draft
import GrammarLab.Source.RuleText
import GrammarLab.Source.Scan
import GrammarLab.Regex.CharSet
import GrammarLab.Regex.Property
import GrammarLab.Regex.Basic
import GrammarLab.Regex.Derivative
import GrammarLab.Regex.Escape
import GrammarLab.Regex.Bracket
import GrammarLab.Regex.Parser
import GrammarLab.Regex.Extent
import GrammarLab.Regex.Normal
import GrammarLab.Regex.Preferred
import GrammarLab.Pattern.Error
import GrammarLab.Pattern.ClassText
import GrammarLab.Pattern.Spelling
import GrammarLab.Pattern.Basic
import GrammarLab.Pattern.Compiler
import GrammarLab.Reference.Graph
import GrammarLab.Reference.Recursion
import GrammarLab.Reference.Order
import GrammarLab.Reference.Usage
import GrammarLab.Reference.Check
import GrammarLab.Cycle
import GrammarLab.LeftRecursion
import GrammarLab.Mode.Graph
import GrammarLab.Mode.Check
import GrammarLab.Ambiguity
import GrammarLab.Redos
import GrammarLab.Mean
import GrammarLab.Metrics
import GrammarLab.Bottleneck
import GrammarLab.Tokenizer.Basic
import GrammarLab.Simulation
import GrammarLab.Matcher.Verdict
import GrammarLab.Inspection
import GrammarLab.Dump
import GrammarLab.Snippet.Span
import GrammarLab.Snippet.Canvas
import GrammarLab.Snippet.Mark
import GrammarLab.Snippet.Placement
import GrammarLab.Snippet.Window
import GrammarLab.Snippet.Drawing
import GrammarLab.Diagnostic.Printer
import GrammarLab.Proofs.List.Distinct
import GrammarLab.Proofs.Regex.Language
import GrammarLab.Proofs.Regex.Longest
import GrammarLab.Proofs.Text.Offsets
import GrammarLab.Proofs.Pattern.Matching
import GrammarLab.Proofs.Tokenizer.Munch
import GrammarLab.Proofs.Tokenizer.Tiling
import GrammarLab.Proofs.Regex.Bracket
import GrammarLab.Proofs.Regex.Stack
import GrammarLab.Proofs.Regex.Symbols
import GrammarLab.Proofs.Pattern.ClassText
import GrammarLab.Proofs.Body.Lexer
import GrammarLab.Proofs.Body.Script
import GrammarLab.Proofs.Body.Coverage
import GrammarLab.Proofs.Body.Rendering
import GrammarLab.Proofs.Pattern.Meaning
import GrammarLab.Proofs.Pattern.Sets
import GrammarLab.Proofs.Pattern.Translation
import GrammarLab.Proofs.Pattern.Preservation
import GrammarLab.Proofs.Pattern.Compiler
import GrammarLab.Proofs.Pattern.Literal
import GrammarLab.Proofs.Source.Orderly
import GrammarLab.Proofs.Tokenizer.Conflict
import GrammarLab.Proofs.Tokenizer.Implicit
import GrammarLab.Proofs.Body.Legible
import GrammarLab.Proofs.Body.Reading
import GrammarLab.Proofs.Body.RoundTrip
import GrammarLab.Proofs.Source.Comments
import GrammarLab.Proofs.Source.Lines
import GrammarLab.Proofs.Source.Model
import GrammarLab.Proofs.Reference.Views
import GrammarLab.Proofs.Reference.RecursionDepth
import GrammarLab.Proofs.Reference.Queue
import GrammarLab.Proofs.Reference.DependencyOrder
import GrammarLab.Proofs.Source.Accounting
import GrammarLab.Proofs.Source.LineGrammar
import GrammarLab.Proofs.Source.Recovery
import GrammarLab.Proofs.Matcher.Language
import GrammarLab.Proofs.Matcher.Lengths
import GrammarLab.Proofs.Matcher.Soundness
import GrammarLab.Proofs.Cycle.Walk
import GrammarLab.Proofs.Mode.Cycles
import GrammarLab.Proofs.Mode.Reachable
import GrammarLab.Proofs.Text.TrimmedLines
import GrammarLab.Proofs.Body.References
import GrammarLab.Proofs.Source.Bodies
import GrammarLab.Proofs.Source.Occurrence
import GrammarLab.Proofs.Source.Bytes
import GrammarLab.Proofs.Source.Declarations
import GrammarLab.Proofs.Source.Headers
import GrammarLab.Proofs.Source.BodyEnds
import GrammarLab.Proofs.Source.Boundaries
import GrammarLab.Proofs.Text.LineEnds
import GrammarLab.Proofs.Source.Aligned
import GrammarLab.Proofs.Source.AlignedSteps
import GrammarLab.Proofs.Source.LineEnds
import GrammarLab.Proofs.Matcher.Attempts
import GrammarLab.Proofs.Matcher.Confidence
import GrammarLab.Proofs.Matcher.Permutation
import GrammarLab.Proofs.Matcher.Predictable
import GrammarLab.Proofs.Matcher.Reservation
import GrammarLab.Proofs.Matcher.Completeness
import GrammarLab.Proofs.Pattern.Identifiers
import GrammarLab.Proofs.Pattern.Memo
import GrammarLab.Proofs.Cycle.Components
import GrammarLab.Proofs.LeftRecursion.FirstElements
import GrammarLab.Proofs.LeftRecursion.Hidden
import GrammarLab.Proofs.Regex.Members
import GrammarLab.Proofs.Pattern.Singles
import GrammarLab.Proofs.Pattern.Classes
import GrammarLab.Proofs.Pattern.Quoted
import GrammarLab.Proofs.Pattern.Escapes
import GrammarLab.Proofs.Pattern.NegatedSets
import GrammarLab.Proofs.Matcher.Abandoned
import GrammarLab.Proofs.Body.WrittenAlike
import GrammarLab.Proofs.Body.GroupOffsets
import GrammarLab.Proofs.Ambiguity.Reports
import GrammarLab.Proofs.Ambiguity.Duplicates
import GrammarLab.Proofs.Ambiguity.Optionals
import GrammarLab.Proofs.Mode.CycleReports
import GrammarLab.Proofs.Source.Uncommented
import GrammarLab.Proofs.Body.Outline
import GrammarLab.Proofs.Body.Leaves
import GrammarLab.Proofs.Body.Patterns
import GrammarLab.Proofs.Body.Tiling
import GrammarLab.Proofs.Reference.DeepRecursion
import GrammarLab.Proofs.Source.LineCap
import GrammarLab.Proofs.Regex.Assembly
import GrammarLab.Proofs.Regex.Cells
import GrammarLab.Proofs.Pattern.Writing
import GrammarLab.Proofs.Pattern.Layout
import GrammarLab.Proofs.Pattern.LazyFlag
import GrammarLab.Proofs.Pattern.Inlining
import GrammarLab.Proofs.Regex.First
import GrammarLab.Proofs.Redos.Disjoint
import GrammarLab.Proofs.Snippet.Printed
