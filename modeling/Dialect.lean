import Dialect.Text.Basic
import Dialect.Text.Blank
import Dialect.Text.Word
import Dialect.Text.Decimal
import Dialect.Text.Literal
import Dialect.Text.Visible
import Dialect.Text.Quoted
import Dialect.CharSet
import Dialect.Line.Basic
import Dialect.Line.Reader
import Dialect.Mask
import Dialect.Pattern.Basic
import Dialect.Pattern.Extent
import Dialect.Pattern.Matching
import Dialect.Pattern.Reader
import Dialect.Pattern.Search
import Dialect.Table.Basic
import Dialect.Table.Builtin
import Dialect.Table.Replacement
import Dialect.Table.Judgement
import Dialect.Blocks
import Dialect.Diagnostic
import Dialect.Compile
import Dialect.Path
import Dialect.FileTree
import Dialect.Glob.Basic
import Dialect.Glob.Expansion
import Dialect.Command.Arguments
import Dialect.Command.Outcome
import Dialect.Command.Discovery
import Dialect.Command.Program
import Dialect.Command.Execution
import Dialect.Main
import Dialect.Proofs.Quotation
import Dialect.Proofs.Positions
import Dialect.Proofs.Characters
import Dialect.Proofs.Matching
import Dialect.Proofs.Lexeme
import Dialect.Proofs.Search
import Dialect.Proofs.Keywords
import Dialect.Proofs.Masking
import Dialect.Proofs.Segmentation
import Dialect.Proofs.Acceptance
import Dialect.Proofs.Compilation
import Dialect.Proofs.Agreement
import Dialect.Proofs.Leading
import Dialect.Proofs.Location
import Dialect.Proofs.Rereading
import Dialect.Proofs.FixedPoints
import Dialect.Proofs.Sequencing
import Dialect.Proofs.Nesting
import Dialect.Proofs.Layout
import Dialect.Proofs.Disguise
import Dialect.Proofs.Noninterference
import Dialect.Proofs.RowOrder
import Dialect.Proofs.Trailing
import Dialect.Proofs.Returns
import Dialect.Proofs.LineEndings
import Dialect.Proofs.Insertion
import Dialect.Proofs.Scanning
import Dialect.Proofs.MaskedBytes
import Dialect.Proofs.SlicedRun
import Dialect.Proofs.Paths
import Dialect.Proofs.FileTrees
import Dialect.Proofs.Directories
import Dialect.Proofs.Discovery
import Dialect.Proofs.Runs
import Dialect.Proofs.Checking
import Dialect.Proofs.Frame
import Dialect.Proofs.Sources
import Dialect.Proofs.Outputs
import Dialect.Proofs.Comments
import Dialect.Proofs.Tokens
import Dialect.Proofs.Verdicts
import Dialect.Proofs.Unmasking
import Dialect.Proofs.Uncommented
import Dialect.Proofs.Remasking
import Dialect.Proofs.PositionMaps
import Dialect.Proofs.RuleLists
import Dialect.Proofs.Reports
import Dialect.Proofs.Inputs
import Dialect.Proofs.Literals
import Dialect.Proofs.Placeholders
import Dialect.Proofs.Words
