import LispReader.Command
import LispReader.Main
import LispReader.Source.Directory
import LispReader.Proofs.Grammar
import LispReader.Proofs.Layout
import LispReader.Proofs.Scan
import LispReader.Proofs.Rules
import LispReader.Proofs.Reading
import LispReader.Proofs.Parsing
import LispReader.Proofs.Numerals
import LispReader.Proofs.Parts
import LispReader.Proofs.Literals
import LispReader.Proofs.Dispatch
import LispReader.Proofs.Defects
import LispReader.Proofs.Tokenizing
import LispReader.Proofs.Digits
import LispReader.Proofs.Groups
import LispReader.Proofs.Integers
import LispReader.Proofs.Atoms
import LispReader.Proofs.Printing
import LispReader.Proofs.PostOrder
import LispReader.Proofs.Continuation
import LispReader.Proofs.Displacement
import LispReader.Proofs.Joining
import LispReader.Proofs.Lines
import LispReader.Proofs.Halting
import LispReader.Proofs.Renumbering
import LispReader.Proofs.Spacing
import LispReader.Proofs.OpenScopes
import LispReader.Proofs.Reports
import LispReader.Proofs.Offences
import LispReader.Proofs.Calling
import LispReader.Proofs.Operations
import LispReader.Proofs.Escapes
import LispReader.Proofs.Fitting
import LispReader.Proofs.NumberLiterals
import LispReader.Proofs.FinalBreak
import LispReader.Proofs.SoleLiterals
import LispReader.Proofs.IntegerLiterals
import LispReader.Proofs.Grid
import LispReader.Proofs.Nearest
import LispReader.Proofs.FloatSyntax
import LispReader.Proofs.DecimalLiterals
import LispReader.Proofs.ShortDecimals
import LispReader.Proofs.Describing
import LispReader.Proofs.Moves
import LispReader.Proofs.Bytewise
import LispReader.Proofs.Finding
import LispReader.Proofs.Slices
import LispReader.Proofs.Progress
import LispReader.Proofs.Decoding
import LispReader.Proofs.Loading
import LispReader.Proofs.Paths
import LispReader.Proofs.Streams
import LispReader.Proofs.Splitting
