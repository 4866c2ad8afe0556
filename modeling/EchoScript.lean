import EchoScript.Main
import EchoScript.NativeLibrary
import EchoScript.Proofs.Grammar
import EchoScript.Proofs.Parsing
import EchoScript.Proofs.ViablePrefix
import EchoScript.Proofs.MaximalMunch
import EchoScript.Proofs.Blanking
import EchoScript.Proofs.SourcePosition
import EchoScript.Proofs.Seams
import EchoScript.Proofs.Truncation
import EchoScript.Proofs.Relining
import EchoScript.Proofs.Concatenation
import EchoScript.Proofs.Numerals
import EchoScript.Proofs.Layout
import EchoScript.Proofs.TreeTokens
import EchoScript.Proofs.Rendering
import EchoScript.Proofs.Reprinting
import EchoScript.Proofs.Columns
import EchoScript.Proofs.Spacing
import EchoScript.Proofs.InsertionOrder
import EchoScript.Proofs.Assignment
import EchoScript.Proofs.Dependence
import EchoScript.Proofs.NativeCalls
import EchoScript.Proofs.Sessions
import EchoScript.Proofs.Comments
import EchoScript.Proofs.DecimalTexts
import EchoScript.Proofs.PrintedNumbers
import EchoScript.Proofs.EchoedNumerals
import EchoScript.Proofs.History
import EchoScript.Proofs.Equality
import EchoScript.Proofs.Projection
import EchoScript.Proofs.Arguments
import EchoScript.Proofs.CommandLine
import EchoScript.Proofs.ShortestTexts
import EchoScript.Proofs.Descriptions
import EchoScript.Proofs.DumpedLexemes
