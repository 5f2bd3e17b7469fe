import JavaHighlight.Lexeme.Tiling
import JavaHighlight.Main
import JavaHighlight.Proofs.AllOrNothing
import JavaHighlight.Proofs.Bodies.Anonymous
import JavaHighlight.Proofs.Bodies.Constants
import JavaHighlight.Proofs.Bodies.Headers
import JavaHighlight.Proofs.Bodies.Runs
import JavaHighlight.Proofs.Brackets.PlainStack
import JavaHighlight.Proofs.Brackets.Refinement
import JavaHighlight.Proofs.Brackets.Simulation
import JavaHighlight.Proofs.Faults.Readings
import JavaHighlight.Proofs.Faults.Reports
import JavaHighlight.Proofs.Lambdas.Honoured
import JavaHighlight.Proofs.LineStarts.Lines
import JavaHighlight.Proofs.Lines.Agreement
import JavaHighlight.Proofs.Lines.Border
import JavaHighlight.Proofs.Lines.Carry
import JavaHighlight.Proofs.Lines.Closed
import JavaHighlight.Proofs.Lines.Cut
import JavaHighlight.Proofs.Lines.Diagnostics
import JavaHighlight.Proofs.Lines.Locality
import JavaHighlight.Proofs.Lines.Lookahead
import JavaHighlight.Proofs.Lines.Resumed
import JavaHighlight.Proofs.Lines.Spans
import JavaHighlight.Proofs.Lines.Terminated
import JavaHighlight.Proofs.Lines.TriviaCut
import JavaHighlight.Proofs.Listing.Entries
import JavaHighlight.Proofs.Literals.BlockEnds
import JavaHighlight.Proofs.Literals.Quoted
import JavaHighlight.Proofs.Literals.TextBlocks
import JavaHighlight.Proofs.Meaning.Alike
import JavaHighlight.Proofs.Meaning.Insensitive
import JavaHighlight.Proofs.Meaning.Near
import JavaHighlight.Proofs.Meaning.Outline
import JavaHighlight.Proofs.Names.Dotted
import JavaHighlight.Proofs.Names.Honoured
import JavaHighlight.Proofs.Names.Modules
import JavaHighlight.Proofs.Numbers.Exponents
import JavaHighlight.Proofs.Positions.Exact
import JavaHighlight.Proofs.Reformatting.Joined
import JavaHighlight.Proofs.Restart.Tail
import JavaHighlight.Proofs.Steps
import JavaHighlight.Proofs.Stopping.Prefix
import JavaHighlight.Proofs.Stopping.Questions
import JavaHighlight.Proofs.Symbols
import JavaHighlight.Proofs.Terminators.Insensitive
import JavaHighlight.Proofs.Tiling.Lines
import JavaHighlight.Proofs.Tiling.Lossless
import JavaHighlight.Proofs.Tiling.Scan
import JavaHighlight.Proofs.Tiling.Tokens
import JavaHighlight.Proofs.TypeArguments.Balance
import JavaHighlight.Proofs.TypeArguments.Paired
import JavaHighlight.Proofs.TypeArguments.Rule
import JavaHighlight.Proofs.Words
import JavaHighlight.Reader
