import CounterLang.Cursor
import CounterLang.Main
import CounterLang.Program.Tokens
import CounterLang.Proofs.Repetition
import CounterLang.Proofs.Demand
import CounterLang.Proofs.Stop
import CounterLang.Proofs.Course
import CounterLang.Proofs.Acceptance
import CounterLang.Proofs.Viability
import CounterLang.Proofs.ErrorPosition
import CounterLang.Proofs.Escape
import CounterLang.Proofs.Word
import CounterLang.Proofs.Writing
import CounterLang.Proofs.RoundTrip
import CounterLang.Proofs.Concatenation
import CounterLang.Proofs.Hint
import CounterLang.Proofs.ScanLimit
import CounterLang.Proofs.Block
import CounterLang.Proofs.Lookahead
import CounterLang.Proofs.ScanImage
import CounterLang.Proofs.Closed
import CounterLang.Proofs.Nesting
import CounterLang.Proofs.Room
import CounterLang.Proofs.Position
import CounterLang.Proofs.Place
import CounterLang.Proofs.Tracing
import CounterLang.Proofs.Commitment
import CounterLang.Proofs.Splitting
import CounterLang.Proofs.Choice
import CounterLang.Proofs.Alternatives
import CounterLang.Proofs.GreedyChain
import CounterLang.Proofs.Spending
import CounterLang.Proofs.Trials
import CounterLang.Proofs.Decimal
import CounterLang.Proofs.Schedule
import CounterLang.Proofs.Fork
import CounterLang.Proofs.Readable
import CounterLang.Proofs.Headline
import CounterLang.Proofs.Outline
import CounterLang.Proofs.Utf8
import CounterLang.Proofs.Request
import CounterLang.Proofs.Report
import CounterLang.Proofs.Notes
import CounterLang.Proofs.Diagnostics
import CounterLang.Proofs.Quoted
import CounterLang.Proofs.Form
import CounterLang.Proofs.Record
import CounterLang.Proofs.Listing
