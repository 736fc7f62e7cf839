/-
What the command says of a file, and with which exit code it ends.
-/
import CounterLang.CommandLine.Toolkit
import CounterLang.FileTree
import CounterLang.Program.Outline
import CounterLang.Reading
import CounterLang.Text.Newline
import CounterLang.Text.Utf8

namespace CounterLang
namespace CommandLine

/-! ## Reports on a file -/

def written (lines : List String) : String := String.join (lines.map (· ++ "\n"))

/-- A number in a column of at least `width` characters. -/
def rightAligned (width n : Nat) : List Char :=
  let digits := Numeral.write n
  List.replicate (width - digits.length) ' ' ++ digits

/-- The lines of a token listing, from the given index on. -/
def listingFrom (index : Nat) : List Token → List String
  | [] => []
  | t :: rest =>
    (String.ofList (rightAligned 5 index) ++ "  " ++ t.record) :: listingFrom (index + 1) rest

def listing (tokens : List Token) : List String := listingFrom 0 tokens

def summary (filename : String) (tokens : List Token) (p : Program) : String :=
  "Parsed " ++ filename ++ ": " ++ Numeral.text tokens.length ++ " tokens, " ++
    Numeral.text p.definitions.length ++ " functions, " ++
    Numeral.text p.statements.length ++ " statements"

/-- The options of a reading for the command.  The file is always named by its path. -/
def optionsFor (env : Environment) (flags : Flags) (path : String) : Options :=
  ⟨Path.tidy path, (Options.ofEnvironment env).tracing || flags.trace⟩

/-- The journal is shown if either of the flags that ask for it is set. -/
def log (flags : Flags) (j : Journal) : String :=
  if flags.verbose || flags.trace then written j.lines else ""

section Reports

variable (room : Nat)

def reportText (options : Options) (flags : Flags) (text : String) : Report :=
  match tokensOf text with
  | .error e =>
    { exit := .internalError, refusal := ["Internal error: " ++ e.message],
      raised := if flags.verbose then some e else none }
  | .ok tokens =>
    let scanned := Program.scanned text tokens
    if flags.tokens then
      { exit := .success, answer := listing tokens, log := log flags [scanned] }
    else
      let reading := Program.readIn room options tokens
      let log := log flags (scanned :: reading.journal)
      match reading.result with
      | .error f => { exit := .parseError, log := log, refusal := [f.message] }
      | .ok p =>
        let answer := if flags.outline then p.outlineText else summary options.filename tokens p
        { exit := .success, answer := [answer], log := log }

def reportFile (env : Environment) (flags : Flags) (path : String) (bytes : List UInt8) :
    Report :=
  match Utf8.decode bytes with
  | .error f => { exit := .invalidArgs, refusal := ["Error: " ++ f.message] }
  | .ok chars =>
    reportText room (optionsFor env flags path) flags (String.ofList (Text.foldNewlines chars))

def conclude (env : Environment) (flags : Flags) (path : String) (extra : List String) :
    Entry → Report
  | .missing => (Complaint.notFound path).report
  | .directory => (Complaint.isDirectory path).report
  | .file bytes =>
    if extra.isEmpty then reportFile room env flags path bytes
    else (Complaint.extraOperands extra).report

end Reports

/-! ## The command as a whole -/

/-- The command, where there is room for fewer than `room` loops inside each other, and where
`look` tells what a path names. -/
def runIn (kit : Toolkit) (room : Nat) (look : String → Entry) (env : Environment)
    (arguments : List String) : Report :=
  match kit.plan arguments with
  | .done r => r
  | .look flags path extra => conclude room env flags path extra (look path)

/-- The command in a directory whose content is known. -/
def run (tree : FileTree) (env : Environment) (arguments : List String) : Report :=
  runIn Toolkit.standard Grammar.nestingLimit tree.look env arguments

end CommandLine
end CounterLang
