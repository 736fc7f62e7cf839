/-
How the command meets the outside: what it is asked for, and what becomes of the texts that it
prints.

The command does neither of these itself.  It leaves them to a toolkit, which sorts out the
arguments before the command has its turn, and prints texts to whatever the channels are.
`Toolkit.standard` is the toolkit in use.
-/
import CounterLang.CommandLine.Arguments
import CounterLang.Text.Control
import CounterLang.Text.Numeral

namespace CounterLang

def version : String := "1.0.0"

namespace CommandLine

inductive ExitCode
  | success
  | parseError
  | invalidArgs
  | internalError
deriving DecidableEq, Repr

namespace ExitCode

def number : ExitCode → Nat
  | success => 0
  | parseError => 1
  | invalidArgs => 2
  | internalError => 3

def name : ExitCode → String
  | success => "SUCCESS"
  | parseError => "PARSE_ERROR"
  | invalidArgs => "INVALID_ARGS"
  | internalError => "INTERNAL_ERROR"

def all : List ExitCode := [success, parseError, invalidArgs, internalError]

end ExitCode

/-- The end of a command: its exit code, and what it has to say.  Texts that are printed are
listed one by one. -/
structure Report where
  exit : ExitCode
  answer : List String := []
  log : String := ""
  /-- Why there is no answer. -/
  refusal : List String := []
  /-- The error whose traceback is asked for. -/
  raised : Option Numeral.TooLong := none
deriving DecidableEq, Repr

/-! ## Reports that need no file -/

def helpText : String :=
  "Usage: cmparse [OPTIONS] INPUT_FILE\n" ++
  "\n" ++
  "  Parse a counter machine program.\n" ++
  "\n" ++
  "  INPUT_FILE is the program source to parse.\n" ++
  "\n" ++
  "  Examples:\n" ++
  "      cmparse add.cm              # Check the program parses\n" ++
  "      cmparse --tokens add.cm     # Show tokens\n" ++
  "      cmparse --ast add.cm        # Show the syntax tree\n" ++
  "\n" ++
  "Options:\n" ++
  "  --tokens       Print the token list and exit\n" ++
  "  --ast          Print the syntax tree\n" ++
  "  --trace        Log every grammar rule attempt (enables DEBUG logging)\n" ++
  "  -v, --verbose  Verbose output\n" ++
  "  --version      Show the version and exit.\n" ++
  "  --help         Show this message and exit."

def versionText : String := "cmparse, version " ++ version

def Notice.report : Notice → Report
  | .version => { exit := .success, answer := [versionText] }
  | .help => { exit := .success, answer := [helpText] }

def Complaint.report (c : Complaint) : Report := { exit := .invalidArgs, refusal := c.messages }

/-- What the arguments ask for: a report that needs no file, or a look at one.  Operands
beyond the first are an error, but a path that names no file is reported before them. -/
inductive Plan
  | done (r : Report)
  | look (flags : Flags) (path : String) (extra : List String)
deriving DecidableEq, Repr

def plan (arguments : List String) : Plan :=
  match Arguments.read arguments with
  | .error c => .done c.report
  | .ok a =>
    match a.notice, a.operands with
    | some n, _ => .done n.report
    | none, [] => .done Complaint.missingOperand.report
    | none, path :: extra => .look a.flags path extra

/-! ## Toolkits -/

inductive Channel
  | terminal
  | file
deriving DecidableEq, Repr

/-- What the command is given to work with. -/
structure Toolkit where
  plan : List String → Plan
  /-- What comes out on the channel when a text is printed to it. -/
  echo : Channel → String → String
  /-- What is told of where an error comes from. -/
  traceback : Numeral.TooLong → String

namespace Toolkit

/-- The texts as they come out when they are printed one after the other. -/
def echoAll (kit : Toolkit) (channel : Channel) (texts : List String) : String :=
  String.join (texts.map (kit.echo channel))

def out (kit : Toolkit) (channel : Channel) (r : Report) : String := kit.echoAll channel r.answer

/-- The log is written as it is, for whatever channel it has. -/
def err (kit : Toolkit) (channel : Channel) (r : Report) : String :=
  r.log ++ kit.echoAll channel r.refusal ++ (r.raised.map kit.traceback).getD ""

/-- Control sequences are for a terminal only, and no traceback is told. -/
def standard : Toolkit where
  plan := CommandLine.plan
  echo
    | .terminal, text => text ++ "\n"
    | .file, text => Text.visible text ++ "\n"
  traceback _ := ""

end Toolkit

def Report.out (channel : Channel) (r : Report) : String := Toolkit.standard.out channel r

def Report.err (channel : Channel) (r : Report) : String := Toolkit.standard.err channel r

end CommandLine
end CounterLang
