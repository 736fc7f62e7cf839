/-
The arguments of the command: which options there are, and what is wrong with arguments
that make no sense.
-/
import CounterLang.Text.Quoted
import CounterLang.Text.Similarity

namespace CounterLang
namespace CommandLine

/-- What the command can be asked for besides its work. -/
inductive Notice
  | version
  | help
deriving DecidableEq, Repr

structure Flags where
  tokens : Bool := false
  outline : Bool := false
  trace : Bool := false
  verbose : Bool := false
deriving DecidableEq, Repr

/-- The arguments, sorted out: the flags, the first notice that was asked for, and the
operands in order. -/
structure Arguments where
  flags : Flags := {}
  notice : Option Notice := none
  operands : List String := []
deriving DecidableEq, Repr

inductive Complaint
  | unknownOption (option : String) (similar : List String)
  | valueNotTaken (option : String)
  | missingOperand
  | notFound (path : String)
  | isDirectory (path : String)
  | extraOperands (operands : List String)
deriving DecidableEq, Repr

namespace Complaint

def text : Complaint → String
  | unknownOption option [] => "No such option: " ++ option
  | unknownOption option [similar] =>
    "No such option: " ++ option ++ " Did you mean " ++ similar ++ "?"
  | unknownOption option similar =>
    "No such option: " ++ option ++ " (Possible options: " ++
      ", ".intercalate (similar.mergeSort fun a b => a ≤ b) ++ ")"
  | valueNotTaken option => "Option " ++ Text.quoted option ++ " does not take a value."
  | missingOperand => "Missing argument 'INPUT_FILE'."
  | notFound path =>
    "Invalid value for 'INPUT_FILE': File " ++ Text.quoted path ++ " does not exist."
  | isDirectory path =>
    "Invalid value for 'INPUT_FILE': File " ++ Text.quoted path ++ " is a directory."
  | extraOperands [operand] => "Got unexpected extra argument (" ++ operand ++ ")"
  | extraOperands operands =>
    "Got unexpected extra arguments (" ++ " ".intercalate operands ++ ")"

/-- Most complaints come with a reminder of how the command is used. -/
def usage : Complaint → List String
  | valueNotTaken _ => []
  | _ => ["Usage: cmparse [OPTIONS] INPUT_FILE\nTry 'cmparse --help' for help.\n"]

def messages (c : Complaint) : List String := c.usage ++ ["Error: " ++ c.text]

end Complaint

namespace Arguments

/-! ## Options -/

def addOperand (a : Arguments) (operand : String) : Arguments :=
  { a with operands := a.operands ++ [operand] }

def addOperands (a : Arguments) (operands : List String) : Arguments :=
  { a with operands := a.operands ++ operands }

/-- Later notices do not count. -/
def notify (a : Arguments) (n : Notice) : Arguments :=
  { a with notice := a.notice.or (some n) }

def longOptions : List (String × (Arguments → Arguments)) :=
  [("--tokens", fun a => { a with flags := { a.flags with tokens := true } }),
    ("--ast", fun a => { a with flags := { a.flags with outline := true } }),
    ("--trace", fun a => { a with flags := { a.flags with trace := true } }),
    ("--verbose", fun a => { a with flags := { a.flags with verbose := true } }),
    ("--version", fun a => a.notify .version),
    ("--help", fun a => a.notify .help)]

/-- Several short options may stand together behind one dash. -/
def shortOptions (a : Arguments) : List Char → Except Complaint Arguments
  | [] => .ok a
  | c :: rest =>
    if c = 'v' then
      shortOptions { a with flags := { a.flags with verbose := true } } rest
    else .error (.unknownOption (String.ofList ['-', c]) [])

/-- An argument that starts with a dash and goes on.  It may have a value behind an equals
sign, which no option takes. -/
def option (a : Arguments) (argument : String) : Except Complaint Arguments :=
  let chars := argument.toList
  let name := String.ofList (chars.takeWhile (· ≠ '='))
  match longOptions.lookup name with
  | some change => if '=' ∈ chars then .error (.valueNotTaken name) else .ok (change a)
  | none =>
    match chars with
    | '-' :: '-' :: _ =>
      .error (.unknownOption name (Similarity.closest name (longOptions.map Prod.fst)))
    | _ => a.shortOptions chars.tail

def isOption (argument : String) : Bool :=
  match argument.toList with
  | '-' :: _ :: _ => true
  | _ => false

/-- Options and operands may be mixed.  Behind two dashes there are only operands. -/
def readInto (a : Arguments) : List String → Except Complaint Arguments
  | [] => .ok a
  | argument :: rest =>
    if argument = "--" then .ok (a.addOperands rest)
    else if isOption argument then
      match a.option argument with
      | .ok a => readInto a rest
      | .error c => .error c
    else readInto (a.addOperand argument) rest

def read (arguments : List String) : Except Complaint Arguments := readInto {} arguments

end Arguments
end CommandLine
end CounterLang
