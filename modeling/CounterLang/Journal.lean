/-
The journal of a run: what was scanned, tried and read, in order.
-/
import CounterLang.Failure

namespace CounterLang

inductive Event
  | scanned (characters tokens : Nat)
  | tried (rule : String) (position : Int)
  | gaveUp (rule : String) (failure : Failure)
  /-- A failure left a committed block, and so became final. -/
  | committed (failure : Failure)
  | readDefinition (name : String) (params statements : Nat)
  | readProgram (filename : String) (definitions statements : Nat)
  | rejected (filename text : String)
deriving DecidableEq, Repr

namespace Event

def count (n : Nat) : String := Numeral.text n

/-- The line that reports an event.  How a trial ended is left for the trials after it
to show. -/
def line? : Event → Option String
  | scanned characters tokens =>
    some ("counter_machines.lexer: Tokenized " ++ count characters ++ " characters into " ++
      count tokens ++ " tokens")
  | tried rule position =>
    some ("counter_machines.rules: Trying " ++ rule ++ " at token " ++ Numeral.text position)
  | gaveUp .. => none
  | committed _ => none
  | readDefinition name params statements =>
    some ("counter_machines.parser: Parsed function '" ++ name ++ "' (" ++ count params ++
      " args, " ++ count statements ++ " statements)")
  | readProgram filename definitions statements =>
    some ("counter_machines.parser: Parsed " ++ filename ++ ": " ++ count definitions ++
      " functions, " ++ count statements ++ " statements")
  | rejected filename text =>
    some ("counter_machines.parser: Parse of " ++ filename ++ " failed: " ++ text)

end Event

abbrev Journal := List Event

def Journal.lines (j : Journal) : List String := j.filterMap Event.line?

end CounterLang
