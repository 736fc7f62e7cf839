/-
Failures: why a list of tokens is not what a rule asks for, and how that is worded.
-/
import CounterLang.Token

namespace CounterLang

/-- What was found in place of the expected: as a rule a token, or else a description. -/
inductive Found
  | token (t : Token)
  | described (text : String)
deriving DecidableEq, Repr

def Found.shown : Found → String
  | token t => t.shown
  | described text => text

inductive Cause
  | unexpectedToken (expected : String) (found : Found)
  | unexpectedEnd (expected : String)
  /-- A rule failed as a whole, not at a token that could be named. -/
  | failedRule (name definition : String) (reason : Option String)
  | other (text : String) (hint : Option String)
deriving DecidableEq, Repr

namespace Cause

/-- What went wrong.  A rule that failed for no stated reason is only named. -/
def text : Cause → String
  | unexpectedToken _ found => "unexpected token " ++ found.shown
  | unexpectedEnd _ => "unexpected end of input"
  | failedRule name _ none => "failed to parse " ++ name
  | failedRule name _ (some reason) =>
    if reason = "" then "failed to parse " ++ name
    else "failed to parse " ++ name ++ ": " ++ reason
  | other text _ => text

def hint : Cause → Option String
  | unexpectedToken expected _ => some ("expected " ++ expected)
  | unexpectedEnd expected => some ("expected " ++ expected)
  | failedRule name definition _ => some (name ++ " ::= " ++ definition)
  | other _ hint => hint

end Cause

/-- A failure to read tokens.  The position is the index of the token at which reading
stopped. -/
structure Failure where
  cause : Cause
  position : Option Int
  filename : Option String := none
  /-- A committed failure is final: no alternative is tried after it. -/
  committed : Bool := false
deriving DecidableEq, Repr

namespace Failure

def text (f : Failure) : String := f.cause.text

def hint (f : Failure) : Option String := f.cause.hint

def located (filename : Option String) (f : Failure) : Failure := { f with filename := filename }

def commit (f : Failure) : Failure := { f with committed := true }

/-- A part of a message that is left out when there is nothing to say. -/
def part (before : String) (content : Option String) (after : String) : String :=
  match content with
  | none => ""
  | some text => if text = "" then "" else before ++ text ++ after

/-- The message: what went wrong and where on one line, the hint on the next. -/
def message (f : Failure) : String :=
  part "" f.filename ": " ++ "error: " ++ f.text ++
    part " (at token " (f.position.map Numeral.text) ")" ++ part "\nhint: " f.hint ""

end Failure
end CounterLang
