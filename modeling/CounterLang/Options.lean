/-
Options of a reading, and how the environment sets them.
-/
import CounterLang.Text.Blank

namespace CounterLang

/-- How a reading reports itself. -/
structure Options where
  /-- The name of what is read, as messages show it. -/
  filename : String := "<input>"
  /-- Whether every trial of a rule is entered in the journal. -/
  tracing : Bool := false
deriving DecidableEq, Repr

/-- The two variables that set options, each of them set or not. -/
structure Environment where
  filename : Option String := none
  trace : Option String := none
deriving DecidableEq, Repr

namespace Options

/-- The texts that switch tracing on. -/
def affirmations : List (List Char) :=
  ["1".toList, "true".toList, "yes".toList, "on".toList]

/-- Blanks at the ends and the case of the letters do not count.  Only ASCII letters have
to be lowered: no other letter has a lower case that occurs in an affirmation. -/
def affirms (text : String) : Bool :=
  (Text.trimmed text.toList).map Char.toLower ∈ affirmations

/-- What the environment does not set stays as it is by default.  An empty variable counts
as not set. -/
def ofEnvironment (env : Environment) : Options :=
  let default : Options := {}
  { filename :=
      match env.filename with
      | none => default.filename
      | some name => if name = "" then default.filename else name
    tracing :=
      match env.trace with
      | none => default.tracing
      | some text => affirms text }

end Options
end CounterLang
