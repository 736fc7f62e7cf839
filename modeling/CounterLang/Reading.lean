/-
Reading a program: from tokens, or from a text.
-/
import CounterLang.Grammar
import CounterLang.Token.Scan
import CounterLang.Options

namespace CounterLang

/-- What came of reading a program, and the journal of it. -/
structure Reading where
  result : Except Failure Program
  journal : Journal

namespace Reading

/-- Rules that find no end are reported as a failure of the rule for statements, since only
statements lie inside each other. -/
def tooDeep (position : Int) : Failure :=
  Rule.failed Grammar.statementName Grammar.statementDefinition "nesting too deep" position

def verdict (options : Options) (r : Run (List Item)) : Except Failure Program :=
  match r.outcome with
  | .value items => .ok (Program.ofItems items)
  | .failure f => .error (f.located (some options.filename))
  | .abort _ => .error ((tooDeep r.point.position).located (some options.filename))

def conclusion (options : Options) : Except Failure Program → Event
  | .ok p => .readProgram options.filename p.definitions.length p.statements.length
  | .error f => .rejected options.filename f.text

end Reading

namespace Program

/-- The program that a list of tokens spells, or the first failure that could not be
backtracked over, where there is room for fewer than `room` loops inside each other. -/
def readIn (room : Nat) (options : Options) (tokens : List Token) : Reading :=
  let r := Grammar.items room options.tracing ⟨0, tokens⟩
  let result := Reading.verdict options r
  ⟨result, r.journal ++ [Reading.conclusion options result]⟩

def read (options : Options) (tokens : List Token) : Reading :=
  readIn Grammar.nestingLimit options tokens

def scanned (text : String) (tokens : List Token) : Event :=
  .scanned text.length tokens.length

def readTextIn (room : Nat) (options : Options) (text : String) :
    Except Numeral.TooLong Reading := do
  let tokens ← tokensOf text
  let reading := readIn room options tokens
  return { reading with journal := scanned text tokens :: reading.journal }

def readText (options : Options) (text : String) : Except Numeral.TooLong Reading :=
  readTextIn Grammar.nestingLimit options text

end Program

/-! ## Repeated readings -/

/-- A list of tokens that can be read any number of times, and the options for the next
reading. -/
structure Reader where
  tokens : List Token
  options : Options := {}
deriving DecidableEq, Repr

namespace Reader

/-- A reading.  A name that is given for it stays in use for the readings after it. -/
def readIn (room : Nat) (r : Reader) (filename : Option String) : Reading × Reader :=
  let options := match filename with
    | none => r.options
    | some name => { r.options with filename := name }
  (Program.readIn room options r.tokens, { r with options := options })

/-- A sequence of readings, each with the room that there is at its time. -/
def readAllIn (r : Reader) : List (Nat × Option String) → List Reading
  | [] => []
  | (room, filename) :: rest =>
    let (reading, r) := r.readIn room filename
    reading :: r.readAllIn rest

def readAll (r : Reader) (filenames : List (Option String)) : List Reading :=
  r.readAllIn (filenames.map fun filename => (Grammar.nestingLimit, filename))

end Reader
end CounterLang
