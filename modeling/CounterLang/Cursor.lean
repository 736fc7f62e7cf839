/-
Cursors: places in a list of tokens that can be moved at will, and rules run from there.

A position may be any integer.  One beyond the last token is at the end, and one below
zero counts from the end of the list, as far back as there are tokens.
-/
import CounterLang.Phrase

namespace CounterLang

structure Cursor where
  tokens : List Token
  position : Int := 0
  tracing : Bool := false
deriving DecidableEq, Repr

inductive Cursor.Fault
  | pastEnd
  /-- Counted from the end, the position lies before the first token. -/
  | outOfRange
deriving DecidableEq, Repr

def Cursor.Fault.message : Cursor.Fault → String
  | pastEnd => "advance() past the end of the token stream"
  | outOfRange => "tuple index out of range"

namespace Cursor

/-- The tokens from the cursor on.  From a position counted from the end they go on to the
end and then through the whole list, because the cursor comes to position zero there. -/
def ahead? (c : Cursor) : Option (List Token) :=
  if 0 ≤ c.position then some (c.tokens.drop c.position.toNat)
  else if 0 ≤ c.position + c.tokens.length then
    some (c.tokens.drop (c.position + c.tokens.length).toNat ++ c.tokens)
  else none

def atEnd (c : Cursor) : Bool := (c.tokens.length : Int) ≤ c.position

def peek (c : Cursor) : Except Fault (Option Token) :=
  match c.ahead? with
  | some ahead => .ok ahead.head?
  | none => .error .outOfRange

def advance (c : Cursor) : Except Fault (Token × Cursor) :=
  match c.ahead? with
  | some (t :: _) => .ok (t, { c with position := c.position + 1 })
  | some [] => .error .pastEnd
  | none => .error .outOfRange

def reset (c : Cursor) (position : Int) : Cursor := { c with position := position }

/-- A trial of a rule from the cursor on.  A rule needs a place where it can look for a
token. -/
def run (c : Cursor) (rule : Rule α) : Except Fault (Run α) :=
  match c.ahead? with
  | some ahead => .ok (rule.parse c.tracing ⟨c.position, ahead⟩)
  | none => .error .outOfRange

/-- From an index a rule is tried on the tokens from there on. -/
theorem run_natCast (tokens : List Token) (p : Nat) (tracing : Bool) (rule : Rule α) :
    (⟨tokens, p, tracing⟩ : Cursor).run rule = .ok (rule.parse tracing ⟨p, tokens.drop p⟩) := by
  simp only [run, ahead?, Int.natCast_nonneg, if_true, Int.toNat_natCast]

def record (c : Cursor) : String :=
  "TokenStream(position=" ++ Numeral.text c.position ++ ", length=" ++
    Numeral.text c.tokens.length ++ ")"

/-! ## Moves -/

inductive Move
  | peek
  | advance
  | atEnd
  | mark
  | reset (position : Int)
  | parse (p : Production)
deriving DecidableEq, Repr

inductive Reply
  | token (t : Option Token)
  | flag (b : Bool)
  | position (p : Int)
  | done
  | outcome (o : Outcome Datum)
  | fault (f : Fault)
deriving Repr

/-- The reply to a move, and the cursor after it.  A rule leaves the cursor where it
stopped, whatever its outcome. -/
def move (c : Cursor) : Move → Reply × Cursor
  | .peek =>
    match c.peek with
    | .ok t => (.token t, c)
    | .error f => (.fault f, c)
  | .advance =>
    match c.advance with
    | .ok (t, c) => (.token (some t), c)
    | .error f => (.fault f, c)
  | .atEnd => (.flag c.atEnd, c)
  | .mark => (.position c.position, c)
  | .reset p => (.done, c.reset p)
  | .parse p =>
    match c.run p.rule with
    | .ok r => (.outcome r.outcome, c.reset r.point.position)
    | .error f => (.fault f, c)

end Cursor

/-! ## Several cursors over one list of tokens -/

/-- Cursors in the order in which they were made. -/
abbrev Cursors := List Cursor

namespace Cursors

inductive Step
  | move (m : Cursor.Move)
  | fork
deriving DecidableEq, Repr

inductive Answer
  | reply (r : Cursor.Reply)
  /-- A new cursor was made, which has this index. -/
  | forked (index : Nat) (tracing : Bool)
  /-- There is no cursor with the index that was given. -/
  | unknown
deriving Repr

/-- A step of the cursor with the given index.  A fork adds a cursor that stands where its
parent stands. -/
def step (cs : Cursors) (index : Nat) (s : Step) : Answer × Cursors :=
  match cs[index]? with
  | none => (.unknown, cs)
  | some c =>
    match s with
    | .fork => (.forked cs.length c.tracing, cs ++ [c])
    | .move m =>
      let (reply, c) := c.move m
      (.reply reply, cs.set index c)

/-- The answer to each of a sequence of steps, with the cursors as they are after it. -/
def run (cs : Cursors) : List (Nat × Step) → List (Answer × Cursors)
  | [] => []
  | (index, s) :: steps =>
    let (answer, cs) := cs.step index s
    (answer, cs) :: run cs steps

end Cursors
end CounterLang
