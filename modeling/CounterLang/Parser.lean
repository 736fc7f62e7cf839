/-
Parsers: functions that read a beginning of the tokens ahead.

A parser ends in a value, in a failure, or not at all.  A failure can be backtracked over
unless it is committed, which `committed` makes of every failure that leaves its block.
-/
import CounterLang.Run

namespace CounterLang

/-- The flag says whether the trials of rules are entered in the journal. -/
def Parser (α : Type) := Bool → Point → Run α

namespace Parser

def pure (a : α) : Parser α := fun _ s => ⟨.value a, s, []⟩

def failHere (f : Int → Failure) : Parser α := fun _ s => ⟨.failure (f s.position), s, []⟩

def abort (a : Abort) : Parser α := fun _ s => ⟨.abort a, s, []⟩

def bind (p : Parser α) (f : α → Parser β) : Parser β := fun tracing s =>
  let r := p tracing s
  match r.outcome with
  | .value a => (f a tracing r.point).after r.journal
  | .failure e => ⟨.failure e, r.point, r.journal⟩
  | .abort a => ⟨.abort a, r.point, r.journal⟩

instance : Monad Parser where
  pure := Parser.pure
  bind := Parser.bind

theorem pure_bind (a : α) (f : α → Parser β) : bind (pure a) f = f a := by
  funext tracing s
  simp [bind, pure]

theorem bind_pure (p : Parser α) : bind p pure = p := by
  funext tracing s
  rcases h : p tracing s with ⟨o, s', j⟩
  cases o <;> simp [bind, pure, Run.after, h]

theorem bind_assoc (p : Parser α) (f : α → Parser β) (g : β → Parser γ) :
    bind (bind p f) g = bind p fun a => bind (f a) g := by
  funext tracing s
  rcases h : p tracing s with ⟨o, s', j⟩
  cases o with
  | value a =>
    rcases k : f a tracing s' with ⟨o, s'', j'⟩
    cases o <;> simp [bind, Run.after, h, k]
  | failure e => simp [bind, h]
  | abort b => simp [bind, h]

instance : LawfulMonad Parser := LawfulMonad.mk' Parser bind_pure pure_bind bind_assoc

/-! ## Single tokens -/

/-- The next token, if `read` makes something of it.  Nothing is consumed otherwise. -/
def next (kind : Kind) (read : Token → Option α) : Parser α := fun _ s =>
  match s.ahead with
  | [] => ⟨.failure { cause := .unexpectedEnd kind.wanted, position := some s.position }, s, []⟩
  | t :: rest =>
    match read t with
    | some a => ⟨.value a, ⟨s.position + 1, rest⟩, []⟩
    | none =>
      ⟨.failure
        { cause := .unexpectedToken kind.wanted (.token t), position := some s.position }, s, []⟩

def token (kind : Kind) : Parser Token := next kind fun t => if t.kind = kind then some t else none

def word : Parser String := next .text fun
  | .text word => some word
  | _ => none

def number : Parser Int := next .number fun
  | .number value => some value
  | _ => none

/-! ## Checks and notes -/

/-- A value that has to pass a check.  One that does not pass is a failure at the place
where it starts, although it has been read. -/
def refine (p : Parser α) (check : α → Option β) (fault : α → Int → Failure) : Parser β :=
  fun tracing s =>
    let r := p tracing s
    match r.outcome with
    | .value a =>
      match check a with
      | some b => ⟨.value b, r.point, r.journal⟩
      | none => ⟨.failure (fault a s.position), r.point, r.journal⟩
    | .failure f => ⟨.failure f, r.point, r.journal⟩
    | .abort b => ⟨.abort b, r.point, r.journal⟩

def note (e : Event) : Parser Unit := fun _ s => ⟨.value (), s, [e]⟩

/-- Looks at the next token to decide between two parsers.  The decision is final. -/
def ifNext (t : Token) (p q : Parser α) : Parser α := fun tracing s =>
  if s.ahead.head? = some t then p tracing s else q tracing s

/-! ## Commitment and choice -/

/-- Once it is clear which rule applies, its failures are final. -/
def committed (p : Parser α) : Parser α := fun tracing s =>
  let r := p tracing s
  match r.outcome with
  | .failure f =>
    ⟨.failure f.commit, r.point, r.journal ++ if tracing then [.committed f.commit] else []⟩
  | _ => r

/-- The second parser starts where the first one started.  It has its turn only if the
first one failed and is not committed. -/
def orElse (p q : Parser α) : Parser α := fun tracing s =>
  let r := p tracing s
  match r.outcome with
  | .failure f => if f.committed then r else (q tracing s).after r.journal
  | _ => r

/-! ## Repetition -/

/-- The values of `p`, one after the other, up to its first failure.  That failure is
forgotten unless it is committed.  Where `p` succeeds without consuming a token the
repetition would have no end, and it fails with `stuck`. -/
def many (p : Parser α) (stuck : Int → Failure) (tracing : Bool) (s : Point) : Run (List α) :=
  let r := p tracing s
  match r.outcome with
  | .value a =>
    if r.point.ahead.length < s.ahead.length then
      ((many p stuck tracing r.point).map (a :: ·)).after r.journal
    else ⟨.failure (stuck s.position), r.point, r.journal⟩
  | .failure f =>
    if f.committed then ⟨.failure f, r.point, r.journal⟩ else ⟨.value [], s, r.journal⟩
  | .abort b => ⟨.abort b, r.point, r.journal⟩
termination_by s.ahead.length

/-- The values of `p`, one after the other, until no token is left. -/
def untilEnd (p : Parser α) (tracing : Bool) (s : Point) : Run (List α) :=
  if s.ahead = [] then ⟨.value [], s, []⟩
  else
    let r := p tracing s
    match r.outcome with
    | .value a =>
      if r.point.ahead.length < s.ahead.length then
        ((untilEnd p tracing r.point).map (a :: ·)).after r.journal
      else ⟨.abort .endless, r.point, r.journal⟩
    | .failure f => ⟨.failure f, r.point, r.journal⟩
    | .abort b => ⟨.abort b, r.point, r.journal⟩
termination_by s.ahead.length

end Parser
end CounterLang
