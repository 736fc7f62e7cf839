/-
Rules: parsers that have a name and a definition to be told by, and the ways to build
rules from rules.
-/
import CounterLang.Parser

namespace CounterLang

structure Rule (α : Type) where
  name : String
  /-- What the rule reads, in the notation of grammars. -/
  definition : String
  body : Parser α

namespace Rule

/-- A trial of the rule.  With tracing on, the journal tells that the rule is tried and,
where it fails, how. -/
def parse (rule : Rule α) : Parser α := fun tracing s =>
  let r := rule.body tracing s
  if tracing then
    let ending := match r.outcome with
      | .failure f => [.gaveUp rule.name f]
      | _ => []
    { r with journal := .tried rule.name s.position :: (r.journal ++ ending) }
  else r

def map (f : α → β) (rule : Rule α) : Rule β :=
  ⟨rule.name, rule.definition, f <$> rule.body⟩

/-! ## Single tokens -/

def token (kind : Kind) : Rule Token := ⟨kind.spelling, kind.wanted, Parser.token kind⟩

def word : Rule String := ⟨"text", "<text>", Parser.word⟩

def number : Rule Int := ⟨"number", "<number>", Parser.number⟩

/-! ## Rules from rules -/

/-- A name may be left empty where there is one that suggests itself. -/
def nameOr (suggested name : String) : String := if name = "" then suggested else name

def failed (name definition reason : String) (position : Int) : Failure :=
  { cause := .failedRule name definition (some reason), position := some position }

/-- The first of several parsers that does not fail uncommitted. -/
def firstOf (name definition : String) : List (Parser α) → Parser α
  | [] => Parser.failHere (failed name definition "no alternative matched")
  | p :: rest => p.orElse (firstOf name definition rest)

/-- Ordered choice: every alternative starts from the same place, and the first that
matches wins. -/
def oneOf (alternatives : List (Rule α)) (name definition : String) : Rule α :=
  let joined := " | ".intercalate (alternatives.map Rule.name)
  let name := nameOr joined name
  let definition := nameOr joined definition
  ⟨name, definition, firstOf name definition (alternatives.map parse)⟩

def star (item : Rule α) (name definition : String) : Rule (List α) :=
  let name := nameOr ("(" ++ item.name ++ ")*") name
  let definition := nameOr ("(" ++ item.definition ++ ")*") definition
  ⟨name, definition,
    item.parse.many (failed name definition (item.name ++ " matched without consuming input"))⟩

def inOrder : List (Parser α) → Parser (List α)
  | [] => Pure.pure []
  | p :: rest => do
    let a ← p
    let as ← inOrder rest
    return a :: as

/-- All items in order.  Where a number `k` is given, the rule is committed to once it has
read the first `k` of them. -/
def sequence (items : List (Rule α)) (commit : Option Nat) (name definition : String) :
    Rule (List α) :=
  ⟨name, definition,
    match commit with
    | none => inOrder (items.map parse)
    | some k => do
      let head ← inOrder ((items.take k).map parse)
      let tail ← Parser.committed (inOrder ((items.drop k).map parse))
      return head ++ tail⟩

def called (rule : Rule α) (name definition : String) : Rule α := ⟨name, definition, rule.parse⟩

end Rule
end CounterLang
