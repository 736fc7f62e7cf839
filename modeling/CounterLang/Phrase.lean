/-
Phrases: rules written down as data, so that a grammar can be put together, named and
referred to before it is run.
-/
import CounterLang.Grammar
import CounterLang.Program.Node

namespace CounterLang

inductive Datum
  | token (t : Token)
  | text (word : String)
  | number (value : Int)
  | node (n : Node)
  | list (entries : List Datum)
deriving Repr

def Datum.nodes (of : α → Node) (xs : List α) : Datum := .list (xs.map fun x => .node (of x))

inductive Production
  | keyword (k : Keyword)
  | numberValue
  | textValue
  | value
  | values
  | block
  | loop
  | jez
  | incr
  | decr
  | call
  | statement
  | param
  | params
  | definition
deriving DecidableEq, Repr

/-- The rule that a production stands for, given the limit on how deep loops may lie inside each
other. -/
def Production.ruleWithin (limit : Nat) : Production → Rule Datum
  | keyword k => (Grammar.keyword k).map .token
  | numberValue => Grammar.numberValue.map fun v => .node (.value v)
  | textValue => Grammar.textValue.map fun v => .node (.value v)
  | value => Grammar.value.map fun v => .node (.value v)
  | values => Grammar.values.map (Datum.nodes .value)
  | block => (Grammar.block limit).map (Datum.nodes .statement)
  | loop => (Grammar.loop limit).map fun s => .node (.statement s)
  | jez => Grammar.jez.map fun s => .node (.statement s)
  | incr => Grammar.incr.map fun s => .node (.statement s)
  | decr => Grammar.decr.map fun s => .node (.statement s)
  | call => Grammar.call.map fun s => .node (.statement s)
  | statement => (Grammar.statement limit).map fun s => .node (.statement s)
  | param => Grammar.param.map fun p => .node (.param p)
  | params => Grammar.params.map (Datum.nodes .param)
  | definition => (Grammar.definition limit).map fun d => .node (.definition d)

def Production.rule (p : Production) : Rule Datum := p.ruleWithin Grammar.nestingLimit

/-- A rule written down.  Names and definitions may be left empty in a choice and in a
repetition, which then take those of their parts. -/
inductive Phrase
  | word
  | number
  | token (kind : Kind)
  | oneOf (alternatives : List Phrase) (name definition : String)
  | star (item : Phrase) (name definition : String)
  /-- The phrase that has the name `target` when the rule is tried. -/
  | deferred (target name definition : String)
  | sequence (items : List Phrase) (commit : Option Nat) (name definition : String)
  | production (p : Production)
deriving Repr

namespace Phrase

structure NoAlternative where
deriving DecidableEq, Repr

def NoAlternative.message (_ : NoAlternative) : String :=
  "one_of() needs at least one alternative"

def choice (alternatives : List Phrase) (name definition : String) :
    Except NoAlternative Phrase :=
  if alternatives.isEmpty then .error ⟨⟩ else .ok (oneOf alternatives name definition)

section Rules

variable (limit : Nat) (named : String → Parser Datum)

mutual

/-- The rule that a phrase stands for, given the limit for productions and the parsers that names
stand for. -/
def ruleWithin : Phrase → Rule Datum
  | word => Rule.word.map .text
  | number => Rule.number.map .number
  | token kind => (Rule.token kind).map .token
  | oneOf alternatives name definition => Rule.oneOf (rulesWithin alternatives) name definition
  | star item name definition => (Rule.star (ruleWithin item) name definition).map .list
  | deferred target name definition => ⟨name, definition, named target⟩
  | sequence items commit name definition =>
    (Rule.sequence (rulesWithin items) commit name definition).map .list
  | production p => p.ruleWithin limit

def rulesWithin : List Phrase → List (Rule Datum)
  | [] => []
  | p :: rest => ruleWithin p :: rulesWithin rest

end

end Rules

def rule (named : String → Parser Datum) (p : Phrase) : Rule Datum :=
  p.ruleWithin Grammar.nestingLimit named

end Phrase

/-- Named phrases, the newest first. -/
abbrev Phrasebook := List (String × Phrase)

namespace Phrasebook

/-- A name stands for the newest phrase that was given it. -/
def find? (book : Phrasebook) (name : String) : Option Phrase := List.lookup name book

/-- A trial of a named phrase in which names are looked up inside of each other at most
`depth` times. -/
def parseIn (book : Phrasebook) (limit : Nat) : (depth : Nat) → (name : String) → Parser Datum
  | 0, _ => Parser.abort .endless
  | depth + 1, name =>
    match book.find? name with
    | some phrase => (phrase.ruleWithin limit (book.parseIn limit depth)).parse
    | none => Parser.abort (.unknownRule name)

def parseWithin (book : Phrasebook) : (depth : Nat) → (name : String) → Parser Datum :=
  book.parseIn Grammar.nestingLimit

/-- More names inside of each other than this are taken for a recursion without end. -/
def depthLimit : Nat := 512

def rule (book : Phrasebook) (phrase : Phrase) : Rule Datum :=
  phrase.rule (book.parseWithin depthLimit)

end Phrasebook
end CounterLang
