/-
The grammar of programs.

A loop is read with a limit on how deep loops may lie inside each other.  Every rule that
reads statements has the limit as a parameter, and gives up without an outcome where the
loops around it have used it up.
-/
import CounterLang.Rule
import CounterLang.Program

namespace CounterLang
namespace Grammar

/-! ## Keywords and values -/

def keyword (k : Keyword) : Rule Token := Rule.token (.keyword k)

def numberValue : Rule Value := ⟨"number", "<number>", do return .number (← Rule.number.parse)⟩

def textValue : Rule Value := ⟨"text", "<text>", do return .text (← Rule.word.parse)⟩

def value : Rule Value := Rule.oneOf [numberValue, textValue] "value" "<number> | <text>"

def values : Rule (List Value) := Rule.star value "" ""

/-! ## Statements -/

def jez : Rule Statement := ⟨"jez", "JEZ <text> <text>", do
  let _ ← (keyword .jez).parse
  Parser.committed do
    let register ← Rule.word.parse
    let label ← Rule.word.parse
    return .jez ⟨register⟩ ⟨label⟩⟩

def incr : Rule Statement := ⟨"incr", "INCR <text>", do
  let _ ← (keyword .incr).parse
  Parser.committed do return .incr ⟨← Rule.word.parse⟩⟩

def decr : Rule Statement := ⟨"decr", "DECR <text>", do
  let _ ← (keyword .decr).parse
  Parser.committed do return .decr ⟨← Rule.word.parse⟩⟩

def call : Rule Statement := ⟨"call", "<text> (<value>)* ';'", do
  let name ← Rule.word.parse
  Parser.committed do
    let args ← values.parse
    let _ ← (keyword .semicolon).parse
    return .call name args⟩

def loopOf (body : Rule (List Statement)) : Rule Statement :=
  ⟨"repeat", "REPEAT <value> (<statement>)* END", do
    let _ ← (keyword .loop).parse
    Parser.committed do
      let count ← value.parse
      let body ← body.parse
      let _ ← (keyword .close).parse
      return .loop count body⟩

def statementName : String := "statement"

def statementDefinition : String := "repeat | jez | incr | decr | call"

/-- The statements of a block.  A block names the rule for its statements before it tries
it, so that the grammar can be recursive. -/
def blockOf (statement : Rule Statement) : Rule (List Statement) :=
  Rule.star (statement.called statementName statementDefinition) "" ""

/-- The alternatives of a statement, given the rule for the body of a loop. -/
def alternatives (body : Rule (List Statement)) : List (Rule Statement) :=
  [loopOf body, jez, incr, decr, call]

/-- A statement inside of which, itself included, `limit` loops may lie. -/
def statement : (limit : Nat) → Rule Statement
  | 0 => ⟨statementName, statementDefinition, Parser.abort .endless⟩
  | limit + 1 =>
    Rule.oneOf (alternatives (blockOf (statement limit))) statementName statementDefinition

def block (limit : Nat) : Rule (List Statement) := blockOf (statement limit)

def loop (limit : Nat) : Rule Statement := loopOf (block limit)

/-! ## Definitions -/

def paramName : String := "function-arg"

def paramDefinition : String := "<text> ':' <text in \x7bNUM, REG, LABEL\x7d>"

def unknownType (word : String) : Int → Failure :=
  Rule.failed paramName paramDefinition ("unknown argument type '" ++ word ++ "'")

/-- The type of a parameter is an ordinary word, checked when it has been read. -/
def paramType : Parser ParamType := Rule.word.parse.refine ParamType.ofKeyword? unknownType

def param : Rule Param := ⟨paramName, paramDefinition, do
  let name ← Rule.word.parse
  let _ ← (keyword .colon).parse
  Parser.committed do return ⟨name, ← paramType⟩⟩

def params : Rule (List Param) := Rule.star param "" ""

def definition (limit : Nat) : Rule Definition :=
  ⟨"function-definition", "DEFINE <text> (<arg>)* AS (<statement>)* END", do
    let _ ← (keyword .define).parse
    let d ← Parser.committed do
      let name ← Rule.word.parse
      let params ← params.parse
      let _ ← (keyword .body).parse
      let body ← (block limit).parse
      let _ ← (keyword .close).parse
      return (⟨name, params, body⟩ : Definition)
    Parser.note (.readDefinition d.name d.params.length d.body.length)
    return d⟩

/-! ## Programs -/

/-- A definition where its keyword comes next, else a statement. -/
def item (limit : Nat) : Parser Item :=
  Parser.ifNext (.keyword .define) (Item.definition <$> (definition limit).parse)
    (Item.statement <$> (statement limit).parse)

/-- A program goes on to the last token. -/
def items (limit : Nat) : Parser (List Item) := Parser.untilEnd (item limit)

/-- The limit that is used where none is given.  What there really is room for is not a matter of
the grammar: loops that are open take up the stack, which is shared with whoever asked for the
reading and with what is done to keep the journal. -/
def nestingLimit : Nat := 119

end Grammar
end CounterLang
