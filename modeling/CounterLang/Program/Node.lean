/-
Nodes: the parts of a program on their own, with a record that shows every field.
-/
import CounterLang.Program.Outline

namespace CounterLang

inductive Node
  | register (r : Register)
  | label (l : Label)
  | value (v : Value)
  | statement (s : Statement)
  | param (p : Param)
  | paramType (t : ParamType)
  | definition (d : Definition)
  | program (p : Program)
  | token (t : Token)
deriving DecidableEq, Repr

/-! ## Records -/

def recordOf (heading : String) (fields : List (String × String)) : String :=
  heading ++ "(" ++ ", ".intercalate (fields.map fun f => f.1 ++ "=" ++ f.2) ++ ")"

/-- A list of records in parentheses.  A single entry keeps its comma, so that it differs
from the entry itself. -/
def listRecord : List String → String
  | [entry] => "(" ++ entry ++ ",)"
  | entries => "(" ++ ", ".intercalate entries ++ ")"

def Register.record (r : Register) : String := recordOf "Register" [("name", Text.quoted r.name)]

def Label.record (l : Label) : String := recordOf "Label" [("name", Text.quoted l.name)]

def Value.record : Value → String
  | text word => recordOf "TextValue" [("text", Text.quoted word)]
  | number value => recordOf "NumberValue" [("number", Numeral.text value)]

namespace Statement

def heading : Statement → String
  | loop .. => "RepeatStatement"
  | jez .. => "JezStatement"
  | incr .. => "IncrStatement"
  | decr .. => "DecrStatement"
  | call .. => "CallStatement"

mutual

def record : Statement → String
  | loop count body =>
    recordOf "RepeatStatement" [("count", count.record), ("body", listRecord (recordAll body))]
  | jez register label =>
    recordOf "JezStatement" [("register", register.record), ("label", label.record)]
  | incr register => recordOf "IncrStatement" [("register", register.record)]
  | decr register => recordOf "DecrStatement" [("register", register.record)]
  | call name args =>
    recordOf "CallStatement"
      [("name", Text.quoted name), ("args", listRecord (args.map Value.record))]

def recordAll : List Statement → List String
  | [] => []
  | s :: rest => record s :: recordAll rest

end

end Statement

def ParamType.record (t : ParamType) : String :=
  "<ValueType." ++ t.name ++ ": " ++ Text.quoted t.keyword ++ ">"

def Param.record (p : Param) : String :=
  recordOf "FunctionArg" [("name", Text.quoted p.name), ("type", p.type.record)]

def Definition.record (d : Definition) : String :=
  recordOf "FunctionDefinition"
    [("name", Text.quoted d.name), ("args", listRecord (d.params.map Param.record)),
      ("body", listRecord (Statement.recordAll d.body))]

def Program.record (p : Program) : String :=
  recordOf "Program"
    [("function_definitions", listRecord (p.definitions.map Definition.record)),
      ("statements", listRecord (Statement.recordAll p.statements))]

namespace Node

def record : Node → String
  | register r => r.record
  | label l => l.record
  | value v => v.record
  | statement s => s.record
  | param p => p.record
  | paramType t => t.record
  | definition d => d.record
  | program p => p.record
  | token t => t.record

/-! ## Outlines of nodes -/

def heading : Node → String
  | register _ => "Register"
  | label _ => "Label"
  | value (.text _) => "TextValue"
  | value (.number _) => "NumberValue"
  | statement s => s.heading
  | param _ => "FunctionArg"
  | paramType _ => "ValueType"
  | definition _ => "FunctionDefinition"
  | program _ => "Program"
  | token _ => "Token"

structure NoOutline where
  heading : String
deriving DecidableEq, Repr

def NoOutline.message (e : NoOutline) : String := "no visit method for " ++ e.heading

def noOutline (n : Node) : NoOutline := ⟨n.heading⟩

/-- Programs, definitions and statements have an outline, and their parts have none. -/
def outline : Node → Except NoOutline (List String)
  | statement s => .ok (s.outline 0)
  | definition d => .ok (d.outline 0)
  | program p => .ok p.outline
  | n => .error n.noOutline

def outlineText (n : Node) : Except NoOutline String := "\n".intercalate <$> n.outline

end Node
end CounterLang
