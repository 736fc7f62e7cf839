/-
The outline of a program: one line for each definition and statement, indented by what
it is part of.
-/
import CounterLang.Program

namespace CounterLang

/-- Two spaces for each level. -/
def indented (depth : Nat) (line : String) : String :=
  String.ofList (List.replicate (2 * depth) ' ') ++ line

def Value.outline : Value → String
  | text word => word
  | number value => Numeral.text value

namespace Statement

mutual

def outline (depth : Nat) : Statement → List String
  | loop count body =>
    indented depth ("Repeat " ++ count.outline) :: outlineAll (depth + 1) body
  | jez register label => [indented depth ("Jez " ++ register.name ++ " -> " ++ label.name)]
  | incr register => [indented depth ("Incr " ++ register.name)]
  | decr register => [indented depth ("Decr " ++ register.name)]
  | call name args =>
    [indented depth ("Call " ++ name ++ "(" ++ ", ".intercalate (args.map Value.outline) ++ ")")]

def outlineAll (depth : Nat) : List Statement → List String
  | [] => []
  | s :: rest => outline depth s ++ outlineAll depth rest

end

end Statement

def Param.outline (p : Param) : String := p.name ++ ":" ++ p.type.keyword

def Definition.outline (depth : Nat) (d : Definition) : List String :=
  indented depth
      ("Function: " ++ d.name ++ "(" ++ ", ".intercalate (d.params.map Param.outline) ++ ")") ::
    Statement.outlineAll (depth + 1) d.body

/-- All definitions come before all statements. -/
def Program.outline (p : Program) : List String :=
  "Program" :: (p.definitions.flatMap (Definition.outline 1) ++
    Statement.outlineAll 1 p.statements)

def Program.outlineText (p : Program) : String := "\n".intercalate p.outline

end CounterLang
