/-
Programs: definitions and statements as a tree.
-/
import CounterLang.Token

namespace CounterLang

structure Register where
  name : String
deriving DecidableEq, Repr

structure Label where
  name : String
deriving DecidableEq, Repr

/-- The argument of a call or the count of a loop.  A word names a register, a label or a
parameter; which of them is not known here. -/
inductive Value
  | text (word : String)
  | number (value : Int)
deriving DecidableEq, Repr

inductive Statement
  | loop (count : Value) (body : List Statement)
  | jez (register : Register) (label : Label)
  | incr (register : Register)
  | decr (register : Register)
  | call (name : String) (args : List Value)
deriving Repr

namespace Statement

mutual

def decideEq : (a b : Statement) → Decidable (a = b)
  | loop c b, loop c' b' =>
    match decEq c c', decideEqAll b b' with
    | isTrue hc, isTrue hb => isTrue (by rw [hc, hb])
    | isFalse hc, _ => isFalse fun h => hc (by injection h)
    | _, isFalse hb => isFalse fun h => hb (by injection h)
  | jez r l, jez r' l' => decidable_of_iff (r = r' ∧ l = l') (by simp)
  | incr r, incr r' => decidable_of_iff (r = r') (by simp)
  | decr r, decr r' => decidable_of_iff (r = r') (by simp)
  | call n as, call n' as' => decidable_of_iff (n = n' ∧ as = as') (by simp)
  | loop .., jez .. | loop .., incr .. | loop .., decr .. | loop .., call .. => isFalse nofun
  | jez .., loop .. | jez .., incr .. | jez .., decr .. | jez .., call .. => isFalse nofun
  | incr .., loop .. | incr .., jez .. | incr .., decr .. | incr .., call .. => isFalse nofun
  | decr .., loop .. | decr .., jez .. | decr .., incr .. | decr .., call .. => isFalse nofun
  | call .., loop .. | call .., jez .. | call .., incr .. | call .., decr .. => isFalse nofun

def decideEqAll : (as bs : List Statement) → Decidable (as = bs)
  | [], [] => isTrue rfl
  | a :: as, b :: bs =>
    match decideEq a b, decideEqAll as bs with
    | isTrue h, isTrue hs => isTrue (by rw [h, hs])
    | isFalse h, _ => isFalse fun e => h (by injection e)
    | _, isFalse hs => isFalse fun e => hs (by injection e)
  | [], _ :: _ | _ :: _, [] => isFalse nofun

end

instance : DecidableEq Statement := decideEq

end Statement

inductive ParamType
  | register
  | label
  | number
deriving DecidableEq, Repr

namespace ParamType

def keyword : ParamType → String
  | register => "REG"
  | label => "LABEL"
  | number => "NUM"

def name : ParamType → String
  | register => "REGISTER"
  | label => "LABEL"
  | number => "NUMBER"

def ofKeyword? : String → Option ParamType
  | "REG" => some register
  | "LABEL" => some label
  | "NUM" => some number
  | _ => none

/-- The complaint about a word that names no parameter type. -/
def notKeyword (word : String) : String := Text.quoted word ++ " is not a valid ValueType"

theorem ofKeyword?_eq_some_iff {word : String} {t : ParamType} :
    ofKeyword? word = some t ↔ word = t.keyword := by
  constructor
  · intro h
    unfold ofKeyword? at h
    split at h <;> simp_all [keyword] <;> subst h <;> rfl
  · rintro rfl
    cases t <;> rfl

end ParamType

structure Param where
  name : String
  type : ParamType
deriving DecidableEq, Repr

structure Definition where
  name : String
  params : List Param
  body : List Statement
deriving DecidableEq, Repr

/-- A program.  Definitions may share a name, and a call may name anything. -/
structure Program where
  definitions : List Definition
  statements : List Statement
deriving DecidableEq, Repr

/-- A part of a program that stands on its own. -/
inductive Item
  | definition (d : Definition)
  | statement (s : Statement)
deriving DecidableEq, Repr

namespace Item

def definition? : Item → Option Definition
  | definition d => some d
  | statement _ => none

def statement? : Item → Option Statement
  | definition _ => none
  | statement s => some s

end Item

/-- The program with these items.  How definitions and statements lie between each other
is forgotten, their order among themselves is kept. -/
def Program.ofItems (items : List Item) : Program :=
  ⟨items.filterMap Item.definition?, items.filterMap Item.statement?⟩

end CounterLang
