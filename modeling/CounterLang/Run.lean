/-
Runs: what comes of reading a beginning of the tokens ahead.
-/
import CounterLang.Journal

namespace CounterLang

/-- A place in a list of tokens: the index of the next token, and the tokens from there
on. -/
structure Point where
  position : Int
  ahead : List Token
deriving DecidableEq, Repr

/-- Why a run can end without an outcome.  No rule can recover from it. -/
inductive Abort
  /-- The rules went on without an end in sight. -/
  | endless
  /-- A rule refers to a rule that does not exist. -/
  | unknownRule (name : String)
deriving DecidableEq, Repr

inductive Outcome (α : Type)
  | value (a : α)
  | failure (f : Failure)
  | abort (a : Abort)
deriving DecidableEq, Repr

def Outcome.map (f : α → β) : Outcome α → Outcome β
  | value a => value (f a)
  | failure e => failure e
  | abort a => abort a

/-- What came of a run: its outcome, the place where it stopped, and what happened on the
way. -/
structure Run (α : Type) where
  outcome : Outcome α
  point : Point
  journal : Journal
deriving DecidableEq, Repr

/-- A run as it looks when `journal` came before it. -/
def Run.after (journal : Journal) (r : Run α) : Run α :=
  { r with journal := journal ++ r.journal }

@[simp] theorem Run.after_nil (r : Run α) : r.after [] = r := rfl

@[simp] theorem Run.after_after (j k : Journal) (r : Run α) :
    (r.after k).after j = r.after (j ++ k) := by
  simp [Run.after]

def Run.map (f : α → β) (r : Run α) : Run β := ⟨r.outcome.map f, r.point, r.journal⟩

end CounterLang
