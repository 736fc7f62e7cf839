/-
The token form of a program, which the grammar reads, and how deep its loops lie inside
each other.
-/
import CounterLang.Program

namespace CounterLang

def Value.token : Value → Token
  | text word => .text word
  | number value => .number value

namespace Statement

mutual

def tokens : Statement → List Token
  | loop count body =>
    .keyword .loop :: count.token :: (tokensAll body ++ [.keyword .close])
  | jez register label => [.keyword .jez, .text register.name, .text label.name]
  | incr register => [.keyword .incr, .text register.name]
  | decr register => [.keyword .decr, .text register.name]
  | call name args => .text name :: (args.map Value.token ++ [.keyword .semicolon])

def tokensAll : List Statement → List Token
  | [] => []
  | s :: rest => tokens s ++ tokensAll rest

end

mutual

/-- The greatest number of loops that lie inside each other. -/
def depth : Statement → Nat
  | loop _ body => depthAll body + 1
  | jez .. => 0
  | incr .. => 0
  | decr .. => 0
  | call .. => 0

def depthAll : List Statement → Nat
  | [] => 0
  | s :: rest => max (depth s) (depthAll rest)

end

theorem tokensAll_eq_flatMap (body : List Statement) : tokensAll body = body.flatMap tokens := by
  induction body with
  | nil => rfl
  | cons s rest ih => rw [tokensAll, ih, List.flatMap_cons]

theorem tokens_ne_nil (s : Statement) : s.tokens ≠ [] := by
  cases s <;> simp [tokens]

theorem depthAll_lt_iff {n : Nat} {body : List Statement} :
    depthAll body < n ↔ 0 < n ∧ ∀ s ∈ body, s.depth < n := by
  induction body with
  | nil => simp [depthAll]
  | cons s rest ih =>
    rw [depthAll, Nat.max_lt, ih, List.forall_mem_cons]
    constructor
    · rintro ⟨hs, hn, hrest⟩
      exact ⟨hn, hs, hrest⟩
    · rintro ⟨hn, hs, hrest⟩
      exact ⟨hs, hn, hrest⟩

end Statement

def Param.tokens (p : Param) : List Token :=
  [.text p.name, .keyword .colon, .text p.type.keyword]

def Definition.tokens (d : Definition) : List Token :=
  .keyword .define :: .text d.name ::
    (d.params.flatMap Param.tokens ++ .keyword .body ::
      (Statement.tokensAll d.body ++ [.keyword .close]))

namespace Item

def tokens : Item → List Token
  | definition d => d.tokens
  | statement s => s.tokens

def depth : Item → Nat
  | definition d => Statement.depthAll d.body
  | statement s => s.depth

theorem tokens_ne_nil (i : Item) : i.tokens ≠ [] := by
  cases i with
  | definition d => simp [tokens, Definition.tokens]
  | statement s => exact s.tokens_ne_nil

end Item
end CounterLang
