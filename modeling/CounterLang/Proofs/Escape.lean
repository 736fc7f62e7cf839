/-
The failures that a reading can end in.

Of all the failures that rules make on the way, few get out.  Choices and repetitions keep
most of them to themselves, and what gets out is one of the demands of the grammar that is
unmet.  A missing colon, a missing number and a missing first keyword of a rule are never
complained about.  A failure that gets out is committed, unless it tells that no statement
begins where an item should, or that loops are nested too deep.
-/
import CounterLang.Proofs.Outcome

namespace CounterLang

open Statement (tokensAll)
open CounterLang.Parser (lack)

variable {n : Nat} {u rest t : List Token} {d : Demand}

/-! ## Loops that are open -/

theorem Statement.Overruns.le_count (h : Overruns n u) : n ≤ u.count (.keyword .loop) := by
  induction h with
  | limit => exact Nat.zero_le _
  | @inside n u count body hbody h ih =>
    -- The loops of the statements before `u` are closed, and only help.
    have hsuffix : u <:+ count.token :: (tokensAll body ++ u) :=
      (List.suffix_append _ u).trans (List.suffix_cons _ _)
    have hcount := hsuffix.sublist.count_le (.keyword .loop)
    rw [List.count_cons_self]
    omega

theorem Item.Overruns.le_count (h : Overruns n u rest) : n ≤ u.count (.keyword .loop) := by
  cases h with
  | statement hdef h => exact h.le_count
  | definition h =>
    cases h with
    | @inside u name params body hbody h =>
      have hsuffix : u <:+ Definition.head name params ++ .keyword .body :: (tokensAll body ++ u) :=
        ((List.suffix_append _ u).trans (List.suffix_cons _ _)).trans (List.suffix_append _ _)
      have hcount := hsuffix.sublist.count_le (.keyword .loop)
      have hn := h.le_count
      omega

theorem Program.Overruns.le_count (h : Overruns n u rest) : n ≤ u.count (.keyword .loop) := by
  cases h with
  | item items hitems hne h =>
    have hn := h.le_count
    rw [List.count_append]
    omega

namespace Program

/-! ## What gets out -/

/-- What a reading can ask for when it meets the wrong token or the end. -/
def expectations : List String := ["text", "'AS'", "'END'", "';'"]

/-- The causes of the failures that the reading of the tokens `t` can end in, each with the
index at which it stops. -/
inductive Escapes (t : List Token) : Cause → Nat → Prop
  | unexpectedToken {expected : String} {tok : Token} {e : Nat} (h : expected ∈ expectations)
      (htok : t[e]? = some tok) : Escapes t (.unexpectedToken expected (.token tok)) e
  | unexpectedEnd {expected : String} (h : expected ∈ expectations) :
      Escapes t (.unexpectedEnd expected) t.length
  | value {e : Nat} (he : e ≤ t.length) :
      Escapes t (.failedRule "value" "<number> | <text>" (some "no alternative matched")) e
  | paramType {word : String} {e : Nat} (hword : t[e]? = some (.text word))
      (h : word ∉ ["REG", "LABEL", "NUM"]) :
      Escapes t (.failedRule "function-arg" "<text> ':' <text in \x7bNUM, REG, LABEL\x7d>"
        (some ("unknown argument type '" ++ word ++ "'"))) e
  /-- The token stands where an item should begin. -/
  | statement (items : List Item) (tok : Token) (rest : List Token)
      (ht : t = items.flatMap Item.tokens ++ tok :: rest)
      (htok : (∃ k ∈ [Keyword.body, .close, .colon, .semicolon], tok = .keyword k) ∨
        ∃ i, tok = .number i) :
      Escapes t (.failedRule "statement" "repeat | jez | incr | decr | call"
        (some "no alternative matched")) (items.flatMap Item.tokens).length
  /-- As many loops as the limit says lie before the place where reading is given up. -/
  | tooDeep {e : Nat} (he : e ≤ t.length)
      (h : Grammar.nestingLimit ≤ (t.take e).count (.keyword .loop)) :
      Escapes t (.failedRule "statement" "repeat | jez | incr | decr | call"
        (some "nesting too deep")) e

theorem escapes_lack {kind : Kind} (h : kind.wanted ∈ expectations) :
    Escapes (u ++ rest) (lack kind rest) u.length := by
  cases rest with
  | nil =>
    have hend := Escapes.unexpectedEnd (t := u ++ []) h
    rwa [List.append_nil] at hend ⊢
  | cons tok rest => exact Escapes.unexpectedToken h (by simp)

theorem escapes_paramType (h : Demand.paramType.Unmet rest) :
    Escapes (u ++ rest) (Demand.paramType.cause rest) u.length := by
  rcases Demand.word.met_or_unmet rest with ⟨tok, rest, rfl, htok⟩ | hword
  · obtain ⟨word, rfl⟩ := Demand.exists_of_meets_word htok
    apply Escapes.paramType (by simp)
    intro hword
    exact h.not_meets rfl (Demand.meets_paramType_iff.mpr hword)
  · rw [Demand.cause_paramType hword]
    exact escapes_lack (by decide)

theorem escapes_statement (h : Stops n u rest .statement) :
    Escapes (u ++ rest) (Demand.statement.cause rest) u.length := by
  obtain ⟨items, tok, rest, rfl, rfl, hdef, hmeets⟩ := h.exists_absent
  apply Escapes.statement items tok rest rfl
  cases tok with
  | text w => cases hmeets
  | number i => exact Or.inr ⟨i, rfl⟩
  | keyword k =>
    left
    cases k with
    | define => exact absurd rfl hdef
    | loop => cases hmeets
    | jez => cases hmeets
    | incr => cases hmeets
    | decr => cases hmeets
    | body => exact ⟨_, by decide, rfl⟩
    | close => exact ⟨_, by decide, rfl⟩
    | colon => exact ⟨_, by decide, rfl⟩
    | semicolon => exact ⟨_, by decide, rfl⟩

theorem Stops.escapes (h : Stops n u rest d) : Escapes (u ++ rest) (d.cause rest) u.length := by
  cases d with
  | word => exact escapes_lack (by decide)
  | value => exact Escapes.value (by simp)
  | paramType => exact escapes_paramType h.unmet
  | body => exact escapes_lack (by decide)
  | close => exact escapes_lack (by decide)
  | semicolon => exact escapes_lack (by decide)
  | statement => exact escapes_statement h

theorem Overruns.escapes (h : Overruns Grammar.nestingLimit u rest) :
    Escapes (u ++ rest) (Reading.tooDeep u.length).cause u.length := by
  apply Escapes.tooDeep (by simp)
  rw [List.take_left' rfl]
  exact h.le_count

/-! ## What is committed -/

/-- The failure is one of the rule for statements. -/
def OfStatement (f : Failure) : Prop :=
  ∃ definition reason, f.cause = .failedRule "statement" definition reason

theorem not_ofStatement_lack (kind : Kind) (t : List Token) (definition : String)
    (reason : Option String) : lack kind t ≠ .failedRule "statement" definition reason := by
  cases t with
  | nil => nofun
  | cons tok t => nofun

theorem committed_eq_false_iff (d : Demand) (t : List Token) (i : Int) :
    (d.failure t i).committed = false ↔ OfStatement (d.failure t i) := by
  constructor
  · intro h
    have hd : d = .statement := by simpa [Demand.failure] using h
    subst hd
    exact ⟨_, _, rfl⟩
  · rintro ⟨definition, reason, h⟩
    cases d with
    | statement => rfl
    | value => exact absurd (Cause.failedRule.inj h).1 (by decide)
    | word => exact absurd h (not_ofStatement_lack _ t definition reason)
    | body => exact absurd h (not_ofStatement_lack _ t definition reason)
    | close => exact absurd h (not_ofStatement_lack _ t definition reason)
    | semicolon => exact absurd h (not_ofStatement_lack _ t definition reason)
    | paramType =>
      cases t with
      | nil => cases h
      | cons tok t =>
        cases tok with
        | text word => exact absurd (Cause.failedRule.inj h).1 (by decide)
        | keyword k => cases h
        | number j => cases h

theorem read_ok_or_escapes (options : Options) (t : List Token) :
    (∃ p, (read options t).result = .ok p) ∨
      ∃ (f : Failure) (e : Nat), (read options t).result = .error f ∧
        f.position = some (e : Int) ∧ e ≤ t.length ∧ Escapes t f.cause e ∧
        (f.committed = false ↔ OfStatement f) := by
  cases ending Grammar.nestingLimit t with
  | reads items hitems => exact Or.inl ⟨_, read_of_items options hitems⟩
  | @stops u rest d h =>
    have hle : u.length ≤ (u ++ rest).length := by simp
    have hcommitted := committed_eq_false_iff d rest u.length
    exact Or.inr ⟨_, u.length, read_of_stops options h, rfl, hle, h.escapes, hcommitted⟩
  | @overruns u rest h =>
    have hle : u.length ≤ (u ++ rest).length := by simp
    have hstatement : OfStatement (Reading.tooDeep u.length) := ⟨_, _, rfl⟩
    exact Or.inr ⟨_, u.length, read_of_overruns options h, rfl, hle, h.escapes,
      fun _ => hstatement, fun _ => rfl⟩

end Program
end CounterLang
