/-
Demands: what the grammar asks for at the places where a reading can come to an end.

The grammar has only seven of them.  A demand is unmet where the tokens ahead do not begin
with a token it asks for, and it then determines the failure that is reported: its cause
depends on the demand and on the first token ahead, and it is final unless a whole
statement was asked for.
-/
import CounterLang.Proofs.Parser
import CounterLang.Grammar
import CounterLang.Program.Tokens

namespace CounterLang

inductive Demand
  /-- A word: a name, a register or a label. -/
  | word
  | value
  | paramType
  /-- The keyword before the body of a definition. -/
  | body
  /-- The keyword that ends a block. -/
  | close
  | semicolon
  | statement
deriving DecidableEq

namespace Demand

def meets : Demand → Token → Bool
  | word, .text _ => true
  | value, .text _ => true
  | value, .number _ => true
  | paramType, .text w => (ParamType.ofKeyword? w).isSome
  | body, .keyword .body => true
  | close, .keyword .close => true
  | semicolon, .keyword .semicolon => true
  | statement, .keyword .loop => true
  | statement, .keyword .jez => true
  | statement, .keyword .incr => true
  | statement, .keyword .decr => true
  | statement, .text _ => true
  | _, _ => false

/-- The tokens do not begin with what is asked for. -/
def Unmet (d : Demand) (t : List Token) : Prop := ∀ tok ∈ t.head?, d.meets tok = false

def cause : Demand → List Token → Cause
  | word, t => Parser.lack .text t
  | value, _ => .failedRule "value" "<number> | <text>" (some "no alternative matched")
  | paramType, .text w :: _ => .failedRule Grammar.paramName Grammar.paramDefinition
      (some ("unknown argument type '" ++ w ++ "'"))
  | paramType, t => Parser.lack .text t
  | body, t => Parser.lack (.keyword .body) t
  | close, t => Parser.lack (.keyword .close) t
  | semicolon, t => Parser.lack (.keyword .semicolon) t
  | statement, _ => .failedRule Grammar.statementName Grammar.statementDefinition
      (some "no alternative matched")

/-- The keyword that is asked for, if it is one. -/
def keyword? : Demand → Option Keyword
  | body => some .body
  | close => some .close
  | semicolon => some .semicolon
  | _ => none

/-- The failure where the demand is unmet by the tokens `t`. -/
def failure (d : Demand) (t : List Token) (position : Int) : Failure :=
  { cause := d.cause t, position := some position, committed := d ≠ statement }

/-! ## The tokens that meet a demand -/

theorem unmet_nil (d : Demand) : d.Unmet [] := by
  intro tok h
  cases h

theorem unmet_cons_iff {d : Demand} {tok : Token} {rest : List Token} :
    d.Unmet (tok :: rest) ↔ d.meets tok = false := by
  constructor
  · intro h
    exact h tok rfl
  · intro h tok' htok'
    rw [List.head?_cons, Option.mem_some_iff] at htok'
    rw [← htok']
    exact h

theorem met_or_unmet (d : Demand) (t : List Token) :
    (∃ tok rest, t = tok :: rest ∧ d.meets tok = true) ∨ d.Unmet t := by
  cases t with
  | nil => exact Or.inr d.unmet_nil
  | cons tok rest =>
    cases h : d.meets tok with
    | true => exact Or.inl ⟨tok, rest, rfl, h⟩
    | false => exact Or.inr (unmet_cons_iff.mpr h)

theorem Unmet.not_meets {d : Demand} {tok : Token} {t : List Token} (h : d.Unmet t)
    (htok : tok ∈ t.head?) : ¬d.meets tok = true := by
  rw [h tok htok]
  exact Bool.false_ne_true

/-- Only the first token counts. -/
theorem unmet_congr {d : Demand} {t t' : List Token} (h : t.head? = t'.head?) :
    d.Unmet t ↔ d.Unmet t' := by
  rw [Unmet, Unmet, h]

theorem failure_congr {d : Demand} {t t' : List Token} (h : t.head? = t'.head?) (i : Int) :
    d.failure t i = d.failure t' i := by
  have hcause : d.cause t = d.cause t' := by
    cases t with
    | nil => rw [List.head?_eq_none_iff.mp h.symm]
    | cons tok rest =>
      obtain ⟨rest', rfl⟩ := List.head?_eq_some_iff.mp h.symm
      cases d <;> cases tok <;> rfl
  rw [failure, failure, hcause]

theorem exists_of_meets_word {tok : Token} (h : word.meets tok = true) :
    ∃ w, tok = .text w := by
  cases tok with
  | keyword k => cases k <;> simp [meets] at h
  | text w => exact ⟨w, rfl⟩
  | number i => simp [meets] at h

theorem exists_of_meets_value {tok : Token} (h : value.meets tok = true) :
    ∃ v : Value, tok = v.token := by
  cases tok with
  | keyword k => cases k <;> simp [meets] at h
  | text w => exact ⟨.text w, rfl⟩
  | number i => exact ⟨.number i, rfl⟩

/-- Where there is no word, the type of a parameter is missed like any other word. -/
theorem cause_paramType {t : List Token} (h : word.Unmet t) :
    paramType.cause t = Parser.lack .text t := by
  cases t with
  | nil => rfl
  | cons tok rest =>
    cases tok with
    | keyword k => rfl
    | text w => exact absurd rfl (h.not_meets rfl)
    | number i => rfl

theorem exists_of_meets_paramType {tok : Token} (h : paramType.meets tok = true) :
    ∃ t : ParamType, tok = .text t.keyword := by
  cases tok with
  | keyword k => cases k <;> simp [meets] at h
  | text w =>
    obtain ⟨t, ht⟩ := Option.isSome_iff_exists.mp h
    exact ⟨t, by rw [ParamType.ofKeyword?_eq_some_iff.mp ht]⟩
  | number i => simp [meets] at h

theorem eq_of_meets_keyword {d : Demand} {k : Keyword} {tok : Token}
    (hd : d.keyword? = some k) (h : d.meets tok = true) : tok = .keyword k := by
  cases tok with
  | keyword k' => cases d <;> cases k' <;> simp_all [keyword?, meets]
  | text w => cases d <;> simp [keyword?, meets] at hd h
  | number i => cases d <;> simp [keyword?, meets] at hd h

theorem keyword_meets {d : Demand} {k : Keyword} (hd : d.keyword? = some k) :
    d.meets (.keyword k) = true := by
  cases d <;> simp [keyword?] at hd <;> subst hd <;> rfl

/-! The demands that are met by all tokens of certain kinds, and the one that is not. -/

theorem meets_word_iff {tok : Token} : word.meets tok = true ↔ tok.kind = .text := by
  cases tok with
  | keyword k => cases k <;> decide
  | text w => exact ⟨fun _ => rfl, fun _ => rfl⟩
  | number i => exact ⟨nofun, nofun⟩

theorem meets_keyword_iff {d : Demand} {k : Keyword} {tok : Token} (hd : d.keyword? = some k) :
    d.meets tok = true ↔ tok.kind = .keyword k := by
  constructor
  · intro h
    rw [eq_of_meets_keyword hd h]
    rfl
  · intro h
    cases tok with
    | keyword k' =>
      obtain rfl := Kind.keyword.inj h
      exact keyword_meets hd
    | text w => cases h
    | number i => cases h

theorem meets_value_iff {tok : Token} :
    value.meets tok = true ↔ tok.kind ∈ [Kind.number, .text] := by
  cases tok with
  | keyword k => cases k <;> decide
  | text w => exact ⟨fun _ => by simp [Token.kind], fun _ => rfl⟩
  | number i => exact ⟨fun _ => by simp [Token.kind], fun _ => rfl⟩

theorem meets_statement_iff {tok : Token} : statement.meets tok = true ↔
    tok.kind ∈ [Kind.keyword .loop, .keyword .jez, .keyword .incr, .keyword .decr, .text] := by
  cases tok with
  | keyword k => cases k <;> decide
  | text w => exact ⟨fun _ => by simp [Token.kind], fun _ => rfl⟩
  | number i => exact ⟨nofun, fun h => by simp [Token.kind] at h⟩

theorem meets_paramType_iff {w : String} :
    paramType.meets (.text w) = true ↔ w ∈ ["REG", "LABEL", "NUM"] := by
  constructor
  · intro h
    obtain ⟨type, htype⟩ := exists_of_meets_paramType h
    rw [Token.text.inj htype]
    cases type <;> decide
  · intro h
    simp only [List.mem_cons, List.not_mem_nil, or_false] at h
    rcases h with rfl | rfl | rfl <;> rfl

/-! ## Rules that ask for one token -/

open CounterLang.Parser

variable {rest t : List Token}

/-- The parser fails wherever the demand is unmet, and tells so. -/
def AskedBy (d : Demand) (p : Parser α) : Prop :=
  ∀ t, d.Unmet t → Refuses p [] t fun i => { cause := d.cause t, position := some i }

theorem AskedBy.passes {d : Demand} {p : Parser α} (h : d.AskedBy p) (ht : d.Unmet t) :
    Passes p t := (h t ht).passes fun _ => rfl

theorem commit_failure {d : Demand} (hd : d ≠ statement) (t : List Token) (i : Int) :
    ({ cause := d.cause t, position := some i } : Failure).commit = d.failure t i := by
  simp [Failure.commit, failure, hd]

theorem reads_keyword (k : Keyword) :
    Reads (Grammar.keyword k).parse [.keyword k] rest (.keyword k) := by
  apply Reads.of_agreeOn _ (parse_agreeOn _ _)
  exact reads_next (if_pos rfl)

theorem refuses_keyword {k : Keyword} (h : ∀ tok ∈ t.head?, tok ≠ .keyword k) :
    Refuses (Grammar.keyword k).parse [] t
      fun i => { cause := lack (.keyword k) t, position := some i } := by
  apply Refuses.of_agreeOn _ (parse_agreeOn _ _)
  apply refuses_next
  intro tok htok
  have hne := h tok htok
  apply if_neg
  intro hkind
  cases tok with
  | keyword k' =>
    rw [Token.kind, Kind.keyword.injEq] at hkind
    exact hne (by rw [hkind])
  | text w => cases hkind
  | number i => cases hkind

theorem askedBy_keyword {d : Demand} {k : Keyword} (hd : d.keyword? = some k) :
    d.AskedBy (Grammar.keyword k).parse := by
  intro t ht
  have hne : ∀ tok ∈ t.head?, tok ≠ .keyword k := by
    rintro tok htok rfl
    have hmeets := ht _ htok
    rw [keyword_meets hd] at hmeets
    cases hmeets
  have hcause : d.cause t = lack (.keyword k) t := by
    cases d <;> simp [keyword?] at hd <;> subst hd <;> rfl
  rw [hcause]
  exact refuses_keyword hne

theorem reads_word (w : String) : Reads Rule.word.parse [.text w] rest w := by
  apply Reads.of_agreeOn _ (parse_agreeOn _ _)
  exact reads_next rfl

theorem askedBy_word : word.AskedBy Rule.word.parse := by
  intro t ht
  apply Refuses.of_agreeOn _ (parse_agreeOn _ _)
  apply refuses_next
  intro tok htok
  have hmeets := ht tok htok
  cases tok with
  | keyword k => rfl
  | text w => cases hmeets
  | number i => rfl

theorem reads_number (i : Int) : Reads Rule.number.parse [.number i] rest i := by
  apply Reads.of_agreeOn _ (parse_agreeOn _ _)
  exact reads_next rfl

theorem passes_numberValue (h : ∀ i, t.head? ≠ some (.number i)) :
    Passes Grammar.numberValue.parse t := by
  apply Passes.of_agreeOn _ (parse_agreeOn _ _)
  apply Passes.bind
  apply Passes.of_agreeOn _ (parse_agreeOn _ _)
  refine (refuses_next ?_).passes fun _ => rfl
  intro tok htok
  cases tok with
  | keyword k => rfl
  | text w => rfl
  | number i => exact absurd htok (h i)

theorem askedBy_textValue : word.AskedBy Grammar.textValue.parse := by
  intro t ht
  apply Refuses.of_agreeOn _ (parse_agreeOn _ _)
  exact (askedBy_word t ht).bind

theorem reads_value (v : Value) : Reads Grammar.value.parse [v.token] rest v := by
  apply Reads.of_agreeOn _ (parse_agreeOn _ _)
  cases v with
  | text w =>
    apply reads_firstOf [Grammar.numberValue.parse]
    · intro q hq
      rw [List.mem_singleton.mp hq]
      apply passes_numberValue
      intro i hi
      cases hi
    · apply Reads.of_agreeOn _ (parse_agreeOn _ _)
      exact (reads_word w).bind reads_pure
  | number i =>
    apply reads_firstOf []
    · intro q hq
      cases hq
    · apply Reads.of_agreeOn _ (parse_agreeOn _ _)
      exact (reads_number i).bind reads_pure

theorem askedBy_value : value.AskedBy Grammar.value.parse := by
  intro t ht
  apply Refuses.of_agreeOn _ (parse_agreeOn _ _)
  apply refuses_firstOf
  intro q hq
  rcases List.mem_cons.mp hq with rfl | hq
  · apply passes_numberValue
    intro i hi
    have hmeets := ht _ hi
    cases hmeets
  · rw [List.mem_singleton.mp hq]
    apply askedBy_textValue.passes
    intro tok htok
    have hmeets := ht tok htok
    cases tok with
    | keyword k => rfl
    | text w => cases hmeets
    | number i => rfl

theorem reads_paramType (type : ParamType) :
    Reads Grammar.paramType [.text type.keyword] rest type :=
  (reads_word _).refine (ParamType.ofKeyword?_eq_some_iff.mpr rfl)

theorem askedBy_paramType : paramType.AskedBy Grammar.paramType := by
  intro t ht
  rcases word.met_or_unmet t with ⟨tok, rest, rfl, htok⟩ | hword
  · -- A word is read first, and turns out to name no type.
    obtain ⟨w, rfl⟩ := exists_of_meets_word htok
    have hnone : ParamType.ofKeyword? w = none := by
      have h := unmet_cons_iff.mp ht
      simpa [meets] using h
    exact (reads_word w).refine_refuses hnone
  · rw [cause_paramType hword]
    exact (askedBy_word t hword).refine

end Demand
end CounterLang
