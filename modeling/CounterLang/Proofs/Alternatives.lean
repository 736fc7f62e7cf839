/-
The order of the alternatives in the grammar.

A statement is one of five things, and each of them is told by its first token: where the token
is not of its kind the rule fails at once, and where it is the rule does not fail in a way that
could be backtracked over.  The five kinds are different.  So whatever the tokens are, at most
one alternative could decide, and it is found in any order.  The same is true of the two
alternatives of a value (`Rule.order_of_alternatives`).
-/
import Mathlib.Data.List.Nodup
import CounterLang.Proofs.Choice
import CounterLang.Proofs.Course

namespace CounterLang

variable {α : Type}

/-- The kind of the next token, if there is one. -/
def Point.nextKind? (s : Point) : Option Kind := s.ahead.head?.map Token.kind

namespace Rule

variable {rule : Rule α} {kind : Kind} {menu : List (Rule α × Kind)} {tracing : Bool} {s : Point}

/-- The rule can be backtracked over exactly where the next token is not of the kind. -/
def ToldBy (rule : Rule α) (kind : Kind) : Prop :=
  ∀ tracing s, (rule.parse tracing s).passes = false ↔ s.nextKind? = some kind

theorem toldBy_of_settles
    (hpasses : ∀ t : List Token, (∀ tok ∈ t.head?, tok.kind ≠ kind) → Parser.Passes rule.parse t)
    (hsettles : ∀ tok rest, tok.kind = kind → Parser.Settles rule.parse (tok :: rest)) :
    rule.ToldBy kind := by
  intro tracing s
  obtain ⟨position, ahead⟩ := s
  constructor
  · intro h
    by_contra hkind
    have hahead : ∀ tok ∈ ahead.head?, tok.kind ≠ kind := by
      rintro tok htok rfl
      exact hkind (by rw [Point.nextKind?, Option.mem_def.mp htok, Option.map_some])
    rw [(hpasses ahead hahead).passes tracing position] at h
    cases h
  · intro h
    obtain ⟨tok, htok, hkind⟩ := Option.map_eq_some_iff.mp h
    obtain ⟨rest, rfl⟩ := List.head?_eq_some_iff.mp htok
    exact (hsettles tok rest hkind).passes tracing position

/-- What a choice is like whose alternatives are told by different kinds of tokens. -/
structure DecidedByKind (choice : Rule α) (menu : List (Rule α × Kind)) : Prop where
  toldBy : ∀ e ∈ menu, e.1.ToldBy e.2
  /-- At most one alternative does anything else than fail in a way that is backtracked over. -/
  oneAtMost : ∀ tracing s, OneAtMost (menu.map Prod.fst) tracing s
  /-- The choice itself is backtracked over where the next token is of none of the kinds. -/
  passes : ∀ tracing s, (choice.parse tracing s).passes = true ↔
    ∀ e ∈ menu, s.nextKind? ≠ some e.2
  /-- The kind of the next token picks the alternative that decides. -/
  picks : ∀ e ∈ menu, ∀ tracing s, s.nextKind? = some e.2 →
    (choice.parse tracing s).result = (e.1.parse tracing s).result
  order : ∀ rules, (menu.map Prod.fst).Perm rules → ∀ tracing s,
    ((oneOf rules choice.name choice.definition).parse tracing s).result =
      (choice.parse tracing s).result

/-! ## Choices between rules that are told by different kinds -/

section Menu

variable (htold : ∀ e ∈ menu, e.1.ToldBy e.2)

include htold

theorem oneAtMost_of_toldBy (hnodup : (menu.map Prod.snd).Nodup) (tracing : Bool) (s : Point) :
    OneAtMost (menu.map Prod.fst) tracing s := by
  intro r hr r' hr' hpasses hpasses'
  obtain ⟨e, he, rfl⟩ := List.mem_map.mp hr
  obtain ⟨e', he', rfl⟩ := List.mem_map.mp hr'
  have hnext : s.nextKind? = some e.2 := (htold e he tracing s).mp hpasses
  have hnext' : s.nextKind? = some e'.2 := (htold e' he' tracing s).mp hpasses'
  have hkind : e.2 = e'.2 := Option.some.inj (hnext.symm.trans hnext')
  rw [List.inj_on_of_nodup_map hnodup he he' hkind]

theorem deciding?_of_toldBy (hnodup : (menu.map Prod.snd).Nodup) {e : Rule α × Kind}
    (he : e ∈ menu) (hnext : s.nextKind? = some e.2) :
    deciding? (menu.map Prod.fst) tracing s = some e.1 := by
  have hmem : e.1 ∈ menu.map Prod.fst := List.mem_map_of_mem he
  have hpasses := (htold e he tracing s).mpr hnext
  cases hdeciding : deciding? (menu.map Prod.fst) tracing s with
  | none =>
    rw [deciding?_eq_none_iff.mp hdeciding e.1 hmem] at hpasses
    cases hpasses
  | some r =>
    have hone := oneAtMost_of_toldBy htold hnodup tracing s
    rw [hone r (List.mem_of_find?_eq_some hdeciding) e.1 hmem (passes_of_deciding? hdeciding)
      hpasses]

theorem deciding?_eq_none_iff_of_toldBy :
    deciding? (menu.map Prod.fst) tracing s = none ↔ ∀ e ∈ menu, s.nextKind? ≠ some e.2 := by
  rw [deciding?_eq_none_iff, List.forall_mem_map]
  refine forall₂_congr fun e he => ?_
  rw [ne_eq, ← htold e he tracing s, Bool.not_eq_false]

theorem decidedByKind_oneOf {name definition : String} (hname : name ≠ "")
    (hdefinition : definition ≠ "") (hnodup : (menu.map Prod.snd).Nodup) :
    (oneOf (menu.map Prod.fst) name definition).DecidedByKind menu where
  toldBy := htold
  oneAtMost := oneAtMost_of_toldBy htold hnodup
  passes tracing s := by
    rw [passes_oneOf, Option.isNone_iff_eq_none]
    exact deciding?_eq_none_iff_of_toldBy htold
  picks e he tracing s hnext := by
    rw [result_oneOf, deciding?_of_toldBy htold hnodup he hnext]
  order rules hperm tracing s := by
    symm
    apply result_oneOf_perm hperm (oneAtMost_of_toldBy htold hnodup tracing s)
    · simp only [oneOf, nameOr, if_neg hname]
    · simp only [oneOf, nameOr, if_neg hdefinition]

end Menu

end Rule

namespace Grammar

open CounterLang.Parser
open Rule (ToldBy toldBy_of_settles)

/-! ## What the alternatives of the grammar are told by -/

theorem toldBy_opened {k : Keyword} {name definition : String} {g : Token → Parser α} :
    ToldBy ⟨name, definition, (keyword k).parse >>= fun tok => committed (g tok)⟩
      (.keyword k) := by
  apply toldBy_of_settles
  · intro t ht
    apply passes_opened
    rintro tok htok rfl
    exact ht _ htok rfl
  · intro tok rest htok
    cases tok with
    | keyword k' =>
      obtain rfl := Kind.keyword.inj htok
      exact settles_opened
    | text w => cases htok
    | number i => cases htok

theorem unmet_word {t : List Token} (h : ∀ tok ∈ t.head?, tok.kind ≠ .text) :
    Demand.word.Unmet t := by
  intro tok htok
  rw [Bool.eq_false_iff]
  exact fun hmeets => h tok htok (Demand.meets_word_iff.mp hmeets)

theorem exists_text {tok : Token} (h : tok.kind = .text) : ∃ w, tok = .text w :=
  Demand.exists_of_meets_word (Demand.meets_word_iff.mpr h)

theorem toldBy_call : ToldBy call .text := by
  apply toldBy_of_settles
  · exact fun t ht => passes_call (unmet_word ht)
  · intro tok rest htok
    obtain ⟨name, rfl⟩ := exists_text htok
    exact settles_call name

theorem toldBy_textValue : ToldBy textValue .text := by
  apply toldBy_of_settles
  · exact fun t ht => Demand.askedBy_textValue.passes (unmet_word ht)
  · intro tok rest htok
    obtain ⟨w, rfl⟩ := exists_text htok
    have hreads : Reads textValue.parse [.text w] rest (.text w) := by
      apply Reads.of_agreeOn _ (parse_agreeOn _ _)
      exact (Demand.reads_word w).bind reads_pure
    exact hreads.settles

theorem toldBy_numberValue : ToldBy numberValue .number := by
  apply toldBy_of_settles
  · intro t ht
    apply Demand.passes_numberValue
    intro i hi
    exact ht (.number i) hi rfl
  · intro tok rest htok
    cases tok with
    | keyword k => cases htok
    | text w => cases htok
    | number i =>
      have hreads : Reads numberValue.parse [.number i] rest (.number i) := by
        apply Reads.of_agreeOn _ (parse_agreeOn _ _)
        exact (Demand.reads_number i).bind reads_pure
      exact hreads.settles

theorem value_decidedByKind :
    value.DecidedByKind [(numberValue, .number), (textValue, .text)] := by
  have htold : ∀ e ∈ [(numberValue, Kind.number), (textValue, .text)], e.1.ToldBy e.2 := by
    simp only [List.forall_mem_cons]
    exact ⟨toldBy_numberValue, toldBy_textValue, List.forall_mem_nil _⟩
  exact Rule.decidedByKind_oneOf htold (by decide) (by decide) (by simp)

theorem statement_decidedByKind (limit : Nat) :
    (statement (limit + 1)).DecidedByKind [(loop limit, .keyword .loop), (jez, .keyword .jez),
      (incr, .keyword .incr), (decr, .keyword .decr), (call, .text)] := by
  have htold : ∀ e ∈ [(loop limit, Kind.keyword .loop), (jez, .keyword .jez),
      (incr, .keyword .incr), (decr, .keyword .decr), (call, .text)], e.1.ToldBy e.2 := by
    simp only [List.forall_mem_cons]
    exact ⟨toldBy_opened, toldBy_opened, toldBy_opened, toldBy_opened, toldBy_call,
      List.forall_mem_nil _⟩
  exact Rule.decidedByKind_oneOf htold (by decide) (by decide) (by simp)

end Grammar

/-- Choices between the same rules in two orders come to the same where at most one of the rules
does anything else than fail in a way that is backtracked over.  The alternatives of a statement
and those of a value are such rules, whatever the tokens are. -/
theorem Rule.order_of_alternatives :
    (∀ {α : Type} (rules rules' : List (Rule α)) (name definition name' definition' : String)
      (tracing : Bool) (s : Point), rules.Perm rules' → OneAtMost rules tracing s →
      (oneOf rules name definition).name = (oneOf rules' name' definition').name →
      (oneOf rules name definition).definition = (oneOf rules' name' definition').definition →
      ((oneOf rules name definition).parse tracing s).result =
        ((oneOf rules' name' definition').parse tracing s).result) ∧
    (∀ limit, (Grammar.statement (limit + 1)).DecidedByKind
      [(Grammar.loop limit, .keyword .loop), (Grammar.jez, .keyword .jez),
        (Grammar.incr, .keyword .incr), (Grammar.decr, .keyword .decr), (Grammar.call, .text)]) ∧
    Grammar.value.DecidedByKind [(Grammar.numberValue, .number), (Grammar.textValue, .text)] :=
  ⟨fun _ _ _ _ _ _ _ _ hperm hone hname hdefinition =>
    result_oneOf_perm hperm hone hname hdefinition,
    Grammar.statement_decidedByKind, Grammar.value_decidedByKind⟩

open Grammar (alternatives block statementName statementDefinition) in
/-- An increment, with the alternatives of a statement tried from the last to the first. -/
theorem Rule.order_of_alternatives_reversed :
    let rules := alternatives (block 1)
    let s : Point := ⟨0, [.keyword .incr, .text "x", .keyword .close]⟩
    rules.Perm rules.reverse ∧ OneAtMost rules true s ∧
      ((oneOf rules.reverse statementName statementDefinition).parse true s).outcome =
        .value (.incr ⟨"x"⟩) := by
  intro rules s
  have hperm : rules.Perm rules.reverse := rules.reverse_perm.symm
  have hone : OneAtMost rules true s := (order_of_alternatives.2.1 1).oneAtMost true s
  have hresult := order_of_alternatives.1 rules rules.reverse statementName statementDefinition
    statementName statementDefinition true s hperm hone rfl rfl
  have houtcome : ((oneOf rules statementName statementDefinition).parse true s).outcome =
      .value (.incr ⟨"x"⟩) := by decide +kernel
  exact ⟨hperm, hone, (congrArg Prod.fst hresult).symm.trans houtcome⟩

end CounterLang
