/-
Properties that every rule has.

Rules are put together from single tokens by a few combinators, so what the single tokens
have and the combinators hand on is had by every rule.  `Closed P` lists what has to be shown
of a property `P`, one field for each way to build a parser.  From it `P` follows for the
rules of the grammar and for every rule that is written down as a phrase, whatever the
phrases are that its names refer to (`Closed.phrasebook`).  Only the rule for definitions makes
notes, so for all rules inside of it nothing has to be shown of notes (`Inherited P`).

The induction over rules is made here once.  It goes over the phrases, inside of which lie
the rules of the grammar, and for statements over the limit on nesting.  What is carried
along is `P` of the body of a rule: a rule that is tried from another one is tried with its
own entry in the journal, and `Inherited.parse` adds that.
-/
import CounterLang.Phrase

namespace CounterLang
namespace Parser

/-- The property holds of a parser that makes no notes if it holds of its parts. -/
structure Inherited (P : {α : Type} → Parser α → Prop) : Prop where
  pure {α : Type} (a : α) : P (Pure.pure a : Parser α)
  bind {α β : Type} {p : Parser α} {f : α → Parser β} (hp : P p) (hf : ∀ a, P (f a)) :
    P (p >>= f)
  endless {α : Type} : P (Parser.abort .endless : Parser α)
  next {α : Type} (kind : Kind) (read : Token → Option α) : P (Parser.next kind read)
  /-- The one check that the grammar makes. -/
  paramType : P Grammar.paramType
  committed {α : Type} {p : Parser α} (hp : P p) : P (Parser.committed p)
  orElse {α : Type} {p q : Parser α} (hp : P p) (hq : P q) : P (p.orElse q)
  /-- What a choice without an alternative comes to. -/
  failHere {α : Type} (name definition : String) :
    P (Parser.failHere (Rule.failed name definition "no alternative matched") : Parser α)
  /-- The name of the entry is in the failure of a repetition without an end. -/
  many {α : Type} {p : Parser α} (name definition item : String) (hp : P p) :
    P (Parser.many p (Rule.failed name definition (item ++ " matched without consuming input")))
  parse {α : Type} {rule : Rule α} (h : P rule.body) : P rule.parse

/-- The property holds of a parser if it holds of its parts. -/
structure Closed (P : {α : Type} → Parser α → Prop) : Prop extends Inherited P where
  note (name : String) (params statements : Nat) :
    P (Parser.note (.readDefinition name params statements))

variable {P : {α : Type} → Parser α → Prop} {α β : Type}

namespace Inherited

theorem map (h : Inherited P) {p : Parser α} (f : α → β) (hp : P p) : P (f <$> p) := by
  rw [map_eq_pure_bind]
  exact h.bind hp fun a => h.pure (f a)

theorem firstOf (h : Inherited P) (name definition : String) {ps : List (Parser α)}
    (hps : ∀ p ∈ ps, P p) : P (Rule.firstOf name definition ps) := by
  induction ps with
  | nil => exact h.failHere name definition
  | cons p ps ih =>
    rw [List.forall_mem_cons] at hps
    exact h.orElse hps.1 (ih hps.2)

theorem inOrder (h : Inherited P) {ps : List (Parser α)} (hps : ∀ p ∈ ps, P p) :
    P (Rule.inOrder ps) := by
  induction ps with
  | nil => exact h.pure []
  | cons p ps ih =>
    rw [List.forall_mem_cons] at hps
    exact h.bind hps.1 fun a => h.bind (ih hps.2) fun as => h.pure (a :: as)

/-! ## Rules from rules -/

theorem parse_all (h : Inherited P) {rules : List (Rule α)} (hrules : ∀ r ∈ rules, P r.body) :
    ∀ p ∈ rules.map Rule.parse, P p := by
  intro p hp
  obtain ⟨r, hr, rfl⟩ := List.mem_map.mp hp
  exact h.parse (hrules r hr)

theorem oneOf (h : Inherited P) (name definition : String) {rules : List (Rule α)}
    (hrules : ∀ r ∈ rules, P r.body) : P (Rule.oneOf rules name definition).body :=
  h.firstOf _ _ (h.parse_all hrules)

theorem star (h : Inherited P) (name definition : String) {item : Rule α} (hitem : P item.body) :
    P (Rule.star item name definition).body := h.many _ _ _ (h.parse hitem)

theorem sequence (h : Inherited P) (commit : Option Nat) (name definition : String)
    {items : List (Rule α)} (hitems : ∀ r ∈ items, P r.body) :
    P (Rule.sequence items commit name definition).body := by
  cases commit with
  | none => exact h.inOrder (h.parse_all hitems)
  | some k =>
    have hhead : ∀ r ∈ items.take k, P r.body := fun r hr => hitems r (List.mem_of_mem_take hr)
    have htail : ∀ r ∈ items.drop k, P r.body := fun r hr => hitems r (List.mem_of_mem_drop hr)
    exact h.bind (h.inOrder (h.parse_all hhead)) fun _ =>
      h.bind (h.committed (h.inOrder (h.parse_all htail))) fun _ => h.pure _

/-! ## The rules of the grammar -/

open Grammar (keyword value values jez incr decr call loopOf blockOf block param params
  alternatives)

theorem keyword (h : Inherited P) (k : Keyword) : P (keyword k).parse := h.parse (h.next _ _)

theorem word (h : Inherited P) : P Rule.word.parse := h.parse (h.next _ _)

theorem number (h : Inherited P) : P Rule.number.parse := h.parse (h.next _ _)

theorem numberValue (h : Inherited P) : P Grammar.numberValue.body :=
  h.bind h.number fun _ => h.pure _

theorem textValue (h : Inherited P) : P Grammar.textValue.body := h.bind h.word fun _ => h.pure _

theorem value (h : Inherited P) : P value.body := by
  apply h.oneOf
  simp only [List.forall_mem_cons]
  exact ⟨h.numberValue, h.textValue, nofun⟩

theorem values (h : Inherited P) : P values.body := h.star _ _ h.value

theorem jez (h : Inherited P) : P jez.body :=
  h.bind (h.keyword .jez) fun _ =>
    h.committed (h.bind h.word fun _ => h.bind h.word fun _ => h.pure _)

theorem incr (h : Inherited P) : P incr.body :=
  h.bind (h.keyword .incr) fun _ => h.committed (h.bind h.word fun _ => h.pure _)

theorem decr (h : Inherited P) : P decr.body :=
  h.bind (h.keyword .decr) fun _ => h.committed (h.bind h.word fun _ => h.pure _)

theorem call (h : Inherited P) : P call.body :=
  h.bind h.word fun _ => h.committed <|
    h.bind (h.parse h.values) fun _ => h.bind (h.keyword .semicolon) fun _ => h.pure _

theorem loopOf (h : Inherited P) {body : Rule (List Statement)} (hbody : P body.body) :
    P (loopOf body).body :=
  h.bind (h.keyword .loop) fun _ => h.committed <|
    h.bind (h.parse h.value) fun _ =>
      h.bind (h.parse hbody) fun _ => h.bind (h.keyword .close) fun _ => h.pure _

theorem blockOf (h : Inherited P) {statement : Rule Statement} (hstatement : P statement.body) :
    P (blockOf statement).body := h.star _ _ (h.parse hstatement)

theorem statement (h : Inherited P) (limit : Nat) : P (Grammar.statement limit).body := by
  induction limit with
  | zero => exact h.endless
  | succ limit ih =>
    apply h.oneOf
    simp only [alternatives, List.forall_mem_cons]
    exact ⟨h.loopOf (h.blockOf ih), h.jez, h.incr, h.decr, h.call, nofun⟩

theorem block (h : Inherited P) (limit : Nat) : P (block limit).body :=
  h.blockOf (h.statement limit)

theorem param (h : Inherited P) : P param.body :=
  h.bind h.word fun _ => h.bind (h.keyword .colon) fun _ =>
    h.committed (h.bind h.paramType fun _ => h.pure _)

theorem params (h : Inherited P) : P params.body := h.star _ _ h.param

end Inherited

namespace Closed

open Grammar (definition)

theorem definition (h : Closed P) (limit : Nat) : P (definition limit).body := by
  apply h.bind (h.keyword .define)
  intro _
  apply h.bind
  · apply h.committed
    exact h.bind h.word fun _ => h.bind (h.parse h.params) fun _ =>
      h.bind (h.keyword .body) fun _ => h.bind (h.parse (h.block limit)) fun _ =>
        h.bind (h.keyword .close) fun _ => h.pure _
  · intro d
    exact h.bind (h.note _ _ _) fun _ => h.pure d

theorem production (h : Closed P) (limit : Nat) (p : Production) :
    P (p.ruleWithin limit).body := by
  cases p with
  | keyword k => exact h.map _ (h.next _ _)
  | numberValue => exact h.map _ h.numberValue
  | textValue => exact h.map _ h.textValue
  | value => exact h.map _ h.value
  | values => exact h.map _ h.values
  | block => exact h.map _ (h.block _)
  | loop => exact h.map _ (h.loopOf (h.block _))
  | jez => exact h.map _ h.jez
  | incr => exact h.map _ h.incr
  | decr => exact h.map _ h.decr
  | call => exact h.map _ h.call
  | statement => exact h.map _ (h.statement _)
  | param => exact h.map _ h.param
  | params => exact h.map _ h.params
  | definition => exact h.map _ (h.definition _)

/-! ## Phrases -/

variable {limit : Nat} {named : String → Parser Datum}

mutual

theorem phrase (h : Closed P) (hnamed : ∀ name, P (named name)) (phrase : Phrase) :
    P (phrase.ruleWithin limit named).body := by
  cases phrase with
  | word => exact h.map _ (h.next _ _)
  | number => exact h.map _ (h.next _ _)
  | token kind => exact h.map _ (h.next _ _)
  | oneOf alternatives name definition =>
    exact h.oneOf name definition (phrases h hnamed alternatives)
  | star item name definition =>
    exact h.map _ (h.star name definition (Closed.phrase h hnamed item))
  | deferred target name definition => exact hnamed target
  | sequence items commit name definition =>
    exact h.map _ (h.sequence commit name definition (phrases h hnamed items))
  | production p => exact h.production limit p

theorem phrases (h : Closed P) (hnamed : ∀ name, P (named name)) (ps : List Phrase) :
    ∀ r ∈ Phrase.rulesWithin limit named ps, P r.body := by
  cases ps with
  | nil => exact nofun
  | cons p ps =>
    rw [Phrase.rulesWithin, List.forall_mem_cons]
    exact ⟨Closed.phrase h hnamed p, phrases h hnamed ps⟩

end

/-- A name that nothing stands for is looked up in vain. -/
theorem parseIn (h : Closed P) (book : Phrasebook)
    (hunknown : ∀ name, book.find? name = none →
      P (Parser.abort (.unknownRule name) : Parser Datum))
    (limit depth : Nat) (name : String) : P (book.parseIn limit depth name) := by
  induction depth generalizing name with
  | zero => exact h.endless
  | succ depth ih =>
    rw [Phrasebook.parseIn]
    cases hfind : book.find? name with
    | none => exact hunknown name hfind
    | some p => exact h.parse (h.phrase ih p)

/-- Every rule has the property, as deep as loops may lie and names may be looked up inside of
each other. -/
theorem phrasebookIn (h : Closed P) (book : Phrasebook)
    (hunknown : ∀ name, book.find? name = none →
      P (Parser.abort (.unknownRule name) : Parser Datum))
    (limit depth : Nat) (p : Phrase) :
    P (p.ruleWithin limit (book.parseIn limit depth)).parse :=
  h.parse (h.phrase (h.parseIn book hunknown limit depth) p)

theorem phrasebook (h : Closed P) (book : Phrasebook)
    (hunknown : ∀ name, book.find? name = none →
      P (Parser.abort (.unknownRule name) : Parser Datum))
    (depth : Nat) (p : Phrase) : P (p.rule (book.parseWithin depth)).parse :=
  h.phrasebookIn book hunknown Grammar.nestingLimit depth p

end Closed
end Parser
end CounterLang
