/-
Room for loops and for names.

Loops that are open take up room, and so do names that are looked up inside of each other.  How
much room there is is not a matter of the rules: it depends on who runs them, and on what is done
to keep a journal.  So what can be said of two runs must not rest on their having the same room.

Too little room makes a run give up, and that is all it does.  `Parser.Curtails p q` says so of
two parsers: where `p` does not give up, its run is the run of `q`.  Every way to build parsers
from parsers hands this on, so every rule curtails the same rule with more room, and any two runs
of a rule are the same unless one of them has given up (`Phrasebook.run_same_or_endless`).

For the tokens of a program there is a least room (`Program.exists_needs`).  From it on all readings
are the same, and below it all of them are given up.
-/
import Mathlib.Data.List.Forall2
import Mathlib.Data.Nat.Find
import CounterLang.Phrase
import CounterLang.Proofs.Escape
import CounterLang.Proofs.Nesting

namespace CounterLang

variable {α β : Type}

/-! ## Parsers -/

namespace Parser

/-- Where the first parser does not give up, it does the same as the second. -/
def Curtails (p q : Parser α) : Prop :=
  ∀ tracing s, (p tracing s).outcome = .abort .endless ∨ p tracing s = q tracing s

namespace Curtails

variable {p p' q q' : Parser α}

theorem refl (p : Parser α) : Curtails p p := fun _ _ => Or.inr rfl

theorem endless (q : Parser α) : Curtails (Parser.abort .endless) q := fun _ _ => Or.inl rfl

theorem run_eq {tracing : Bool} {s : Point} {o : Outcome α} (h : Curtails p q)
    (ho : (p tracing s).outcome = o) (hne : o ≠ .abort .endless) : q tracing s = p tracing s :=
  ((h tracing s).resolve_left (ho ▸ hne)).symm

theorem bind {f g : α → Parser β} (h : Curtails p q) (hf : ∀ a, Curtails (f a) (g a)) :
    Curtails (p >>= f) (q >>= g) := by
  intro tracing s
  show (Parser.bind p f tracing s).outcome = _ ∨
    Parser.bind p f tracing s = Parser.bind q g tracing s
  rcases h tracing s with hend | hrun
  · left
    simp only [Parser.bind, hend]
  · simp only [Parser.bind, hrun]
    cases (q tracing s).outcome with
    | value a =>
      rcases hf a tracing (q tracing s).point with hend | hrest
      · exact Or.inl hend
      · exact Or.inr (congrArg (Run.after _) hrest)
    | failure e => exact Or.inr rfl
    | abort b => exact Or.inr rfl

theorem map (f : α → β) (h : Curtails p q) : Curtails (f <$> p) (f <$> q) := by
  rw [map_eq_pure_bind, map_eq_pure_bind]
  exact h.bind fun a => refl _

theorem committed (h : Curtails p q) : Curtails (Parser.committed p) (Parser.committed q) := by
  intro tracing s
  rcases h tracing s with hend | hrun
  · left
    simp only [Parser.committed, hend]
  · right
    simp only [Parser.committed, hrun]

theorem orElse (hp : Curtails p q) (hp' : Curtails p' q') :
    Curtails (p.orElse p') (q.orElse q') := by
  intro tracing s
  rcases hp tracing s with hend | hrun
  · left
    simp only [Parser.orElse, hend]
  · simp only [Parser.orElse, hrun]
    cases ho : (q tracing s).outcome with
    | value a => exact Or.inr rfl
    | abort b => exact Or.inr rfl
    | failure e =>
      by_cases he : e.committed = true
      · simp only [if_pos he, or_true]
      · simp only [if_neg he]
        rcases hp' tracing s with hend | hrest
        · exact Or.inl hend
        · exact Or.inr (congrArg (Run.after _) hrest)

theorem many {stuck : Int → Failure} (h : Curtails p q) :
    Curtails (p.many stuck) (q.many stuck) := by
  intro tracing s
  induction s using Parser.many.induct p tracing with
  | case1 s r a ho hlt ih =>
    have hrun : q tracing s = p tracing s := h.run_eq ho nofun
    have hoq : (q tracing s).outcome = .value a := by rwa [hrun]
    have hltq : (q tracing s).point.ahead.length < s.ahead.length := by rwa [hrun]
    rw [many_of_value ho hlt, many_of_value hoq hltq, hrun]
    rcases ih with hend | hrest
    · left
      show (p.many stuck tracing r.point).outcome.map (a :: ·) = _
      rw [hend]
      rfl
    · right
      rw [hrest]
  | case2 s r a ho hle =>
    have hrun : q tracing s = p tracing s := h.run_eq ho nofun
    have hoq : (q tracing s).outcome = .value a := by rwa [hrun]
    have hleq : ¬(q tracing s).point.ahead.length < s.ahead.length := by rwa [hrun]
    rw [many_of_no_progress ho hle, many_of_no_progress hoq hleq, hrun]
    exact Or.inr rfl
  | case3 s r e ho he =>
    have hrun : q tracing s = p tracing s := h.run_eq ho nofun
    have hoq : (q tracing s).outcome = .failure e := by rwa [hrun]
    rw [many_of_committed ho he, many_of_committed hoq he, hrun]
    exact Or.inr rfl
  | case4 s r e ho he =>
    have hrun : q tracing s = p tracing s := h.run_eq ho nofun
    have hoq : (q tracing s).outcome = .failure e := by rwa [hrun]
    rw [many_of_uncommitted ho he, many_of_uncommitted hoq he, hrun]
    exact Or.inr rfl
  | case5 s r b ho =>
    rw [many_of_abort ho]
    by_cases hb : b = .endless
    · subst hb
      exact Or.inl rfl
    · have hrun : q tracing s = p tracing s := h.run_eq ho fun hend => hb (Outcome.abort.inj hend)
      have hoq : (q tracing s).outcome = .abort b := by rwa [hrun]
      rw [many_of_abort hoq, hrun]
      exact Or.inr rfl

theorem firstOf (name definition : String) {ps qs : List (Parser α)}
    (h : List.Forall₂ Curtails ps qs) :
    Curtails (Rule.firstOf name definition ps) (Rule.firstOf name definition qs) := by
  induction h with
  | nil => exact refl _
  | cons hp _ ih => exact hp.orElse ih

theorem inOrder {ps qs : List (Parser α)} (h : List.Forall₂ Curtails ps qs) :
    Curtails (Rule.inOrder ps) (Rule.inOrder qs) := by
  induction h with
  | nil => exact refl _
  | cons hp _ ih => exact hp.bind fun _ => ih.bind fun _ => refl _

end Curtails
end Parser

/-! ## Rules -/

/-- The first rule is the second one with less room. -/
structure Rule.Curtails (rule rule' : Rule α) : Prop where
  name : rule.name = rule'.name
  definition : rule.definition = rule'.definition
  body : Parser.Curtails rule.body rule'.body

namespace Rule.Curtails

variable {rule rule' : Rule α} {rules rules' : List (Rule α)}

theorem refl (rule : Rule α) : Curtails rule rule := ⟨rfl, rfl, .refl _⟩

theorem parse (h : Curtails rule rule') : Parser.Curtails rule.parse rule'.parse := by
  intro tracing s
  rcases h.body tracing s with hend | hrun
  · left
    cases tracing <;> exact hend
  · right
    simp only [Rule.parse, h.name, hrun]

theorem map (f : α → β) (h : Curtails rule rule') : Curtails (rule.map f) (rule'.map f) :=
  ⟨h.name, h.definition, h.body.map f⟩

theorem called (name definition : String) (h : Curtails rule rule') :
    Curtails (rule.called name definition) (rule'.called name definition) := ⟨rfl, rfl, h.parse⟩

theorem parse_all (h : List.Forall₂ Curtails rules rules') :
    List.Forall₂ Parser.Curtails (rules.map Rule.parse) (rules'.map Rule.parse) := by
  induction h with
  | nil => exact .nil
  | cons hrule _ ih => exact .cons hrule.parse ih

theorem names (h : List.Forall₂ Curtails rules rules') :
    rules.map Rule.name = rules'.map Rule.name := by
  induction h with
  | nil => rfl
  | cons hrule _ ih => rw [List.map_cons, List.map_cons, hrule.name, ih]

theorem oneOf (name definition : String) (h : List.Forall₂ Curtails rules rules') :
    Curtails (Rule.oneOf rules name definition) (Rule.oneOf rules' name definition) := by
  simp only [Rule.oneOf, names h]
  exact ⟨rfl, rfl, .firstOf _ _ (parse_all h)⟩

theorem star (name definition : String) (h : Curtails rule rule') :
    Curtails (Rule.star rule name definition) (Rule.star rule' name definition) := by
  simp only [Rule.star, h.name, h.definition]
  exact ⟨rfl, rfl, h.parse.many⟩

theorem sequence (commit : Option Nat) (name definition : String)
    (h : List.Forall₂ Curtails rules rules') :
    Curtails (Rule.sequence rules commit name definition)
      (Rule.sequence rules' commit name definition) := by
  refine ⟨rfl, rfl, ?_⟩
  cases commit with
  | none => exact .inOrder (parse_all h)
  | some k =>
    have hhead := Parser.Curtails.inOrder (parse_all (List.forall₂_take k h))
    have htail := Parser.Curtails.inOrder (parse_all (List.forall₂_drop k h))
    exact hhead.bind fun _ => htail.committed.bind fun _ => .refl _

end Rule.Curtails

/-! ## The rules of the grammar -/

namespace Grammar

variable {n m : Nat}

theorem curtails_loopOf {body body' : Rule (List Statement)} (h : body.Curtails body') :
    (loopOf body).Curtails (loopOf body') := by
  refine ⟨rfl, rfl, (Parser.Curtails.refl _).bind fun _ => .committed ?_⟩
  exact (Parser.Curtails.refl _).bind fun _ => h.parse.bind fun _ => .refl _

theorem curtails_blockOf {rule rule' : Rule Statement} (h : rule.Curtails rule') :
    (blockOf rule).Curtails (blockOf rule') := .star _ _ (h.called _ _)

theorem curtails_statement (h : n ≤ m) : (statement n).Curtails (statement m) := by
  induction n generalizing m with
  | zero =>
    have hname : (statement m).name = statementName ∧
        (statement m).definition = statementDefinition := by
      cases m <;> exact ⟨rfl, rfl⟩
    exact ⟨hname.1.symm, hname.2.symm, .endless _⟩
  | succ n ih =>
    cases m with
    | zero => exact absurd h (Nat.not_succ_le_zero n)
    | succ m =>
      have hloop := curtails_loopOf (curtails_blockOf (ih (Nat.le_of_succ_le_succ h)))
      exact .oneOf _ _ (.cons hloop (List.forall₂_same.mpr fun _ _ => .refl _))

theorem curtails_block (h : n ≤ m) : (block n).Curtails (block m) :=
  curtails_blockOf (curtails_statement h)

theorem curtails_definition (h : n ≤ m) : (definition n).Curtails (definition m) := by
  have hblock := (curtails_block h).parse
  refine ⟨rfl, rfl, (Parser.Curtails.refl _).bind fun _ => .bind (.committed ?_) fun _ => .refl _⟩
  exact (Parser.Curtails.refl _).bind fun _ => (Parser.Curtails.refl _).bind fun _ =>
    (Parser.Curtails.refl _).bind fun _ => hblock.bind fun _ => .refl _

end Grammar

theorem Production.curtails {n m : Nat} (h : n ≤ m) (p : Production) :
    (p.ruleWithin n).Curtails (p.ruleWithin m) := by
  cases p with
  | block => exact (Grammar.curtails_block h).map _
  | loop => exact (Grammar.curtails_loopOf (Grammar.curtails_block h)).map _
  | statement => exact (Grammar.curtails_statement h).map _
  | definition => exact (Grammar.curtails_definition h).map _
  | _ => exact .refl _

/-! ## Phrases -/

namespace Phrase

variable {n m : Nat} {named named' : String → Parser Datum}

mutual

theorem curtails (h : n ≤ m) (hnamed : ∀ name, (named name).Curtails (named' name))
    (phrase : Phrase) : (phrase.ruleWithin n named).Curtails (phrase.ruleWithin m named') := by
  cases phrase with
  | word => exact .refl _
  | number => exact .refl _
  | token kind => exact .refl _
  | oneOf alternatives name definition => exact .oneOf _ _ (curtails_all h hnamed alternatives)
  | star item name definition => exact (Rule.Curtails.star _ _ (curtails h hnamed item)).map _
  | deferred target name definition => exact ⟨rfl, rfl, hnamed target⟩
  | sequence items commit name definition =>
    exact (Rule.Curtails.sequence _ _ _ (curtails_all h hnamed items)).map _
  | production p => exact p.curtails h

theorem curtails_all (h : n ≤ m) (hnamed : ∀ name, (named name).Curtails (named' name))
    (phrases : List Phrase) :
    List.Forall₂ Rule.Curtails (rulesWithin n named phrases) (rulesWithin m named' phrases) := by
  cases phrases with
  | nil => exact .nil
  | cons phrase phrases => exact .cons (curtails h hnamed phrase) (curtails_all h hnamed phrases)

end

end Phrase

namespace Phrasebook

variable {n m d e : Nat}

theorem parseIn_curtails (book : Phrasebook) (h : n ≤ m) (hdepth : d ≤ e) (name : String) :
    (book.parseIn n d name).Curtails (book.parseIn m e name) := by
  induction d generalizing e name with
  | zero => exact .endless _
  | succ d ih =>
    cases e with
    | zero => exact absurd hdepth (Nat.not_succ_le_zero d)
    | succ e =>
      rw [parseIn, parseIn]
      cases book.find? name with
      | none => exact .refl _
      | some phrase =>
        exact (phrase.curtails h fun name => ih (Nat.le_of_succ_le_succ hdepth) name).parse

/-- Two runs of a rule are the same, unless one of them has given up. -/
theorem run_same_or_endless (book : Phrasebook) (phrase : Phrase) (n d n' d' : Nat)
    (tracing : Bool) (s : Point) :
    let run := fun n d => (phrase.ruleWithin n (book.parseIn n d)).parse tracing s
    (run n d).outcome = .abort .endless ∨ (run n' d').outcome = .abort .endless ∨
      run n d = run n' d' := by
  intro run
  -- Both are compared with a run that has as much room as the two together.
  have hmore : ∀ k c, k ≤ n + n' → c ≤ d + d' →
      (run k c).outcome = .abort .endless ∨ run k c = run (n + n') (d + d') :=
    fun k c hk hc => (phrase.curtails hk (book.parseIn_curtails hk hc)).parse tracing s
  rcases hmore n d (Nat.le_add_right _ _) (Nat.le_add_right _ _) with hend | hrun
  · exact Or.inl hend
  · rcases hmore n' d' (Nat.le_add_left _ _) (Nat.le_add_left _ _) with hend | hrun'
    · exact Or.inr (Or.inl hend)
    · exact Or.inr (Or.inr (hrun.trans hrun'.symm))

end Phrasebook

/-! ## Programs -/

namespace Program

variable {t : List Token} {need room room' : Nat} {options options' : Options}

/-- With the same room, the result of a reading depends on no option but the name. -/
theorem readIn_result_congr (room : Nat) (options options' : Options)
    (h : options.filename = options'.filename) (t : List Token) :
    (readIn room options t).result = (readIn room options' t).result := by
  show readWithin room options t = readWithin room options' t
  cases ending room t with
  | reads items hitems => rw [readWithin_of_items _ hitems, readWithin_of_items _ hitems]
  | stops hstops => rw [readWithin_of_stops _ hstops, readWithin_of_stops _ hstops, h]
  | overruns hover => rw [readWithin_of_overruns _ hover, readWithin_of_overruns _ hover, h]

/-- The reading of `t` is given up where there is less room than `need`, and comes to the same end
wherever there is not, whatever the options are. -/
structure Needs (need : Nat) (t : List Token) : Prop where
  short : ∀ room < need, ∃ e : Nat, e ≤ t.length ∧ ∀ options,
    (readIn room options t).result =
      .error ((Reading.tooDeep e).located (some options.filename))
  enough : (∃ p, ∀ room, need ≤ room → ∀ options, (readIn room options t).result = .ok p) ∨
    ∃ (u rest : List Token) (d : Demand), t = u ++ rest ∧ ∀ room, need ≤ room → ∀ options,
      (readIn room options t).result =
        .error ((d.failure rest u.length).located (some options.filename))

/-- Some room is enough: no more loops than there are can be open at once. -/
theorem exists_needs (t : List Token) :
    ∃ need, need ≤ t.count (.keyword .loop) + 1 ∧ Needs need t := by
  classical
  let Enough : Nat → Prop := fun n => ¬∃ u rest, t = u ++ rest ∧ Overruns n u rest
  have hcount : Enough (t.count (.keyword .loop) + 1) := by
    rintro ⟨u, rest, rfl, h⟩
    have hle := h.le_count
    rw [List.count_append] at hle
    omega
  have hex : ∃ n, Enough n := ⟨_, hcount⟩
  refine ⟨Nat.find hex, Nat.find_min' hex hcount, ?_, ?_⟩
  · intro room hroom
    obtain ⟨u, rest, rfl, h⟩ := not_not.mp (Nat.find_min hex hroom)
    exact ⟨u.length, by simp, fun options => readWithin_of_overruns options h⟩
  · have hspec := Nat.find_spec hex
    generalize Nat.find hex = need at hspec
    cases ending need t with
    | reads items hitems =>
      refine Or.inl ⟨ofItems items, fun room hroom options => ?_⟩
      exact readWithin_of_items options fun i hi => Nat.lt_of_lt_of_le (hitems i hi) hroom
    | @stops u rest d h =>
      refine Or.inr ⟨u, rest, d, rfl, fun room hroom options => ?_⟩
      exact readWithin_of_stops options (h.mono hroom)
    | @overruns u rest h => exact absurd ⟨u, rest, rfl, h⟩ hspec

namespace Needs

theorem result_congr (h : Needs need t) (hroom : need ≤ room) (hroom' : need ≤ room')
    (hname : options.filename = options'.filename) :
    (readIn room options t).result = (readIn room' options' t).result := by
  rcases h.enough with ⟨p, hp⟩ | ⟨u, rest, d, -, hd⟩
  · rw [hp room hroom, hp room' hroom']
  · rw [hd room hroom, hd room' hroom', hname]

theorem conclusive (h : Needs need t) (hroom : need ≤ room) (options : Options) :
    Conclusive (readIn room options t).result := by
  rcases h.enough with ⟨p, hp⟩ | ⟨u, rest, d, -, hd⟩
  · rw [hp room hroom]
    trivial
  · rw [hd room hroom]
    exact not_tooDeep_of_demand _ _ _ _

end Needs
end Program

/-! ## One loop inside the other -/

/-- A loop with `n` others in it, each inside the one before it. -/
def Statement.nested : (n : Nat) → Statement
  | 0 => .loop (.text "n") []
  | n + 1 => .loop (.text "n") [nested n]

namespace Program

/-- The tokens of so many loops inside each other, which are all ended. -/
def closedNest (n : Nat) : List Token := nest n ++ List.replicate n (.keyword .close)

def closedNestText (n : Nat) : String :=
  String.join (List.replicate n "REPEAT n " ++ List.replicate n "END ")

theorem layout_closedNest (n : Nat) : Layout (closedNest n) (closedNestText n).toList := by
  have hspace : [' '].all Text.isBlank = true := by decide
  have hclose : ∀ k, Layout (List.replicate k (.keyword .close))
      ((List.replicate k "END ").flatMap String.toList) := by
    intro k
    induction k with
    | zero => exact .nil
    | succ k ih => exact .cons (.keyword .close) [' '] hspace nofun ih
  have hnest : ∀ k, Layout (nest k ++ List.replicate n (.keyword .close))
      ((List.replicate k "REPEAT n ").flatMap String.toList ++
        (List.replicate n "END ").flatMap String.toList) := by
    intro k
    induction k with
    | zero => exact hclose n
    | succ k ih =>
      exact .cons (.keyword .loop) [' '] hspace nofun (.cons (.text "n") [' '] hspace nofun ih)
  rw [closedNestText, String.toList_join, List.flatMap_append]
  exact hnest n

theorem tokensOf_closedNestText (n : Nat) : tokensOf (closedNestText n) = .ok (closedNest n) := by
  have hwellFormed : WellFormedAll (closedNest n) := by
    intro t ht
    rw [closedNest, nest, List.mem_append, List.mem_flatten] at ht
    rcases ht with ⟨ts, hts, ht⟩ | ht
    · rw [List.eq_of_mem_replicate hts, List.mem_pair] at ht
      rcases ht with rfl | rfl
      · trivial
      · exact ⟨by decide, rfl⟩
    · rw [List.eq_of_mem_replicate ht]
      trivial
  exact Written.tokensOf_eq ⟨[], _, rfl, rfl, layout_closedNest n⟩ hwellFormed

theorem tokens_nested (n : Nat) : (Statement.nested n).tokens = closedNest (n + 1) := by
  induction n with
  | zero => rfl
  | succ n ih =>
    rw [Statement.nested, Statement.tokens, Statement.tokensAll, ih, Statement.tokensAll,
      closedNest, closedNest, List.append_nil, List.append_assoc, ← List.replicate_succ']
    rfl

theorem depth_nested (n : Nat) : (Statement.nested n).depth = n + 1 := by
  induction n with
  | zero => rfl
  | succ n ih =>
    rw [Statement.nested, Statement.depth, Statement.depthAll, ih, Statement.depthAll, Nat.max_zero]

/-- One more loop than there is room for is one too many. -/
theorem readIn_closedNest (n : Nat) (options options' : Options) :
    (readIn (n + 2) options (closedNest (n + 1))).result = .ok ⟨[], [.nested n]⟩ ∧
      ∃ e : Nat, (readIn (n + 1) options' (closedNest (n + 1))).result =
        .error ((Reading.tooDeep e).located (some options'.filename)) := by
  constructor
  · have hdepth : ∀ i ∈ [Item.statement (.nested n)], i.depth < n + 2 := by
      rw [List.forall_mem_singleton]
      exact Nat.lt_of_le_of_lt (Nat.le_of_eq (depth_nested n)) (Nat.lt_succ_self _)
    have hread := readWithin_of_items options hdepth
    rw [List.flatMap_singleton, Item.tokens, tokens_nested] at hread
    exact hread
  · have hloop : (closedNest (n + 1)).head? = some (.keyword .loop) := rfl
    have hdef : (closedNest (n + 1)).head? ≠ some (.keyword .define) := by
      rw [hloop]
      decide
    have hover : Overruns (n + 1) (nest (n + 1)) (List.replicate (n + 1) (.keyword .close)) :=
      Overruns.item [] (List.forall_mem_nil _) (List.cons_ne_nil _ _)
        (.statement hdef (overruns_nest (n + 1)))
    exact ⟨_, readWithin_of_overruns options' hover⟩

end Program
end CounterLang
