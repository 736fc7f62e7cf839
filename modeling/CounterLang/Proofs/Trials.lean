/-
How often rules are tried.

A statement is looked for wherever one could stand, and so are values and parameters, and each
time the alternatives are tried one after the other.  So there are tokens that many rules are
tried at, and a repetition tries once more at its end, where the one around it goes on.  But a
rule is committed to once it has read its first token, or the first two of a parameter, and what
is given up has come no further than that.  From this each rule gets its account: a statement that
is read leaves twenty trials over, and one that is given up has cost eleven.

The accounts are put together from the single tokens upwards, by induction on how deep loops may
lie inside each other.  They end in a bound on whole readings that is linear in the number of
tokens, for programs and for what is none alike (`Program.read_trials`).  That no trial is made
outside of the tokens is a property that every rule has, and comes from `Parser.Closed`.
-/
import CounterLang.Proofs.Outcome
import CounterLang.Proofs.Place
import CounterLang.Proofs.Spending

namespace CounterLang

variable {α β : Type}

open CounterLang.Parser (Spends GivesUpWithin TriesOnce)

/-! ## Accounts of the rules -/

namespace Grammar

open CounterLang.Parser (spends_pure spends_note spends_abort spends_next spends_firstOf
  triesOnce_next givesUpWithin_pure givesUpWithin_abort givesUpWithin_committed
  givesUpWithin_firstOf)

theorem spends_keyword (k : Keyword) : Spends (-19) 1 (keyword k).parse := spends_next _ _ _ _

theorem spends_word : Spends (-19) 1 Rule.word.parse := spends_next _ _ _ _

theorem triesOnce_keyword (k : Keyword) : TriesOnce (keyword k).parse := triesOnce_next _ _ _ _

theorem triesOnce_word : TriesOnce Rule.word.parse := triesOnce_next _ _ _ _

/-! ### Values -/

theorem value_alternatives : ∀ p ∈ [numberValue, textValue].map Rule.parse,
    Spends (-18) 2 p ∧ GivesUpWithin 2 p := by
  have hnumber : Spends (-19) 1 Rule.number.parse := spends_next _ _ _ _
  have honce : TriesOnce Rule.number.parse := triesOnce_next _ _ _ _
  simp only [List.map, List.forall_mem_cons]
  refine ⟨⟨?_, ?_⟩, ⟨?_, ?_⟩, List.forall_mem_nil _⟩
  · exact Spends.mono (.parse (hnumber.bind fun _ => spends_pure _)) (by decide) (by decide)
  · exact .mono (.parse (honce.givesUpWithin_bind (fun _ => givesUpWithin_pure _) (by decide)))
      (by decide)
  · exact Spends.mono (.parse (spends_word.bind fun _ => spends_pure _)) (by decide) (by decide)
  · exact .mono (.parse (triesOnce_word.givesUpWithin_bind (fun _ => givesUpWithin_pure _)
      (by decide))) (by decide)

theorem spends_value : Spends (-13) 7 value.parse := by
  have hbody : Spends (-18 + 2 * 2) (2 + 2 * 2) value.body :=
    spends_firstOf _ _ (by decide) (by decide) value_alternatives
  exact hbody.parse

theorem givesUpWithin_value : GivesUpWithin 5 value.parse := by
  have hbody : GivesUpWithin (2 * 2) value.body :=
    givesUpWithin_firstOf _ _ fun p hp => (value_alternatives p hp).2
  exact hbody.parse

theorem spends_values : Spends 6 13 values.parse := by
  have hentry : Spends 0 7 value.parse := spends_value.mono (by decide) (by decide)
  have hbody : Spends 5 12 values.body := hentry.many givesUpWithin_value
  exact hbody.parse

/-! ### Statements -/

/-- A rule that is committed to from its first token on is given up at that token only.  What
comes behind the token need not save more than thirteen trials. -/
theorem account_of_committed {p : Parser α} {g : α → Parser β} {x y : Int}
    (hp : Spends (-19) 1 p) (honce : TriesOnce p) (hg : ∀ a, Spends x y (g a)) (hx : x ≤ -13)
    (hy : y ≤ 20) (name definition : String) :
    let rule : Rule β := ⟨name, definition, p >>= fun a => Parser.committed (g a)⟩
    Spends (-31) 2 rule.parse ∧ GivesUpWithin 2 rule.parse := by
  intro rule
  have hspends : Spends (-19 + x) (max 1 (-19 + y)) rule.body :=
    hp.bind fun a => (hg a).committed
  have hgives : GivesUpWithin (1 + 0) rule.body :=
    honce.givesUpWithin_bind (fun _ => givesUpWithin_committed _) (by decide)
  exact ⟨hspends.parse.mono (by omega) (by omega), hgives.parse⟩

theorem statement_alternatives {body : Rule (List Statement)} (hbody : Spends 13 27 body.parse) :
    ∀ p ∈ (alternatives body).map Rule.parse, Spends (-31) 2 p ∧ GivesUpWithin 2 p := by
  simp only [alternatives, List.map, List.forall_mem_cons]
  refine ⟨?_, ?_, ?_, ?_, ?_, List.forall_mem_nil _⟩
  · apply account_of_committed (spends_keyword .loop) (triesOnce_keyword .loop) fun _ =>
      spends_value.bind fun _ => hbody.bind fun _ => (spends_keyword .close).bind fun _ =>
        spends_pure _
    · decide
    · decide
  · apply account_of_committed (spends_keyword .jez) (triesOnce_keyword .jez) fun _ =>
      spends_word.bind fun _ => spends_word.bind fun _ => spends_pure _
    · decide
    · decide
  · apply account_of_committed (spends_keyword .incr) (triesOnce_keyword .incr) fun _ =>
      spends_word.bind fun _ => spends_pure _
    · decide
    · decide
  · apply account_of_committed (spends_keyword .decr) (triesOnce_keyword .decr) fun _ =>
      spends_word.bind fun _ => spends_pure _
    · decide
    · decide
  · apply account_of_committed spends_word triesOnce_word fun _ =>
      spends_values.bind fun _ => (spends_keyword .semicolon).bind fun _ => spends_pure _
    · decide
    · decide

/-- The statements of a block pay for themselves.  What is left is the end of the block, where
one is looked for in vain. -/
theorem spends_blockOf {statement : Rule Statement} (h : Spends (-20) 13 statement.parse)
    (hgives : GivesUpWithin 11 statement.parse) : Spends 13 27 (blockOf statement).parse := by
  have hcalled : Spends (-20 + 1) (13 + 1)
      (statement.called statementName statementDefinition).parse := Spends.parse h
  have hgives : GivesUpWithin (11 + 1)
      (statement.called statementName statementDefinition).parse := GivesUpWithin.parse hgives
  have hentry := hcalled.mono (x := 0) (y := 14) (by decide) (by decide)
  have hbody : Spends 12 26 (blockOf statement).body := hentry.many hgives
  exact hbody.parse

theorem statement_account (limit : Nat) :
    Spends (-20) 13 (statement limit).parse ∧ GivesUpWithin 11 (statement limit).parse := by
  induction limit with
  | zero =>
    have hbody : Spends (-21) 0 (statement 0).body := spends_abort _ _
    have hgives : GivesUpWithin 0 (statement 0).body := givesUpWithin_abort _
    exact ⟨hbody.parse.mono (by decide) (by decide), hgives.parse.mono (by decide)⟩
  | succ limit ih =>
    have halternatives := statement_alternatives (spends_blockOf ih.1 ih.2)
    have hbody : Spends (-31 + 2 * 5) (2 + 2 * 5) (statement (limit + 1)).body :=
      spends_firstOf _ _ (by decide) (by decide) halternatives
    have hgives : GivesUpWithin (2 * 5) (statement (limit + 1)).body :=
      givesUpWithin_firstOf _ _ fun p hp => (halternatives p hp).2
    exact ⟨hbody.parse, hgives.parse⟩

theorem spends_block (limit : Nat) : Spends 13 27 (block limit).parse :=
  spends_blockOf (statement_account limit).1 (statement_account limit).2

/-! ### Definitions and programs -/

theorem spends_param : Spends 0 2 param.parse := by
  have htype : Spends (-19) 1 paramType := Spends.refine spends_word
  apply Spends.mono (.parse (spends_word.bind fun _ => (spends_keyword .colon).bind fun _ =>
    Spends.committed <| htype.bind fun _ => spends_pure _))
  · decide
  · decide

theorem givesUpWithin_param : GivesUpWithin 3 param.parse := by
  have hcolon : ∀ name, GivesUpWithin (1 + 0) ((keyword .colon).parse >>= fun _ =>
      Parser.committed do return (⟨name, ← paramType⟩ : Param)) := fun _ =>
    (triesOnce_keyword _).givesUpWithin_bind (fun _ => givesUpWithin_committed _) (by decide)
  have hbody : GivesUpWithin (1 + (1 + 0)) param.body :=
    triesOnce_word.givesUpWithin_bind hcolon (by decide)
  exact hbody.parse

theorem spends_params : Spends 4 6 params.parse := by
  have hbody : Spends 3 5 params.body := spends_param.many givesUpWithin_param
  exact hbody.parse

theorem spends_definition (limit : Nat) : Spends 0 2 (definition limit).parse := by
  apply Spends.mono (.parse ((spends_keyword .define).bind fun _ => Spends.bind (Spends.committed <|
    spends_word.bind fun _ => spends_params.bind fun _ => (spends_keyword .body).bind fun _ =>
      (spends_block limit).bind fun _ => (spends_keyword .close).bind fun _ => spends_pure _)
    fun _ => (spends_note _ rfl).bind fun _ => spends_pure _))
  · decide
  · decide

theorem spends_items (limit : Nat) : Spends 0 13 (items limit) := by
  have hdefinition := ((spends_definition limit).map Item.definition).mono (x := 0) (y := 13)
    (by decide) (by decide)
  have hstatement := ((statement_account limit).1.map Item.statement).mono (x := 0) (y := 13)
    (by decide) (by decide)
  exact (hdefinition.ifNext _ hstatement).untilEnd (by decide)

end Grammar

/-! ## Where rules are tried -/

/-- Every trial is at one of the tokens ahead, or at their end. -/
def Journal.TriesAhead (j : Journal) (s : Point) : Prop :=
  ∀ trial ∈ j.trials, s.position ≤ trial.2 ∧ trial.2 ≤ s.position + s.ahead.length

namespace Journal

variable {j k : Journal} {s : Point}

theorem triesAhead_of_trials_nil (h : j.trials = []) : j.TriesAhead s := by
  intro trial htrial
  rw [h] at htrial
  exact absurd htrial List.not_mem_nil

theorem TriesAhead.append (hj : j.TriesAhead s) (hk : k.TriesAhead s) :
    Journal.TriesAhead (j ++ k) s := by
  intro trial htrial
  rw [trials_append, List.mem_append] at htrial
  exact htrial.elim (hj trial) (hk trial)

theorem TriesAhead.of_past {m : Nat} {s' : Point} (hs : s' = s.past m) (hm : m ≤ s.ahead.length)
    (h : j.TriesAhead s') : j.TriesAhead s := by
  intro trial htrial
  obtain ⟨hleft, hright⟩ := h trial htrial
  have hposition : s'.position = s.position + m := by rw [hs, Point.past]
  have hlength : s'.ahead.length = s.ahead.length - m := by
    rw [hs, Point.past]
    exact List.length_drop
  omega

end Journal

namespace Parser

/-- Wherever the parser starts, it tries rules from there on only. -/
def TriesAhead (p : Parser α) : Prop := ∀ s, (p true s).journal.TriesAhead s

variable {p q : Parser α}

namespace TriesAhead

/-- A parser that makes no trial. -/
theorem of_trials_nil (h : ∀ s, (p true s).journal.trials = []) : TriesAhead p :=
  fun s => Journal.triesAhead_of_trials_nil (h s)

theorem next (kind : Kind) (read : Token → Option α) : TriesAhead (Parser.next kind read) := by
  apply of_trials_nil
  rintro ⟨position, ahead⟩
  cases ahead with
  | nil => rfl
  | cons t rest => cases hread : read t <;> simp [Parser.next, hread]

/-- The second parser starts where the first one stands, which is among the tokens ahead. -/
theorem bind {g : α → Parser β} (hplace : Placed [] p) (hp : TriesAhead p)
    (hg : ∀ a, TriesAhead (g a)) : TriesAhead (p >>= g) := by
  intro s
  show (Parser.bind p g true s).journal.TriesAhead s
  cases ho : (p true s).outcome with
  | value a =>
    obtain ⟨m, hm, hpoint, -⟩ := hplace true s
    simp only [Parser.bind, ho]
    exact (hp s).append ((hg a _).of_past hpoint hm)
  | failure f => simp only [Parser.bind, ho]; exact hp s
  | abort b => simp only [Parser.bind, ho]; exact hp s

theorem refine {check : α → Option β} {fault : α → Int → Failure} (hp : TriesAhead p) :
    TriesAhead (p.refine check fault) := by
  intro s
  have hjournal : (p.refine check fault true s).journal = (p true s).journal := by
    cases ho : (p true s).outcome with
    | value a => cases hcheck : check a <;> simp only [Parser.refine, ho, hcheck]
    | failure f => simp only [Parser.refine, ho]
    | abort b => simp only [Parser.refine, ho]
  rw [hjournal]
  exact hp s

theorem committed (hp : TriesAhead p) : TriesAhead (Parser.committed p) := by
  intro s
  cases ho : (p true s).outcome with
  | value a => simp only [Parser.committed, ho]; exact hp s
  | abort b => simp only [Parser.committed, ho]; exact hp s
  | failure f =>
    have hmark : Journal.TriesAhead [.committed f.commit] s :=
      Journal.triesAhead_of_trials_nil rfl
    simp only [Parser.committed, ho, if_true]
    exact (hp s).append hmark

theorem orElse (hp : TriesAhead p) (hq : TriesAhead q) : TriesAhead (p.orElse q) := by
  intro s
  by_cases hpasses : (p true s).passes = true
  · rw [orElse_of_passes hpasses]
    exact (hp s).append (hq s)
  · rw [orElse_of_not_passes hpasses]
    exact hp s

theorem many {stuck : Int → Failure} (hplace : Placed [] p) (hp : TriesAhead p) :
    TriesAhead (p.many stuck) := by
  intro s
  induction s using Parser.many.induct p true with
  | case1 s r a ho hlt ih =>
    obtain ⟨m, hm, hpoint, -⟩ := hplace true s
    rw [many_of_value ho hlt]
    exact (hp s).append (ih.of_past hpoint hm)
  | case2 s r a ho hle =>
    rw [many_of_no_progress ho hle]
    exact hp s
  | case3 s r f ho hf =>
    rw [many_of_committed ho hf]
    exact hp s
  | case4 s r f ho hf =>
    rw [many_of_uncommitted ho hf]
    exact hp s
  | case5 s r b ho =>
    rw [many_of_abort ho]
    exact hp s

theorem parse {rule : Rule α} (h : TriesAhead rule.body) : TriesAhead rule.parse := by
  intro s trial htrial
  rw [trials_parse, List.mem_cons] at htrial
  rcases htrial with rfl | htrial
  · exact ⟨Int.le_refl _, by omega⟩
  · exact h s trial htrial

theorem ifNext (tok : Token) (hp : TriesAhead p) (hq : TriesAhead q) :
    TriesAhead (Parser.ifNext tok p q) := by
  intro s
  rcases ifNext_run tok p q true s with hrun | hrun
  · rw [hrun]
    exact hp s
  · rw [hrun]
    exact hq s

theorem untilEnd (hplace : Placed [] p) (hp : TriesAhead p) : TriesAhead (Parser.untilEnd p) := by
  intro s
  induction s using Parser.untilEnd.induct p true with
  | case1 s hs =>
    rw [untilEnd_of_end hs]
    exact Journal.triesAhead_of_trials_nil rfl
  | case2 s hs r a ho hlt ih =>
    obtain ⟨m, hm, hpoint, -⟩ := hplace true s
    rw [untilEnd_of_value hs ho hlt]
    exact (hp s).append (ih.of_past hpoint hm)
  | case3 s hs r a ho hle =>
    rw [untilEnd_of_no_progress hs ho hle]
    exact hp s
  | case4 s hs r f ho =>
    rw [untilEnd_of_failure hs ho]
    exact hp s
  | case5 s hs r b ho =>
    rw [untilEnd_of_abort hs ho]
    exact hp s

end TriesAhead

theorem closed_triesAhead : Closed fun p => Placed [] p ∧ TriesAhead p where
  pure a := ⟨.pure a, .of_trials_nil fun _ => rfl⟩
  bind hp hg := ⟨.bind hp.1 fun a => (hg a).1, .bind hp.1 hp.2 fun a => (hg a).2⟩
  endless := ⟨.endless, .of_trials_nil fun _ => rfl⟩
  next kind read := ⟨.next kind read, .next kind read⟩
  note _ _ _ := ⟨.note _, .of_trials_nil fun _ => rfl⟩
  paramType := ⟨.paramType, .refine (.parse (.next _ _))⟩
  committed hp := ⟨.committed hp.1, .committed hp.2⟩
  orElse hp hq := ⟨.orElse hp.1 hq.1, .orElse hp.2 hq.2⟩
  failHere name definition := ⟨.failHere name definition, .of_trials_nil fun _ => rfl⟩
  many name definition item hp := ⟨.many name definition item hp.1, .many hp.1 hp.2⟩
  parse h := ⟨.parse h.1, .parse h.2⟩

end Parser

theorem Grammar.placed_item (limit : Nat) : (item limit).Placed [] := by
  have hdefinition := (Parser.closed_placed []).parse ((Parser.closed_placed []).definition limit)
  have hstatement := (Parser.closed_placed []).parse ((Parser.closed_placed []).statement limit)
  intro tracing s
  rcases Parser.ifNext_run (.keyword .define) (Item.definition <$> (definition limit).parse)
    (Item.statement <$> (statement limit).parse) tracing s with hrun | hrun
  · rw [item, hrun, Parser.map_run]
    exact (hdefinition tracing s).map _
  · rw [item, hrun, Parser.map_run]
    exact (hstatement tracing s).map _

theorem Grammar.triesAhead_items (limit : Nat) : (items limit).TriesAhead := by
  have hdefinition := Parser.closed_triesAhead.map Item.definition
    (Parser.closed_triesAhead.parse (Parser.closed_triesAhead.definition limit))
  have hstatement := Parser.closed_triesAhead.map Item.statement
    (Parser.closed_triesAhead.parse (Parser.closed_triesAhead.statement limit))
  exact .untilEnd (placed_item limit) (.ifNext _ hdefinition.2 hstatement.2)

/-! ## The journal of a reading -/

/-- The lines about trials are those that begin like one. -/
theorem Journal.lines_trying (j : Journal) :
    j.lines.filter (fun line => "counter_machines.rules: Trying ".toList <+: line.toList) =
      j.trials.map fun (rule, position) =>
        "counter_machines.rules: Trying " ++ rule ++ " at token " ++ Numeral.text position := by
  induction j with
  | nil => rfl
  | cons e j ih =>
    have hlines : Journal.lines (e :: j) = Journal.lines [e] ++ Journal.lines j :=
      List.filterMap_append (l := [e])
    have htrials : Journal.trials (e :: j) = Journal.trials [e] ++ Journal.trials j :=
      trials_append [e] j
    rw [hlines, htrials, List.filter_append, List.map_append, ih]
    congr 1
    cases e with
    | gaveUp => rfl
    | committed => rfl
    | _ => simp [Journal.lines, Journal.trials, Event.line?, Event.trial?]

namespace Program

theorem trials_conclusion (options : Options) (result : Except Failure Program) :
    Journal.trials [Reading.conclusion options result] = [] := by
  cases result <;> rfl

/-- The journal of a reading that gives up where `limit` loops are open. -/
def journalWithin (limit : Nat) (options : Options) (t : List Token) : Journal :=
  (Grammar.items limit options.tracing ⟨0, t⟩).journal ++
    [Reading.conclusion options (readWithin limit options t)]

theorem trials_journalWithin (limit : Nat) (options : Options) (t : List Token) :
    (journalWithin limit options t).trials =
      (Grammar.items limit options.tracing ⟨0, t⟩).journal.trials := by
  rw [journalWithin, Journal.trials_append, trials_conclusion, List.append_nil]

/-- With tracing on, the rules that are tried are told line by line.  There are at most twenty
such lines for each token and twenty for the end, and each tells of a token or of the end.  That
does not depend on where the loops become too deep. -/
theorem read_trials (options : Options) (t : List Token) :
    let traced := { options with tracing := true }
    (read traced t).journal = journalWithin Grammar.nestingLimit traced t ∧
      ∀ limit,
        let journal := journalWithin limit traced t
        let trying := "counter_machines.rules: Trying "
        journal.lines.filter (fun line => trying.toList <+: line.toList) =
            journal.trials.map (fun (rule, position) =>
              trying ++ rule ++ " at token " ++ Numeral.text position) ∧
          journal.trials.length ≤ 20 * (t.length + 1) ∧
          ∀ trial ∈ journal.trials, 0 ≤ trial.2 ∧ trial.2 ≤ t.length := by
  intro traced
  refine ⟨rfl, fun limit => ⟨Journal.lines_trying _, ?_, ?_⟩⟩
  · have htries : (Grammar.items limit traced.tracing ⟨0, t⟩).tries ≤ 20 * t.length + max 0 13 :=
      (Grammar.spends_items limit ⟨0, t⟩).tries_le
    rw [Run.tries] at htries
    rw [trials_journalWithin]
    omega
  · intro trial htrial
    rw [trials_journalWithin] at htrial
    obtain ⟨hleft, hright⟩ := Grammar.triesAhead_items limit ⟨0, t⟩ trial htrial
    exact ⟨hleft, by rwa [Int.zero_add] at hright⟩

end Program
end CounterLang
