/-
Runs told in another way.

Two runs of a rule can do the same and tell it differently: from another position, or with
less entered in the journal.  A retelling says what becomes of positions, failures and
journals.  Every parser that is built from single tokens by the combinators comes through it:
its run from the retold place is its run, retold.  So does every rule (`Phrasebook.retold`).

What carries the proof is that the combinators look at three things only, which no retelling
changes, the tokens ahead, the value that has been read, and whether a failure is committed.
-/
import CounterLang.Proofs.Closed
import CounterLang.Proofs.Repetition

namespace CounterLang

variable {α β : Type}

/-- A way to tell a run that was made with tracing on or off (`traced`) as one that was made
with tracing on or off (`retraced`). -/
structure Retelling where
  traced : Bool
  retraced : Bool
  position : Int → Int
  failure : Failure → Failure
  journal : Journal → Journal
  position_succ (i : Int) : position (i + 1) = position i + 1
  /-- What was wrong at a token is wrong at it wherever it is said to stand. -/
  failure_mk (c : Cause) (i : Int) :
    failure { cause := c, position := some i } = { cause := c, position := some (position i) }
  committed_failure (f : Failure) : (failure f).committed = f.committed
  failure_commit (f : Failure) : failure f.commit = (failure f).commit
  journal_append (j k : Journal) : journal (j ++ k) = journal j ++ journal k
  journal_note (name : String) (params statements : Nat) :
    journal [.readDefinition name params statements] = [.readDefinition name params statements]
  journal_committed (f : Failure) : journal (if traced then [.committed f] else []) =
    if retraced then [.committed (failure f)] else []
  journal_tried (name : String) (i : Int) : journal (if traced then [.tried name i] else []) =
    if retraced then [.tried name (position i)] else []
  journal_gaveUp (name : String) (f : Failure) :
    journal (if traced then [.gaveUp name f] else []) =
      if retraced then [.gaveUp name (failure f)] else []

/-- A trial of a rule is a run of its body between two entries in the journal. -/
theorem Rule.parse_eq (rule : Rule α) (tracing : Bool) (s : Point) :
    rule.parse tracing s =
      { rule.body tracing s with
        journal := (if tracing then [.tried rule.name s.position] else []) ++
          ((rule.body tracing s).journal ++
            match (rule.body tracing s).outcome with
            | .failure f => if tracing then [.gaveUp rule.name f] else []
            | _ => []) } := by
  cases tracing with
  | true => rfl
  | false =>
    rcases h : rule.body false s with ⟨outcome, point, journal⟩
    cases outcome <;> simp [Rule.parse, h]

namespace Retelling

variable (T : Retelling)

def outcome : Outcome α → Outcome α
  | .value a => .value a
  | .failure f => .failure (T.failure f)
  | .abort b => .abort b

def point (s : Point) : Point := ⟨T.position s.position, s.ahead⟩

def run (r : Run α) : Run α := ⟨T.outcome r.outcome, T.point r.point, T.journal r.journal⟩

theorem journal_nil : T.journal [] = [] := by
  have happend := T.journal_append [] []
  rw [List.append_nil] at happend
  exact List.self_eq_append_right.mp happend

theorem run_after (j : Journal) (r : Run α) :
    T.run (r.after j) = (T.run r).after (T.journal j) := by
  simp only [Run.after, run, journal_append]

theorem run_map (f : α → β) (r : Run α) : T.run (r.map f) = (T.run r).map f := by
  obtain ⟨outcome, point, journal⟩ := r
  cases outcome <;> rfl

end Retelling

namespace Parser

/-- The parser does the same from the retold place. -/
def Retold (T : Retelling) (p : Parser α) : Prop :=
  ∀ s, p T.retraced (T.point s) = T.run (p T.traced s)

namespace Retold

open Retelling (outcome point run)

variable {T : Retelling} {p q : Parser α}

theorem pure (a : α) : Retold T (Pure.pure a : Parser α) := by
  intro s
  show (⟨.value a, T.point s, []⟩ : Run α) = ⟨.value a, T.point s, T.journal []⟩
  rw [T.journal_nil]

theorem abort (b : Abort) : Retold T (Parser.abort b : Parser α) := by
  intro s
  show (⟨.abort b, T.point s, []⟩ : Run α) = ⟨.abort b, T.point s, T.journal []⟩
  rw [T.journal_nil]

theorem note (name : String) (params statements : Nat) :
    Retold T (Parser.note (.readDefinition name params statements)) := by
  intro s
  simp only [Parser.note, run, T.journal_note]
  rfl

theorem failHere (name definition reason : String) :
    Retold T (Parser.failHere (Rule.failed name definition reason) : Parser α) := by
  intro s
  simp only [Parser.failHere, Rule.failed, run, outcome, T.failure_mk, T.journal_nil]
  rfl

theorem next (kind : Kind) (read : Token → Option α) : Retold T (Parser.next kind read) := by
  intro s
  obtain ⟨position, ahead⟩ := s
  cases ahead with
  | nil => simp only [Parser.next, point, run, outcome, T.failure_mk, T.journal_nil]
  | cons t rest =>
    cases hread : read t with
    | none => simp only [Parser.next, point, hread, run, outcome, T.failure_mk, T.journal_nil]
    | some a =>
      simp only [Parser.next, point, hread, run, outcome, T.position_succ, T.journal_nil]

theorem bind {f : α → Parser β} (hp : Retold T p) (hf : ∀ a, Retold T (f a)) :
    Retold T (p >>= f) := by
  intro s
  show Parser.bind p f T.retraced (T.point s) = T.run (Parser.bind p f T.traced s)
  have hrun := hp s
  cases ho : (p T.traced s).outcome with
  | value a =>
    have hrest := hf a (p T.traced s).point
    simp only [Parser.bind, hrun, run, ho, outcome, hrest]
    exact (T.run_after _ _).symm
  | failure e => simp only [Parser.bind, hrun, run, ho, outcome]
  | abort b => simp only [Parser.bind, hrun, run, ho, outcome]

/-- The one check that the grammar makes. -/
theorem refine {check : α → Option β} {name definition : String} {reason : α → String}
    (hp : Retold T p) :
    Retold T (p.refine check fun a => Rule.failed name definition (reason a)) := by
  intro s
  have hrun := hp s
  cases ho : (p T.traced s).outcome with
  | value a =>
    cases hcheck : check a with
    | some b => simp only [Parser.refine, hrun, run, ho, outcome, hcheck]
    | none =>
      simp only [Parser.refine, hrun, run, ho, outcome, hcheck, Rule.failed, T.failure_mk]
      rfl
  | failure e => simp only [Parser.refine, hrun, run, ho, outcome]
  | abort b => simp only [Parser.refine, hrun, run, ho, outcome]

theorem committed (hp : Retold T p) : Retold T (Parser.committed p) := by
  intro s
  have hrun := hp s
  cases ho : (p T.traced s).outcome with
  | value a => simp only [Parser.committed, hrun, run, ho, outcome]
  | abort b => simp only [Parser.committed, hrun, run, ho, outcome]
  | failure e =>
    simp only [Parser.committed, hrun, run, ho, outcome, T.failure_commit, T.journal_append,
      T.journal_committed]

theorem orElse (hp : Retold T p) (hq : Retold T q) : Retold T (p.orElse q) := by
  intro s
  have hrun := hp s
  cases ho : (p T.traced s).outcome with
  | value a => simp only [Parser.orElse, hrun, run, ho, outcome]
  | abort b => simp only [Parser.orElse, hrun, run, ho, outcome]
  | failure e =>
    by_cases he : e.committed = true
    · simp only [Parser.orElse, hrun, run, ho, outcome, T.committed_failure, if_pos he]
    · simp only [Parser.orElse, hrun, run, ho, outcome, T.committed_failure, if_neg he, hq s]
      exact (T.run_after _ _).symm

theorem outcome_eq {s : Point} {o : Outcome α} (hp : Retold T p)
    (ho : (p T.traced s).outcome = o) : (p T.retraced (T.point s)).outcome = T.outcome o := by
  rw [hp s, ← ho]
  rfl

theorem many {name definition reason : String} (hp : Retold T p) :
    Retold T (Parser.many p (Rule.failed name definition reason)) := by
  intro s
  induction s using Parser.many.induct p T.traced with
  | case1 s r a ho hlt ih =>
    have hlt' : (p T.retraced (T.point s)).point.ahead.length < (T.point s).ahead.length := by
      rw [hp s]
      exact hlt
    rw [many_of_value (hp.outcome_eq ho) hlt', many_of_value ho hlt, hp s, T.run_after, T.run_map,
      ← ih]
    rfl
  | case2 s r a ho hle =>
    have hle' : ¬(p T.retraced (T.point s)).point.ahead.length < (T.point s).ahead.length := by
      rw [hp s]
      exact hle
    rw [many_of_no_progress (hp.outcome_eq ho) hle', many_of_no_progress ho hle, hp s]
    simp only [Rule.failed, run, outcome, T.failure_mk]
    rfl
  | case3 s r e ho he =>
    have he' : (T.failure e).committed = true := by rwa [T.committed_failure]
    rw [many_of_committed (hp.outcome_eq ho) he', many_of_committed ho he, hp s]
    rfl
  | case4 s r e ho he =>
    have he' : ¬(T.failure e).committed = true := by rwa [T.committed_failure]
    rw [many_of_uncommitted (hp.outcome_eq ho) he', many_of_uncommitted ho he, hp s]
    rfl
  | case5 s r b ho =>
    rw [many_of_abort (hp.outcome_eq ho), many_of_abort ho, hp s]
    rfl

theorem parse {rule : Rule α} (h : Retold T rule.body) : Retold T rule.parse := by
  intro s
  have hrun := h s
  rw [Rule.parse_eq, Rule.parse_eq, hrun]
  cases ho : (rule.body T.traced s).outcome with
  | value a => simp only [run, ho, outcome, T.journal_append, T.journal_tried, T.journal_nil]; rfl
  | abort b => simp only [run, ho, outcome, T.journal_append, T.journal_tried, T.journal_nil]; rfl
  | failure e =>
    simp only [run, ho, outcome, T.journal_append, T.journal_tried, T.journal_gaveUp]
    rfl

end Retold

theorem closed_retold (T : Retelling) : Closed (Retold T) where
  pure := Retold.pure
  bind := Retold.bind
  endless := Retold.abort .endless
  next := Retold.next
  note := Retold.note
  paramType := (Retold.parse (Retold.next _ _)).refine
  committed := Retold.committed
  orElse := Retold.orElse
  failHere name definition := Retold.failHere name definition _
  many _ _ _ hp := hp.many
  parse := Retold.parse

end Parser

theorem Phrasebook.retold (T : Retelling) (book : Phrasebook) (limit depth : Nat)
    (phrase : Phrase) : (phrase.ruleWithin limit (book.parseIn limit depth)).parse.Retold T :=
  (Parser.closed_retold T).phrasebookIn book (fun name _ => .abort (.unknownRule name)) limit depth
    phrase

end CounterLang
