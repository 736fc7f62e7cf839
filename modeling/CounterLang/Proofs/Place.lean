/-
Where rules stop.

A rule never goes back behind the place where it starts, and never beyond the last token.
Where it fails it stands at the token that its failure names, with one exception: the type of
a parameter has been read before it turns out that there is no such type.  And what a failure
says of that token is true, since an unexpected end is the end and an unexpected token is the
one that is there.  This holds of every rule, whatever is tried and given up on the way
(`Phrasebook.run_place`).

Choices and repetitions go back to where they started, replace failures and pass others on.
What carries the induction is that a run from a place behind some tokens is also a run from
before them (`Run.Placed.of_past`), so that each part need only be looked at from where it
starts.
-/
import Mathlib.Data.List.Basic
import CounterLang.Cursor
import CounterLang.Proofs.Closed
import CounterLang.Proofs.Repetition

namespace CounterLang

variable {α β : Type} {book : Phrasebook} {s : Point} {r : Run α} {m n : Nat}

/-! ## Places -/

/-- The place behind the next `n` tokens. -/
def Point.past (s : Point) (n : Nat) : Point := ⟨s.position + n, s.ahead.drop n⟩

theorem Point.past_zero (s : Point) : s.past 0 = s := by
  obtain ⟨position, ahead⟩ := s
  show (⟨position + 0, ahead⟩ : Point) = ⟨position, ahead⟩
  rw [Int.add_zero]

theorem Point.past_past (s : Point) (m n : Nat) : (s.past m).past n = s.past (m + n) := by
  have hposition : s.position + m + n = s.position + (m + n : Nat) := by omega
  simp only [Point.past, List.drop_drop, hposition]

/-! ## Failures and the tokens they name -/

namespace Cause

/-- The word stands where the type of a parameter should stand, and is none. -/
def UnknownType (c : Cause) (word : String) : Prop :=
  c = .failedRule "function-arg" "<text> ':' <text in \x7bNUM, REG, LABEL\x7d>"
    (some ("unknown argument type '" ++ word ++ "'"))

/-- What is said of the next token is true of the tokens ahead. -/
def TellsOf (ahead : List Token) : Cause → Prop
  | unexpectedToken _ found => ∃ t, ahead.head? = some t ∧ found = .token t
  | unexpectedEnd _ => ahead = []
  | failedRule .. => True
  | other .. => False

theorem not_unknownType_noAlternative (name definition word : String) :
    ¬UnknownType (.failedRule name definition (some "no alternative matched")) word := by
  intro h
  have hreason := Option.some.inj (Cause.failedRule.inj h).2.2
  have hfirst := congrArg (fun reason => reason.toList.head?) hreason
  rw [String.toList_append, String.toList_append] at hfirst
  exact absurd hfirst (by simp)

theorem not_unknownType_stuck (name definition item word : String) :
    ¬UnknownType (.failedRule name definition (some (item ++ " matched without consuming input")))
      word := by
  intro h
  have hreason := Option.some.inj (Cause.failedRule.inj h).2.2
  have hlast := congrArg (fun reason => reason.toList.getLast?) hreason
  rw [String.toList_append, String.toList_append, List.getLast?_append_of_ne_nil _ (by decide),
    List.getLast?_append_of_ne_nil _ (by decide)] at hlast
  exact absurd hlast (by decide)

theorem not_unknownType_unexpectedEnd (expected word : String) :
    ¬UnknownType (.unexpectedEnd expected) word := by
  intro h
  cases h

theorem not_unknownType_unexpectedToken (expected : String) (found : Found) (word : String) :
    ¬UnknownType (.unexpectedToken expected found) word := by
  intro h
  cases h

end Cause

/-- The failure that an outcome is, if it is one. -/
def Outcome.failure? : Outcome α → Option Failure
  | value _ => none
  | failure f => some f
  | abort _ => none

theorem Outcome.failure?_eq_some_iff {o : Outcome α} {f : Failure} :
    o.failure? = some f ↔ o = .failure f := by
  cases o <;> simp [failure?]

/-- A failure at the token behind the first `e`, of a run from `s` that stands behind the
first `n`. -/
structure Failure.Placed (f : Failure) (s : Point) (e n : Nat) : Prop where
  position : f.position = some (s.position + e)
  tells : f.cause.TellsOf (s.ahead.drop e)
  stands : (n = e ∧ ∀ word, ¬f.cause.UnknownType word) ∨
    (n = e + 1 ∧ ∃ word, f.cause.UnknownType word ∧ s.ahead[e]? = some (.text word))

/-- What a run from `s` that stands behind the first `n` tokens can have come to.  A name is
unknown only if it is not in the book. -/
def Outcome.Fits (book : Phrasebook) (s : Point) (n : Nat) : Outcome α → Prop
  | value _ => True
  | failure f => ∃ e, f.Placed s e n
  | abort .endless => True
  | abort (.unknownRule name) => book.find? name = none

/-- A run from `s` stands behind some of the tokens ahead, at a place that its outcome fits. -/
def Run.Placed (book : Phrasebook) (s : Point) (r : Run α) : Prop :=
  ∃ n, n ≤ s.ahead.length ∧ r.point = s.past n ∧ r.outcome.Fits book s n

theorem Failure.Placed.of_past {f : Failure} {e : Nat} (h : f.Placed (s.past m) e n) :
    f.Placed s (m + e) (m + n) where
  position := by
    have hposition : s.position + m + e = s.position + (m + e : Nat) := by omega
    rw [h.position, Point.past, hposition]
  tells := by
    have htells := h.tells
    rwa [Point.past, List.drop_drop] at htells
  stands := by
    rcases h.stands with ⟨rfl, hword⟩ | ⟨rfl, word, hword, htoken⟩
    · exact Or.inl ⟨rfl, hword⟩
    · rw [Point.past, List.getElem?_drop] at htoken
      exact Or.inr ⟨rfl, word, hword, htoken⟩

theorem Failure.Placed.commit {f : Failure} {e : Nat} (h : f.Placed s e n) :
    f.commit.Placed s e n := ⟨h.position, h.tells, h.stands⟩

theorem Outcome.Fits.of_past {o : Outcome α} (h : o.Fits book (s.past m) n) :
    o.Fits book s (m + n) := by
  cases o with
  | value a => exact trivial
  | failure f =>
    obtain ⟨e, he⟩ := h
    exact ⟨m + e, he.of_past⟩
  | abort b => cases b <;> exact h

theorem Outcome.Fits.map {o : Outcome α} (h : o.Fits book s n) (f : α → β) :
    (o.map f).Fits book s n := by
  cases o with
  | value a => exact trivial
  | failure e => exact h
  | abort b => cases b <;> exact h

namespace Run.Placed

theorem of_past {s' : Point} (hs : s' = s.past m) (hm : m ≤ s.ahead.length)
    (h : r.Placed book s') : r.Placed book s := by
  rw [hs] at h
  obtain ⟨n, hn, hpoint, hfits⟩ := h
  have hlen : (s.past m).ahead.length = s.ahead.length - m := List.length_drop
  exact ⟨m + n, by omega, by rw [hpoint, Point.past_past], hfits.of_past⟩

/-- What happened before a run does not move it. -/
theorem after (h : r.Placed book s) (j : Journal) : (r.after j).Placed book s := h

theorem map (h : r.Placed book s) (f : α → β) : (r.map f).Placed book s := by
  obtain ⟨n, hn, hpoint, hfits⟩ := h
  exact ⟨n, hn, hpoint, hfits.map f⟩

/-- The run, with another outcome that fits the same places. -/
theorem outcome {o : Outcome β} (h : r.Placed book s)
    (ho : ∀ n, r.outcome.Fits book s n → o.Fits book s n) (j : Journal) :
    (⟨o, r.point, j⟩ : Run β).Placed book s := by
  obtain ⟨n, hn, hpoint, hfits⟩ := h
  exact ⟨n, hn, hpoint, ho n hfits⟩

theorem failure {f : Failure} (h : r.Placed book s) (ho : r.outcome = .failure f) (j : Journal) :
    (⟨.failure f, r.point, j⟩ : Run β).Placed book s := by
  apply h.outcome
  intro n hfits
  rw [ho] at hfits
  exact hfits

theorem abort {b : Abort} (h : r.Placed book s) (ho : r.outcome = .abort b) (j : Journal) :
    (⟨.abort b, r.point, j⟩ : Run β).Placed book s := by
  apply h.outcome
  intro n hfits
  rw [ho] at hfits
  cases b <;> exact hfits

/-- A run that has not moved. -/
theorem here (hs : r.point = s) (ho : r.outcome.Fits book s 0) : r.Placed book s :=
  ⟨0, Nat.zero_le _, hs.trans s.past_zero.symm, ho⟩

/-- A failure of the token that comes next, which has not been read. -/
theorem failure_here {c : Cause} (htells : c.TellsOf s.ahead) (hword : ∀ word, ¬c.UnknownType word)
    (j : Journal) :
    (⟨.failure { cause := c, position := some s.position }, s, j⟩ : Run β).Placed book s := by
  have hposition : s.position + (0 : Nat) = s.position := Int.add_zero _
  exact here rfl ⟨0, congrArg some hposition.symm, htells, Or.inl ⟨rfl, hword⟩⟩

end Run.Placed

/-! ## Parsers -/

namespace Parser

/-- Wherever the parser starts, it stops at a place that its outcome fits. -/
def Placed (book : Phrasebook) (p : Parser α) : Prop := ∀ tracing s, (p tracing s).Placed book s

variable {p q : Parser α}

namespace Placed

theorem pure (a : α) : Placed book (Pure.pure a : Parser α) := fun _ _ => .here rfl trivial

theorem endless : Placed book (Parser.abort .endless : Parser α) := fun _ _ => .here rfl trivial

theorem unknownRule {name : String} (h : book.find? name = none) :
    Placed book (Parser.abort (.unknownRule name) : Parser α) := fun _ _ => .here rfl h

theorem note (e : Event) : Placed book (Parser.note e) := fun _ _ => .here rfl trivial

theorem failHere (name definition : String) :
    Placed book
      (Parser.failHere (Rule.failed name definition "no alternative matched") : Parser α) := by
  intro tracing s
  have htells : Cause.TellsOf s.ahead
      (.failedRule name definition (some "no alternative matched")) := trivial
  exact .failure_here htells (Cause.not_unknownType_noAlternative name definition) []

theorem next (kind : Kind) (read : Token → Option α) : Placed book (Parser.next kind read) := by
  intro tracing s
  obtain ⟨position, ahead⟩ := s
  cases ahead with
  | nil =>
    have htells : Cause.TellsOf [] (.unexpectedEnd kind.wanted) := rfl
    exact .failure_here htells (Cause.not_unknownType_unexpectedEnd _) []
  | cons t rest =>
    cases hread : read t with
    | none =>
      have htells : Cause.TellsOf (t :: rest) (.unexpectedToken kind.wanted (.token t)) :=
        ⟨t, rfl, rfl⟩
      simp only [Parser.next, hread]
      exact .failure_here htells (Cause.not_unknownType_unexpectedToken _ _) []
    | some a =>
      simp only [Parser.next, hread]
      exact ⟨1, Nat.succ_le_succ (Nat.zero_le _), rfl, trivial⟩

theorem bind {f : α → Parser β} (hp : Placed book p) (hf : ∀ a, Placed book (f a)) :
    Placed book (p >>= f) := by
  intro tracing s
  show (Parser.bind p f tracing s).Placed book s
  have hrun := hp tracing s
  cases ho : (p tracing s).outcome with
  | value a =>
    simp only [Parser.bind, ho]
    obtain ⟨m, hm, hpoint, -⟩ := hrun
    have hrest := hf a tracing (p tracing s).point
    exact (hrest.of_past hpoint hm).after _
  | failure e =>
    simp only [Parser.bind, ho]
    exact hrun.failure ho _
  | abort b =>
    simp only [Parser.bind, ho]
    exact hrun.abort ho _

theorem committed (hp : Placed book p) : Placed book (Parser.committed p) := by
  intro tracing s
  have hrun := hp tracing s
  cases ho : (p tracing s).outcome with
  | value a => simp only [Parser.committed, ho]; exact hrun
  | abort b => simp only [Parser.committed, ho]; exact hrun
  | failure f =>
    simp only [Parser.committed, ho]
    apply hrun.outcome
    intro n hfits
    rw [ho] at hfits
    obtain ⟨e, he⟩ := hfits
    exact ⟨e, he.commit⟩

theorem orElse (hp : Placed book p) (hq : Placed book q) : Placed book (p.orElse q) := by
  intro tracing s
  have hrun := hp tracing s
  cases ho : (p tracing s).outcome with
  | value a => simp only [Parser.orElse, ho]; exact hrun
  | abort b => simp only [Parser.orElse, ho]; exact hrun
  | failure f =>
    by_cases hf : f.committed = true
    · simp only [Parser.orElse, ho, if_pos hf]
      exact hrun
    · simp only [Parser.orElse, ho, if_neg hf]
      exact (hq tracing s).after _

theorem many (name definition item : String) (hp : Placed book p) :
    Placed book (Parser.many p
      (Rule.failed name definition (item ++ " matched without consuming input"))) := by
  intro tracing s
  induction s using Parser.many.induct p tracing with
  | case1 s r a ho hlt ih =>
    obtain ⟨m, hm, hpoint, -⟩ := hp tracing s
    rw [many_of_value ho hlt]
    exact ((ih.of_past hpoint hm).map _).after _
  | case2 s r a ho hle =>
    -- The entry has read no token, so the failure is at the place where it stands.
    obtain ⟨m, hm, hpoint, -⟩ := hp tracing s
    have hlength : r.point.ahead.length = s.ahead.length - m := by
      rw [show r.point = s.past m from hpoint]
      exact List.length_drop
    obtain rfl : m = 0 := by omega
    have htells : Cause.TellsOf s.ahead
        (.failedRule name definition (some (item ++ " matched without consuming input"))) :=
      trivial
    rw [many_of_no_progress ho hle, hpoint, Point.past_zero]
    exact .failure_here htells (Cause.not_unknownType_stuck name definition item) _
  | case3 s r f ho hf =>
    rw [many_of_committed ho hf]
    exact (hp tracing s).failure ho _
  | case4 s r f ho hf =>
    rw [many_of_uncommitted ho hf]
    exact .here rfl trivial
  | case5 s r b ho =>
    rw [many_of_abort ho]
    exact (hp tracing s).abort ho _

theorem parse {rule : Rule α} (h : Placed book rule.body) : Placed book rule.parse := by
  intro tracing s
  cases tracing with
  | false => exact h false s
  | true => exact h true s

/-- A word that has been read was the next token. -/
theorem ahead_of_word {tracing : Bool} {word : String}
    (ho : (Rule.word.parse tracing s).outcome = .value word) :
    s.ahead.head? = some (.text word) ∧ (Rule.word.parse tracing s).point = s.past 1 := by
  obtain ⟨position, ahead⟩ := s
  obtain ⟨houtcome, hpoint⟩ := parse_agreeOn Rule.word ahead tracing position
  rw [houtcome] at ho
  rw [hpoint]
  cases ahead with
  | nil => cases ho
  | cons t rest =>
    cases t with
    | text w => exact ⟨congrArg (fun w => some (Token.text w)) (Outcome.value.inj ho), rfl⟩
    | keyword k => cases ho
    | number i => cases ho

/-- The type has been read, and the failure is at the token before. -/
theorem paramType : Placed book Grammar.paramType := by
  intro tracing s
  have hword : Placed book Rule.word.parse := parse (next .text _)
  have hrun := hword tracing s
  cases ho : (Rule.word.parse tracing s).outcome with
  | value word =>
    obtain ⟨hhead, hpoint⟩ := ahead_of_word ho
    have hlen : 1 ≤ s.ahead.length := List.length_pos_of_mem (List.mem_of_mem_head? hhead)
    cases hcheck : ParamType.ofKeyword? word with
    | some type =>
      simp only [Grammar.paramType, Parser.refine, ho, hcheck]
      exact ⟨1, hlen, hpoint, trivial⟩
    | none =>
      simp only [Grammar.paramType, Parser.refine, ho, hcheck]
      have hposition : s.position + (0 : Nat) = s.position := Int.add_zero _
      have htoken : s.ahead[0]? = some (.text word) := by rw [← List.head?_eq_getElem?, hhead]
      exact ⟨1, hlen, hpoint, 0, congrArg some hposition.symm, trivial,
        Or.inr ⟨rfl, word, rfl, htoken⟩⟩
  | failure f =>
    simp only [Grammar.paramType, Parser.refine, ho]
    exact hrun.failure ho _
  | abort b =>
    simp only [Grammar.paramType, Parser.refine, ho]
    exact hrun.abort ho _

end Placed

theorem closed_placed (book : Phrasebook) : Closed (Placed book) where
  pure := Placed.pure
  bind := Placed.bind
  endless := Placed.endless
  next := Placed.next
  note _ _ _ := Placed.note _
  paramType := Placed.paramType
  committed := Placed.committed
  orElse := Placed.orElse
  failHere := Placed.failHere
  many := Placed.many
  parse := Placed.parse

end Parser

namespace Phrasebook

/-- The rule leaves the tokens as they are and stands behind the first `q` of them.  If it
failed, then at the token at index `e`. -/
theorem run_place (book : Phrasebook) (depth : Nat) (phrase : Phrase) (t : List Token) (p : Nat)
    (hp : p ≤ t.length) (tracing : Bool) :
    let rule := phrase.rule (book.parseWithin depth)
    ∃ (r : Run Datum) (q : Nat),
      (⟨t, p, tracing⟩ : Cursor).run rule = .ok r ∧
      p ≤ q ∧ q ≤ t.length ∧ r.point = ⟨q, t.drop q⟩ ∧
      (∀ name, r.outcome = .abort (.unknownRule name) → book.find? name = none) ∧
      ∀ f, r.outcome = .failure f → ∃ e : Nat,
        p ≤ e ∧ e ≤ t.length ∧ f.position = some (e : Int) ∧
        ((q = e ∧ ∀ word, ¬f.cause.UnknownType word) ∨
          (q = e + 1 ∧ ∃ word, f.cause.UnknownType word ∧ t[e]? = some (.text word))) ∧
        (∀ expected, f.cause = .unexpectedEnd expected → e = t.length) ∧
        (∀ expected found, f.cause = .unexpectedToken expected found →
          ∃ token, t[e]? = some token ∧ found = .token token) ∧
        ∀ text hint, f.cause ≠ .other text hint := by
  intro rule
  have hlen : (t.drop p).length = t.length - p := List.length_drop
  obtain ⟨n, hn, hpoint, hfits⟩ :
      (rule.parse tracing ⟨p, t.drop p⟩).Placed book ⟨p, t.drop p⟩ :=
    (Parser.closed_placed book).phrasebook book (fun _ => .unknownRule) depth phrase tracing _
  replace hn : n ≤ t.length - p := by rwa [← hlen]
  refine ⟨rule.parse tracing ⟨p, t.drop p⟩, p + n, Cursor.run_natCast t p tracing rule,
    by omega, by omega, ?_, ?_, ?_⟩
  · rw [hpoint, Point.past, List.drop_drop, Int.natCast_add]
  · intro name hname
    rw [hname] at hfits
    exact hfits
  · intro f hf
    rw [hf] at hfits
    obtain ⟨e, hposition, htells, hstands⟩ := hfits
    have he : e ≤ n := by omega
    have hdrop : (t.drop p).drop e = t.drop (p + e) := List.drop_drop
    have hget : (t.drop p)[e]? = t[p + e]? := List.getElem?_drop
    refine ⟨p + e, by omega, by omega, by rw [hposition, Int.natCast_add], ?_, ?_, ?_, ?_⟩
    · rcases hstands with ⟨rfl, hword⟩ | ⟨rfl, word, hword, htoken⟩
      · exact Or.inl ⟨rfl, hword⟩
      · exact Or.inr ⟨rfl, word, hword, hget ▸ htoken⟩
    · intro expected hcause
      rw [hcause, hdrop] at htells
      have hend : t.length ≤ p + e := List.drop_eq_nil_iff.mp htells
      omega
    · intro expected found hcause
      rw [hcause, hdrop] at htells
      obtain ⟨token, htoken, hfound⟩ := htells
      exact ⟨token, by rw [← htoken, List.head?_drop], hfound⟩
    · intro text hint hcause
      rw [hcause] at htells
      exact htells

/-- The type of a parameter that is none, inside of a choice that is repeated, behind a token
that is no part of it. -/
theorem run_place_unknown_type :
    let t : List Token := [.keyword .incr, .text "x", .keyword .colon, .text "FOO", .keyword .body]
    let phrase : Phrase := .star (.oneOf [.production .param, .word] "" "") "" ""
    1 ≤ t.length ∧ ∃ (r : Run Datum) (f : Failure),
      (⟨t, (1 : Nat), true⟩ : Cursor).run (phrase.rule (parseWithin [] 0)) = .ok r ∧
      r.outcome = .failure f ∧ f.position = some (3 : Nat) ∧ f.cause.UnknownType "FOO" ∧
      t[3]? = some (.text "FOO") ∧ r.point = ⟨(4 : Nat), [.keyword .body]⟩ := by
  intro t phrase
  obtain ⟨r, q, hrun, -, -, hpoint, -, hfailure⟩ := run_place [] 0 phrase t 1 (by decide) true
  have hfailed : r.outcome.failure? = some (Grammar.unknownType "FOO" 3).commit := by
    rw [← Except.ok.inj hrun]
    decide +kernel
  obtain ⟨e, -, -, hposition, hstands, -⟩ :=
    hfailure _ (Outcome.failure?_eq_some_iff.mp hfailed)
  obtain rfl : 3 = e := Int.ofNat.inj (Option.some.inj hposition)
  have hword : (Grammar.unknownType "FOO" 3).commit.cause.UnknownType "FOO" := rfl
  refine ⟨by decide, r, _, hrun, Outcome.failure?_eq_some_iff.mp hfailed, rfl, hword, rfl, ?_⟩
  rcases hstands with ⟨-, hno⟩ | ⟨rfl, -⟩
  · exact absurd hword (hno "FOO")
  · exact hpoint

end Phrasebook
end CounterLang
