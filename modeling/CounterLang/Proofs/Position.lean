/-
Rules do not depend on where they start.

A rule that is run at index `p` of a list of tokens does what it does at the beginning of the
tokens from `p` on: it comes to the same value or to the same failure, it stops behind the
same tokens, and it enters the same events in the journal.  Only the positions differ, all of
them by `p`: where it stops, where it fails, and where it tells that rules were tried
(`Phrasebook.run_drop`).

A parser is handed the tokens ahead and a position, and the position could be put to any use.
That it is only ever passed on or moved by the number of tokens read is what makes the move a
retelling (`Retelling.moving`), and every rule comes through that.
-/
import Mathlib.Data.List.Forall2
import CounterLang.Cursor
import CounterLang.Proofs.Concatenation
import CounterLang.Proofs.Retelling

namespace CounterLang

variable {α : Type}

/-! ## What is told, moved -/

def Event.moved (n : Nat) : Event → Event
  | tried rule position => tried rule (position + n)
  | gaveUp rule f => gaveUp rule (f.moved n)
  | committed f => committed (f.moved n)
  | e => e

def Journal.moved (n : Nat) (j : Journal) : Journal := j.map (Event.moved n)

def Outcome.moved (n : Nat) : Outcome α → Outcome α
  | value a => value a
  | failure f => failure (f.moved n)
  | abort b => abort b

/-- The same tokens are ahead, with `n` more behind. -/
def Point.moved (n : Nat) (s : Point) : Point := { s with position := s.position + n }

/-- The run as it looks with `n` more tokens in front. -/
def Run.moved (n : Nat) (r : Run α) : Run α :=
  ⟨r.outcome.moved n, r.point.moved n, r.journal.moved n⟩

theorem Journal.moved_append (n : Nat) (j k : Journal) :
    Journal.moved n (j ++ k) = Journal.moved n j ++ Journal.moved n k := List.map_append

/-- Lines that report the same event, the second one `n` tokens further on. -/
def LineMoved (n : Nat) (l l' : String) : Prop :=
  ∃ e : Event, e.line? = some l ∧ (e.moved n).line? = some l'

/-- An event is worth a line wherever it happens. -/
theorem Event.line?_moved_eq_none (n : Nat) (e : Event) :
    (e.moved n).line? = none ↔ e.line? = none := by
  cases e <;> simp [Event.moved, Event.line?]

theorem Journal.lines_moved (n : Nat) (j : Journal) :
    List.Forall₂ (LineMoved n) j.lines (j.moved n).lines := by
  induction j with
  | nil => exact .nil
  | cons e j ih =>
    cases hline : e.line? with
    | none =>
      have hline' : (e.moved n).line? = none := (e.line?_moved_eq_none n).mpr hline
      simp only [Journal.lines, Journal.moved, List.map_cons, List.filterMap_cons, hline, hline']
      exact ih
    | some l =>
      obtain ⟨l', hline'⟩ : ∃ l', (e.moved n).line? = some l' := by
        rw [← Option.ne_none_iff_exists', ne_eq, e.line?_moved_eq_none, hline]
        exact nofun
      simp only [Journal.lines, Journal.moved, List.map_cons, List.filterMap_cons, hline, hline']
      exact .cons ⟨e, hline, hline'⟩ ih

/-- The run is told with positions that are higher by `n`. -/
def Retelling.moving (n : Nat) (tracing : Bool) : Retelling where
  traced := tracing
  retraced := tracing
  position i := i + n
  failure := Failure.moved n
  journal := Journal.moved n
  position_succ i := by omega
  failure_mk _ _ := rfl
  committed_failure _ := rfl
  failure_commit _ := rfl
  journal_append := Journal.moved_append n
  journal_note _ _ _ := rfl
  journal_committed _ := by cases tracing <;> rfl
  journal_tried _ _ := by cases tracing <;> rfl
  journal_gaveUp _ _ := by cases tracing <;> rfl

theorem Retelling.run_moving (n : Nat) (tracing : Bool) (r : Run α) :
    (moving n tracing).run r = r.moved n := by
  obtain ⟨outcome, point, journal⟩ := r
  cases outcome <;> rfl

/-- The parser does the same wherever it starts, and tells it with positions from there. -/
def Parser.Movable (p : Parser α) : Prop :=
  ∀ (n : Nat) (tracing : Bool) (s : Point), p tracing (s.moved n) = (p tracing s).moved n

namespace Phrasebook

theorem movable (book : Phrasebook) (depth : Nat) (phrase : Phrase) :
    (phrase.rule (book.parseWithin depth)).parse.Movable := by
  intro n tracing s
  rw [← Retelling.run_moving n tracing]
  exact book.retold (.moving n tracing) Grammar.nestingLimit depth phrase s

/-- The run at index `p` against the run at the beginning of the tokens from `p` on.  An end
without an outcome is included: it is the same one, and its journal goes as far. -/
theorem run_drop (book : Phrasebook) (depth : Nat) (phrase : Phrase) (t : List Token) (p : Nat)
    (tracing : Bool) :
    let rule := phrase.rule (book.parseWithin depth)
    ∃ r : Run Datum,
      (⟨t.drop p, 0, tracing⟩ : Cursor).run rule = .ok r ∧
      (⟨t, p, tracing⟩ : Cursor).run rule = .ok (r.moved p) ∧
      List.Forall₂ (LineMoved p) r.journal.lines (r.moved p).journal.lines := by
  intro rule
  have hmoved : rule.parse tracing ⟨p, t.drop p⟩ = (rule.parse tracing ⟨0, t.drop p⟩).moved p := by
    have hrule := movable book depth phrase p tracing ⟨0, t.drop p⟩
    rwa [Point.moved, Int.zero_add] at hrule
  refine ⟨rule.parse tracing ⟨0, t.drop p⟩, rfl, ?_, Journal.lines_moved p _⟩
  rw [← hmoved]
  exact Cursor.run_natCast t p tracing rule

end Phrasebook
end CounterLang
