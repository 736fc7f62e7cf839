/-
What comes of reading a program.

Tokens come to one of three ends (`Program.ending`), and for each of them there is one
result: the program of the items, the failure of the unmet demand at the place where the
reading stopped, or the failure that tells of loops nested too deep.  This is so whatever
the limit on nesting is, and then for the limit that is in use.
-/
import CounterLang.Proofs.Course
import CounterLang.Reading

namespace CounterLang
namespace Program

open Grammar (nestingLimit)

variable {n : Nat} {u rest t : List Token} {d : Demand}

theorem exists_depth_bound (items : List Item) : ∃ n, ∀ i ∈ items, i.depth < n := by
  induction items with
  | nil => exact ⟨0, by simp⟩
  | cons i items ih =>
    obtain ⟨n, hn⟩ := ih
    refine ⟨max (i.depth + 1) n, List.forall_mem_cons.mpr ⟨by omega, ?_⟩⟩
    intro j hj
    have := hn j hj
    omega

/-- The result of a reading that gives up where `limit` loops are open. -/
def readWithin (limit : Nat) (options : Options) (t : List Token) : Except Failure Program :=
  Reading.verdict options (Grammar.items limit options.tracing ⟨0, t⟩)

theorem read_result (options : Options) (t : List Token) :
    (read options t).result = readWithin nestingLimit options t := rfl

theorem readWithin_of_items (options : Options) {items : List Item}
    (h : ∀ i ∈ items, i.depth < n) :
    readWithin n options (items.flatMap Item.tokens) = .ok (ofItems items) := by
  have hreads := (Grammar.reads_items h options.tracing 0).1
  rw [List.append_nil] at hreads
  simp only [readWithin, Reading.verdict, hreads]

theorem readWithin_of_stops (options : Options) (h : Stops n u rest d) :
    readWithin n options (u ++ rest) =
      .error ((d.failure rest u.length).located (some options.filename)) := by
  have hrefuses := Grammar.refuses_items h options.tracing 0
  rw [Int.zero_add] at hrefuses
  simp only [readWithin, Reading.verdict, hrefuses]

theorem readWithin_of_overruns (options : Options) (h : Overruns n u rest) :
    readWithin n options (u ++ rest) =
      .error ((Reading.tooDeep u.length).located (some options.filename)) := by
  obtain ⟨ho, hs⟩ := Grammar.aborts_items h options.tracing 0
  rw [Int.zero_add] at hs
  simp only [readWithin, Reading.verdict, ho, hs]

theorem read_of_items (options : Options) {items : List Item}
    (h : ∀ i ∈ items, i.depth < nestingLimit) :
    (read options (items.flatMap Item.tokens)).result = .ok (ofItems items) :=
  readWithin_of_items options h

theorem read_of_stops (options : Options) (h : Stops nestingLimit u rest d) :
    (read options (u ++ rest)).result =
      .error ((d.failure rest u.length).located (some options.filename)) :=
  readWithin_of_stops options h

theorem read_of_overruns (options : Options) (h : Overruns nestingLimit u rest) :
    (read options (u ++ rest)).result =
      .error ((Reading.tooDeep u.length).located (some options.filename)) :=
  readWithin_of_overruns options h

theorem readTextIn_of_tokensOf (room : Nat) (options : Options) {text : String}
    {tokens : List Token} (h : tokensOf text = .ok tokens) :
    ∃ reading, readTextIn room options text = .ok reading ∧
      reading.result = (readIn room options tokens).result := by
  rw [readTextIn, h]
  exact ⟨_, rfl, rfl⟩

theorem readTextIn_of_tooLong (room : Nat) (options : Options) {text : String}
    {e : Numeral.TooLong} (h : tokensOf text = .error e) :
    readTextIn room options text = .error e := by
  rw [readTextIn, h]
  rfl

theorem readText_of_tokensOf (options : Options) {text : String} {tokens : List Token}
    (h : tokensOf text = .ok tokens) :
    ∃ reading, readText options text = .ok reading ∧
      reading.result = (read options tokens).result :=
  readTextIn_of_tokensOf nestingLimit options h

/-! ## What a result tells of the tokens -/

instance : DecidableEq (Except Failure Program)
  | .ok p, .ok q => decidable_of_iff (p = q) (by simp)
  | .error f, .error g => decidable_of_iff (f = g) (by simp)
  | .ok _, .error _ => isFalse nofun
  | .error _, .ok _ => isFalse nofun

/-- The failure tells of loops nested too deep. -/
def TooDeep (f : Failure) : Prop :=
  f.cause = .failedRule Grammar.statementName Grammar.statementDefinition
    (some "nesting too deep")

instance (f : Failure) : Decidable (TooDeep f) := inferInstanceAs (Decidable (_ = _))

theorem tooDeep_located (position : Int) (filename : Option String) :
    TooDeep ((Reading.tooDeep position).located filename) := rfl

theorem items_of_read_ok {options : Options} {p : Program}
    (h : (read options t).result = .ok p) :
    ∃ items : List Item, (∀ i ∈ items, i.depth < nestingLimit) ∧
      t = items.flatMap Item.tokens ∧ p = ofItems items := by
  cases ending nestingLimit t with
  | reads items hitems =>
    rw [read_of_items options hitems, Except.ok.injEq] at h
    exact ⟨items, hitems, rfl, h.symm⟩
  | stops hstops =>
    rw [read_of_stops options hstops] at h
    cases h
  | overruns hover =>
    rw [read_of_overruns options hover] at h
    cases h

theorem stops_of_read_error {options : Options} {f : Failure}
    (h : (read options t).result = .error f) (hf : ¬TooDeep f) :
    ∃ u rest d, t = u ++ rest ∧ Stops nestingLimit u rest d ∧
      f = (d.failure rest u.length).located (some options.filename) := by
  cases ending nestingLimit t with
  | reads items hitems =>
    rw [read_of_items options hitems] at h
    cases h
  | @stops u rest d hstops =>
    rw [read_of_stops options hstops, Except.error.injEq] at h
    exact ⟨u, rest, d, rfl, hstops, h.symm⟩
  | overruns hover =>
    rw [read_of_overruns options hover, Except.error.injEq] at h
    rw [← h] at hf
    exact absurd (tooDeep_located _ _) hf

end Program
end CounterLang
