/-
What trials cost, and what pays for them.

A rule that is given up has been tried in vain, and the next one starts from where it started.  So
trials cannot be counted against the tokens that are read from one place to the next.  Over a
whole run they can: here every token pays for some trials (`trialsPerToken`), and a parser may go
into debt as long as the tokens that are read behind it make up for that.

`Spends value rest p` is such an account.  Where `p` comes to a value, its trials are paid for by
the tokens that it has read and by `value`, which may be negative and is then left over for what
comes next.  Where it comes to none, all the tokens ahead pay for them, and `rest`.  For then the
whole reading ends, unless the parser is backtracked over, and in that case it has made few trials
(`GivesUpWithin`), which are added to the debt of what is tried in its place.  There is one law
for each combinator, and the account of a rule is put together from those of its parts.
-/
import CounterLang.Proofs.Choice
import CounterLang.Proofs.Repetition

namespace CounterLang

variable {α β : Type}

/-! ## Trials -/

/-- The rule that is tried and the place, if that is what the event tells. -/
def Event.trial? : Event → Option (String × Int)
  | tried rule position => some (rule, position)
  | _ => none

/-- The trials that a journal tells of. -/
def Journal.trials (j : Journal) : List (String × Int) := j.filterMap Event.trial?

@[simp] theorem Journal.trials_nil : Journal.trials [] = [] := rfl

@[simp] theorem Journal.trials_append (j k : Journal) :
    Journal.trials (j ++ k) = Journal.trials j ++ Journal.trials k := List.filterMap_append

theorem Journal.trials_tried (rule : String) (position : Int) (j : Journal) :
    Journal.trials (.tried rule position :: j) = (rule, position) :: j.trials := rfl

/-! ## Accounts -/

/-- How many trials a token pays for. -/
def trialsPerToken : Int := 20

namespace Point

/-- How many trials the tokens ahead pay for. -/
def worth (s : Point) : Int := trialsPerToken * s.ahead.length

theorem worth_cons (i j : Int) (t : Token) (rest : List Token) :
    (⟨i, t :: rest⟩ : Point).worth = (⟨j, rest⟩ : Point).worth + trialsPerToken := by
  simp only [worth, List.length_cons, Int.natCast_succ, Int.mul_add, Int.mul_one]

theorem worth_nonneg (s : Point) : 0 ≤ s.worth :=
  Int.mul_nonneg (by decide) (Int.natCast_nonneg _)

theorem length_lt_of_worth_lt {s s' : Point} (h : s.worth < s'.worth) :
    s.ahead.length < s'.ahead.length := by
  have hlt : (s.ahead.length : Int) < s'.ahead.length := Int.lt_of_mul_lt_mul_left h (by decide)
  exact Int.ofNat_lt.mp hlt

end Point

namespace Run

/-- The number of trials, as an integer since accounts can be negative. -/
def tries (r : Run α) : Int := r.journal.trials.length

/-- The trials of a run from `s` are paid for, by `value` and the tokens that have been read, or
by `rest` and all the tokens ahead. -/
def Spends (value rest : Int) (s : Point) (r : Run α) : Prop :=
  match r.outcome with
  | .value _ => r.tries + r.point.worth ≤ s.worth + value
  | _ => r.tries ≤ s.worth + rest

variable {r : Run α} {s s' : Point} {v w x y : Int} {j : Journal}

theorem tries_nonneg (r : Run α) : 0 ≤ r.tries := Int.natCast_nonneg _

theorem tries_after (j : Journal) (r : Run α) : (r.after j).tries = j.trials.length + r.tries := by
  simp [tries, Run.after]

theorem Spends.of_value {a : α} (h : r.Spends v w s) (ho : r.outcome = .value a) :
    r.tries + r.point.worth ≤ s.worth + v := by
  rwa [Spends, ho] at h

theorem Spends.of_failure {f : Failure} (h : r.Spends v w s) (ho : r.outcome = .failure f) :
    r.tries ≤ s.worth + w := by
  rwa [Spends, ho] at h

theorem Spends.of_abort {b : Abort} (h : r.Spends v w s) (ho : r.outcome = .abort b) :
    r.tries ≤ s.worth + w := by
  rwa [Spends, ho] at h

theorem Spends.mono (h : r.Spends v w s) (hv : v ≤ x) (hw : w ≤ y) : r.Spends x y s := by
  rw [Spends] at h ⊢
  cases ho : r.outcome with
  | value a => simp only [ho] at h ⊢; omega
  | failure f => simp only [ho] at h ⊢; omega
  | abort b => simp only [ho] at h ⊢; omega

/-- However the run ends, the tokens ahead and what is granted bound its trials. -/
theorem Spends.tries_le (h : r.Spends v w s) : r.tries ≤ s.worth + max v w := by
  have hworth := r.point.worth_nonneg
  rw [Spends] at h
  cases ho : r.outcome with
  | value a => simp only [ho] at h; omega
  | failure f => simp only [ho] at h; omega
  | abort b => simp only [ho] at h; omega

/-- What has been spent on the way from `s` to `s'` is added to both sides of the account. -/
theorem Spends.after (h : r.Spends x y s')
    (hj : (j.trials.length : Int) + s'.worth ≤ s.worth + v) :
    (r.after j).Spends (v + x) (v + y) s := by
  have hpoint : (r.after j).point = r.point := rfl
  have houtcome : (r.after j).outcome = r.outcome := rfl
  rw [Spends, tries_after, houtcome, hpoint]
  rw [Spends] at h
  cases ho : r.outcome with
  | value a => simp only [ho] at h ⊢; omega
  | failure f => simp only [ho] at h ⊢; omega
  | abort b => simp only [ho] at h ⊢; omega

theorem Spends.map (h : r.Spends v w s) (f : α → β) : (r.map f).Spends v w s := by
  obtain ⟨outcome, point, journal⟩ := r
  cases outcome <;> exact h

end Run

namespace Parser

/-- The account of a parser, wherever it starts. -/
def Spends (value rest : Int) (p : Parser α) : Prop := ∀ s, (p true s).Spends value rest s

/-- Where the parser can be backtracked over, it has made at most `k` trials. -/
def GivesUpWithin (k : Int) (p : Parser α) : Prop :=
  ∀ s, (p true s).passes = true → (p true s).tries ≤ k

variable {p q : Parser α} {v w x y k l : Int}

theorem Spends.mono (h : Spends v w p) (hv : v ≤ x) (hw : w ≤ y) : Spends x y p :=
  fun s => (h s).mono hv hw

theorem GivesUpWithin.mono (h : GivesUpWithin k p) (hk : k ≤ l) : GivesUpWithin l p :=
  fun s hs => Int.le_trans (h s hs) hk

/-! ## Parsers that try nothing -/

theorem spends_pure (a : α) : Spends 0 0 (Pure.pure a : Parser α) := by
  intro s
  show (0 : Int) + s.worth ≤ s.worth + 0
  omega

/-- A parser that cannot be backtracked over is not given up. -/
theorem GivesUpWithin.of_not_passes (h : ∀ s, (p true s).passes = false) : GivesUpWithin 0 p := by
  intro s hpasses
  rw [h s] at hpasses
  cases hpasses

theorem givesUpWithin_pure (a : α) : GivesUpWithin 0 (Pure.pure a : Parser α) :=
  .of_not_passes fun _ => rfl

theorem spends_note (e : Event) (h : e.trial? = none) : Spends 0 0 (Parser.note e) := by
  intro s
  have htries : (Parser.note e true s).tries = 0 := by
    simp [Parser.note, Run.tries, Journal.trials, h]
  show (Parser.note e true s).tries + s.worth ≤ s.worth + 0
  omega

theorem spends_abort (b : Abort) (v : Int) : Spends v 0 (Parser.abort b : Parser α) := by
  intro s
  have hworth := s.worth_nonneg
  show (0 : Int) ≤ s.worth + 0
  omega

theorem givesUpWithin_abort (b : Abort) : GivesUpWithin 0 (Parser.abort b : Parser α) :=
  .of_not_passes fun _ => rfl

theorem spends_failHere (f : Int → Failure) (v : Int) :
    Spends v 0 (Parser.failHere f : Parser α) := by
  intro s
  have hworth := s.worth_nonneg
  show (0 : Int) ≤ s.worth + 0
  omega

theorem givesUpWithin_failHere (f : Int → Failure) :
    GivesUpWithin 0 (Parser.failHere f : Parser α) := fun _ _ => Int.le_refl 0

/-! ## Sequences -/

theorem Spends.bind {g : α → Parser β} (hp : Spends v w p) (hg : ∀ a, Spends x y (g a)) :
    Spends (v + x) (max w (v + y)) (p >>= g) := by
  intro s
  show (Parser.bind p g true s).Spends _ _ s
  cases ho : (p true s).outcome with
  | value a =>
    simp only [Parser.bind, ho]
    exact ((hg a _).after ((hp s).of_value ho)).mono (Int.le_refl _) (Int.le_max_right _ _)
  | failure f =>
    have hrun := (hp s).of_failure ho
    simp only [Parser.bind, ho]
    show (p true s).tries ≤ _
    omega
  | abort b =>
    have hrun := (hp s).of_abort ho
    simp only [Parser.bind, ho]
    show (p true s).tries ≤ _
    omega

theorem Spends.map (h : Spends v w p) (f : α → β) : Spends v w (f <$> p) := by
  intro s
  rw [map_run]
  exact (h s).map f

/-- A parser that reads one token tries one rule for it. -/
def TriesOnce (p : Parser α) : Prop := ∀ s, (p true s).tries = 1

theorem TriesOnce.givesUpWithin_bind {g : α → Parser β} (hp : TriesOnce p)
    (hg : ∀ a, GivesUpWithin k (g a)) (hk : 0 ≤ k) : GivesUpWithin (1 + k) (p >>= g) := by
  intro s
  show (Parser.bind p g true s).passes = true → (Parser.bind p g true s).tries ≤ 1 + k
  have htries := hp s
  cases ho : (p true s).outcome with
  | value a =>
    simp only [Parser.bind, ho, Run.tries_after]
    intro hpasses
    have hrest := hg a _ hpasses
    rw [Run.tries] at htries
    omega
  | failure f =>
    simp only [Parser.bind, ho]
    intro _
    show (p true s).tries ≤ 1 + k
    omega
  | abort b =>
    simp only [Parser.bind, ho]
    intro hpasses
    cases hpasses

/-! ## Checks and commitment -/

theorem Spends.committed (hp : Spends v w p) : Spends v w (Parser.committed p) := by
  intro s
  cases ho : (p true s).outcome with
  | value a => simp only [Parser.committed, ho]; exact hp s
  | abort b => simp only [Parser.committed, ho]; exact hp s
  | failure f =>
    have hrun := (hp s).of_failure ho
    have hmark : Journal.trials [.committed f.commit] = [] := rfl
    simp only [Parser.committed, ho, if_true]
    show ((Journal.trials (_ ++ [.committed f.commit])).length : Int) ≤ _
    rw [Journal.trials_append, hmark, List.append_nil]
    exact hrun

theorem givesUpWithin_committed (p : Parser α) : GivesUpWithin 0 (Parser.committed p) :=
  .of_not_passes fun s => (settles_committed p s.ahead).passes true s.position

/-- A value that does not pass its check has been paid for like one that does. -/
theorem Spends.refine {check : α → Option β} {fault : α → Int → Failure} (hp : Spends v w p) :
    Spends v (max w v) (p.refine check fault) := by
  intro s
  cases ho : (p true s).outcome with
  | value a =>
    have hrun := (hp s).of_value ho
    have hworth := (p true s).point.worth_nonneg
    cases hcheck : check a with
    | some b =>
      simp only [Parser.refine, ho, hcheck]
      exact hrun
    | none =>
      simp only [Parser.refine, ho, hcheck]
      show (p true s).tries ≤ _
      omega
  | failure f =>
    have hrun := (hp s).of_failure ho
    simp only [Parser.refine, ho]
    show (p true s).tries ≤ _
    omega
  | abort b =>
    have hrun := (hp s).of_abort ho
    simp only [Parser.refine, ho]
    show (p true s).tries ≤ _
    omega

/-! ## Choice -/

theorem orElse_of_passes {s : Point} (h : (p true s).passes = true) :
    p.orElse q true s = (q true s).after (p true s).journal := by
  obtain ⟨f, ho, hf⟩ := Run.passes_eq_true_iff.mp h
  simp [orElse, ho, hf]

theorem orElse_of_not_passes {s : Point} (h : ¬(p true s).passes = true) :
    p.orElse q true s = p true s := by
  cases ho : (p true s).outcome with
  | value a => simp [orElse, ho]
  | abort b => simp [orElse, ho]
  | failure f =>
    have hf : f.committed = true := by
      by_contra hf
      exact h (Run.passes_eq_true_iff.mpr ⟨f, ho, Bool.eq_false_iff.mpr hf⟩)
    simp [orElse, ho, hf]

/-- What is given up is added to the debt of what is tried after it. -/
theorem Spends.orElse (hp : Spends v w p) (hk : GivesUpWithin k p) (hq : Spends x y q) :
    Spends (max v (k + x)) (max w (k + y)) (p.orElse q) := by
  intro s
  by_cases hpasses : (p true s).passes = true
  · rw [orElse_of_passes hpasses]
    have hgiven : (p true s).tries ≤ k := hk s hpasses
    have hcost : (p true s).tries + s.worth ≤ s.worth + k := by omega
    exact ((hq s).after hcost).mono (Int.le_max_right _ _) (Int.le_max_right _ _)
  · rw [orElse_of_not_passes hpasses]
    exact (hp s).mono (Int.le_max_left _ _) (Int.le_max_left _ _)

theorem GivesUpWithin.orElse (hp : GivesUpWithin k p) (hq : GivesUpWithin l q) :
    GivesUpWithin (k + l) (p.orElse q) := by
  intro s
  by_cases hpasses : (p true s).passes = true
  · rw [orElse_of_passes hpasses, Run.tries_after]
    intro hrest
    have hfirst := hp s hpasses
    have hsecond := hq s hrest
    rw [Run.tries] at hfirst
    omega
  · rw [orElse_of_not_passes hpasses]
    exact fun h => absurd h hpasses

theorem mul_length_cons (k : Int) (p : Parser α) (ps : List (Parser α)) :
    k * ((p :: ps).length : Nat) = k + k * ps.length := by
  rw [List.length_cons, Int.natCast_succ, Int.mul_add, Int.mul_one, Int.add_comm]

theorem spends_firstOf (name definition : String) {ps : List (Parser α)} (hk : 0 ≤ k)
    (hw : 0 ≤ w) (h : ∀ p ∈ ps, Spends v w p ∧ GivesUpWithin k p) :
    Spends (v + k * ps.length) (w + k * ps.length) (Rule.firstOf name definition ps) := by
  induction ps with
  | nil => exact (spends_failHere _ _).mono (Int.le_refl _) (by simpa using hw)
  | cons p ps ih =>
    rw [List.forall_mem_cons] at h
    have hlength := mul_length_cons k p ps
    have hps : 0 ≤ k * ps.length := Int.mul_nonneg hk (Int.natCast_nonneg _)
    exact (h.1.1.orElse h.1.2 (ih h.2)).mono (by omega) (by omega)

theorem givesUpWithin_firstOf (name definition : String) {ps : List (Parser α)}
    (h : ∀ p ∈ ps, GivesUpWithin k p) :
    GivesUpWithin (k * ps.length) (Rule.firstOf name definition ps) := by
  induction ps with
  | nil => exact (givesUpWithin_failHere _).mono (by simp)
  | cons p ps ih =>
    rw [List.forall_mem_cons] at h
    have hlength := mul_length_cons k p ps
    exact (h.1.orElse (ih h.2)).mono (by omega)

/-! ## Trials of rules -/

theorem trials_parse (rule : Rule α) (s : Point) :
    (rule.parse true s).journal.trials =
      (rule.name, s.position) :: (rule.body true s).journal.trials := by
  have hending : ∀ (j : Journal) (f : Failure),
      Journal.trials (j ++ [.gaveUp rule.name f]) = j.trials := by
    intro j f
    rw [Journal.trials_append]
    exact List.append_nil _
  cases ho : (rule.body true s).outcome with
  | value a => simp only [Rule.parse, if_true, ho, List.append_nil, Journal.trials_tried]
  | abort b => simp only [Rule.parse, if_true, ho, List.append_nil, Journal.trials_tried]
  | failure f => simp only [Rule.parse, if_true, ho, Journal.trials_tried, hending]

theorem tries_parse (rule : Rule α) (s : Point) :
    (rule.parse true s).tries = (rule.body true s).tries + 1 := by
  rw [Run.tries, Run.tries, trials_parse, List.length_cons, Int.natCast_succ]

theorem Spends.parse {rule : Rule α} (h : Spends v w rule.body) :
    Spends (v + 1) (w + 1) rule.parse := by
  intro s
  have hrun := h s
  have htries := tries_parse rule s
  have houtcome : (rule.parse true s).outcome = (rule.body true s).outcome := rfl
  have hpoint : (rule.parse true s).point = (rule.body true s).point := rfl
  rw [Run.Spends] at hrun ⊢
  rw [houtcome, hpoint]
  cases ho : (rule.body true s).outcome with
  | value a => simp only [ho] at hrun ⊢; omega
  | failure f => simp only [ho] at hrun ⊢; omega
  | abort b => simp only [ho] at hrun ⊢; omega

theorem GivesUpWithin.parse {rule : Rule α} (h : GivesUpWithin k rule.body) :
    GivesUpWithin (k + 1) rule.parse := by
  intro s hpasses
  have htries := tries_parse rule s
  have hbody := h s (by rwa [← Run.passes_congr (Rule.result_parse rule true s)])
  omega

/-! ## Single tokens -/

section Next

variable (name definition : String) (kind : Kind) (read : Token → Option α)

theorem triesOnce_next : TriesOnce (Rule.parse ⟨name, definition, next kind read⟩) := by
  intro s
  have hbody : (next kind read true s).tries = 0 := by
    obtain ⟨position, ahead⟩ := s
    cases ahead with
    | nil => rfl
    | cons t rest => cases hread : read t <;> simp [next, hread, Run.tries]
  rw [tries_parse]
  show (next kind read true s).tries + 1 = 1
  omega

/-- The token that is read pays for the trial, and for others. -/
theorem spends_next :
    Spends (1 - trialsPerToken) 1 (Rule.parse ⟨name, definition, next kind read⟩) := by
  have hbody : Spends (-trialsPerToken) 0 (next kind read) := by
    intro s
    obtain ⟨position, ahead⟩ := s
    have hworth := Point.worth_nonneg ⟨position, ahead⟩
    cases ahead with
    | nil =>
      show (0 : Int) ≤ Point.worth _ + 0
      omega
    | cons t rest =>
      have hcons := Point.worth_cons position (position + 1) t rest
      cases hread : read t with
      | none =>
        simp only [next, hread]
        show (0 : Int) ≤ Point.worth _ + 0
        omega
      | some a =>
        simp only [next, hread]
        show (0 : Int) + Point.worth ⟨position + 1, rest⟩ ≤ Point.worth _ + -trialsPerToken
        omega
  exact .mono (.parse hbody) (by decide) (by decide)

end Next

/-! ## Repetition -/

/-- An entry that its tokens pay for has read some, since it has been tried. -/
theorem Spends.length_lt {rule : Rule α} (h : Spends 0 w rule.parse) {s : Point} {a : α}
    (ho : (rule.parse true s).outcome = .value a) :
    (rule.parse true s).point.ahead.length < s.ahead.length := by
  have hrun := (h s).of_value ho
  have htries := tries_parse rule s
  have hbody := (rule.body true s).tries_nonneg
  apply Point.length_lt_of_worth_lt
  omega

/-- The entries pay for themselves.  What is left is the one that is given up. -/
theorem Spends.many {rule : Rule α} {stuck : Int → Failure} (h : Spends 0 w rule.parse)
    (hgives : GivesUpWithin k rule.parse) : Spends k (max w (k + w)) (rule.parse.many stuck) := by
  intro s
  induction s using Parser.many.induct rule.parse true with
  | case1 s r a ho hlt ih =>
    rw [many_of_value ho hlt]
    exact ((ih.map _).after ((h s).of_value ho)).mono (by omega) (by omega)
  | case2 s r a ho hle => exact absurd (h.length_lt ho) hle
  | case3 s r f ho hf =>
    have hrun := (h s).of_failure ho
    rw [many_of_committed ho hf]
    show (rule.parse true s).tries ≤ _
    omega
  | case4 s r f ho hf =>
    have hgiven := hgives s (Run.passes_eq_true_iff.mpr ⟨f, ho, Bool.eq_false_iff.mpr hf⟩)
    rw [many_of_uncommitted ho hf]
    show (rule.parse true s).tries + s.worth ≤ s.worth + k
    omega
  | case5 s r b ho =>
    have hrun := (h s).of_abort ho
    rw [many_of_abort ho]
    show (rule.parse true s).tries ≤ _
    omega

theorem Spends.untilEnd (h : Spends 0 w p) (hw : 0 ≤ w) : Spends 0 w (Parser.untilEnd p) := by
  intro s
  induction s using Parser.untilEnd.induct p true with
  | case1 s hs =>
    rw [untilEnd_of_end hs]
    show (0 : Int) + s.worth ≤ s.worth + 0
    omega
  | case2 s hs r a ho hlt ih =>
    rw [untilEnd_of_value hs ho hlt]
    exact ((ih.map _).after ((h s).of_value ho)).mono (by omega) (by omega)
  | case3 s hs r a ho hle =>
    have hrun := (h s).of_value ho
    have hworth := (p true s).point.worth_nonneg
    rw [untilEnd_of_no_progress hs ho hle]
    show (p true s).tries ≤ _
    omega
  | case4 s hs r f ho =>
    rw [untilEnd_of_failure hs ho]
    exact (h s).of_failure ho
  | case5 s hs r b ho =>
    rw [untilEnd_of_abort hs ho]
    exact (h s).of_abort ho

/-! ## Looking ahead -/

theorem Spends.ifNext (tok : Token) (hp : Spends v w p) (hq : Spends v w q) :
    Spends v w (Parser.ifNext tok p q) := by
  intro s
  rcases ifNext_run tok p q true s with hrun | hrun
  · rw [hrun]
    exact hp s
  · rw [hrun]
    exact hq s

end Parser
end CounterLang
