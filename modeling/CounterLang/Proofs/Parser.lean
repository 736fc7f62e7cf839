/-
Parsers, told by the tokens ahead.

What a parser does hangs on the tokens ahead of it, and the position it starts at only
labels the result.  The relations here say so: `Reads`, `Refuses` and `Aborts` name the
tokens and hold at every position, with tracing on and off.  Each way to build a parser has
one law for each relation, and a rule is then run by putting laws together, without looking
into `Parser` again.

A refused run is told by its failure alone.  Where it stopped does not matter to any
parser around it: a choice and a repetition go back to where they started, and everything
else passes the failure on.
-/
import CounterLang.Rule

namespace CounterLang
namespace Parser

variable {p q : Parser α} {u v rest t : List Token} {a : α} {b : β} {f : Int → Failure}

/-- The parser reads the tokens `u`, ahead of `rest`, as `a`. -/
def Reads (p : Parser α) (u rest : List Token) (a : α) : Prop :=
  ∀ tracing pos, (p tracing ⟨pos, u ++ rest⟩).outcome = .value a ∧
    (p tracing ⟨pos, u ++ rest⟩).point = ⟨pos + u.length, rest⟩

/-- The parser fails on the tokens `u ++ rest`, with a failure that is labelled by the
position of `rest`. -/
def Refuses (p : Parser α) (u rest : List Token) (f : Int → Failure) : Prop :=
  ∀ tracing pos, (p tracing ⟨pos, u ++ rest⟩).outcome = .failure (f (pos + u.length))

/-- The parser fails in a way that can be backtracked over. -/
def Passes (p : Parser α) (t : List Token) : Prop :=
  ∀ tracing pos, ∃ e, (p tracing ⟨pos, t⟩).outcome = .failure e ∧ e.committed = false

/-- The parser goes too deep when it has passed the tokens `u`. -/
def Aborts (p : Parser α) (u rest : List Token) : Prop :=
  ∀ tracing pos, (p tracing ⟨pos, u ++ rest⟩).outcome = .abort .endless ∧
    (p tracing ⟨pos, u ++ rest⟩).point = ⟨pos + u.length, rest⟩

/-- The two parsers come to the same result on the tokens `t`. -/
def AgreeOn (t : List Token) (p q : Parser α) : Prop :=
  ∀ tracing pos, (p tracing ⟨pos, t⟩).outcome = (q tracing ⟨pos, t⟩).outcome ∧
    (p tracing ⟨pos, t⟩).point = (q tracing ⟨pos, t⟩).point

theorem AgreeOn.trans {r : Parser α} (h : AgreeOn t p q) (h' : AgreeOn t q r) :
    AgreeOn t p r := fun tracing pos =>
  ⟨(h tracing pos).1.trans (h' tracing pos).1, (h tracing pos).2.trans (h' tracing pos).2⟩

theorem Reads.of_agreeOn (hq : Reads q u rest a) (h : AgreeOn (u ++ rest) p q) :
    Reads p u rest a := fun tracing pos =>
  ⟨(h tracing pos).1.trans (hq tracing pos).1, (h tracing pos).2.trans (hq tracing pos).2⟩

theorem Refuses.of_agreeOn (hq : Refuses q u rest f) (h : AgreeOn (u ++ rest) p q) :
    Refuses p u rest f := fun tracing pos => (h tracing pos).1.trans (hq tracing pos)

theorem Passes.of_agreeOn (hq : Passes q t) (h : AgreeOn t p q) : Passes p t := by
  intro tracing pos
  obtain ⟨e, ho, he⟩ := hq tracing pos
  exact ⟨e, (h tracing pos).1.trans ho, he⟩

theorem Aborts.of_agreeOn (hq : Aborts q u rest) (h : AgreeOn (u ++ rest) p q) :
    Aborts p u rest := fun tracing pos =>
  ⟨(h tracing pos).1.trans (hq tracing pos).1, (h tracing pos).2.trans (hq tracing pos).2⟩

theorem Refuses.passes (hp : Refuses p u rest f) (hf : ∀ i, (f i).committed = false) :
    Passes p (u ++ rest) := fun tracing pos => ⟨_, hp tracing pos, hf _⟩

/-! ## Sequences -/

theorem pos_add_append (pos : Int) (u v : List Token) :
    pos + u.length + v.length = pos + (u ++ v).length := by
  rw [List.length_append]
  omega

theorem reads_pure : Reads (Pure.pure a) [] rest a := by
  intro tracing pos
  refine ⟨rfl, ?_⟩
  show (⟨pos, rest⟩ : Point) = ⟨pos + 0, rest⟩
  rw [Int.add_zero]

theorem Reads.bind {g : α → Parser β} (hp : Reads p u (v ++ rest) a)
    (hg : Reads (g a) v rest b) : Reads (p >>= g) (u ++ v) rest b := by
  intro tracing pos
  obtain ⟨ho, hs⟩ := hp tracing pos
  obtain ⟨ho', hs'⟩ := hg tracing (pos + u.length)
  rw [List.append_assoc]
  show (Parser.bind p g tracing _).outcome = _ ∧ (Parser.bind p g tracing _).point = _
  simp only [Parser.bind, ho, hs, Run.after]
  exact ⟨ho', by rw [hs', pos_add_append]⟩

theorem Refuses.bind {g : α → Parser β} (hp : Refuses p u rest f) :
    Refuses (p >>= g) u rest f := by
  intro tracing pos
  have ho := hp tracing pos
  show (Parser.bind p g tracing _).outcome = _
  simp only [Parser.bind, ho]

theorem Reads.bind_refuses {g : α → Parser β} (hp : Reads p u (v ++ rest) a)
    (hg : Refuses (g a) v rest f) : Refuses (p >>= g) (u ++ v) rest f := by
  intro tracing pos
  obtain ⟨ho, hs⟩ := hp tracing pos
  have ho' := hg tracing (pos + u.length)
  rw [List.append_assoc]
  show (Parser.bind p g tracing _).outcome = _
  simp only [Parser.bind, ho, hs, Run.after]
  rw [ho', pos_add_append]

theorem Passes.bind {g : α → Parser β} (hp : Passes p t) : Passes (p >>= g) t := by
  intro tracing pos
  obtain ⟨e, ho, he⟩ := hp tracing pos
  refine ⟨e, ?_, he⟩
  show (Parser.bind p g tracing _).outcome = _
  simp only [Parser.bind, ho]

theorem Reads.bind_passes {g : α → Parser β} (hp : Reads p u rest a)
    (hg : Passes (g a) rest) : Passes (p >>= g) (u ++ rest) := by
  intro tracing pos
  obtain ⟨ho, hs⟩ := hp tracing pos
  obtain ⟨e, ho', he⟩ := hg tracing (pos + u.length)
  refine ⟨e, ?_, he⟩
  show (Parser.bind p g tracing _).outcome = _
  simp only [Parser.bind, ho, hs, Run.after]
  exact ho'

theorem Aborts.bind {g : α → Parser β} (hp : Aborts p u rest) : Aborts (p >>= g) u rest := by
  intro tracing pos
  obtain ⟨ho, hs⟩ := hp tracing pos
  show (Parser.bind p g tracing _).outcome = _ ∧ (Parser.bind p g tracing _).point = _
  simp only [Parser.bind, ho]
  exact ⟨trivial, hs⟩

theorem Reads.bind_aborts {g : α → Parser β} (hp : Reads p u (v ++ rest) a)
    (hg : Aborts (g a) v rest) : Aborts (p >>= g) (u ++ v) rest := by
  intro tracing pos
  obtain ⟨ho, hs⟩ := hp tracing pos
  obtain ⟨ho', hs'⟩ := hg tracing (pos + u.length)
  rw [List.append_assoc]
  show (Parser.bind p g tracing _).outcome = _ ∧ (Parser.bind p g tracing _).point = _
  simp only [Parser.bind, ho, hs, Run.after]
  exact ⟨ho', by rw [hs', pos_add_append]⟩

theorem map_run (f : α → β) (p : Parser α) (tracing : Bool) (s : Point) :
    (f <$> p) tracing s = (p tracing s).map f := by
  rw [map_eq_pure_bind]
  show Parser.bind p (fun a => Parser.pure (f a)) tracing s = _
  rcases h : p tracing s with ⟨outcome, point, journal⟩
  cases outcome <;> simp [Parser.bind, Parser.pure, Run.map, Outcome.map, Run.after, h]

theorem ifNext_run (tok : Token) (p q : Parser α) (tracing : Bool) (s : Point) :
    ifNext tok p q tracing s = p tracing s ∨ ifNext tok p q tracing s = q tracing s := by
  by_cases hnext : s.ahead.head? = some tok
  · exact Or.inl (if_pos hnext)
  · exact Or.inr (if_neg hnext)

theorem Reads.map {g : α → β} (hp : Reads p u rest a) : Reads (g <$> p) u rest (g a) := by
  have h := Reads.bind (u := u) (v := []) (g := fun a => Pure.pure (g a)) hp reads_pure
  rw [List.append_nil] at h
  rwa [map_eq_pure_bind]

theorem Refuses.map {g : α → β} (hp : Refuses p u rest f) : Refuses (g <$> p) u rest f := by
  rw [map_eq_pure_bind]
  exact hp.bind

theorem Aborts.map {g : α → β} (hp : Aborts p u rest) : Aborts (g <$> p) u rest := by
  rw [map_eq_pure_bind]
  exact hp.bind

/-! ## Single tokens -/

/-- Why a token of a kind cannot be had from the tokens ahead. -/
def lack (kind : Kind) : List Token → Cause
  | [] => .unexpectedEnd kind.wanted
  | t :: _ => .unexpectedToken kind.wanted (.token t)

theorem reads_next {kind : Kind} {read : Token → Option α} {tok : Token}
    (h : read tok = some a) : Reads (next kind read) [tok] rest a := by
  intro tracing pos
  simp [next, h]

theorem refuses_next {kind : Kind} {read : Token → Option α}
    (h : ∀ tok ∈ t.head?, read tok = none) :
    Refuses (next kind read) [] t fun i => { cause := lack kind t, position := some i } := by
  intro tracing pos
  cases t with
  | nil => simp [next, lack]
  | cons tok rest =>
    have hread : read tok = none := h tok rfl
    simp [next, lack, hread]

/-! ## Checks and commitment -/

theorem Reads.refine {check : α → Option β} {fault : α → Int → Failure}
    (hp : Reads p u rest a) (h : check a = some b) :
    Reads (p.refine check fault) u rest b := by
  intro tracing pos
  obtain ⟨ho, hs⟩ := hp tracing pos
  simp only [Parser.refine, ho, h]
  exact ⟨trivial, hs⟩

theorem Refuses.refine {check : α → Option β} {fault : α → Int → Failure}
    (hp : Refuses p u rest f) : Refuses (p.refine check fault) u rest f := by
  intro tracing pos
  have ho := hp tracing pos
  simp only [Parser.refine, ho]

/-- A value that does not pass its check is refused at its first token. -/
theorem Reads.refine_refuses {check : α → Option β} {fault : α → Int → Failure}
    (hp : Reads p u rest a) (h : check a = none) :
    Refuses (p.refine check fault) [] (u ++ rest) (fault a) := by
  intro tracing pos
  obtain ⟨ho, -⟩ := hp tracing pos
  simp only [Parser.refine, List.nil_append, ho, h]
  show _ = Outcome.failure (fault a (pos + 0))
  rw [Int.add_zero]

theorem Reads.committed (hp : Reads p u rest a) : Reads (committed p) u rest a := by
  intro tracing pos
  obtain ⟨ho, hs⟩ := hp tracing pos
  simp only [Parser.committed, ho]
  exact ⟨trivial, hs⟩

theorem Refuses.committed (hp : Refuses p u rest f) :
    Refuses (committed p) u rest fun i => (f i).commit := by
  intro tracing pos
  have ho := hp tracing pos
  simp only [Parser.committed, ho]

theorem Refuses.committed_eq {g : Int → Failure} (hp : Refuses p u rest f)
    (h : ∀ i, (f i).commit = g i) : Refuses (Parser.committed p) u rest g := by
  rw [← funext h]
  exact hp.committed

theorem Aborts.committed (hp : Aborts p u rest) : Aborts (committed p) u rest := by
  intro tracing pos
  obtain ⟨ho, hs⟩ := hp tracing pos
  simp only [Parser.committed, ho]
  exact ⟨trivial, hs⟩

theorem reads_note {e : Event} : Reads (note e) [] rest () := by
  intro tracing pos
  refine ⟨rfl, ?_⟩
  show (⟨pos, rest⟩ : Point) = ⟨pos + 0, rest⟩
  rw [Int.add_zero]

/-! ## Choice -/

/-- The parser does not fail in a way that can be backtracked over. -/
def Settles (p : Parser α) (t : List Token) : Prop :=
  ∀ tracing pos e, (p tracing ⟨pos, t⟩).outcome = .failure e → e.committed = true

theorem settles_committed (p : Parser α) (t : List Token) : Settles (committed p) t := by
  intro tracing pos e h
  cases ho : (p tracing ⟨pos, t⟩).outcome with
  | value a => simp [Parser.committed, ho] at h
  | failure e' =>
    simp only [Parser.committed, ho, Outcome.failure.injEq] at h
    rw [← h]
    rfl
  | abort b => simp [Parser.committed, ho] at h

theorem Reads.bind_settles {g : α → Parser β} (hp : Reads p u rest a)
    (hg : Settles (g a) rest) : Settles (p >>= g) (u ++ rest) := by
  intro tracing pos e h
  obtain ⟨ho, hs⟩ := hp tracing pos
  apply hg tracing (pos + u.length) e
  rw [← h]
  show _ = (Parser.bind p g tracing _).outcome
  simp only [Parser.bind, ho, hs, Run.after]

theorem Settles.of_agreeOn (hq : Settles q t) (h : AgreeOn t p q) : Settles p t := by
  intro tracing pos e he
  exact hq tracing pos e ((h tracing pos).1.symm.trans he)

theorem Passes.orElse_agreeOn (hp : Passes p t) : AgreeOn t (p.orElse q) q := by
  intro tracing pos
  obtain ⟨e, ho, he⟩ := hp tracing pos
  simp only [orElse, ho, he, Bool.false_eq_true, if_false, Run.after]
  exact ⟨trivial, trivial⟩

theorem Settles.orElse_agreeOn (hp : Settles p t) : AgreeOn t (p.orElse q) p := by
  intro tracing pos
  cases ho : (p tracing ⟨pos, t⟩).outcome with
  | value a => simp [orElse, ho]
  | failure e => simp [orElse, ho, hp tracing pos e ho]
  | abort b => simp [orElse, ho]

/-- A choice is settled by the first alternative that does not pass. -/
theorem firstOf_agreeOn {name definition : String} (before : List (Parser α))
    {after : List (Parser α)} (hbefore : ∀ q ∈ before, Passes q t) (hp : Settles p t) :
    AgreeOn t (Rule.firstOf name definition (before ++ p :: after)) p := by
  induction before with
  | nil => exact hp.orElse_agreeOn
  | cons q before ih =>
    have hq : Passes q t := hbefore q List.mem_cons_self
    exact hq.orElse_agreeOn.trans (ih fun r hr => hbefore r (List.mem_cons_of_mem q hr))

theorem Reads.settles (hp : Reads p u rest a) : Settles p (u ++ rest) := by
  intro tracing pos e h
  rw [(hp tracing pos).1] at h
  cases h

theorem reads_firstOf {name definition : String} (before : List (Parser α))
    {after : List (Parser α)} (hbefore : ∀ q ∈ before, Passes q (u ++ rest))
    (hp : Reads p u rest a) :
    Reads (Rule.firstOf name definition (before ++ p :: after)) u rest a :=
  hp.of_agreeOn (firstOf_agreeOn before hbefore hp.settles)

theorem refuses_firstOf {name definition : String} {ps : List (Parser α)}
    (h : ∀ q ∈ ps, Passes q t) :
    Refuses (Rule.firstOf name definition ps) [] t
      (Rule.failed name definition "no alternative matched") := by
  induction ps with
  | nil =>
    intro tracing pos
    show _ = Outcome.failure (Rule.failed name definition "no alternative matched" (pos + 0))
    rw [Int.add_zero]
    rfl
  | cons q ps ih =>
    have hq : Passes q t := h q List.mem_cons_self
    exact (ih fun r hr => h r (List.mem_cons_of_mem q hr)).of_agreeOn hq.orElse_agreeOn

theorem parse_agreeOn (rule : Rule α) (t : List Token) : AgreeOn t rule.parse rule.body := by
  intro tracing pos
  cases tracing with
  | false => exact ⟨rfl, rfl⟩
  | true => exact ⟨rfl, rfl⟩

end Parser
end CounterLang
