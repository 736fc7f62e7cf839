/-
Cursors that are made from each other.

A cursor can be forked, and from then on there are two where there was one.  The steps of all
the cursors that have been made come in any order, and each cursor answers its own steps as if
it were the only one, made over the same tokens at the place where its parent stood
(`Cursors.run_apart`).  Rules that fail and leave the cursor somewhere on the way, and positions
that are set to where there is no token, make no exception.

A step changes the cursor that it is a step of, and a fork puts a new one behind the others.
Hence two lists of cursors that have the same cursor at one place each answer its next step
alike and still have the same cursor there, which is what carries the induction over the steps.
-/
import CounterLang.Cursor

namespace CounterLang

/-! ## One cursor -/

namespace Cursor

variable {c : Cursor}

theorem tokens_move (c : Cursor) (m : Move) : (c.move m).2.tokens = c.tokens := by
  cases m with
  | peek =>
    rw [move]
    cases c.peek <;> rfl
  | advance =>
    rw [move, advance]
    cases h : c.ahead? with
    | none => rfl
    | some ahead => cases ahead <;> rfl
  | atEnd => rfl
  | mark => rfl
  | reset position => rfl
  | parse p =>
    rw [move]
    cases c.run p.rule <;> rfl

/-- The moves that only look. -/
inductive Move.Looks : Move → Prop
  | peek : Looks .peek
  | atEnd : Looks .atEnd
  | mark : Looks .mark

theorem Move.Looks.move_snd {m : Move} (h : m.Looks) (c : Cursor) : (c.move m).2 = c := by
  cases h with
  | peek =>
    rw [move]
    cases c.peek <;> rfl
  | atEnd => rfl
  | mark => rfl

/-- The token at a position, which counts from the end where it is below zero. -/
def tokenAt? (tokens : List Token) (position : Int) : Option Token :=
  if 0 ≤ position then tokens[position.toNat]? else tokens[(position + tokens.length).toNat]?

theorem exists_ahead (hlow : -(c.tokens.length : Int) ≤ c.position) :
    ∃ ahead, c.ahead? = some ahead ∧ ahead.head? = tokenAt? c.tokens c.position := by
  by_cases hzero : 0 ≤ c.position
  · refine ⟨c.tokens.drop c.position.toNat, ?_, ?_⟩
    · rw [ahead?, if_pos hzero]
    · rw [tokenAt?, if_pos hzero, List.head?_drop]
  · have hne : c.tokens.drop (c.position + c.tokens.length).toNat ≠ [] := by
      rw [ne_eq, List.drop_eq_nil_iff]
      omega
    refine ⟨c.tokens.drop (c.position + c.tokens.length).toNat ++ c.tokens, ?_, ?_⟩
    · rw [ahead?, if_neg hzero, if_pos (by omega)]
    · obtain ⟨t, rest, hcons⟩ := List.exists_cons_of_ne_nil hne
      rw [tokenAt?, if_neg hzero, ← List.head?_drop, hcons]
      rfl

/-- At the end there is nothing to look at and nothing to take. -/
theorem move_of_length_le (h : (c.tokens.length : Int) ≤ c.position) :
    c.move .peek = (.token none, c) ∧ c.move .advance = (.fault .pastEnd, c) := by
  obtain ⟨ahead, hahead, hhead⟩ := exists_ahead (c := c) (by omega)
  rw [tokenAt?, if_pos (by omega), List.getElem?_eq_none (by omega)] at hhead
  obtain rfl := List.head?_eq_none_iff.mp hhead
  simp only [move, peek, advance, hahead, List.head?_nil, and_self]

/-- Before the end the token that is seen is the one that is taken. -/
theorem move_of_lt_length (hlow : -(c.tokens.length : Int) ≤ c.position)
    (h : c.position < c.tokens.length) :
    ∃ t, tokenAt? c.tokens c.position = some t ∧ c.move .peek = (.token (some t), c) ∧
      c.move .advance = (.token (some t), c.reset (c.position + 1)) := by
  obtain ⟨ahead, hahead, hhead⟩ := exists_ahead hlow
  cases htoken : tokenAt? c.tokens c.position with
  | none =>
    rw [tokenAt?] at htoken
    split at htoken
    · have := List.getElem?_eq_none_iff.mp htoken
      omega
    · have := List.getElem?_eq_none_iff.mp htoken
      omega
  | some t =>
    rw [htoken] at hhead
    obtain ⟨rest, rfl⟩ := List.head?_eq_some_iff.mp hhead
    refine ⟨t, rfl, ?_, ?_⟩
    · simp only [move, peek, hahead, List.head?_cons]
    · simp only [move, advance, hahead, reset]

end Cursor

/-! ## One step -/

namespace Cursors

variable {cs cs' : Cursors} {c : Cursor} {k k' index : Nat} {tokens : List Token}

/-- An answer in which a new cursor has no number. -/
def Answer.unnumbered : Answer → Answer
  | forked _ tracing => forked 0 tracing
  | a => a

theorem step_fork (h : cs[k]? = some c) :
    cs.step k .fork = (.forked cs.length c.tracing, cs ++ [c]) := by
  simp only [step, h]

theorem step_move (h : cs[k]? = some c) (m : Cursor.Move) :
    cs.step k (.move m) = (.reply (c.move m).1, cs.set k (c.move m).2) := by
  simp only [step, h]

theorem lt_length (h : cs[k]? = some c) : k < cs.length := (List.getElem?_eq_some_iff.mp h).1

theorem set_self (h : cs[k]? = some c) : cs.set k c = cs := by
  obtain ⟨hk, rfl⟩ := List.getElem?_eq_some_iff.mp h
  exact List.set_getElem_self hk

/-- The steps of others leave a cursor as it is. -/
theorem getElem?_step_of_ne (h : cs[k]? = some c) (hne : index ≠ k) (s : Step) :
    (cs.step index s).2[k]? = some c := by
  cases hindex : cs[index]? with
  | none => simp only [step, hindex, h]
  | some other =>
    cases s with
    | fork =>
      rw [step_fork hindex]
      exact (List.getElem?_append_left (lt_length h)).trans h
    | move m =>
      rw [step_move hindex]
      exact (List.getElem?_set_ne hne).trans h

/-- The answer to a step, and the cursor after it, depend on the cursor alone. -/
theorem step_congr (h : cs[k]? = some c) (h' : cs'[k']? = some c) (s : Step) :
    (cs.step k s).1.unnumbered = (cs'.step k' s).1.unnumbered ∧
      ∃ c', (cs.step k s).2[k]? = some c' ∧ (cs'.step k' s).2[k']? = some c' := by
  cases s with
  | fork =>
    rw [step_fork h, step_fork h']
    exact ⟨rfl, c, (List.getElem?_append_left (lt_length h)).trans h,
      (List.getElem?_append_left (lt_length h')).trans h'⟩
  | move m =>
    rw [step_move h, step_move h']
    exact ⟨rfl, (c.move m).2, List.getElem?_set_self (lt_length h),
      List.getElem?_set_self (lt_length h')⟩

theorem tokens_step (hcs : ∀ c ∈ cs, c.tokens = tokens) (index : Nat) (s : Step) :
    ∀ c ∈ (cs.step index s).2, c.tokens = tokens := by
  cases hindex : cs[index]? with
  | none =>
    simp only [step, hindex]
    exact hcs
  | some other =>
    have hother : other.tokens = tokens := hcs other (List.mem_of_getElem? hindex)
    intro c hc
    cases s with
    | fork =>
      rw [step_fork hindex, List.mem_append, List.mem_singleton] at hc
      rcases hc with hc | rfl
      · exact hcs c hc
      · exact hother
    | move m =>
      rw [step_move hindex] at hc
      rcases List.mem_or_eq_of_mem_set hc with hc | rfl
      · exact hcs c hc
      · rw [Cursor.tokens_move, hother]

/-! ## Runs -/

/-- The cursors as they are after a sequence of steps. -/
def after (cs : Cursors) (steps : List (Nat × Step)) : Cursors :=
  steps.foldl (fun cs s => (cs.step s.1 s.2).2) cs

/-- The steps of a cursor, as the steps of an only cursor. -/
def own (k : Nat) (steps : List (Nat × Step)) : List (Nat × Step) :=
  (steps.filter fun s => s.1 = k).map fun s => (0, s.2)

/-- What a run shows of a cursor: its answers to its own steps, and the cursor as it is after
each of them. -/
def shown (k : Nat) (steps : List (Nat × Step)) (trace : List (Answer × Cursors)) :
    List (Answer × Option Cursor) :=
  ((steps.zip trace).filter fun e => e.1.1 = k).map fun e => (e.2.1.unnumbered, e.2.2[k]?)

theorem run_append (cs : Cursors) (before later : List (Nat × Step)) :
    cs.run (before ++ later) = cs.run before ++ (cs.after before).run later := by
  induction before generalizing cs with
  | nil => rfl
  | cons s before ih => exact congrArg (cs.step s.1 s.2 :: ·) (ih (cs.step s.1 s.2).2)

theorem length_run (cs : Cursors) (steps : List (Nat × Step)) :
    (cs.run steps).length = steps.length := by
  induction steps generalizing cs with
  | nil => rfl
  | cons s steps ih => exact congrArg (· + 1) (ih (cs.step s.1 s.2).2)

theorem after_cons (cs : Cursors) (s : Nat × Step) (steps : List (Nat × Step)) :
    cs.after (s :: steps) = (cs.step s.1 s.2).2.after steps := rfl

theorem after_append (cs : Cursors) (before later : List (Nat × Step)) :
    cs.after (before ++ later) = (cs.after before).after later := List.foldl_append

theorem tokens_after (hcs : ∀ c ∈ cs, c.tokens = tokens) (steps : List (Nat × Step)) :
    ∀ c ∈ cs.after steps, c.tokens = tokens := by
  induction steps generalizing cs with
  | nil => exact hcs
  | cons s steps ih => exact ih (tokens_step hcs s.1 s.2)

theorem own_cons_self (k : Nat) (s : Step) (steps : List (Nat × Step)) :
    own k ((k, s) :: steps) = (0, s) :: own k steps := by
  rw [own, List.filter_cons_of_pos (by simp), List.map_cons]
  rfl

theorem own_cons_of_ne (h : index ≠ k) (s : Step) (steps : List (Nat × Step)) :
    own k ((index, s) :: steps) = own k steps := by
  rw [own, List.filter_cons_of_neg (by simpa using h)]
  rfl

theorem shown_cons_self (cs : Cursors) (k : Nat) (s : Step) (steps : List (Nat × Step)) :
    shown k ((k, s) :: steps) (cs.run ((k, s) :: steps)) =
      ((cs.step k s).1.unnumbered, (cs.step k s).2[k]?) ::
        shown k steps ((cs.step k s).2.run steps) := by
  rw [shown, run, List.zip_cons_cons, List.filter_cons_of_pos (by simp), List.map_cons]
  rfl

theorem shown_cons_of_ne (cs : Cursors) (h : index ≠ k) (s : Step) (steps : List (Nat × Step)) :
    shown k ((index, s) :: steps) (cs.run ((index, s) :: steps)) =
      shown k steps ((cs.step index s).2.run steps) := by
  rw [shown, run, List.zip_cons_cons, List.filter_cons_of_neg (by simpa using h)]
  rfl

/-- A cursor shows in a run what it shows where it is the only one. -/
theorem shown_run (h : cs[k]? = some c) (h' : cs'[0]? = some c) (steps : List (Nat × Step)) :
    shown k steps (cs.run steps) = shown 0 (own k steps) (cs'.run (own k steps)) := by
  induction steps generalizing cs cs' c with
  | nil => rfl
  | cons s steps ih =>
    obtain ⟨index, s⟩ := s
    by_cases hindex : index = k
    · subst hindex
      obtain ⟨hanswer, next, hnext, hnext'⟩ := step_congr h h' s
      rw [own_cons_self, shown_cons_self, shown_cons_self, hanswer, hnext, hnext',
        ih hnext hnext']
    · rw [own_cons_of_ne hindex, shown_cons_of_ne cs hindex,
        ih (getElem?_step_of_ne h hindex s) h']

/-- It also stands where it stands as the only one, whatever the others have done since. -/
theorem getElem?_after (h : cs[k]? = some c) (h' : cs'[0]? = some c) (steps : List (Nat × Step)) :
    (cs.after steps)[k]? = (cs'.after (own k steps))[0]? := by
  induction steps generalizing cs cs' c with
  | nil => exact h.trans h'.symm
  | cons s steps ih =>
    obtain ⟨index, s⟩ := s
    by_cases hindex : index = k
    · subst hindex
      obtain ⟨-, next, hnext, hnext'⟩ := step_congr h h' s
      rw [own_cons_self]
      exact ih hnext hnext'
    · rw [own_cons_of_ne hindex]
      exact ih (getElem?_step_of_ne h hindex s) h'

/-- A cursor that is made by a fork shows behind it what its parent would show alone. -/
theorem run_fork {parent lone : Cursor} {p : Nat} (h : cs[p]? = some parent) (hlone : lone = parent)
    (later : List (Nat × Step)) :
    let rest := cs.run ((p, .fork) :: later)
    rest.head?.map Prod.fst = some (.forked cs.length parent.tracing) ∧
    shown cs.length later rest.tail =
      shown 0 (own cs.length later) (run [lone] (own cs.length later)) ∧
    (cs.after ((p, .fork) :: later))[cs.length]? = (after [lone] (own cs.length later))[0]? := by
  subst hlone
  have hmade : (cs ++ [lone])[cs.length]? = some lone := List.getElem?_concat_length
  have halone : ([lone] : Cursors)[0]? = some lone := rfl
  have hrun : cs.run ((p, .fork) :: later) =
      (.forked cs.length lone.tracing, cs ++ [lone]) :: run (cs ++ [lone]) later := by
    rw [run, step_fork h]
  rw [hrun, after_cons, step_fork h]
  exact ⟨rfl, shown_run hmade halone later, getElem?_after hmade halone later⟩

/-! ## Looking and taking -/

theorem step_of_looks {m : Cursor.Move} (hm : m.Looks) (cs : Cursors) (k : Nat) :
    (cs.step k (.move m)).2 = cs := by
  cases hk : cs[k]? with
  | none => simp only [step, hk]
  | some c =>
    rw [step_move hk, hm.move_snd]
    exact set_self hk

theorem step_of_length_le (hc : cs[k]? = some c) (h : (c.tokens.length : Int) ≤ c.position) :
    cs.step k (.move .peek) = (.reply (.token none), cs) ∧
      cs.step k (.move .advance) = (.reply (.fault .pastEnd), cs) := by
  obtain ⟨hpeek, hadvance⟩ := Cursor.move_of_length_le h
  rw [step_move hc, step_move hc, hpeek, hadvance, set_self hc]
  exact ⟨rfl, rfl⟩

theorem step_of_lt_length (hc : cs[k]? = some c) (hlow : -(c.tokens.length : Int) ≤ c.position)
    (h : c.position < c.tokens.length) :
    ∃ t, Cursor.tokenAt? c.tokens c.position = some t ∧
      cs.step k (.move .peek) = (.reply (.token (some t)), cs) ∧
      cs.step k (.move .advance) =
        (.reply (.token (some t)), cs.set k (c.reset (c.position + 1))) := by
  obtain ⟨t, ht, hpeek, hadvance⟩ := Cursor.move_of_lt_length hlow h
  rw [step_move hc, step_move hc, hpeek, hadvance, set_self hc]
  exact ⟨t, ht, rfl, rfl⟩

/-! ## Every order of steps -/

/-- The steps of all cursors come in any order.  A cursor that is made behind `before` shows
what a lone one shows, the tokens stay as they are, and to look is not to move. -/
theorem run_apart (tokens : List Token) (position : Int) (tracing : Bool)
    (steps : List (Nat × Step)) :
    let start : Cursors := [⟨tokens, position, tracing⟩]
    let cs := start.after steps
    shown 0 steps (start.run steps) = shown 0 (own 0 steps) (start.run (own 0 steps)) ∧
    cs[0]? = (start.after (own 0 steps))[0]? ∧
    (∀ before p later parent, steps = before ++ (p, .fork) :: later →
      (start.after before)[p]? = some parent →
      let k := (start.after before).length
      let lone : Cursors := [⟨tokens, parent.position, parent.tracing⟩]
      (start.run steps)[before.length]?.map Prod.fst = some (.forked k parent.tracing) ∧
      shown k later ((start.run steps).drop (before.length + 1)) =
        shown 0 (own k later) (lone.run (own k later)) ∧
      cs[k]? = (lone.after (own k later))[0]?) ∧
    (∀ c ∈ cs, c.tokens = tokens) ∧
    (∀ (k : Nat) (m : Cursor.Move), m.Looks → (cs.step k (.move m)).2 = cs) ∧
    ∀ (k : Nat) (c : Cursor), cs[k]? = some c → -(tokens.length : Int) ≤ c.position →
      (tokens.length ≤ c.position ∧
        cs.step k (.move .peek) = (.reply (.token none), cs) ∧
        cs.step k (.move .advance) = (.reply (.fault .pastEnd), cs)) ∨
      (c.position < tokens.length ∧ ∃ t, Cursor.tokenAt? tokens c.position = some t ∧
        cs.step k (.move .peek) = (.reply (.token (some t)), cs) ∧
        cs.step k (.move .advance) =
          (.reply (.token (some t)), cs.set k (c.reset (c.position + 1)))) := by
  intro start cs
  have hstart : ∀ c ∈ start, c.tokens = tokens := by
    intro c hc
    rw [List.mem_singleton.mp hc]
  have htokens := tokens_after hstart
  have hfirst : start[0]? = some ⟨tokens, position, tracing⟩ := rfl
  refine ⟨shown_run hfirst hfirst steps, getElem?_after hfirst hfirst steps, ?_, htokens steps,
    fun k m hm => step_of_looks hm cs k, ?_⟩
  · rintro before p later parent rfl hparent
    intro k lone
    have hlone : (⟨tokens, parent.position, parent.tracing⟩ : Cursor) = parent := by
      rw [← htokens before parent (List.mem_of_getElem? hparent)]
    obtain ⟨hanswer, hshown, hafter⟩ := run_fork hparent hlone later
    have hlength : (start.run before).length = before.length := length_run start before
    refine ⟨?_, ?_, ?_⟩
    · rw [run_append, ← hlength, List.getElem?_append_right (Nat.le_refl _), Nat.sub_self,
        ← List.head?_eq_getElem?]
      exact hanswer
    · rw [run_append, ← hlength, List.drop_length_add_append, List.drop_one]
      exact hshown
    · show (start.after (before ++ (p, .fork) :: later))[k]? = _
      rw [after_append]
      exact hafter
  · intro k c hc hlow
    obtain rfl : c.tokens = tokens := htokens steps c (List.mem_of_getElem? hc)
    by_cases hlt : c.position < c.tokens.length
    · exact Or.inr ⟨hlt, step_of_lt_length hc hlow hlt⟩
    · have hle : (c.tokens.length : Int) ≤ c.position := Int.not_lt.mp hlt
      exact Or.inl ⟨hle, step_of_length_le hc hle⟩

/-- The fork of a cursor that counts from the end tries a rule that fails behind its first
token, while its parent is set to where there is no token. -/
theorem run_apart_failed_rule :
    let tokens : List Token := [.keyword .incr, .number 3]
    let start : Cursors := [⟨tokens, -3, true⟩]
    let before : List (Nat × Step) := [(0, .move (.reset (-2)))]
    let later : List (Nat × Step) :=
      [(1, .move (.parse .incr)), (0, .move (.reset (-5))), (1, .move .peek), (0, .move .peek)]
    let lone : Cursors := [⟨tokens, -2, true⟩]
    (start.after before)[0]? = some ⟨tokens, -2, true⟩ ∧
    shown 1 later ((start.run (before ++ (0, .fork) :: later)).drop 2) =
      shown 0 (own 1 later) (lone.run (own 1 later)) ∧
    Cursor.Move.mark.Looks ∧ ((start.after before).step 0 (.move .mark)).2 = start.after before ∧
    -(tokens.length : Int) ≤ -2 ∧ ∃ t, Cursor.tokenAt? tokens (-2) = some t ∧
      (start.after before).step 0 (.move .peek) = (.reply (.token (some t)), start.after before) ∧
      (start.after before).step 0 (.move .advance) =
        (.reply (.token (some t)), (start.after before).set 0 ⟨tokens, -1, true⟩) := by
  intro tokens start before later lone
  obtain ⟨-, -, hforks, -⟩ := run_apart tokens (-3) true (before ++ (0, .fork) :: later)
  obtain ⟨-, -, -, -, hlooks, htaken⟩ := run_apart tokens (-3) true before
  have hparent : (start.after before)[0]? = some ⟨tokens, -2, true⟩ := rfl
  have hlow : -(tokens.length : Int) ≤ -2 := by decide
  refine ⟨hparent, (hforks before 0 later _ rfl hparent).2.1, .mark, hlooks 0 .mark .mark, hlow, ?_⟩
  rcases htaken 0 _ hparent hlow with ⟨hle, -⟩ | ⟨-, hnext⟩
  · exact absurd hle (by decide)
  · exact hnext

end Cursors
end CounterLang
