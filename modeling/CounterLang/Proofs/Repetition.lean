/-
Repetitions, told by the tokens ahead.

A repetition reads entries one after the other.  Where every entry is read whatever comes
after it, the entries at the front of the tokens fall away one by one, and what the
repetition comes to is decided by the tokens behind the last of them.  This is said once
for each relation of `Proofs/Parser`, first for one entry and then for a list of them.

There are two repetitions: `many` ends at the first failure that can be backtracked over,
and `untilEnd` at the last token.
-/
import CounterLang.Proofs.Parser

namespace CounterLang
namespace Parser

variable {p : Parser α} {u v rest t : List Token} {a : α} {as : List α}
  {f stuck : Int → Failure}

theorem length_lt_append (hu : u ≠ []) (t : List Token) : t.length < (u ++ t).length := by
  have hpos : 0 < u.length := List.length_pos_iff.mpr hu
  rw [List.length_append]
  omega

/-! ## One run of an entry

What a repetition does is decided by how the entry ends. -/

section Run

variable {tracing : Bool} {s : Point} {e : Failure} {b : Abort}

theorem many_of_value (ho : (p tracing s).outcome = .value a)
    (hlt : (p tracing s).point.ahead.length < s.ahead.length) :
    many p stuck tracing s =
      ((many p stuck tracing (p tracing s).point).map (a :: ·)).after (p tracing s).journal := by
  rw [many]
  simp only [ho, if_pos hlt]

theorem many_of_no_progress (ho : (p tracing s).outcome = .value a)
    (hle : ¬(p tracing s).point.ahead.length < s.ahead.length) :
    many p stuck tracing s =
      ⟨.failure (stuck s.position), (p tracing s).point, (p tracing s).journal⟩ := by
  rw [many]
  simp only [ho, if_neg hle]

theorem many_of_committed (ho : (p tracing s).outcome = .failure e) (he : e.committed = true) :
    many p stuck tracing s = ⟨.failure e, (p tracing s).point, (p tracing s).journal⟩ := by
  rw [many]
  simp only [ho, if_pos he]

theorem many_of_uncommitted (ho : (p tracing s).outcome = .failure e)
    (he : ¬e.committed = true) :
    many p stuck tracing s = ⟨.value [], s, (p tracing s).journal⟩ := by
  rw [many]
  simp only [ho, if_neg he]

theorem many_of_abort (ho : (p tracing s).outcome = .abort b) :
    many p stuck tracing s = ⟨.abort b, (p tracing s).point, (p tracing s).journal⟩ := by
  rw [many]
  simp only [ho]

theorem untilEnd_of_end (hs : s.ahead = []) : untilEnd p tracing s = ⟨.value [], s, []⟩ := by
  rw [untilEnd, if_pos hs]

theorem untilEnd_of_value (hs : ¬s.ahead = []) (ho : (p tracing s).outcome = .value a)
    (hlt : (p tracing s).point.ahead.length < s.ahead.length) :
    untilEnd p tracing s =
      ((untilEnd p tracing (p tracing s).point).map (a :: ·)).after (p tracing s).journal := by
  rw [untilEnd, if_neg hs]
  simp only [ho, if_pos hlt]

theorem untilEnd_of_no_progress (hs : ¬s.ahead = []) (ho : (p tracing s).outcome = .value a)
    (hle : ¬(p tracing s).point.ahead.length < s.ahead.length) :
    untilEnd p tracing s = ⟨.abort .endless, (p tracing s).point, (p tracing s).journal⟩ := by
  rw [untilEnd, if_neg hs]
  simp only [ho, if_neg hle]

theorem untilEnd_of_failure (hs : ¬s.ahead = []) (ho : (p tracing s).outcome = .failure e) :
    untilEnd p tracing s = ⟨.failure e, (p tracing s).point, (p tracing s).journal⟩ := by
  rw [untilEnd, if_neg hs]
  simp only [ho]

theorem untilEnd_of_abort (hs : ¬s.ahead = []) (ho : (p tracing s).outcome = .abort b) :
    untilEnd p tracing s = ⟨.abort b, (p tracing s).point, (p tracing s).journal⟩ := by
  rw [untilEnd, if_neg hs]
  simp only [ho]

end Run

/-! ## One entry -/

theorem Passes.reads_many (hp : Passes p rest) : Reads (many p stuck) [] rest [] := by
  intro tracing pos
  obtain ⟨e, ho, he⟩ := hp tracing pos
  rw [many]
  simp [ho, he]

theorem Refuses.many (hp : Refuses p u rest f) (hf : ∀ i, (f i).committed = true) :
    Refuses (many p stuck) u rest f := by
  intro tracing pos
  have ho := hp tracing pos
  rw [Parser.many]
  simp [ho, hf]

theorem Aborts.many (hp : Aborts p u rest) : Aborts (many p stuck) u rest := by
  intro tracing pos
  obtain ⟨ho, hs⟩ := hp tracing pos
  rw [Parser.many]
  simp only [ho]
  exact ⟨trivial, hs⟩

/-- The repetition goes on behind an entry. -/
theorem Reads.many_step (hp : Reads p u t a) (hu : u ≠ []) (stuck : Int → Failure)
    (tracing : Bool) (pos : Int) :
    (many p stuck tracing ⟨pos, u ++ t⟩).outcome =
        (many p stuck tracing ⟨pos + u.length, t⟩).outcome.map (a :: ·) ∧
      (many p stuck tracing ⟨pos, u ++ t⟩).point =
        (many p stuck tracing ⟨pos + u.length, t⟩).point := by
  obtain ⟨ho, hs⟩ := hp tracing pos
  have hlt := length_lt_append hu t
  rw [many]
  simp only [ho, hs, hlt, if_true, Run.after, Run.map]
  exact ⟨trivial, trivial⟩

theorem Reads.many_cons (hp : Reads p u (v ++ rest) a) (hu : u ≠ [])
    (h : Reads (many p stuck) v rest as) : Reads (many p stuck) (u ++ v) rest (a :: as) := by
  intro tracing pos
  obtain ⟨ho, hs⟩ := hp.many_step hu stuck tracing pos
  obtain ⟨ho', hs'⟩ := h tracing (pos + u.length)
  rw [List.append_assoc, ho, hs, ho', hs', pos_add_append]
  exact ⟨rfl, rfl⟩

theorem Reads.many_refuses (hp : Reads p u (v ++ rest) a) (hu : u ≠ [])
    (h : Refuses (many p stuck) v rest f) : Refuses (many p stuck) (u ++ v) rest f := by
  intro tracing pos
  obtain ⟨ho, -⟩ := hp.many_step hu stuck tracing pos
  rw [List.append_assoc, ho, h tracing (pos + u.length), pos_add_append]
  rfl

theorem Reads.many_aborts (hp : Reads p u (v ++ rest) a) (hu : u ≠ [])
    (h : Aborts (many p stuck) v rest) : Aborts (many p stuck) (u ++ v) rest := by
  intro tracing pos
  obtain ⟨ho, hs⟩ := hp.many_step hu stuck tracing pos
  obtain ⟨ho', hs'⟩ := h tracing (pos + u.length)
  rw [List.append_assoc, ho, hs, ho', hs', pos_add_append]
  exact ⟨rfl, rfl⟩

/-! ## Lists of entries -/

/-- Each entry has a form, not empty, in which it is read whatever comes after. -/
def ReadsEach (p : Parser α) (form : α → List Token) (as : List α) : Prop :=
  ∀ a ∈ as, form a ≠ [] ∧ ∀ rest, Reads p (form a) rest a

theorem ReadsEach.cons {form : α → List Token} (h : ReadsEach p form (a :: as)) :
    (form a ≠ [] ∧ ∀ rest, Reads p (form a) rest a) ∧ ReadsEach p form as :=
  ⟨h a List.mem_cons_self, fun b hb => h b (List.mem_cons_of_mem a hb)⟩

variable {form : α → List Token}

theorem ReadsEach.reads_many (has : ReadsEach p form as) (hp : Passes p rest) :
    Reads (many p stuck) (as.flatMap form) rest as := by
  induction as with
  | nil => exact hp.reads_many
  | cons a as ih =>
    obtain ⟨⟨hne, ha⟩, has⟩ := has.cons
    exact (ha _).many_cons hne (ih has)

theorem ReadsEach.refuses_many (has : ReadsEach p form as)
    (h : Refuses (many p stuck) u rest f) :
    Refuses (many p stuck) (as.flatMap form ++ u) rest f := by
  induction as with
  | nil => exact h
  | cons a as ih =>
    obtain ⟨⟨hne, ha⟩, has⟩ := has.cons
    rw [List.flatMap_cons, List.append_assoc]
    exact (ha _).many_refuses hne (ih has)

theorem ReadsEach.aborts_many (has : ReadsEach p form as)
    (h : Aborts (many p stuck) u rest) :
    Aborts (many p stuck) (as.flatMap form ++ u) rest := by
  induction as with
  | nil => exact h
  | cons a as ih =>
    obtain ⟨⟨hne, ha⟩, has⟩ := has.cons
    rw [List.flatMap_cons, List.append_assoc]
    exact (ha _).many_aborts hne (ih has)

/-! ## Up to the last token -/

theorem reads_untilEnd_nil : Reads (untilEnd p) [] [] [] := by
  intro tracing pos
  rw [untilEnd]
  simp

theorem Refuses.untilEnd (hp : Refuses p u rest f) (hne : u ++ rest ≠ []) :
    Refuses (untilEnd p) u rest f := by
  intro tracing pos
  have ho := hp tracing pos
  rw [Parser.untilEnd]
  simp only [ho, hne, if_false]

theorem Aborts.untilEnd (hp : Aborts p u rest) (hne : u ++ rest ≠ []) :
    Aborts (untilEnd p) u rest := by
  intro tracing pos
  obtain ⟨ho, hs⟩ := hp tracing pos
  rw [Parser.untilEnd]
  simp only [ho, hne, if_false]
  exact ⟨trivial, hs⟩

theorem Reads.untilEnd_step (hp : Reads p u t a) (hu : u ≠ []) (tracing : Bool) (pos : Int) :
    (untilEnd p tracing ⟨pos, u ++ t⟩).outcome =
        (untilEnd p tracing ⟨pos + u.length, t⟩).outcome.map (a :: ·) ∧
      (untilEnd p tracing ⟨pos, u ++ t⟩).point =
        (untilEnd p tracing ⟨pos + u.length, t⟩).point := by
  obtain ⟨ho, hs⟩ := hp tracing pos
  have hlt := length_lt_append hu t
  have hne : u ++ t ≠ [] := by simp [hu]
  rw [untilEnd]
  simp only [ho, hs, hlt, hne, if_true, if_false, Run.after, Run.map]
  exact ⟨trivial, trivial⟩

theorem Reads.untilEnd_cons (hp : Reads p u v a) (hu : u ≠ [])
    (h : Reads (untilEnd p) v [] as) : Reads (untilEnd p) (u ++ v) [] (a :: as) := by
  intro tracing pos
  obtain ⟨ho, hs⟩ := hp.untilEnd_step hu tracing pos
  have h' := h tracing (pos + u.length)
  rw [List.append_nil] at h' ⊢
  rw [ho, hs, h'.1, h'.2, pos_add_append]
  exact ⟨rfl, rfl⟩

theorem Reads.untilEnd_refuses (hp : Reads p u (v ++ rest) a) (hu : u ≠ [])
    (h : Refuses (untilEnd p) v rest f) : Refuses (untilEnd p) (u ++ v) rest f := by
  intro tracing pos
  obtain ⟨ho, -⟩ := hp.untilEnd_step hu tracing pos
  rw [List.append_assoc, ho, h tracing (pos + u.length), pos_add_append]
  rfl

theorem Reads.untilEnd_aborts (hp : Reads p u (v ++ rest) a) (hu : u ≠ [])
    (h : Aborts (untilEnd p) v rest) : Aborts (untilEnd p) (u ++ v) rest := by
  intro tracing pos
  obtain ⟨ho, hs⟩ := hp.untilEnd_step hu tracing pos
  obtain ⟨ho', hs'⟩ := h tracing (pos + u.length)
  rw [List.append_assoc, ho, hs, ho', hs', pos_add_append]
  exact ⟨rfl, rfl⟩

theorem ReadsEach.reads_untilEnd (has : ReadsEach p form as) :
    Reads (untilEnd p) (as.flatMap form) [] as := by
  induction as with
  | nil => exact reads_untilEnd_nil
  | cons a as ih =>
    obtain ⟨⟨hne, ha⟩, has⟩ := has.cons
    exact (ha _).untilEnd_cons hne (ih has)

theorem ReadsEach.refuses_untilEnd (has : ReadsEach p form as)
    (h : Refuses (untilEnd p) u rest f) :
    Refuses (untilEnd p) (as.flatMap form ++ u) rest f := by
  induction as with
  | nil => exact h
  | cons a as ih =>
    obtain ⟨⟨hne, ha⟩, has⟩ := has.cons
    rw [List.flatMap_cons, List.append_assoc]
    exact (ha _).untilEnd_refuses hne (ih has)

theorem ReadsEach.aborts_untilEnd (has : ReadsEach p form as)
    (h : Aborts (untilEnd p) u rest) :
    Aborts (untilEnd p) (as.flatMap form ++ u) rest := by
  induction as with
  | nil => exact h
  | cons a as ih =>
    obtain ⟨⟨hne, ha⟩, has⟩ := has.cons
    rw [List.flatMap_cons, List.append_assoc]
    exact (ha _).untilEnd_aborts hne (ih has)

end Parser
end CounterLang
