/-
A failure that is committed is final.

A rule commits itself where it has read enough to be told by.  A failure from there on is
marked when it leaves the block that the rule is committed to, and after that no choice and
no repetition recovers from it: it leaves every rule around, as it is, and it is what the
whole run ends in.  So a run commits itself once or never (`Run.CommitsOnce`).  The journal
shows it, with tracing on: up to the mark no failure in it is committed, and behind the mark
there is nothing but the same failure leaving rules and blocks, and no rule is tried
(`Phrasebook.run_committed`).
-/
import CounterLang.Proofs.Tracing

namespace CounterLang

variable {α β : Type} {r : Run α} {f : Failure}

/-! ## Journals -/

/-- The failure that is final when the event has happened. -/
def Event.final? : Event → Option Failure
  | gaveUp _ f => if f.committed then some f else none
  | committed f => some f
  | _ => none

/-- Nothing in the journal is final. -/
def Journal.Calm (j : Journal) : Prop := ∀ e ∈ j, e.final? = none

/-- All that happens is that the failure leaves rules and blocks. -/
def Journal.Leaves (j : Journal) (f : Failure) : Prop := ∀ e ∈ j, e.final? = some f

theorem Event.final?_gaveUp_eq_none_iff {name : String} :
    (gaveUp name f).final? = none ↔ f.committed = false := by
  cases h : f.committed <;> simp [final?, h]

theorem Event.final?_gaveUp_eq_some_iff {name : String} {g : Failure} :
    (gaveUp name f).final? = some g ↔ f.committed = true ∧ f = g := by
  cases h : f.committed <;> simp [final?, h]

theorem Event.eq_of_final? {e : Event} (h : e.final? = some f) :
    (∃ name, e = gaveUp name f) ∨ e = committed f := by
  cases e with
  | gaveUp name g =>
    obtain ⟨-, rfl⟩ := final?_gaveUp_eq_some_iff.mp h
    exact Or.inl ⟨name, rfl⟩
  | committed g => exact Or.inr (congrArg committed (Option.some.inj h))
  | tried => cases h
  | scanned => cases h
  | readDefinition => cases h
  | readProgram => cases h
  | rejected => cases h

namespace Journal

theorem Calm.append {j k : Journal} (hj : Calm j) (hk : Calm k) : Calm (j ++ k) :=
  List.forall_mem_append.mpr ⟨hj, hk⟩

theorem Leaves.append {j k : Journal} (hj : Leaves j f) (hk : Leaves k f) : Leaves (j ++ k) f :=
  List.forall_mem_append.mpr ⟨hj, hk⟩

/-- A failure that leaves rules and blocks is not worth a line. -/
theorem Leaves.lines {j : Journal} (h : Leaves j f) : j.lines = [] := by
  apply List.filterMap_eq_nil_iff.mpr
  intro e he
  rcases Event.eq_of_final? (h e he) with ⟨name, rfl⟩ | rfl
  · rfl
  · rfl

end Journal

/-! ## Runs -/

/-- Either no failure of the run is ever final, or one is, from where it left the block that
a rule was committed to, and the run ends in it. -/
inductive Run.CommitsOnce (r : Run α) : Prop
  | never (hj : r.journal.Calm) (ho : ∀ f, r.outcome = .failure f → f.committed = false)
  | once (before after : Journal) (f : Failure) (hf : f.committed = true)
      (hj : r.journal = before ++ .committed f :: after) (hbefore : before.Calm)
      (hafter : after.Leaves f) (ho : r.outcome = .failure f)

namespace Run.CommitsOnce

theorem calm (h : r.CommitsOnce) (ho : ∀ f, r.outcome = .failure f → f.committed = false) :
    r.journal.Calm := by
  cases h with
  | never hj _ => exact hj
  | once before after f hf hj hbefore hafter ho' =>
    rw [ho f ho'] at hf
    cases hf

theorem calm_of_value {a : α} (h : r.CommitsOnce) (ho : r.outcome = .value a) :
    r.journal.Calm := by
  apply h.calm
  intro f hf
  rw [ho] at hf
  cases hf

theorem calm_of_abort {b : Abort} (h : r.CommitsOnce) (ho : r.outcome = .abort b) :
    r.journal.Calm := by
  apply h.calm
  intro f hf
  rw [ho] at hf
  cases hf

theorem calm_of_uncommitted (h : r.CommitsOnce) (ho : r.outcome = .failure f)
    (hf : ¬f.committed = true) : r.journal.Calm := by
  apply h.calm
  intro g hg
  rw [ho] at hg
  rw [← Outcome.failure.inj hg]
  exact Bool.eq_false_iff.mpr hf

theorem after {j : Journal} (h : r.CommitsOnce) (hcalm : j.Calm) : (r.after j).CommitsOnce := by
  cases h with
  | never hj ho => exact never (hcalm.append hj) ho
  | once before after f hf hj hbefore hafter ho =>
    refine once (j ++ before) after f hf ?_ (hcalm.append hbefore) hafter ho
    show j ++ r.journal = _
    rw [hj, List.append_assoc]

/-- Whether a run commits itself is a matter of its journal and its failure. -/
theorem congr {r' : Run β} (h : r.CommitsOnce) (hjournal : r'.journal = r.journal)
    (houtcome : ∀ f, r'.outcome = .failure f ↔ r.outcome = .failure f) : r'.CommitsOnce := by
  cases h with
  | never hj ho => exact never (hjournal ▸ hj) fun f hf => ho f ((houtcome f).mp hf)
  | once before after f hf hj hbefore hafter ho =>
    exact once before after f hf (hjournal.trans hj) hbefore hafter ((houtcome f).mpr ho)

theorem map (h : r.CommitsOnce) (g : α → β) : (r.map g).CommitsOnce := by
  obtain ⟨outcome, point, journal⟩ := r
  refine h.congr ?_ fun f => ?_
  · rfl
  · cases outcome <;> simp [Run.map, Outcome.map]

theorem failure (h : r.CommitsOnce) (ho : r.outcome = .failure f) (s : Point) :
    (⟨.failure f, s, r.journal⟩ : Run β).CommitsOnce := by
  refine h.congr ?_ fun g => ?_
  · rfl
  · simp only [ho, Outcome.failure.injEq]

theorem calm_value {j : Journal} (hj : j.Calm) (a : α) (s : Point) :
    (⟨.value a, s, j⟩ : Run α).CommitsOnce := never hj fun _ hf => nomatch hf

theorem calm_abort {j : Journal} (hj : j.Calm) (b : Abort) (s : Point) :
    (⟨.abort b, s, j⟩ : Run α).CommitsOnce := never hj fun _ hf => nomatch hf

theorem calm_failure {j : Journal} (hj : j.Calm) (hf : f.committed = false) (s : Point) :
    (⟨.failure f, s, j⟩ : Run α).CommitsOnce := by
  apply never hj
  intro g hg
  rw [← Outcome.failure.inj hg]
  exact hf

/-- The failure leaves the rule. -/
theorem gaveUp (h : r.CommitsOnce) (ho : r.outcome = .failure f) (name : String) :
    (⟨.failure f, r.point, r.journal ++ [.gaveUp name f]⟩ : Run α).CommitsOnce := by
  cases h with
  | never hj ho' =>
    have hf := ho' f ho
    have hend : Journal.Calm [.gaveUp name f] :=
      List.forall_mem_singleton.mpr (Event.final?_gaveUp_eq_none_iff.mpr hf)
    exact calm_failure (hj.append hend) hf _
  | once before after g hg hj hbefore hafter ho' =>
    obtain rfl : f = g := Outcome.failure.inj (ho.symm.trans ho')
    have hend : Journal.Leaves [.gaveUp name f] f :=
      List.forall_mem_singleton.mpr (Event.final?_gaveUp_eq_some_iff.mpr ⟨hg, rfl⟩)
    refine once before (after ++ [.gaveUp name f]) f hg ?_ hbefore (hafter.append hend) rfl
    show r.journal ++ _ = _
    rw [hj, List.append_assoc, List.cons_append]

/-- The failure leaves the block that a rule is committed to.  It may have left another one
before. -/
theorem committed (h : r.CommitsOnce) (ho : r.outcome = .failure f) :
    (⟨.failure f.commit, r.point, r.journal ++ [.committed f.commit]⟩ : Run α).CommitsOnce := by
  cases h with
  | never hj ho' => exact once r.journal [] f.commit rfl rfl hj (fun _ he => nomatch he) rfl
  | once before after g hg hj hbefore hafter ho' =>
    obtain rfl : f = g := Outcome.failure.inj (ho.symm.trans ho')
    have hcommit : f.commit = f := by rw [Failure.commit, ← hg]
    have hend : Journal.Leaves [.committed f] f := List.forall_mem_singleton.mpr rfl
    refine once before (after ++ [.committed f]) f hg ?_ hbefore (hafter.append hend) ?_
    · show r.journal ++ [.committed f.commit] = _
      rw [hcommit, hj, List.append_assoc, List.cons_append]
    · rw [hcommit]

end Run.CommitsOnce

/-! ## Parsers -/

namespace Parser

variable {p q : Parser α}

def CommitsOnce (p : Parser α) : Prop := ∀ s, (p true s).CommitsOnce

namespace CommitsOnce

open Run.CommitsOnce (calm_value calm_abort calm_failure)

theorem calm_nil : Journal.Calm [] := fun _ he => nomatch he

theorem pure (a : α) : CommitsOnce (Pure.pure a : Parser α) := fun s => calm_value calm_nil a s

theorem abort (b : Abort) : CommitsOnce (Parser.abort b : Parser α) :=
  fun s => calm_abort calm_nil b s

theorem note (name : String) (params statements : Nat) :
    CommitsOnce (Parser.note (.readDefinition name params statements)) := by
  intro s
  have hcalm : Journal.Calm [.readDefinition name params statements] :=
    List.forall_mem_singleton.mpr rfl
  exact calm_value hcalm () s

theorem failHere (name definition reason : String) :
    CommitsOnce (Parser.failHere (Rule.failed name definition reason) : Parser α) :=
  fun s => calm_failure calm_nil rfl s

theorem next (kind : Kind) (read : Token → Option α) : CommitsOnce (Parser.next kind read) := by
  intro s
  obtain ⟨position, ahead⟩ := s
  cases ahead with
  | nil => exact calm_failure calm_nil rfl _
  | cons t rest =>
    cases hread : read t with
    | none =>
      simp only [Parser.next, hread]
      exact calm_failure calm_nil rfl _
    | some a =>
      simp only [Parser.next, hread]
      exact calm_value calm_nil a _

theorem bind {f : α → Parser β} (hp : CommitsOnce p) (hf : ∀ a, CommitsOnce (f a)) :
    CommitsOnce (p >>= f) := by
  intro s
  show (Parser.bind p f true s).CommitsOnce
  have hrun := hp s
  cases ho : (p true s).outcome with
  | value a =>
    simp only [Parser.bind, ho]
    exact (hf a _).after (hrun.calm_of_value ho)
  | failure e =>
    simp only [Parser.bind, ho]
    exact hrun.failure ho _
  | abort b =>
    simp only [Parser.bind, ho]
    exact calm_abort (hrun.calm_of_abort ho) b _

theorem refine {check : α → Option β} {fault : α → Int → Failure} (hp : CommitsOnce p)
    (hfault : ∀ a i, (fault a i).committed = false) : CommitsOnce (p.refine check fault) := by
  intro s
  have hrun := hp s
  cases ho : (p true s).outcome with
  | value a =>
    have hcalm := hrun.calm_of_value ho
    cases hcheck : check a with
    | some b =>
      simp only [Parser.refine, ho, hcheck]
      exact calm_value hcalm b _
    | none =>
      simp only [Parser.refine, ho, hcheck]
      exact calm_failure hcalm (hfault a s.position) _
  | failure e =>
    simp only [Parser.refine, ho]
    exact hrun.failure ho _
  | abort b =>
    simp only [Parser.refine, ho]
    exact calm_abort (hrun.calm_of_abort ho) b _

theorem committed (hp : CommitsOnce p) : CommitsOnce (Parser.committed p) := by
  intro s
  have hrun := hp s
  cases ho : (p true s).outcome with
  | value a => simp only [Parser.committed, ho]; exact hrun
  | abort b => simp only [Parser.committed, ho]; exact hrun
  | failure e =>
    simp only [Parser.committed, ho, if_true]
    exact hrun.committed ho

theorem orElse (hp : CommitsOnce p) (hq : CommitsOnce q) : CommitsOnce (p.orElse q) := by
  intro s
  have hrun := hp s
  cases ho : (p true s).outcome with
  | value a => simp only [Parser.orElse, ho]; exact hrun
  | abort b => simp only [Parser.orElse, ho]; exact hrun
  | failure e =>
    by_cases he : e.committed = true
    · simp only [Parser.orElse, ho, if_pos he]
      exact hrun
    · simp only [Parser.orElse, ho, if_neg he]
      exact (hq s).after (hrun.calm_of_uncommitted ho he)

theorem many {stuck : Int → Failure} (hp : CommitsOnce p)
    (hstuck : ∀ i, (stuck i).committed = false) : CommitsOnce (Parser.many p stuck) := by
  intro s
  induction s using Parser.many.induct p true with
  | case1 s r a ho hlt ih =>
    rw [many_of_value ho hlt]
    exact (ih.map _).after ((hp s).calm_of_value ho)
  | case2 s r a ho hle =>
    rw [many_of_no_progress ho hle]
    exact calm_failure ((hp s).calm_of_value ho) (hstuck s.position) _
  | case3 s r e ho he =>
    rw [many_of_committed ho he]
    exact (hp s).failure ho _
  | case4 s r e ho he =>
    rw [many_of_uncommitted ho he]
    exact calm_value ((hp s).calm_of_uncommitted ho he) [] s
  | case5 s r b ho =>
    rw [many_of_abort ho]
    exact calm_abort ((hp s).calm_of_abort ho) b _

theorem parse {rule : Rule α} (h : CommitsOnce rule.body) : CommitsOnce rule.parse := by
  intro s
  have hrun := h s
  have htried : Journal.Calm [.tried rule.name s.position] := List.forall_mem_singleton.mpr rfl
  cases ho : (rule.body true s).outcome with
  | value a =>
    simp only [Rule.parse, if_true, ho, List.append_nil]
    exact (calm_value (hrun.calm_of_value ho) a _).after htried
  | abort b =>
    simp only [Rule.parse, if_true, ho, List.append_nil]
    exact (calm_abort (hrun.calm_of_abort ho) b _).after htried
  | failure e =>
    simp only [Rule.parse, if_true, ho]
    exact (hrun.gaveUp ho rule.name).after htried

end CommitsOnce

theorem closed_commitsOnce : Closed CommitsOnce where
  pure := CommitsOnce.pure
  bind := CommitsOnce.bind
  endless := CommitsOnce.abort .endless
  next := CommitsOnce.next
  note := CommitsOnce.note
  paramType := (CommitsOnce.parse (CommitsOnce.next _ _)).refine fun _ _ => rfl
  committed := CommitsOnce.committed
  orElse := CommitsOnce.orElse
  failHere name definition := CommitsOnce.failHere name definition _
  many _ _ _ hp := hp.many fun _ => rfl
  parse := CommitsOnce.parse

end Parser

/-! ## Attempts -/

/-- The last that happens in a trial that fails is that the failure leaves the rule. -/
theorem Rule.journal_parse_of_failure {rule : Rule α} {s : Point}
    (h : (rule.parse true s).outcome = .failure f) :
    ∃ before, (rule.parse true s).journal = before ++ [.gaveUp rule.name f] := by
  have ho : (rule.body true s).outcome = .failure f := h
  refine ⟨.tried rule.name s.position :: (rule.body true s).journal, ?_⟩
  simp only [Rule.parse, if_true, ho]
  rfl

/-- What stands behind a calm beginning, unless it is calm itself. -/
theorem Journal.Calm.exists_append {before after calm rest : Journal} {e : Event}
    (hcalm : calm.Calm) (he : e.final? ≠ none) (h : before ++ e :: after = calm ++ rest) :
    ∃ mid, before = calm ++ mid ∧ rest = mid ++ e :: after := by
  rcases List.append_eq_append_iff.mp h with ⟨mid, rfl, hrest⟩ | ⟨mid, hbefore, hrest⟩
  · cases mid with
    | nil => exact ⟨[], by simp, by simpa using hrest.symm⟩
    | cons e' mid =>
      obtain rfl : e = e' := (List.cons.inj hrest).1
      exact absurd (hcalm e (by simp)) he
  · exact ⟨mid, hbefore, hrest⟩

namespace Run.CommitsOnce

variable {before after : Journal} {name : String}

/-- Behind an event that tells of a final failure, all that happens is that it leaves what is
around, and the run ends in it. -/
theorem of_final {e : Event} (h : r.CommitsOnce) (hj : r.journal = before ++ e :: after)
    (he : e.final? = some f) :
    r.outcome = .failure f ∧ after.Leaves f ∧ (e = .committed f ∨ .committed f ∈ before) := by
  have hne : e.final? ≠ none := by
    rw [he]
    exact Option.some_ne_none f
  cases h with
  | never hcalm _ => exact absurd (hcalm e (by rw [hj]; simp)) hne
  | once calm leaving g hg hj' hcalm hleaves ho =>
    obtain ⟨mid, rfl, hrest⟩ := hcalm.exists_append hne (hj.symm.trans hj')
    cases mid with
    | nil =>
      obtain ⟨rfl, rfl⟩ := List.cons.inj hrest
      obtain rfl : g = f := Option.some.inj he
      exact ⟨ho, hleaves, Or.inl rfl⟩
    | cons e' mid =>
      obtain ⟨rfl, rfl⟩ := List.cons.inj hrest
      obtain rfl : g = f := by
        rw [← Option.some.injEq, ← hleaves e (by simp), he]
      exact ⟨ho, fun e' he' => hleaves e' (by simp [he']), Or.inr (by simp)⟩

/-- A failure that leaves a rule is committed if it has left a block before, and then no other
failure has. -/
theorem mem_before_iff (h : r.CommitsOnce) (hj : r.journal = before ++ .gaveUp name f :: after)
    (g : Failure) : .committed g ∈ before ↔ f.committed = true ∧ g = f := by
  constructor
  · intro hmem
    obtain ⟨first, second, rfl⟩ := List.append_of_mem hmem
    have hsplit : r.journal = first ++ .committed g :: (second ++ .gaveUp name f :: after) := by
      rw [hj, List.append_assoc, List.cons_append]
    obtain ⟨-, hleaves, -⟩ := h.of_final hsplit rfl
    have hfinal := hleaves (.gaveUp name f) (by simp)
    obtain ⟨hf, rfl⟩ := Event.final?_gaveUp_eq_some_iff.mp hfinal
    exact ⟨hf, rfl⟩
  · rintro ⟨hf, rfl⟩
    obtain ⟨-, -, hblock⟩ := h.of_final hj (Event.final?_gaveUp_eq_some_iff.mpr ⟨hf, rfl⟩)
    exact hblock.resolve_left nofun

end Run.CommitsOnce

namespace Phrasebook

/-- Whatever failure has become final on the way, the run ends in it and tries nothing more. -/
theorem run_committed (book : Phrasebook) (depth : Nat) (phrase : Phrase) (t : List Token)
    (p : Nat) :
    let rule := phrase.rule (book.parseWithin depth)
    ∃ on off : Run Datum,
      (⟨t, p, true⟩ : Cursor).run rule = .ok on ∧ (⟨t, p, false⟩ : Cursor).run rule = .ok off ∧
      off.outcome = on.outcome ∧
      (∀ f, on.outcome = .failure f →
        ∃ before, on.journal = before ++ [.gaveUp rule.name f]) ∧
      (∀ before name f after, on.journal = before ++ .gaveUp name f :: after →
        f.committed = true →
        on.outcome = .failure f ∧
        (∀ e ∈ after, (∃ name, e = .gaveUp name f) ∨ e = .committed f) ∧
        Journal.lines after = []) ∧
      ((∀ f, on.outcome = .failure f → f.committed = false) →
        ∀ name f, .gaveUp name f ∈ on.journal → f.committed = false) ∧
      ∀ before name f after, on.journal = before ++ .gaveUp name f :: after →
        ∀ g, .committed g ∈ before ↔ f.committed = true ∧ g = f := by
  intro rule
  have hsilent : rule.parse false ⟨p, t.drop p⟩ = (rule.parse true ⟨p, t.drop p⟩).untraced :=
    book.silent Grammar.nestingLimit depth phrase ⟨p, t.drop p⟩
  have hcommits : (rule.parse true ⟨p, t.drop p⟩).CommitsOnce :=
    Parser.closed_commitsOnce.phrasebook book (fun name _ => .abort (.unknownRule name)) depth
      phrase ⟨p, t.drop p⟩
  refine ⟨rule.parse true ⟨p, t.drop p⟩, rule.parse false ⟨p, t.drop p⟩,
    Cursor.run_natCast t p true rule, Cursor.run_natCast t p false rule, ?_,
    fun f => Rule.journal_parse_of_failure, ?_, ?_, ?_⟩
  · rw [hsilent]
    rfl
  · intro before name f after hj hf
    obtain ⟨ho, hleaves, -⟩ :=
      hcommits.of_final hj (Event.final?_gaveUp_eq_some_iff.mpr ⟨hf, rfl⟩)
    exact ⟨ho, fun e he => Event.eq_of_final? (hleaves e he), hleaves.lines⟩
  · intro ho name f hmem
    exact Event.final?_gaveUp_eq_none_iff.mp (hcommits.calm ho _ hmem)
  · intro before name f after hj g
    exact hcommits.mem_before_iff hj g

/-- A statement that is committed to and then broken off, in a choice that could read its
first word as well, in a repetition that has read one word before. -/
theorem run_committed_jez :
    let t : List Token := [.text "a", .keyword .jez, .text "r", .keyword .close]
    let phrase : Phrase := .star (.oneOf [.production .jez, .word] "" "") "" ""
    let f : Failure :=
      { cause := .unexpectedToken "text" (.token (.keyword .close)), position := some 3,
        committed := true }
    ∃ (r : Run Datum) (before after : Journal),
      (⟨t, (0 : Nat), true⟩ : Cursor).run (phrase.rule (parseWithin [] 0)) = .ok r ∧
      r.journal = before ++ .gaveUp "jez" f :: after ∧ r.outcome = .failure f ∧
      .committed f ∈ before ∧ Journal.lines after = [] ∧ after.length = 2 := by
  intro t phrase f
  obtain ⟨r, -, hrun, -, -, -, hfinal, -, hmem⟩ := run_committed [] 0 phrase t 0
  have hjournal : r.journal =
      r.journal.take 14 ++ .gaveUp "jez" f :: r.journal.drop 15 := by
    rw [← Except.ok.inj hrun]
    decide +kernel
  have hlength : (r.journal.drop 15).length = 2 := by
    rw [← Except.ok.inj hrun]
    decide +kernel
  obtain ⟨houtcome, -, hlines⟩ := hfinal _ _ _ _ hjournal rfl
  exact ⟨r, _, _, hrun, hjournal, houtcome, (hmem _ _ _ _ hjournal f).mpr ⟨rfl, rfl⟩, hlines,
    hlength⟩

end Phrasebook
end CounterLang
