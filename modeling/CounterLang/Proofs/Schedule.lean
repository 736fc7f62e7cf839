/-
Several scans of one text, under any schedule.

The scans that have been started of a text are asked for their next tokens in any order.  Each
answers as if it were the only one: its replies are the tokens of the text, one after the
other, then the refusal of the first piece that cannot be read if there is one, and from then
on that it has ended (`Scans.run_delivers`).

A step changes no scan but the one that it asks, and what a scan has still to give is known by
how often it has been asked since it was started.  This is what a run keeps, whatever the
schedule.

A scan need not know its pieces beforehand.  One that passes the text character by character
is put off in the middle of it, and where a mark has ended a word it owes the mark.  Such
passages give the same replies to the same steps.
-/
import CounterLang.Proofs.ScanLimit

namespace CounterLang

variable {text : String} {ts : List Token} {e : Numeral.TooLong}

/-! ## What a scan gives -/

namespace Scan

/-- What becomes of pieces that are read one after the other.  Nothing comes behind a refusal. -/
def itemsOf : List String → List (Except Numeral.TooLong Token)
  | [] => []
  | piece :: rest =>
    match Token.ofWord piece with
    | .ok t => .ok t :: itemsOf rest
    | .error e => [.error e]

/-- All that the scan has still to give. -/
def items (s : Scan) : List (Except Numeral.TooLong Token) := itemsOf s.ahead

theorem next_of_ok {piece : String} {rest : List String} {t : Token}
    (h : Token.ofWord piece = .ok t) :
    (⟨piece :: rest⟩ : Scan).next = (some (.ok t), ⟨rest⟩) := by
  simp only [next, h]

theorem next_of_error {piece : String} {rest : List String} (h : Token.ofWord piece = .error e) :
    (⟨piece :: rest⟩ : Scan).next = (some (.error e), ⟨[]⟩) := by
  simp only [next, h]

theorem itemsOf_of_ok {piece : String} {rest : List String} {t : Token}
    (h : Token.ofWord piece = .ok t) : itemsOf (piece :: rest) = .ok t :: itemsOf rest := by
  rw [itemsOf, h]

theorem itemsOf_of_error {piece : String} {rest : List String}
    (h : Token.ofWord piece = .error e) : itemsOf (piece :: rest) = [.error e] := by
  rw [itemsOf, h]

/-- A scan gives the first item that it has still to give, and keeps the others. -/
theorem next_items (s : Scan) : s.next.1 = s.items.head? ∧ s.next.2.items = s.items.tail := by
  obtain ⟨ahead⟩ := s
  cases ahead with
  | nil => exact ⟨rfl, rfl⟩
  | cons piece rest =>
    cases h : Token.ofWord piece with
    | ok t =>
      rw [next_of_ok h, items, items, itemsOf_of_ok h]
      exact ⟨rfl, rfl⟩
    | error e =>
      rw [next_of_error h, items, items, itemsOf_of_error h]
      exact ⟨rfl, rfl⟩

theorem itemsOf_append {before : List String} (h : before.map Token.ofWord = ts.map .ok)
    (rest : List String) : itemsOf (before ++ rest) = ts.map .ok ++ itemsOf rest := by
  induction before generalizing ts with
  | nil =>
    obtain rfl : ts = [] := List.map_eq_nil_iff.mp h.symm
    rfl
  | cons piece before ih =>
    obtain ⟨t, ts, rfl, ht, hts⟩ := List.map_eq_cons_iff.mp h.symm
    rw [List.cons_append, itemsOf_of_ok ht.symm, List.map_cons, List.cons_append, ih hts.symm]

end Scan

/-- The replies to a scan that is asked until it has nothing more to give: the tokens of the
text, or those before the first piece that is refused and then the refusal. -/
inductive Delivers (text : String) : List Scans.Reply → Prop
  | tokens {ts : List Token} (h : tokensOf text = .ok ts) : Delivers text (ts.map .token)
  | refusal {before after : List String} {word : String} {ts : List Token} {e : Numeral.TooLong}
    (hpieces : pieces text.toList = before ++ word :: after)
    (hbefore : before.map Token.ofWord = ts.map .ok) (hword : Token.ofWord word = .error e)
    (h : tokensOf text = .error e) : Delivers text (ts.map .token ++ [.tooLong e])

namespace Scans

/-- The replies in store for a scan that has not been asked yet. -/
def store (text : String) : List Reply := (Scan.start text).items.map Reply.ofItem

theorem delivers_store (text : String) : Delivers text (store text) := by
  rcases mapM_ok_or_error Token.ofWord (pieces text.toList) with
    ⟨ts, hts, hmap⟩ | ⟨before, word, after, ts, e, hpieces, hbefore, hword, herror⟩
  · have hitems := Scan.itemsOf_append hmap []
    rw [List.append_nil, Scan.itemsOf, List.append_nil] at hitems
    have hstore : store text = ts.map .token := by
      rw [store, Scan.items, Scan.start, hitems, List.map_map]
      rfl
    rw [hstore]
    exact Delivers.tokens hts
  · have hitems := Scan.itemsOf_append hbefore (word :: after)
    rw [Scan.itemsOf_of_error hword] at hitems
    have hstore : store text = ts.map .token ++ [.tooLong e] := by
      rw [store, Scan.items, Scan.start, hpieces, hitems, List.map_append, List.map_map]
      rfl
    rw [hstore]
    exact Delivers.refusal hpieces hbefore hword herror

/-! ## One step -/

variable {s : Scans} {scan : Scan} {k : Nat}

theorem step_next_fst (h : s.scans[k]? = some scan) :
    (s.step (.next k)).1 = (scan.items.head?.map Reply.ofItem).getD .ended := by
  rw [← (Scan.next_items scan).1]
  simp only [step, h]
  cases scan.next.1 with
  | none => rfl
  | some item =>
    cases item with
    | ok t => rfl
    | error e => rfl

theorem step_next_snd (h : s.scans[k]? = some scan) :
    (s.step (.next k)).2 = { s with scans := s.scans.set k scan.next.2 } := by
  simp only [step, h]

theorem step_text (s : Scans) (step : Step) : (s.step step).2.text = s.text := by
  cases step with
  | start => rfl
  | next j =>
    cases h : s.scans[j]? with
    | none => simp only [Scans.step, h]
    | some scan => simp only [Scans.step, h]

theorem length_scans_step (s : Scans) (step : Step) :
    (s.step step).2.scans.length = s.scans.length + [step].count .start := by
  cases step with
  | start => exact List.length_append
  | next j =>
    cases h : s.scans[j]? with
    | none => simp only [Scans.step, h]; rfl
    | some scan => simp only [Scans.step, h, List.length_set]; rfl

/-- No scan gets ahead but the one that is asked. -/
theorem getElem?_scans_step (h : s.scans[k]? = some scan) (step : Step) :
    ∃ scan', (s.step step).2.scans[k]? = some scan' ∧
      scan'.items = scan.items.drop ([step].count (.next k)) := by
  cases step with
  | start =>
    refine ⟨scan, ?_, rfl⟩
    exact (List.getElem?_append_left (List.getElem?_eq_some_iff.mp h).1).trans h
  | next j =>
    by_cases hj : j = k
    · subst hj
      refine ⟨scan.next.2, ?_, ?_⟩
      · simp only [Scans.step, h]
        exact List.getElem?_set_self (List.getElem?_eq_some_iff.mp h).1
      · rw [(Scan.next_items scan).2, List.count_singleton_self, List.drop_one]
    · have hcount : [Step.next j].count (.next k) = 0 := by
        rw [List.count_eq_zero, List.mem_singleton, Step.next.injEq]
        exact fun hk => hj hk.symm
      refine ⟨scan, ?_, by rw [hcount, List.drop_zero]⟩
      cases hscan : s.scans[j]? with
      | none => simp only [Scans.step, hscan, h]
      | some other => simp only [Scans.step, hscan, List.getElem?_set_ne hj, h]

/-! ## Runs -/

/-- The scans as they are after a sequence of steps. -/
def after (s : Scans) (steps : List Step) : Scans := steps.foldl (fun s step => (s.step step).2) s

theorem length_run (s : Scans) (steps : List Step) : (s.run steps).length = steps.length := by
  induction steps generalizing s with
  | nil => rfl
  | cons step steps ih => exact congrArg (· + 1) (ih (s.step step).2)

/-- The reply to a step is the one of the scans as the steps before it leave them. -/
theorem getElem?_run (s : Scans) (before after : List Step) (step : Step) :
    (s.run (before ++ step :: after))[before.length]? = some ((s.after before).step step).1 := by
  induction before generalizing s with
  | nil => rfl
  | cons first before ih => exact ih (s.step first).2

theorem text_after (s : Scans) (steps : List Step) : (s.after steps).text = s.text := by
  induction steps generalizing s with
  | nil => rfl
  | cons step steps ih => exact (ih (s.step step).2).trans (s.step_text step)

theorem count_first (counted step : Step) (steps : List Step) :
    (step :: steps).count counted = [step].count counted + steps.count counted := by
  rw [List.count_cons, List.count_singleton, Nat.add_comm]

theorem length_scans_after (s : Scans) (steps : List Step) :
    (s.after steps).scans.length = s.scans.length + steps.count .start := by
  induction steps generalizing s with
  | nil => rfl
  | cons step steps ih =>
    rw [count_first _ step steps, ← Nat.add_assoc, ← length_scans_step]
    exact ih (s.step step).2

theorem getElem?_scans_after (h : s.scans[k]? = some scan) (steps : List Step) :
    ∃ scan', (s.after steps).scans[k]? = some scan' ∧
      scan'.items = scan.items.drop (steps.count (.next k)) := by
  induction steps generalizing s scan with
  | nil => exact ⟨scan, h, rfl⟩
  | cons step steps ih =>
    obtain ⟨next, hnext, hitems⟩ := getElem?_scans_step h step
    obtain ⟨scan', hscan', hitems'⟩ := ih hnext
    refine ⟨scan', hscan', ?_⟩
    rw [hitems', hitems, List.drop_drop, count_first _ step steps]

/-- A scan that has been started is the last of the scans, and has everything still to give. -/
theorem getElem?_scans_start (s : Scans) (steps : List Step) :
    ((s.after steps).step .start).2.scans[s.scans.length + steps.count .start]? =
      some (Scan.start s.text) := by
  rw [← length_scans_after, ← text_after s steps]
  exact List.getElem?_concat_length

end Scans

/-! ## Passing the text character by character -/

namespace Passage

/-- The pieces that are still to come, the mark that is owed before all others. -/
def scan (p : Passage) : Scan :=
  ⟨((p.owed.toList.map fun c => [c]) ++ piecesAfter [] p.rest).map String.ofList⟩

theorem scan_start (text : String) : (start text).scan = Scan.start text := rfl

theorem next_give (piece : List Char) (later : Passage) :
    (⟨String.ofList piece :: later.scan.ahead⟩ : Scan).next =
      ((give piece later).1, (give piece later).2.scan) := by
  cases h : Token.ofWord (String.ofList piece) with
  | ok t =>
    rw [Scan.next_of_ok h, give, h]
  | error e =>
    rw [Scan.next_of_error h, give, h]
    rfl

theorem next_pass (word rest : List Char) :
    (⟨(piecesAfter word rest).map String.ofList⟩ : Scan).next =
      ((pass word rest).1, (pass word rest).2.scan) := by
  induction rest generalizing word with
  | nil =>
    rw [piecesAfter, piecesAfter.flush, pass]
    by_cases hword : word = []
    · rw [if_pos hword, if_pos hword]
      rfl
    · rw [if_neg hword, if_neg hword]
      exact next_give word.reverse finished
  | cons c rest ih =>
    rw [piecesAfter, piecesAfter.flush, pass]
    by_cases hword : word = []
    · rw [if_pos hword, if_pos hword, if_pos hword]
      by_cases hblank : Text.isBlank c = true
      · rw [if_pos hblank, if_pos hblank]
        exact ih []
      rw [if_neg hblank, if_neg hblank]
      by_cases hmark : isPunctuation c = true
      · rw [if_pos hmark, if_pos hmark]
        exact next_give [c] ⟨none, rest⟩
      · rw [if_neg hmark, if_neg hmark]
        exact ih (c :: word)
    · rw [if_neg hword, if_neg hword, if_neg hword]
      by_cases hblank : Text.isBlank c = true
      · rw [if_pos hblank, if_pos hblank]
        exact next_give word.reverse ⟨none, rest⟩
      rw [if_neg hblank, if_neg hblank]
      by_cases hmark : isPunctuation c = true
      · rw [if_pos hmark, if_pos hmark]
        exact next_give word.reverse ⟨some c, rest⟩
      · rw [if_neg hmark, if_neg hmark]
        exact ih (c :: word)

theorem next_scan (p : Passage) : p.scan.next = (p.next.1, p.next.2.scan) := by
  obtain ⟨owed, rest⟩ := p
  cases owed with
  | none => exact next_pass [] rest
  | some c => exact next_give [c] ⟨none, rest⟩

end Passage

namespace Passages

open Scans (Step)

def scans (s : Passages) : Scans := ⟨s.text, s.passages.map Passage.scan⟩

theorem scans_step (s : Passages) (step : Step) :
    s.scans.step step = ((s.step step).1, (s.step step).2.scans) := by
  cases step with
  | start =>
    simp only [Scans.step, Passages.step, scans, List.length_map, List.map_append,
      List.map_singleton, Passage.scan_start]
  | next index =>
    cases h : s.passages[index]? with
    | none =>
      have hscan : s.scans.scans[index]? = none := by
        rw [scans, List.getElem?_map, h, Option.map_none]
      simp only [Scans.step, Passages.step, h, hscan]
    | some p =>
      have hscan : s.scans.scans[index]? = some p.scan := by
        rw [scans, List.getElem?_map, h, Option.map_some]
      have hreply := Scans.step_next_fst hscan
      rw [← (Scan.next_items p.scan).1, Passage.next_scan] at hreply
      refine Prod.ext ?_ ?_
      · rw [hreply]
        simp only [Passages.step, h]
      · rw [Scans.step_next_snd hscan, Passage.next_scan]
        simp only [Passages.step, h, scans, List.map_set]

theorem run_scans (s : Passages) (steps : List Step) : s.scans.run steps = s.run steps := by
  induction steps generalizing s with
  | nil => rfl
  | cons step steps ih =>
    rw [Scans.run, scans_step, run]
    exact congrArg _ (ih (s.step step).2)

end Passages

/-! ## Every schedule -/

namespace Scans

/-- The scan that was started behind `before` has the index `k`, and the steps since then are
`since`.  However often it was asked in them, it gives what comes next. -/
theorem run_delivers (text : String) (steps : List Step) :
    (Passages.ofText text).run steps = (ofText text).run steps ∧
    ((ofText text).run steps).length = steps.length ∧
    ∃ store, Delivers text store ∧
      (∀ before later, steps = before ++ .start :: later →
        ((ofText text).run steps)[before.length]? = some (.started (before.count .start))) ∧
      ∀ before since later k, steps = before ++ .start :: (since ++ .next k :: later) →
        k = before.count .start →
        ((ofText text).run steps)[(before ++ .start :: since).length]? =
          some (store[since.count (.next k)]?.getD .ended) := by
  refine ⟨(Passages.run_scans (Passages.ofText text) steps).symm, length_run _ steps, store text,
    delivers_store text, ?_, ?_⟩
  · rintro before later rfl
    have hlength := length_scans_after (ofText text) before
    rw [getElem?_run, step, hlength, ofText, List.length_nil, Nat.zero_add]
  · rintro before since later k rfl rfl
    have hstart := getElem?_scans_start (ofText text) before
    rw [ofText, List.length_nil, Nat.zero_add] at hstart
    obtain ⟨scan, hscan, hitems⟩ := getElem?_scans_after hstart since
    have hafter : (ofText text).after (before ++ .start :: since) =
        (((ofText text).after before).step .start).2.after since := by
      rw [after, List.foldl_append]
      rfl
    have hreply := getElem?_run (ofText text) (before ++ .start :: since) later
      (.next (before.count .start))
    rw [List.append_assoc, List.cons_append] at hreply
    rw [hreply, hafter]
    have hitem := step_next_fst hscan
    rw [hitems, List.head?_drop, ← List.getElem?_map] at hitem
    exact congrArg some hitem

/-- The second scan is started and asked while the first one owes a mark. -/
theorem run_delivers_owed_mark :
    let steps : List Step := [.start, .next 0, .start, .next 1, .next 0, .next 0]
    steps = [] ++ .start :: ([.next 0, .start, .next 1] ++ .next 0 :: [.next 0]) ∧
    steps = [] ++ .start :: ([.next 0, .start, .next 1, .next 0] ++ .next 0 :: []) ∧
    0 = ([] : List Step).count .start ∧
    ((ofText "x:").run steps)[4]? = some (.token (.keyword .colon)) ∧
    ((ofText "x:").run steps)[5]? = some .ended := by
  intro steps
  obtain ⟨-, -, store, hstore, -, hnext⟩ := run_delivers "x:" steps
  have htokens : tokensOf "x:" = .ok [.text "x", .keyword .colon] := rfl
  have hitems : store = [.token (.text "x"), .token (.keyword .colon)] := by
    cases hstore with
    | tokens h =>
      rw [htokens, Except.ok.injEq] at h
      rw [← h]
      rfl
    | refusal _ _ _ h =>
      rw [htokens] at h
      cases h
  rw [hitems] at hnext
  refine ⟨rfl, rfl, rfl, ?_, ?_⟩
  · exact hnext [] [.next 0, .start, .next 1] [.next 0] 0 rfl rfl
  · exact hnext [] [.next 0, .start, .next 1, .next 0] [] 0 rfl rfl

end Scans
end CounterLang
