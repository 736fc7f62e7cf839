/-
Tracing and the other options make no difference to what is read.

With tracing on, a run tells in its journal which rules are tried and how they fail.  That is
all it does: without these entries it is the run with tracing off (`Phrasebook.silent`).  A file
name is put on a failure that gets out, where it shows in the message, and nowhere else.  And a
reader that is used again and again with other file names reads each time like a new one.

Entries in the journal cost room, so two runs that differ in their options may also differ in how
much room they have.  This can make one of them give up (`indifferent_to_options_deep`), and
`indifferent_to_options` says that nothing else can tell them apart.
-/
import CounterLang.Cursor
import CounterLang.Proofs.Retelling
import CounterLang.Proofs.Room
import CounterLang.Proofs.Word

namespace CounterLang

variable {α : Type}

/-! ## What only tracing tells -/

/-- The event is told of only where tracing is on. -/
def Event.ofTracing : Event → Bool
  | tried .. => true
  | gaveUp .. => true
  | committed _ => true
  | _ => false

def Journal.untraced (j : Journal) : Journal := j.filter fun e => !e.ofTracing

/-- The run as it looks with tracing off. -/
def Run.untraced (r : Run α) : Run α := { r with journal := r.journal.untraced }

theorem Journal.untraced_append (j k : Journal) :
    Journal.untraced (j ++ k) = Journal.untraced j ++ Journal.untraced k := List.filter_append ..

/-- A line about a trial is told by tracing. -/
theorem Journal.not_trying_of_mem_lines {j : Journal} {line : String}
    (h : line ∈ j.untraced.lines) : ¬"counter_machines.rules: ".toList <+: line.toList := by
  obtain ⟨e, he, hline⟩ := List.mem_filterMap.mp h
  have htracing : e.ofTracing = false := by simpa using (List.mem_filter.mp he).2
  cases e with
  | tried => cases htracing
  | gaveUp => cases htracing
  | committed => cases htracing
  | scanned =>
    rw [← Option.some.inj hline]
    simp
  | readDefinition =>
    rw [← Option.some.inj hline]
    simp
  | readProgram =>
    rw [← Option.some.inj hline]
    simp
  | rejected =>
    rw [← Option.some.inj hline]
    simp

/-- The run is told as one that was made with tracing off. -/
def Retelling.silencing : Retelling where
  traced := true
  retraced := false
  position := id
  failure := id
  journal := Journal.untraced
  position_succ _ := rfl
  failure_mk _ _ := rfl
  committed_failure _ := rfl
  failure_commit _ := rfl
  journal_append := Journal.untraced_append
  journal_note _ _ _ := rfl
  journal_committed _ := rfl
  journal_tried _ _ := rfl
  journal_gaveUp _ _ := rfl

theorem Retelling.run_silencing (r : Run α) : silencing.run r = r.untraced := by
  obtain ⟨outcome, point, journal⟩ := r
  cases outcome <;> rfl

/-- With tracing off the parser does the same, and only keeps silent about it. -/
def Parser.Silent (p : Parser α) : Prop := ∀ s, p false s = (p true s).untraced

theorem Phrasebook.silent (book : Phrasebook) (limit depth : Nat) (phrase : Phrase) :
    (phrase.ruleWithin limit (book.parseIn limit depth)).parse.Silent := by
  intro s
  rw [← Retelling.run_silencing]
  exact book.retold .silencing limit depth phrase s

/-! ## Failures as they are shown -/

theorem Numeral.text_ne_empty (n : Int) : text n ≠ "" := by
  intro h
  have hwrite : write n = [] := by
    rw [← String.toList_ofList (l := write n)]
    exact congrArg String.toList h
  exact (isWord_write n).1 hwrite

theorem Cause.exists_hint {c : Cause} (h : ∀ text hint, c ≠ .other text hint) :
    ∃ hint, c.hint = some hint ∧ hint ≠ "" := by
  cases c with
  | unexpectedToken expected found => exact ⟨_, rfl, by simp⟩
  | unexpectedEnd expected => exact ⟨_, rfl, by simp⟩
  | failedRule name definition reason => exact ⟨_, rfl, by simp⟩
  | other text hint => exact absurd rfl (h text hint)

theorem Parser.lack_ne_other (kind : Kind) (t : List Token) (text : String)
    (hint : Option String) : Parser.lack kind t ≠ .other text hint := by
  cases t with
  | nil => exact fun h => nomatch h
  | cons tok rest => exact fun h => nomatch h

theorem Demand.cause_ne_other (d : Demand) (t : List Token) (text : String)
    (hint : Option String) : d.cause t ≠ .other text hint := by
  cases d with
  | word => exact Parser.lack_ne_other _ _ _ _
  | body => exact Parser.lack_ne_other _ _ _ _
  | close => exact Parser.lack_ne_other _ _ _ _
  | semicolon => exact Parser.lack_ne_other _ _ _ _
  | value => exact fun h => nomatch h
  | statement => exact fun h => nomatch h
  | paramType =>
    cases t with
    | nil => exact Parser.lack_ne_other _ [] _ _
    | cons tok rest =>
      cases tok with
      | text w => exact fun h => nomatch h
      | keyword k => exact Parser.lack_ne_other _ (.keyword k :: rest) _ _
      | number i => exact Parser.lack_ne_other _ (.number i :: rest) _ _

/-- The message of a failure that is located, has a position and gives a hint. -/
theorem Failure.message_eq {f : Failure} {filename hint : String} {n : Int}
    (hfilename : f.filename = some filename) (hposition : f.position = some n)
    (hhint : f.hint = some hint) (hne : hint ≠ "") :
    f.message = (if filename = "" then "" else filename ++ ": ") ++ "error: " ++ f.text ++
      " (at token " ++ Numeral.text n ++ ")" ++ "\nhint: " ++ hint := by
  simp only [message, part, hfilename, hposition, hhint, Option.map_some, if_neg hne,
    if_neg (Numeral.text_ne_empty n), String.empty_append, String.append_empty, String.append_assoc]

/-- The failure has these fields, and its message is made of them and of nothing else. -/
structure Failure.Shown (f : Failure) (cause : Cause) (e : Nat) (committed : Bool)
    (filename : String) : Prop where
  cause_eq : f.cause = cause
  position_eq : f.position = some (e : Int)
  committed_eq : f.committed = committed
  filename_eq : f.filename = some filename
  message_eq : ∃ hint, cause.hint = some hint ∧
    f.message = (if filename = "" then "" else filename ++ ": ") ++ "error: " ++ cause.text ++
      " (at token " ++ Numeral.text e ++ ")" ++ "\nhint: " ++ hint

theorem Failure.shown_located {f : Failure} {e : Nat} (hposition : f.position = some (e : Int))
    (hcause : ∀ text hint, f.cause ≠ .other text hint) (filename : String) :
    (f.located (some filename)).Shown f.cause e f.committed filename := by
  obtain ⟨hint, hhint, hne⟩ := Cause.exists_hint hcause
  refine ⟨rfl, hposition, rfl, rfl, hint, hhint, ?_⟩
  exact Failure.message_eq (f := f.located (some filename)) rfl hposition hhint hne

/-! ## Readers -/

namespace Reader

/-- The file name in use after names have been asked for, each of them given or not. -/
def filenameAfter (filename : String) (asked : List (Option String)) : String :=
  asked.foldl (fun current name => name.getD current) filename

/-- The reader as it was made, had it been given another file name. -/
def named (filename : String) (r : Reader) : Reader :=
  { r with options := { r.options with filename := filename } }

theorem readIn_snd (room : Nat) (r : Reader) (name : Option String) :
    (r.readIn room name).2 = r.named (name.getD r.options.filename) := by
  cases name <;> rfl

theorem getElem?_readAllIn (r : Reader) (asked : List (Nat × Option String)) (i : Nat)
    (h : i < asked.length) :
    (r.readAllIn asked)[i]? =
      some ((r.named (filenameAfter r.options.filename
        ((asked.take (i + 1)).map Prod.snd))).readIn asked[i].1 none).1 := by
  induction asked generalizing r i with
  | nil => exact absurd h (Nat.not_lt_zero i)
  | cons first asked ih =>
    obtain ⟨room, name⟩ := first
    cases i with
    | zero => cases name <;> rfl
    | succ i =>
      have hi : i < asked.length := Nat.lt_of_succ_lt_succ h
      show ((r.readIn room name).2.readAllIn asked)[i]? = _
      rw [readIn_snd, ih _ i hi]
      rfl

theorem length_readAllIn (r : Reader) (asked : List (Nat × Option String)) :
    (r.readAllIn asked).length = asked.length := by
  induction asked generalizing r with
  | nil => rfl
  | cons first asked ih => exact congrArg Nat.succ (ih _)

end Reader

/-- Rules are tried alike with tracing on and off.  All options give the same program, or the
same failure under their own file name, with a message made of nothing else.  And a reader
that has been used is as good as new.

This is so whatever room each of the runs has, unless one of them has too little.  Two runs of a
rule are told apart by nothing else, and for the tokens of a program there is a room `need` from
which on this does not happen.  With less room it does, and the options change nothing about it. -/
theorem indifferent_to_options :
    (∀ (book : Phrasebook) (phrase : Phrase) (t : List Token) (p : Nat)
        (limit depth limit' depth' : Nat),
      ∃ on off : Run Datum,
        (⟨t, p, true⟩ : Cursor).run (phrase.ruleWithin limit (book.parseIn limit depth)) =
          .ok on ∧
        (⟨t, p, false⟩ : Cursor).run (phrase.ruleWithin limit' (book.parseIn limit' depth')) =
          .ok off ∧
        (∀ line ∈ off.journal.lines, ¬"counter_machines.rules: ".toList <+: line.toList) ∧
        (limit = limit' ∧ depth = depth' ∨
            on.outcome ≠ .abort .endless ∧ off.outcome ≠ .abort .endless →
          off.outcome = on.outcome ∧ off.point = on.point ∧
            off.journal = on.journal.untraced)) ∧
    (∀ t : List Token, ∃ need, need ≤ t.count (.keyword .loop) + 1 ∧
      (∀ room < need, ∃ e : Nat, e ≤ t.length ∧ ∀ options, ∃ f,
        (Program.readIn room options t).result = .error f ∧
        f.Shown (Reading.tooDeep e).cause e false options.filename) ∧
      ((∃ p, ∀ room, need ≤ room → ∀ options, (Program.readIn room options t).result = .ok p) ∨
        ∃ (cause : Cause) (e : Nat) (committed : Bool), e ≤ t.length ∧
          ∀ room, need ≤ room → ∀ options, ∃ f,
            (Program.readIn room options t).result = .error f ∧ ¬Program.TooDeep f ∧
            f.Shown cause e committed options.filename)) ∧
    ∀ (r : Reader) (asked : List (Nat × Option String)),
      (r.readAllIn asked).length = asked.length ∧
      ∀ (i : Nat) (h : i < asked.length),
        let filename := Reader.filenameAfter r.options.filename
          ((asked.take (i + 1)).map Prod.snd)
        (r.readAllIn asked)[i]? = some ((r.named filename).readIn asked[i].1 none).1 := by
  refine ⟨?_, ?_, ?_⟩
  · intro book phrase t p limit depth limit' depth'
    let rule := phrase.ruleWithin limit (book.parseIn limit depth)
    let rule' := phrase.ruleWithin limit' (book.parseIn limit' depth')
    have hsilent : rule'.parse false ⟨p, t.drop p⟩ =
        (rule'.parse true ⟨p, t.drop p⟩).untraced := book.silent limit' depth' phrase _
    refine ⟨rule.parse true ⟨p, t.drop p⟩, rule'.parse false ⟨p, t.drop p⟩,
      Cursor.run_natCast t p true rule, Cursor.run_natCast t p false rule', ?_, ?_⟩
    · rw [hsilent]
      exact fun line hline => Journal.not_trying_of_mem_lines hline
    · intro hroom
      have hsame : rule.parse true ⟨p, t.drop p⟩ = rule'.parse true ⟨p, t.drop p⟩ := by
        rcases hroom with ⟨rfl, rfl⟩ | ⟨hon, hoff⟩
        · rfl
        · rw [hsilent] at hoff
          rcases book.run_same_or_endless phrase limit depth limit' depth' true ⟨p, t.drop p⟩ with
            hend | hend | hrun
          · exact absurd hend hon
          · exact absurd hend hoff
          · exact hrun
      rw [hsilent, hsame]
      exact ⟨rfl, rfl, rfl⟩
  · intro t
    obtain ⟨need, hneed, hneeds⟩ := Program.exists_needs t
    refine ⟨need, hneed, fun room hroom => ?_, ?_⟩
    · obtain ⟨e, he, hresult⟩ := hneeds.short room hroom
      refine ⟨e, he, fun options => ⟨_, hresult options, ?_⟩⟩
      exact Failure.shown_located (f := Reading.tooDeep e) rfl nofun options.filename
    · rcases hneeds.enough with hp | ⟨u, rest, d, rfl, hresult⟩
      · exact Or.inl hp
      · refine Or.inr ⟨d.cause rest, u.length, (d.failure rest u.length).committed, by simp, ?_⟩
        intro room hroom options
        refine ⟨_, hresult room hroom options, Program.not_tooDeep_of_demand _ _ _ _, ?_⟩
        exact Failure.shown_located (f := d.failure rest u.length) rfl
          (d.cause_ne_other rest) options.filename
  · intro r asked
    exact ⟨r.length_readAllIn asked, r.getElem?_readAllIn asked⟩

/-- A statement that is cut off, read three times under two file names and with less and less
room. -/
theorem indifferent_to_options_cut_off :
    let r : Reader := ⟨[.keyword .jez], { filename := "a.cm" }⟩
    let asked : List (Nat × Option String) := [(9, none), (5, some "b.cm"), (1, none)]
    2 < asked.length ∧ (r.readAllIn asked)[2]? = some ((r.named "b.cm").readIn 1 none).1 ∧
      ∃ f, ((r.named "b.cm").readIn 1 none).1.result = .error f ∧
        f.message = "b.cm: error: unexpected end of input (at token 1)\nhint: expected text" := by
  intro r asked
  have hthird := (indifferent_to_options.2.2 r asked).2 2 (by decide)
  refine ⟨by decide, hthird, ?_⟩
  let options : Options := { filename := "b.cm" }
  let failure : Failure :=
    { cause := .unexpectedEnd "text", position := some 1, filename := some "b.cm",
      committed := true }
  have hresult : (Program.readIn 1 options r.tokens).result = .error failure := by decide +kernel
  obtain ⟨need, hneed, -, hend⟩ := indifferent_to_options.2.1 r.tokens
  rcases hend with ⟨p, hp⟩ | ⟨cause, e, c, -, hall⟩
  · rw [hp 1 hneed options] at hresult
    cases hresult
  · obtain ⟨f, hf, -, hshown⟩ := hall 1 hneed options
    obtain rfl : failure = f := Except.error.inj (hresult.symm.trans hf)
    obtain rfl : 1 = e := Int.ofNat.inj (Option.some.inj hshown.position_eq)
    obtain rfl : .unexpectedEnd "text" = cause := hshown.cause_eq
    obtain ⟨hint, hhint, hmessage⟩ := hshown.message_eq
    obtain rfl : "expected text" = hint := Option.some.inj hhint
    exact ⟨failure, hf, hmessage.trans (by decide)⟩

/-- With tracing on, and with the room that is left then, 123 loops inside each other are too many.
With tracing off there is room for one more, and they are not. -/
theorem indifferent_to_options_deep :
    let t := Program.nest 123 ++ List.replicate 123 (.keyword .close)
    (∃ p, (Program.readIn 124 { tracing := false } t).result = .ok p) ∧
      ∃ f, (Program.readIn 123 { tracing := true } t).result = .error f ∧ Program.TooDeep f := by
  obtain ⟨hread, e, hdeep⟩ :=
    Program.readIn_closedNest 122 { tracing := false } { tracing := true }
  exact ⟨⟨_, hread⟩, _, hdeep, rfl⟩

end CounterLang
