/-
Diagnostics of the command do not change its answer.

Two flags and two variables of the environment say how much the command tells of a reading.
Whatever they are, the reports on a file differ in what they tell of it only
(`reportFile_unlogged`), and the name in the environment is in none of them, since a file is
always named by its path (`runIn_filename`).  A log is the journal, if one of the flags asks for
it (`log_reportFile`).  Trials are entered in the journal where tracing is on, by a flag or by the
environment, and only then (`untraced_journalOf`).

What diagnostics do change is how much room there is for loops.  A file needs so much of it
(`FileNeeds`), and two runs give the same answer if both have that much, or neither has
(`reportFile_alike`).

`run_diagnostics` says this of two runs of the command, and of each of them.
-/
import CounterLang.Proofs.Notes
import CounterLang.Proofs.Report

namespace CounterLang

/-! ## Trials in the journal -/

namespace Parser

variable {α : Type} {p : Parser α} {told : α → Journal}

theorem Notes.untraced (hp : Notes p told) (htold : ∀ a, Journal.untraced (told a) = told a)
    (s : Point) : (p false s).journal.untraced = (p false s).journal := by
  rw [hp s]
  cases (p false s).outcome with
  | value a => exact htold a
  | failure e => rfl
  | abort b => rfl

theorem Notes.untraced_untilEnd (hp : Notes p told)
    (htold : ∀ a, Journal.untraced (told a) = told a) (s : Point) :
    (untilEnd p false s).journal.untraced = (untilEnd p false s).journal := by
  induction s using Parser.untilEnd.induct p false with
  | case1 s hs =>
    rw [untilEnd_of_end hs]
    rfl
  | case2 s hs r a ho hlt ih =>
    rw [untilEnd_of_value hs ho hlt]
    show Journal.untraced ((p false s).journal ++ (untilEnd p false r.point).journal) = _
    rw [Journal.untraced_append, hp.untraced htold, ih]
    rfl
  | case3 s hs r a ho hle =>
    rw [untilEnd_of_no_progress hs ho hle]
    exact hp.untraced htold s
  | case4 s hs r f ho =>
    rw [untilEnd_of_failure hs ho]
    exact hp.untraced htold s
  | case5 s hs r b ho =>
    rw [untilEnd_of_abort hs ho]
    exact hp.untraced htold s

end Parser

theorem Program.untraced_journal {options : Options} (h : options.tracing = false) (room : Nat)
    (t : List Token) :
    (readIn room options t).journal.untraced = (readIn room options t).journal := by
  have htold : ∀ i : Item, Journal.untraced i.notes = i.notes := by
    intro i
    cases i <;> rfl
  have hitems := (Grammar.notes_item room).untraced_untilEnd htold ⟨0, t⟩
  have hconclusion : ∀ result : Except Failure Program,
      Journal.untraced [Reading.conclusion options result] = [Reading.conclusion options result] :=
    fun result => by cases result <;> rfl
  rw [readIn, h, Journal.untraced_append, Grammar.items, hitems, hconclusion]

/-- Tracing is switched on by four words. -/
theorem Options.affirms_iff {text : String} :
    affirms text = true ↔
      String.ofList ((Text.trimmed text.toList).map Char.toLower) ∈ ["1", "true", "yes", "on"] := by
  rw [affirms, decide_eq_true_eq, affirmations]
  generalize (Text.trimmed text.toList).map Char.toLower = word
  simp only [List.mem_cons, List.not_mem_nil, or_false, ← String.toList_inj, String.toList_ofList]

theorem Utf8.encode_inj {text text' : String} (h : encode text = encode text') : text = text' := by
  have hdecode := decode_encode text
  rw [h, decode_encode, Except.ok.injEq, String.toList_inj] at hdecode
  exact hdecode.symm

namespace CommandLine

open Program (readIn)

/-! ## Reports that differ in what they tell of the reading -/

/-- The room that the reading of a file needs is what its tokens need, if it has any. -/
structure FileNeeds (need : Nat) (bytes : List UInt8) : Prop where
  tokens (text : String) (tokens : List Token) (hbytes : bytes = Utf8.encode text)
    (h : tokensOf text = .ok tokens) :
    need ≤ tokens.count (.keyword .loop) + 1 ∧ Program.Needs need tokens
  none (h : ∀ text tokens, bytes = Utf8.encode text → tokensOf text ≠ .ok tokens) : need = 0

theorem exists_fileNeeds (bytes : List UInt8) : ∃ need, FileNeeds need bytes := by
  by_cases h : ∃ text tokens, bytes = Utf8.encode text ∧ tokensOf text = .ok tokens
  · obtain ⟨text, tokens, hbytes, htokens⟩ := h
    obtain ⟨need, hneed⟩ := Program.exists_needs tokens
    refine ⟨need, fun text' tokens' hbytes' htokens' => ?_, fun h => ?_⟩
    · obtain rfl : text = text' := Utf8.encode_inj (hbytes.symm.trans hbytes')
      obtain rfl : tokens = tokens' := Except.ok.inj (htokens.symm.trans htokens')
      exact hneed
    · exact absurd htokens (h text tokens hbytes)
  · refine ⟨0, fun text tokens hbytes htokens => ?_, fun _ => rfl⟩
    exact absurd ⟨text, tokens, hbytes, htokens⟩ h

section Reports

variable {need room room' : Nat} {env env' : Environment} {flags flags' : Flags} {path : String}
  {bytes : List UInt8}

/-- A report without its log and without the traceback. -/
def Report.unlogged (r : Report) : Report := { r with log := "", raised := none }

theorem Report.unlogged_exit (r : Report) : r.unlogged.exit = r.exit := rfl

theorem Report.unlogged_answer (r : Report) : r.unlogged.answer = r.answer := rfl

theorem Report.unlogged_refusal (r : Report) : r.unlogged.refusal = r.refusal := rfl

theorem reportFile_unlogged (hneeds : FileNeeds need bytes) (htokens : flags.tokens = flags'.tokens)
    (houtline : flags.outline = flags'.outline)
    (hroom : flags.tokens = true ∨ room = room' ∨ need ≤ room ∧ need ≤ room') :
    (reportFile room env flags path bytes).unlogged =
      (reportFile room' env' flags' path bytes).unlogged := by
  have hsame : ∀ text tokens, bytes = Utf8.encode text → tokensOf text = .ok tokens →
      flags.tokens = false →
      (readIn room (optionsFor env flags path) tokens).result =
        (readIn room' (optionsFor env' flags' path) tokens).result := by
    intro text tokens hbytes h hflag
    rcases hroom with hlist | rfl | ⟨hroom, hroom'⟩
    · exact absurd hlist (Bool.eq_false_iff.mp hflag)
    · exact Program.readIn_result_congr room (optionsFor env flags path)
        (optionsFor env' flags' path) rfl tokens
    · exact (hneeds.tokens text tokens hbytes h).2.result_congr hroom hroom' rfl
  cases stage room (optionsFor env flags path) flags bytes with
  | undecodable h => rw [reportFile_undecodable h, reportFile_undecodable h]
  | tooLong hbytes h =>
    rw [reportFile_tooLong hbytes h, reportFile_tooLong hbytes h]
    simp only [Report.unlogged]
  | tokens hbytes h hflag =>
    rw [reportFile_tokens hbytes h hflag, reportFile_tokens hbytes h (htokens ▸ hflag)]
    simp only [Report.unlogged]
  | refused hbytes h hflag hread =>
    have hread' := (hsame _ _ hbytes h hflag).symm.trans hread
    rw [reportFile_refused hbytes h hflag hread,
      reportFile_refused hbytes h (htokens ▸ hflag) hread']
    simp only [Report.unlogged]
  | read hbytes h hflag hread =>
    have hread' := (hsame _ _ hbytes h hflag).symm.trans hread
    rw [reportFile_read hbytes h hflag hread, reportFile_read hbytes h (htokens ▸ hflag) hread',
      houtline]
    simp only [Report.unlogged]

/-- With too little room for the loops of the file, this is the report. -/
theorem reportFile_short (hneeds : FileNeeds need bytes) (hroom : room < need) :
    ∃ e : Nat, ∀ (env : Environment) (flags : Flags) (path : String), flags.tokens = false →
      ∃ log, reportFile room env flags path bytes =
        { exit := .parseError, log := log,
          refusal := [((Reading.tooDeep e).located (some (Path.tidy path))).message] } := by
  by_cases h : ∃ text tokens, bytes = Utf8.encode text ∧ tokensOf text = .ok tokens
  · obtain ⟨text, tokens, hbytes, htokens⟩ := h
    obtain ⟨e, -, hdeep⟩ := (hneeds.tokens text tokens hbytes htokens).2.short room hroom
    exact ⟨e, fun env flags path hflag =>
      ⟨_, reportFile_refused hbytes htokens hflag (hdeep (optionsFor env flags path))⟩⟩
  · have hzero := hneeds.none fun text tokens hbytes htokens => h ⟨text, tokens, hbytes, htokens⟩
    omega

/-- Both runs have the room that the file needs, or both say that they do not. -/
theorem reportFile_alike (hneeds : FileNeeds need bytes) (htokens : flags.tokens = flags'.tokens)
    (houtline : flags.outline = flags'.outline)
    (hroom : flags.tokens = true ∨ (need ≤ room ↔ need ≤ room')) :
    (reportFile room env flags path bytes).exit = (reportFile room' env' flags' path bytes).exit ∧
      (reportFile room env flags path bytes).answer =
        (reportFile room' env' flags' path bytes).answer := by
  by_cases henough : flags.tokens = true ∨ need ≤ room ∧ need ≤ room'
  · have hsame : (reportFile room env flags path bytes).unlogged =
        (reportFile room' env' flags' path bytes).unlogged :=
      reportFile_unlogged hneeds htokens houtline (henough.imp_right Or.inr)
    have hexit := congrArg Report.exit hsame
    have hanswer := congrArg Report.answer hsame
    rw [Report.unlogged_exit, Report.unlogged_exit] at hexit
    rw [Report.unlogged_answer, Report.unlogged_answer] at hanswer
    exact ⟨hexit, hanswer⟩
  · obtain ⟨hlist, hshort⟩ := not_or.mp henough
    have hshort : room < need ∧ room' < need := by
      have hiff := hroom.resolve_left hlist
      omega
    have hflag : flags.tokens = false := Bool.eq_false_iff.mpr hlist
    obtain ⟨e, hreport⟩ := reportFile_short hneeds hshort.1
    obtain ⟨e', hreport'⟩ := reportFile_short hneeds hshort.2
    obtain ⟨log, hreport⟩ := hreport env flags path hflag
    obtain ⟨log', hreport'⟩ := hreport' env' flags' path (htokens ▸ hflag)
    rw [hreport, hreport']
    exact ⟨rfl, rfl⟩

/-- What is entered in the journal for a file: the scan of its text, and the reading of the
tokens unless they are only listed. -/
def journalOf (room : Nat) (env : Environment) (flags : Flags) (path : String)
    (bytes : List UInt8) : Journal :=
  match Utf8.decode bytes with
  | .error _ => []
  | .ok chars =>
    let text := String.ofList (Text.foldNewlines chars)
    match tokensOf text with
    | .error _ => []
    | .ok tokens =>
      Program.scanned text tokens ::
        if flags.tokens then [] else (readIn room (optionsFor env flags path) tokens).journal

/-- The lines of the journal, if they are shown. -/
def shownLines (room : Nat) (env : Environment) (flags : Flags) (path : String)
    (bytes : List UInt8) : List String :=
  if flags.verbose || flags.trace then (journalOf room env flags path bytes).lines else []

theorem log_nil (flags : Flags) : log flags [] = "" := by
  rw [log]
  split <;> rfl

theorem log_reportFile (room : Nat) (env : Environment) (flags : Flags) (path : String)
    (bytes : List UInt8) :
    (reportFile room env flags path bytes).log =
      written (shownLines room env flags path bytes) := by
  have hlog : ∀ j : Journal,
      log flags j = written (if flags.verbose || flags.trace then j.lines else []) := by
    intro j
    rw [log]
    split <;> rfl
  rw [shownLines, ← hlog, reportFile, journalOf]
  cases Utf8.decode bytes with
  | error f => exact (log_nil flags).symm
  | ok chars =>
    simp only [reportText]
    cases tokensOf (String.ofList (Text.foldNewlines chars)) with
    | error e => exact (log_nil flags).symm
    | ok tokens =>
      cases flags.tokens with
      | true => rfl
      | false =>
        simp only [Bool.false_eq_true, if_false]
        cases (readIn room (optionsFor env flags path) tokens).result with
        | error f => rfl
        | ok p => rfl

theorem untraced_journalOf (h : (optionsFor env flags path).tracing = false)
    (room : Nat) (bytes : List UInt8) :
    (journalOf room env flags path bytes).untraced = journalOf room env flags path bytes := by
  rw [journalOf]
  cases Utf8.decode bytes with
  | error f => rfl
  | ok chars =>
    simp only
    cases tokensOf (String.ofList (Text.foldNewlines chars)) with
    | error e => rfl
    | ok tokens =>
      apply congrArg (Program.scanned _ tokens :: ·)
      cases flags.tokens with
      | true => rfl
      | false => exact Program.untraced_journal h room tokens

theorem shownLines_of_silent (h : flags.Silent) : shownLines room env flags path bytes = [] := by
  rw [shownLines, h.1, h.2]
  rfl

theorem asked_of_shownLines_ne_nil (h : shownLines room env flags path bytes ≠ []) :
    flags.trace = true ∨ flags.verbose = true := by
  rw [shownLines] at h
  have hshown : (flags.verbose || flags.trace) = true := by
    apply Bool.of_not_eq_false
    intro hfalse
    rw [hfalse] at h
    exact h rfl
  rwa [Bool.or_eq_true, or_comm] at hshown

theorem tracing_of_mem_shownLines {line : String} (h : line ∈ shownLines room env flags path bytes)
    (hrules : "counter_machines.rules: ".toList <+: line.toList) :
    (optionsFor env flags path).tracing = true := by
  rw [shownLines, if_pos] at h
  · cases htracing : (optionsFor env flags path).tracing with
    | true => rfl
    | false =>
      rw [← untraced_journalOf htracing] at h
      exact absurd hrules (Journal.not_trying_of_mem_lines h)
  · rw [Bool.or_eq_true, or_comm]
    exact asked_of_shownLines_ne_nil (List.ne_nil_of_mem h)

end Reports

/-- The name in the environment is not used. -/
theorem runIn_filename (kit : Toolkit) (room : Nat) (look : String → Entry) (env : Environment)
    (arguments : List String) (filename : Option String) :
    runIn kit room look { env with filename := filename } arguments =
      runIn kit room look env arguments := by
  have hoptions : ∀ flags path, optionsFor { env with filename := filename } flags path =
      optionsFor env flags path := fun _ _ => rfl
  have hconclude : conclude room { env with filename := filename } = conclude room env := by
    funext flags path extra entry
    cases entry with
    | missing => rfl
    | directory => rfl
    | file bytes => simp only [conclude, reportFile, hoptions]
  rw [runIn, hconclude]
  rfl

/-- A traceback is told of internal errors, if the flag asks for it. -/
theorem raised_reportFile_iff (room : Nat) (env : Environment) (flags : Flags) (path : String)
    (bytes : List UInt8) :
    (reportFile room env flags path bytes).raised ≠ none ↔
      flags.verbose = true ∧ (reportFile room env flags path bytes).exit = .internalError := by
  cases stage room (optionsFor env flags path) flags bytes with
  | undecodable hf =>
    rw [reportFile_undecodable hf]
    exact ⟨fun h => absurd rfl h, nofun⟩
  | tooLong hbytes he =>
    rw [reportFile_tooLong hbytes he]
    cases flags.verbose with
    | true => exact ⟨fun _ => ⟨rfl, rfl⟩, nofun⟩
    | false => exact ⟨fun h => absurd rfl h, nofun⟩
  | tokens hbytes ht hflag =>
    rw [reportFile_tokens hbytes ht hflag]
    exact ⟨fun h => absurd rfl h, nofun⟩
  | refused hbytes ht hflag hread =>
    rw [reportFile_refused hbytes ht hflag hread]
    exact ⟨fun h => absurd rfl h, nofun⟩
  | read hbytes ht hflag hread =>
    rw [reportFile_read hbytes ht hflag hread]
    exact ⟨fun h => absurd rfl h, nofun⟩

/-- Tracing is on by the flag, or by a word in the environment. -/
theorem tracing_iff {env : Environment} {flags : Flags} {path : String} :
    (optionsFor env flags path).tracing = true ↔ flags.trace = true ∨
      ∃ text, env.trace = some text ∧
        String.ofList ((Text.trimmed text.toList).map Char.toLower) ∈
          ["1", "true", "yes", "on"] := by
  show ((Options.ofEnvironment env).tracing || flags.trace) = true ↔ _
  rw [Bool.or_eq_true, or_comm]
  apply or_congr_right
  obtain ⟨filename, _ | text⟩ := env
  · exact ⟨nofun, nofun⟩
  · simp only [Option.some.injEq, exists_eq_left']
    exact Options.affirms_iff

/-- Without the flags there is nothing but what is printed. -/
theorem err_of_silent {kit : Toolkit} {flags : Flags} (h : flags.Silent) (room : Nat)
    (env : Environment) (path : String) (bytes : List UInt8) (channel : Channel) :
    let r := reportFile room env flags path bytes
    kit.err channel r = kit.echoAll channel r.refusal := by
  intro r
  have hlog : r.log = "" := by
    rw [log_reportFile, shownLines_of_silent h]
    rfl
  have hraised : r.raised = none := by
    by_contra hne
    obtain ⟨hverbose, -⟩ := (raised_reportFile_iff room env flags path bytes).mp hne
    exact absurd hverbose (Bool.eq_false_iff.mp h.2)
  rw [Toolkit.err, hlog, hraised]
  exact (String.append_empty).trans String.empty_append

/-- Two runs on a file that differ in the diagnostics they are asked for end with the same exit
code and give the same answer, if both have the room that the file needs or neither has.  The name
in the environment changes nothing at all.  What is on stderr is a log, then what is printed of an
error, then a traceback.  Unless diagnostics are asked for by a flag there is no log and no
traceback, and there are lines about trials in the log only if tracing is on as well. -/
theorem run_diagnostics (kit : Toolkit) (hkit : kit.Documented) (look : String → Entry)
    (path : String) (bytes : List UInt8) (hfile : look path = .file bytes) :
    ∃ need, FileNeeds need bytes ∧
    (∀ (room room' : Nat) (env env' : Environment)
        (arguments words arguments' words' : List String),
      Asks arguments words path → Asks arguments' words' path →
      let flags := Flags.given words
      let flags' := Flags.given words'
      flags.tokens = flags'.tokens → flags.outline = flags'.outline →
      (flags.tokens = true ∨ (need ≤ room ↔ need ≤ room')) →
      let r := runIn kit room look env arguments
      let r' := runIn kit room' look env' arguments'
      r.exit.number = r'.exit.number ∧ ∀ channel, kit.out channel r = kit.out channel r') ∧
    (∀ room < need, ∃ e : Nat, ∀ (env : Environment) (arguments words : List String),
      Asks arguments words path → (Flags.given words).tokens = false →
      let r := runIn kit room look env arguments
      r.exit.number = 1 ∧ (∀ channel, kit.out channel r = "") ∧
        r.refusal = [((Reading.tooDeep e).located (some (Path.tidy path))).message]) ∧
    ∀ (room : Nat) (env : Environment) (arguments words : List String),
      Asks arguments words path →
      let flags := Flags.given words
      let r := runIn kit room look env arguments
      let lines := shownLines room env flags path bytes
      (∀ filename, runIn kit room look { env with filename := filename } arguments = r) ∧
      (flags.Silent → ∀ (room' : Nat) (env' : Environment),
        flags.tokens = true ∨ room = room' ∨ need ≤ room ∧ need ≤ room' → ∀ channel,
        kit.err channel (runIn kit room' look env' arguments) = kit.err channel r) ∧
      (∀ channel, kit.err channel r = written lines ++ kit.echoAll channel r.refusal ++
        (r.raised.map kit.traceback).getD "") ∧
      (r.raised ≠ none ↔ flags.verbose = true ∧ r.exit.number = 3) ∧
      (lines ≠ [] → flags.trace = true ∨ flags.verbose = true) ∧
      ∀ line ∈ lines, "counter_machines.rules: Trying".toList <+: line.toList →
        (flags.trace = true ∨ flags.verbose = true) ∧
          (flags.trace = true ∨ ∃ text, env.trace = some text ∧
            String.ofList ((Text.trimmed text.toList).map Char.toLower) ∈
              ["1", "true", "yes", "on"]) := by
  obtain ⟨need, hneeds⟩ := exists_fileNeeds bytes
  refine ⟨need, hneeds, ?_, ?_, ?_⟩
  · intro room room' env env' arguments words arguments' words' h h' flags flags' htokens houtline
      hroom r r'
    have hr : r = reportFile room env flags path bytes := runIn_of_asks hkit h hfile env
    have hr' : r' = reportFile room' env' flags' path bytes := runIn_of_asks hkit h' hfile env'
    obtain ⟨hexit, hanswer⟩ := reportFile_alike hneeds htokens houtline hroom
    rw [hr, hr']
    exact ⟨congrArg ExitCode.number hexit, fun channel => congrArg (kit.echoAll channel) hanswer⟩
  · intro room hroom
    obtain ⟨e, hreport⟩ := reportFile_short hneeds hroom
    refine ⟨e, fun env arguments words h hflag => ?_⟩
    obtain ⟨log, hreport⟩ := hreport env (Flags.given words) path hflag
    intro r
    have hr : r = _ := (runIn_of_asks hkit h hfile env).trans hreport
    rw [hr]
    exact ⟨rfl, fun _ => rfl, rfl⟩
  · intro room env arguments words h flags r lines
    have hr : r = reportFile room env flags path bytes := runIn_of_asks hkit h hfile env
    have herr : ∀ channel, kit.err channel r = written lines ++ kit.echoAll channel r.refusal ++
        (r.raised.map kit.traceback).getD "" := by
      intro channel
      rw [Toolkit.err, hr, log_reportFile]
    refine ⟨runIn_filename kit room look env arguments, ?_, herr, ?_,
      asked_of_shownLines_ne_nil, ?_⟩
    · intro hsilent room' env' hroom channel
      have hsame : (reportFile room env flags path bytes).unlogged =
          (reportFile room' env' flags path bytes).unlogged :=
        reportFile_unlogged hneeds rfl rfl hroom
      have hrefusal := congrArg Report.refusal hsame
      rw [Report.unlogged_refusal, Report.unlogged_refusal] at hrefusal
      rw [hr, runIn_of_asks hkit h hfile, err_of_silent hsilent, err_of_silent hsilent, hrefusal]
    · have hinternal : r.exit.number = 3 ↔ r.exit = .internalError := by
        cases r.exit <;> decide
      rw [hinternal, hr]
      exact raised_reportFile_iff room env flags path bytes
    · intro line hline hprefix
      have hrules : "counter_machines.rules: ".toList <+: line.toList :=
        List.IsPrefix.trans (by decide) hprefix
      exact ⟨asked_of_shownLines_ne_nil (List.ne_nil_of_mem hline),
        tracing_iff.mp (tracing_of_mem_shownLines hline hrules)⟩

/-- With everything switched on there is a log, but the answer is the same, although there is less
room. -/
theorem run_diagnostics_switched_on :
    let bytes := Utf8.encode "INCR r"
    let look : String → Entry := fun _ => .file bytes
    let env : Environment := { filename := some "x.cm", trace := some "\tON " }
    let r := runIn Toolkit.standard 9 look {} ["p.cm"]
    let r' := runIn Toolkit.standard 5 look env ["-v", "--trace", "p.cm"]
    look "p.cm" = .file bytes ∧ r.exit.number = r'.exit.number ∧
      r.out .file = r'.out .file ∧ r.err .file = "" ∧ r'.err .file ≠ "" := by
  intro bytes look env r r'
  have hplain : Asks ["p.cm"] [] "p.cm" := .plain [] "p.cm" [] (by decide) (by decide)
  have hflags : Asks ["-v", "--trace", "p.cm"] ["-v", "--trace"] "p.cm" :=
    .plain ["-v", "--trace"] "p.cm" [] (by decide) (by decide)
  obtain ⟨need, hneeds, hsame, -⟩ :=
    run_diagnostics Toolkit.standard Toolkit.standard_documented look "p.cm" bytes rfl
  have hneed : need ≤ 1 := (hneeds.tokens "INCR r" [.keyword .incr, .text "r"] rfl rfl).1
  obtain ⟨hexit, hout⟩ := hsame 9 5 {} env ["p.cm"] [] ["-v", "--trace", "p.cm"] ["-v", "--trace"]
    hplain hflags rfl rfl (Or.inr ⟨fun _ => by omega, fun _ => by omega⟩)
  exact ⟨rfl, hexit, hout .file, by decide +kernel, by decide +kernel⟩

/-- With tracing on, and with the room that is left then, 123 loops inside each other are too many
for the command.  And where no diagnostics are asked for, a line of stderr can look like one about
a trial, if the file has such a name. -/
theorem run_diagnostics_unequal :
    (let text := Program.closedNestText 123
      let look : String → Entry := fun _ => .file (Utf8.encode text)
      let r := runIn Toolkit.standard 124 look {} ["p.cm"]
      let r' := runIn Toolkit.standard 123 look {} ["--trace", "p.cm"]
      Asks ["p.cm"] [] "p.cm" ∧ Asks ["--trace", "p.cm"] ["--trace"] "p.cm" ∧
        r.exit.number = 0 ∧ r'.exit.number = 1) ∧
    (let path := "counter_machines.rules: Trying"
      let tree : FileTree := [FileTree.file path (Utf8.encode "JEZ")]
      Asks [path] [] path ∧ tree.look path = .file (Utf8.encode "JEZ") ∧
        (run tree {} [path]).err .file =
          path ++ ": error: unexpected end of input (at token 1)\nhint: expected text\n") := by
  constructor
  · intro text look r r'
    have hplain : Asks ["p.cm"] [] "p.cm" := .plain [] "p.cm" [] (by decide) (by decide)
    have htrace : Asks ["--trace", "p.cm"] ["--trace"] "p.cm" :=
      .plain ["--trace"] "p.cm" [] (by decide) (by decide)
    have htokens := Program.tokensOf_closedNestText 123
    obtain ⟨hread, e, hdeep⟩ := Program.readIn_closedNest 122
      (optionsFor {} (Flags.given []) "p.cm") (optionsFor {} (Flags.given ["--trace"]) "p.cm")
    have hr : r = reportFile 124 {} (Flags.given []) "p.cm" (Utf8.encode text) :=
      runIn_of_asks Toolkit.standard_documented hplain rfl {}
    have hr' : r' = reportFile 123 {} (Flags.given ["--trace"]) "p.cm" (Utf8.encode text) :=
      runIn_of_asks Toolkit.standard_documented htrace rfl {}
    refine ⟨hplain, htrace, ?_, ?_⟩
    · rw [hr, reportFile_read rfl htokens rfl hread]
      rfl
    · rw [hr', reportFile_refused rfl htokens rfl hdeep]
      rfl
  · intro path tree
    exact ⟨.plain [] path [] (by decide) (by decide), by decide +kernel, by decide +kernel⟩

end CommandLine
end CounterLang
