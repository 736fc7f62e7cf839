/-
What the command says of a file, and with which exit code.

A file goes through the stages of a reading: its bytes are decoded, its text is scanned, its
tokens are listed or read.  Each stage has one report for what goes wrong at it, and the last
two have one for the answer (`reportFile_undecodable` and the lemmas below it).  The text of a
file is not the text that is scanned, since the ends of its lines are made alike, but these are
blank in any form, so the tokens are the same (`tokensOf_asRead`).

Two theorems put the stages together, for every toolkit that is as documented, for whatever is
found under the path, and for whatever room there is for loops.  `run_exit_and_channels` gives the
exit code and the two channels for a file with any bytes, and `run_tells_reading` compares the
report with a reading of the text itself, which may have other room.

Neither leaves out its conditions for nothing.  The toolkit in use keeps control sequences from a
channel that is no terminal (`run_err_without_sequence`), and where there is room for one loop less
a program is not read any more (`run_tells_reading_unequal`).
-/
import CounterLang.Proofs.Request
import CounterLang.Proofs.Room
import CounterLang.Proofs.Utf8

namespace CounterLang

/-! ## The text of a file -/

/-- Ends of lines are blank, whatever their form. -/
theorem piecesAfter_foldNewlines (text word : List Char) :
    piecesAfter word (Text.foldNewlines text) = piecesAfter word text := by
  induction text using Text.foldNewlines.induct generalizing word with
  | case1 => rfl
  | case2 rest ih =>
    have hreturn : Text.isBlank '\r' = true := by decide
    have hfeed : Text.isBlank '\n' = true := by decide
    rw [Text.foldNewlines, piecesAfter, if_pos hfeed, ih, piecesAfter, if_pos hreturn,
      piecesAfter, if_pos hfeed]
    rfl
  | case3 c rest hpair ih =>
    rw [Text.foldNewlines]
    · by_cases hc : c = '\r'
      · subst hc
        have hreturn : Text.isBlank '\r' = true := by decide
        have hfeed : Text.isBlank '\n' = true := by decide
        rw [if_pos rfl, piecesAfter, if_pos hfeed, ih, piecesAfter, if_pos hreturn]
      · rw [if_neg hc, piecesAfter, ih, ih, piecesAfter]
    · exact hpair

namespace CommandLine

open Program (readIn)

/-- A text as it is read from a file. -/
def asRead (text : String) : String := String.ofList (Text.foldNewlines text.toList)

theorem tokensOf_asRead (text : String) : tokensOf (asRead text) = tokensOf text := by
  rw [tokensOf, Scan.start, pieces, asRead, String.toList_ofList, piecesAfter_foldNewlines]
  rfl

/-! ## The stages

The journal that a report shows begins with the scan of the text, and goes on with the journal
of the reading where there is one. -/

section Stages

variable {room : Nat} {env : Environment} {flags : Flags} {path text : String}
  {bytes : List UInt8} {tokens : List Token}

theorem reportFile_undecodable {f : Utf8.Fault} (h : Utf8.decode bytes = .error f) :
    reportFile room env flags path bytes =
      { exit := .invalidArgs, refusal := ["Error: " ++ f.message] } := by
  rw [reportFile, h]

theorem reportFile_encode (hbytes : bytes = Utf8.encode text) :
    reportFile room env flags path bytes =
      reportText room (optionsFor env flags path) flags (asRead text) := by
  rw [reportFile, hbytes, Utf8.decode_encode]
  rfl

theorem reportFile_tooLong {e : Numeral.TooLong} (hbytes : bytes = Utf8.encode text)
    (h : tokensOf text = .error e) :
    reportFile room env flags path bytes =
      { exit := .internalError, refusal := ["Internal error: " ++ e.message],
        raised := if flags.verbose then some e else none } := by
  rw [reportFile_encode hbytes, reportText, tokensOf_asRead, h]

theorem reportFile_tokens (hbytes : bytes = Utf8.encode text) (h : tokensOf text = .ok tokens)
    (hflag : flags.tokens = true) :
    reportFile room env flags path bytes =
      { exit := .success, answer := listing tokens,
        log := log flags [Program.scanned (asRead text) tokens] } := by
  rw [reportFile_encode hbytes, reportText, tokensOf_asRead, h]
  exact if_pos hflag

theorem reportFile_refused {f : Failure} (hbytes : bytes = Utf8.encode text)
    (h : tokensOf text = .ok tokens) (hflag : flags.tokens = false)
    (hread : (readIn room (optionsFor env flags path) tokens).result = .error f) :
    reportFile room env flags path bytes =
      { exit := .parseError, refusal := [f.message],
        log := log flags (Program.scanned (asRead text) tokens ::
          (readIn room (optionsFor env flags path) tokens).journal) } := by
  rw [reportFile_encode hbytes, reportText, tokensOf_asRead, h]
  simp only [hflag, hread]
  rfl

theorem reportFile_read {p : Program} (hbytes : bytes = Utf8.encode text)
    (h : tokensOf text = .ok tokens) (hflag : flags.tokens = false)
    (hread : (readIn room (optionsFor env flags path) tokens).result = .ok p) :
    reportFile room env flags path bytes =
      { exit := .success,
        answer := [if flags.outline then p.outlineText else summary (Path.tidy path) tokens p],
        log := log flags (Program.scanned (asRead text) tokens ::
          (readIn room (optionsFor env flags path) tokens).journal) } := by
  rw [reportFile_encode hbytes, reportText, tokensOf_asRead, h]
  simp only [hflag, hread]
  rfl

/-- The stage at which the report on a file is made. -/
inductive Stage (room : Nat) (options : Options) (flags : Flags) (bytes : List UInt8) : Prop
  | undecodable {f : Utf8.Fault} (h : Utf8.decode bytes = .error f)
  | tooLong {text : String} {e : Numeral.TooLong} (hbytes : bytes = Utf8.encode text)
      (h : tokensOf text = .error e)
  | tokens {text : String} {tokens : List Token} (hbytes : bytes = Utf8.encode text)
      (h : tokensOf text = .ok tokens) (hflag : flags.tokens = true)
  | refused {text : String} {tokens : List Token} {f : Failure}
      (hbytes : bytes = Utf8.encode text) (h : tokensOf text = .ok tokens)
      (hflag : flags.tokens = false) (hread : (readIn room options tokens).result = .error f)
  | read {text : String} {tokens : List Token} {p : Program} (hbytes : bytes = Utf8.encode text)
      (h : tokensOf text = .ok tokens) (hflag : flags.tokens = false)
      (hread : (readIn room options tokens).result = .ok p)

theorem stage (room : Nat) (options : Options) (flags : Flags) (bytes : List UInt8) :
    Stage room options flags bytes := by
  rcases Utf8.decode_cases bytes with ⟨text, htext⟩ | ⟨⟨f, hf⟩, -⟩
  · cases h : tokensOf text with
    | error e => exact .tooLong htext h
    | ok tokens =>
      cases hflag : flags.tokens with
      | true => exact .tokens htext h hflag
      | false =>
        cases hread : (readIn room options tokens).result with
        | error f => exact .refused htext h hflag hread
        | ok p => exact .read htext h hflag hread
  · exact .undecodable hf

end Stages

/-! ## Channels -/

/-- Neither of the flags is set that ask for the journal. -/
def Flags.Silent (flags : Flags) : Prop := flags.trace = false ∧ flags.verbose = false

theorem log_of_silent {flags : Flags} (h : flags.Silent) (j : Journal) : log flags j = "" := by
  rw [log, h.1, h.2]
  rfl

theorem ExitCode.number_eq_zero_iff (e : ExitCode) : e.number = 0 ↔ e = .success := by
  cases e <;> decide

section Report

variable {kit : Toolkit} {r : Report} {text : String}

theorem Toolkit.out_of_answer_nil (h : r.answer = []) (channel : Channel) :
    kit.out channel r = "" := by
  rw [out, h, echoAll_nil]

/-- The one text of the answer is all that the channel gets. -/
theorem Toolkit.Documented.shows_out (hkit : kit.Documented) (h : r.answer = [text])
    (channel : Channel) : kit.Shows channel (kit.out channel r) text := by
  rw [out, h, echoAll_singleton]
  exact hkit.shows_echo channel text

theorem Toolkit.err_of_refusal_nil (hlog : r.log = "") (hrefusal : r.refusal = [])
    (hraised : r.raised = none) (channel : Channel) : kit.err channel r = "" := by
  rw [err, hlog, hrefusal, hraised, echoAll_nil]
  rfl

/-- Without a log and a traceback, the one text of the refusal is all that the channel gets. -/
theorem Toolkit.Documented.shows_err (hkit : kit.Documented) (hlog : r.log = "")
    (hrefusal : r.refusal = [text]) (hraised : r.raised = none) (channel : Channel) :
    kit.Shows channel (kit.err channel r) text := by
  rw [err, hlog, hrefusal, hraised, echoAll_singleton]
  show kit.Shows channel ("" ++ kit.echo channel text ++ "") text
  rw [String.empty_append, String.append_empty]
  exact hkit.shows_echo channel text

/-- The report has an answer, or else says why there is none. -/
def Report.OneSided (flags : Flags) (r : Report) : Prop :=
  r.exit = .success ∧ r.refusal = [] ∧ r.raised = none ∧ (flags.Silent → r.log = "") ∨
    r.exit ≠ .success ∧ r.answer = []

end Report

theorem oneSided_reportFile (room : Nat) (env : Environment) (flags : Flags) (path : String)
    (bytes : List UInt8) : (reportFile room env flags path bytes).OneSided flags := by
  cases stage room (optionsFor env flags path) flags bytes with
  | undecodable h =>
    rw [reportFile_undecodable h]
    exact Or.inr ⟨nofun, rfl⟩
  | tooLong hbytes h =>
    rw [reportFile_tooLong hbytes h]
    exact Or.inr ⟨nofun, rfl⟩
  | tokens hbytes h hflag =>
    rw [reportFile_tokens hbytes h hflag]
    exact Or.inl ⟨rfl, rfl, rfl, fun hsilent => log_of_silent hsilent _⟩
  | refused hbytes h hflag hread =>
    rw [reportFile_refused hbytes h hflag hread]
    exact Or.inr ⟨nofun, rfl⟩
  | read hbytes h hflag hread =>
    rw [reportFile_read hbytes h hflag hread]
    exact Or.inl ⟨rfl, rfl, rfl, fun hsilent => log_of_silent hsilent _⟩

section Silent

variable {kit : Toolkit} {room : Nat} {env : Environment} {flags : Flags} {path text : String}
  {tokens : List Token}

/-- Unless diagnostics are asked for, the message is all that is told of a reading that fails. -/
theorem shows_refused {f : Failure} (hkit : kit.Documented) (hsilent : flags.Silent)
    (htokens : tokensOf text = .ok tokens) (hflag : flags.tokens = false)
    (hread : (readIn room (optionsFor env flags path) tokens).result = .error f) :
    let r := reportFile room env flags path (Utf8.encode text)
    r.exit = .parseError ∧ ∀ channel, kit.out channel r = "" ∧
      kit.Shows channel (kit.err channel r) f.message := by
  intro r
  have hr : r = { exit := .parseError, refusal := [f.message] } := by
    rw [← log_of_silent hsilent, ← reportFile_refused rfl htokens hflag hread]
  rw [hr]
  exact ⟨rfl, fun channel =>
    ⟨Toolkit.out_of_answer_nil rfl channel, hkit.shows_err rfl rfl rfl channel⟩⟩

/-- Neither is anything told of a word that is refused but the message. -/
theorem shows_tooLong {e : Numeral.TooLong} (hkit : kit.Documented) (hsilent : flags.Silent)
    (htokens : tokensOf text = .error e) :
    let r := reportFile room env flags path (Utf8.encode text)
    r.exit = .internalError ∧ ∀ channel, kit.out channel r = "" ∧
      kit.Shows channel (kit.err channel r) ("Internal error: " ++ e.message) := by
  intro r
  have hr : r = { exit := .internalError, refusal := ["Internal error: " ++ e.message] } := by
    have htrace : (if flags.verbose then some e else none) = none :=
      if_neg (Bool.eq_false_iff.mp hsilent.2)
    rw [← htrace]
    exact reportFile_tooLong rfl htokens
  rw [hr]
  exact ⟨rfl, fun channel =>
    ⟨Toolkit.out_of_answer_nil rfl channel, hkit.shows_err rfl rfl rfl channel⟩⟩

/-- The answer is all that is told of a reading that does not fail. -/
theorem shows_read {p : Program} (hkit : kit.Documented) (hsilent : flags.Silent)
    (htokens : tokensOf text = .ok tokens) (hflag : flags.tokens = false)
    (hread : (readIn room (optionsFor env flags path) tokens).result = .ok p) :
    let r := reportFile room env flags path (Utf8.encode text)
    r.exit = .success ∧ ∀ channel, kit.err channel r = "" ∧ kit.Shows channel (kit.out channel r)
      (if flags.outline then p.outlineText else summary (Path.tidy path) tokens p) := by
  intro r
  have hr : r = { exit := .success, answer :=
      [if flags.outline then p.outlineText else summary (Path.tidy path) tokens p] } := by
    rw [← log_of_silent hsilent, ← reportFile_read rfl htokens hflag hread]
  rw [hr]
  exact ⟨rfl, fun channel =>
    ⟨Toolkit.err_of_refusal_nil rfl rfl rfl channel, hkit.shows_out rfl channel⟩⟩

end Silent

/-- The exit code of the command and what is on its channels, for a file with any bytes and
for any flags. -/
theorem run_exit_and_channels (kit : Toolkit) (hkit : kit.Documented) (room : Nat)
    (look : String → Entry) (env : Environment) (arguments words : List String) (path : String)
    (bytes : List UInt8) (h : Asks arguments words path) (hfile : look path = .file bytes) :
    let flags := Flags.given words
    let r := runIn kit room look env arguments
    ((∀ text, bytes ≠ Utf8.encode text) → r.exit.number = 2) ∧
    (∀ text, bytes = Utf8.encode text →
      (∀ e, tokensOf text = .error e → r.exit.number = 3) ∧
      ∀ tokens, tokensOf text = .ok tokens →
        if flags.tokens then r.exit.number = 0
        else match (readIn room { filename := Path.tidy path } tokens).result with
          | .ok _ => r.exit.number = 0
          | .error f => r.exit.number = 1 ∧
            (flags.Silent → ∀ channel, kit.Shows channel (kit.err channel r) f.message)) ∧
    (r.exit.number ≠ 0 → ∀ channel, kit.out channel r = "") ∧
    (r.exit.number = 0 → flags.Silent → ∀ channel, kit.err channel r = "") := by
  intro flags r
  have hr : r = reportFile room env flags path bytes := runIn_of_asks hkit h hfile env
  have hsides : r.OneSided flags := by
    rw [hr]
    exact oneSided_reportFile room env flags path bytes
  refine ⟨?_, ?_, ?_, ?_⟩
  · intro hbytes
    rcases Utf8.decode_cases bytes with ⟨text, htext⟩ | ⟨⟨f, hf⟩, -⟩
    · exact absurd htext (hbytes text)
    · rw [hr, reportFile_undecodable hf]
      rfl
  · intro text hbytes
    refine ⟨fun e he => ?_, fun tokens htokens => ?_⟩
    · rw [hr, reportFile_tooLong hbytes he]
      rfl
    · cases hflag : flags.tokens with
      | true =>
        rw [if_pos rfl, hr, reportFile_tokens hbytes htokens hflag]
        rfl
      | false =>
        rw [if_neg Bool.false_ne_true]
        have hresult := Program.readIn_result_congr room (optionsFor env flags path)
          { filename := Path.tidy path } rfl tokens
        cases hread : (readIn room { filename := Path.tidy path } tokens).result with
        | ok p =>
          rw [hread] at hresult
          simp only [hr, reportFile_read hbytes htokens hflag hresult]
          rfl
        | error f =>
          rw [hread] at hresult
          simp only [hr, reportFile_refused hbytes htokens hflag hresult]
          exact ⟨rfl, fun hsilent => hkit.shows_err (log_of_silent hsilent _) rfl rfl⟩
  · intro hexit
    rw [Ne, ExitCode.number_eq_zero_iff] at hexit
    rcases hsides with ⟨hsuccess, -⟩ | ⟨-, hanswer⟩
    · exact absurd hsuccess hexit
    · exact Toolkit.out_of_answer_nil hanswer
  · intro hexit hsilent
    rw [ExitCode.number_eq_zero_iff] at hexit
    rcases hsides with ⟨-, hrefusal, hraised, hlog⟩ | ⟨hne, -⟩
    · exact Toolkit.err_of_refusal_nil (hlog hsilent) hrefusal hraised
    · exact absurd hexit hne

/-- A statement is cut off in a file that is found under an absolute path, named in a roundabout
way. -/
theorem run_exit_and_channels_cut_off :
    let bytes := Utf8.encode "INCR r\r\nJEZ"
    let look : String → Entry := fun path => if path = "/a/.//p.cm" then .file bytes else .missing
    let arguments := ["--ast", "/a/.//p.cm"]
    let r := runIn Toolkit.standard 7 look {} arguments
    Asks arguments ["--ast"] "/a/.//p.cm" ∧ look "/a/.//p.cm" = .file bytes ∧
      r.exit.number = 1 ∧ r.out .file = "" ∧
      r.err .file =
        "/a/p.cm: error: unexpected end of input (at token 3)\nhint: expected text\n" := by
  intro bytes look arguments r
  have hasks : Asks arguments ["--ast"] "/a/.//p.cm" :=
    .plain ["--ast"] "/a/.//p.cm" [] (by decide) (by decide)
  have hfile : look "/a/.//p.cm" = .file bytes := if_pos rfl
  obtain ⟨-, hdecoded, hout, -⟩ := run_exit_and_channels Toolkit.standard
    Toolkit.standard_documented 7 look {} arguments ["--ast"] "/a/.//p.cm" bytes hasks hfile
  let tokens : List Token := [.keyword .incr, .text "r", .keyword .jez]
  let failure : Failure :=
    { cause := .unexpectedEnd "text", position := some 3, filename := some "/a/p.cm",
      committed := true }
  have htokens : tokensOf "INCR r\r\nJEZ" = .ok tokens := rfl
  have hread : (readIn 7 { filename := Path.tidy "/a/.//p.cm" } tokens).result =
      .error failure := by decide +kernel
  have hreport := (hdecoded _ rfl).2 tokens htokens
  rw [if_neg (by decide), hread] at hreport
  obtain ⟨hexit, herr⟩ := hreport
  refine ⟨hasks, hfile, hexit, hout (by rw [hexit]; decide) .file, ?_⟩
  have hplain : Text.escape ∉ failure.message.toList := by decide +kernel
  exact ((herr ⟨rfl, rfl⟩ .file).2 (Or.inr hplain)).trans (by decide +kernel)

/-- The message quotes a word with a control sequence in it, which does not come out on a channel
that is no terminal. -/
theorem run_err_without_sequence :
    let text := "DEFINE F \x1b[1mx END"
    let tree : FileTree := [FileTree.file "p.cm" (Utf8.encode text)]
    let r := run tree {} ["p.cm"]
    Asks ["p.cm"] [] "p.cm" ∧ tree.look "p.cm" = .file (Utf8.encode text) ∧
      r.exit.number = 1 ∧
      ∃ tokens f, tokensOf text = .ok tokens ∧
        (Program.read { filename := "p.cm" } tokens).result = .error f ∧
        r.err .file ≠ f.message ++ "\n" := by
  intro text tree r
  let tokens : List Token := [.keyword .define, .text "F", .text "\x1b[1mx", .keyword .close]
  let failure : Failure :=
    { cause := .unexpectedToken "'AS'" (.token (.text "\x1b[1mx")), position := some 2,
      filename := some "p.cm", committed := true }
  have htokens : tokensOf text = .ok tokens := show tokensOf "DEFINE F \x1b[1mx END" = _ from rfl
  exact ⟨.plain [] "p.cm" [] (by decide) (by decide), by decide +kernel, by decide +kernel,
    tokens, failure, htokens, by decide +kernel, by decide +kernel⟩

/-! ## The command and a reading of the text -/

/-- The text of a file has the tokens of the text that was written to it.  The command tells
of that text what a reading of it gives: how many tokens, definitions and statements there are,
or the outline if this is asked for, or why it cannot be read.

The command has its own room for loops.  With room enough for both, and also where they have the
same, it tells what the reading gives, and whichever of them has too little says so. -/
theorem run_tells_reading :
    (∀ text, tokensOf (asRead text) = tokensOf text) ∧
    ∀ (kit : Toolkit) (room limit : Nat) (look : String → Entry) (env : Environment)
        (arguments words : List String) (path text : String),
      kit.Documented → Asks arguments words path → look path = .file (Utf8.encode text) →
      let flags := Flags.given words
      flags.tokens = false → flags.Silent →
      ∀ options : Options, options.filename = Path.tidy path →
      let r := runIn kit room look env arguments
      match Program.readTextIn limit options text with
      | .error e => r.exit = .internalError ∧ ∀ channel, kit.out channel r = "" ∧
          kit.Shows channel (kit.err channel r) ("Internal error: " ++ e.message)
      | .ok reading => ∃ tokens need, tokensOf text = .ok tokens ∧
          need ≤ tokens.count (.keyword .loop) + 1 ∧
          (room = limit ∨ need ≤ room ∧ need ≤ limit →
            match reading.result with
            | .error f => r.exit = .parseError ∧ ∀ channel, kit.out channel r = "" ∧
                kit.Shows channel (kit.err channel r) f.message
            | .ok p => r.exit = .success ∧ ∀ channel, kit.err channel r = "" ∧
                kit.Shows channel (kit.out channel r)
                  (if flags.outline then p.outlineText
                    else "Parsed " ++ Path.tidy path ++ ": " ++ Numeral.text tokens.length ++
                      " tokens, " ++ Numeral.text p.definitions.length ++ " functions, " ++
                      Numeral.text p.statements.length ++ " statements")) ∧
          (need ≤ limit → Program.Conclusive reading.result) ∧
          (limit < need → ∃ e : Nat, e ≤ tokens.length ∧ reading.result =
            .error ((Reading.tooDeep e).located (some (Path.tidy path)))) ∧
          (room < need → ∃ e : Nat, e ≤ tokens.length ∧ r.exit = .parseError ∧
            ∀ channel, kit.out channel r = "" ∧ kit.Shows channel (kit.err channel r)
              ((Reading.tooDeep e).located (some (Path.tidy path))).message) := by
  refine ⟨tokensOf_asRead, ?_⟩
  intro kit room limit look env arguments words path text hkit h hfile flags hflag hsilent options
    hname r
  have hr : r = reportFile room env flags path (Utf8.encode text) :=
    runIn_of_asks hkit h hfile env
  cases htokens : tokensOf text with
  | error e =>
    rw [Program.readTextIn_of_tooLong limit options htokens, hr]
    exact shows_tooLong hkit hsilent htokens
  | ok tokens =>
    obtain ⟨reading, hreading, hresult⟩ := Program.readTextIn_of_tokensOf limit options htokens
    obtain ⟨need, hcount, hneeds⟩ := Program.exists_needs tokens
    rw [hreading, hr]
    refine ⟨tokens, need, rfl, hcount, ?_, ?_, ?_, ?_⟩
    · intro hroom
      have hsame : (readIn room (optionsFor env flags path) tokens).result =
          (readIn limit options tokens).result := by
        rcases hroom with rfl | ⟨hroom, hlimit⟩
        · exact Program.readIn_result_congr room (optionsFor env flags path) options hname.symm _
        · exact hneeds.result_congr hroom hlimit hname.symm
      rw [← hresult] at hsame
      cases hread : reading.result with
      | error f => exact shows_refused hkit hsilent htokens hflag (hsame.trans hread)
      | ok p => exact shows_read hkit hsilent htokens hflag (hsame.trans hread)
    · intro hlimit
      rw [hresult]
      exact hneeds.conclusive hlimit options
    · intro hlimit
      obtain ⟨e, he, hdeep⟩ := hneeds.short limit hlimit
      exact ⟨e, he, by rw [hresult, hdeep, hname]⟩
    · intro hroom
      obtain ⟨e, he, hdeep⟩ := hneeds.short room hroom
      exact ⟨e, he, shows_refused hkit hsilent htokens hflag (hdeep _)⟩

/-- Two lines that end in different ways, with tracing switched on from outside. -/
theorem run_tells_reading_two_lines :
    let text := "INCR r\r\nDECR r\r"
    let look : String → Entry := fun _ => .file (Utf8.encode text)
    let env : Environment := { trace := some " Yes " }
    let r := runIn Toolkit.standard 5 look env ["./p.cm"]
    Asks ["./p.cm"] [] "./p.cm" ∧ look "./p.cm" = .file (Utf8.encode text) ∧
      r.exit = .success ∧ r.err .terminal = "" ∧
      r.out .terminal = "Parsed p.cm: 4 tokens, 0 functions, 2 statements\n" := by
  intro text look env r
  have hasks : Asks ["./p.cm"] [] "./p.cm" := .plain [] "./p.cm" [] (by decide) (by decide)
  let options : Options := { filename := "p.cm" }
  let tokens : List Token := [.keyword .incr, .text "r", .keyword .decr, .text "r"]
  let p : Program := ⟨[], [.incr ⟨"r"⟩, .decr ⟨"r"⟩]⟩
  have htokens : tokensOf text = .ok tokens := show tokensOf "INCR r\r\nDECR r\r" = _ from rfl
  have hread : (readIn 9 options tokens).result = .ok p := by decide +kernel
  obtain ⟨reading, hreading, hresult⟩ := Program.readTextIn_of_tokensOf 9 options htokens
  have hreport := run_tells_reading.2 Toolkit.standard 5 9 look env ["./p.cm"] [] "./p.cm" text
    Toolkit.standard_documented hasks rfl rfl ⟨rfl, rfl⟩ options (by decide +kernel)
  rw [hreading] at hreport
  obtain ⟨tokens', need, htokens', hneed, hsame, -⟩ := hreport
  obtain rfl : tokens = tokens' := Except.ok.inj (htokens.symm.trans htokens')
  have hcount : tokens.count (.keyword .loop) = 0 := by decide
  replace hsame := hsame (Or.inr ⟨by omega, by omega⟩)
  simp only [hresult, hread] at hsame
  obtain ⟨hexit, hchannels⟩ := hsame
  exact ⟨hasks, rfl, hexit, (hchannels .terminal).1,
    ((hchannels .terminal).2.2 (Or.inl rfl)).trans (by decide +kernel)⟩

/-- The outline shows a name with a control sequence in it, which does not come out on a channel
that is no terminal.  And where the command has room for one loop less than the reading, it refuses
a program of 123 loops inside each other that the reading gives. -/
theorem run_tells_reading_unequal :
    (let text := "INCR \x1b[1mr"
      let look : String → Entry := fun _ => .file (Utf8.encode text)
      let r := runIn Toolkit.standard 124 look {} ["--ast", "p.cm"]
      Asks ["--ast", "p.cm"] ["--ast"] "p.cm" ∧
        ∃ reading p, Program.readTextIn 124 { filename := "p.cm" } text = .ok reading ∧
          reading.result = .ok p ∧ r.out .file ≠ p.outlineText ++ "\n") ∧
    (let text := Program.closedNestText 123
      let look : String → Entry := fun _ => .file (Utf8.encode text)
      let r := runIn Toolkit.standard 123 look {} ["p.cm"]
      Asks ["p.cm"] [] "p.cm" ∧
        ∃ reading p, Program.readTextIn 124 { filename := "p.cm" } text = .ok reading ∧
          reading.result = .ok p ∧ r.exit = .parseError) := by
  constructor
  · let p : Program := ⟨[], [.incr ⟨"\x1b[1mr"⟩]⟩
    have htokens : tokensOf "INCR \x1b[1mr" = .ok [.keyword .incr, .text "\x1b[1mr"] := rfl
    obtain ⟨reading, hreading, hresult⟩ :=
      Program.readTextIn_of_tokensOf 124 { filename := "p.cm" } htokens
    have hread : reading.result = .ok p := hresult.trans (by decide +kernel)
    exact ⟨.plain ["--ast"] "p.cm" [] (by decide) (by decide), reading, p, hreading, hread,
      by decide +kernel⟩
  · intro text look r
    have hasks : Asks ["p.cm"] [] "p.cm" := .plain [] "p.cm" [] (by decide) (by decide)
    have htokens := Program.tokensOf_closedNestText 123
    obtain ⟨reading, hreading, hresult⟩ :=
      Program.readTextIn_of_tokensOf 124 { filename := "p.cm" } htokens
    obtain ⟨hread, e, hdeep⟩ :=
      Program.readIn_closedNest 122 { filename := "p.cm" } (optionsFor {} (Flags.given []) "p.cm")
    have hr : r = reportFile 123 {} (Flags.given []) "p.cm" (Utf8.encode text) :=
      runIn_of_asks Toolkit.standard_documented hasks rfl {}
    refine ⟨hasks, reading, _, hreading, hresult.trans hread, ?_⟩
    rw [hr, reportFile_refused rfl htokens rfl hdeep]

end CommandLine
end CounterLang
