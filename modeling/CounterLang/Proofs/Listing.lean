/-
The listing of the tokens of a file.

Every character of a token's record is printable, because the only one that comes from outside,
the word, is quoted.  So a record has no line break of any kind in it, and nothing that a channel
leaves out, and the listing can be cut at its line breaks into one line for each token.  Behind
its number, a line is a record, and that tells the token.  The theorem this file exists for is
`CommandLine.run_lists_tokens`.
-/
import CounterLang.Proofs.Record
import CounterLang.Proofs.Report

namespace CounterLang

/-! ## Characters of records -/

namespace Text

/-- The characters that end a line by some convention. -/
def lineBreaks : List Char :=
  ['\n', '\x0b', '\x0c', '\r', '\x1c', '\x1d', '\x1e', '\x85', '\u2028', '\u2029']

def isLineBreak (c : Char) : Bool := c ∈ lineBreaks

/-- What is between the line breaks of a text, and before the first and behind the last. -/
def linesOf (cs : List Char) : List (List Char) := cs.splitOnP isLineBreak

theorem isPrintable_of_ascii {c : Char} (hlow : 0x20 ≤ c.toNat) (hhigh : c.toNat < 0x7F) :
    isPrintable c = true := by
  have hcontrol : ¬c.toNat ≤ 0x1F := by omega
  rw [isPrintable, unprintableRanges, Ranges.covers, Ranges.covers, if_neg (Nat.not_lt_zero _),
    if_pos hhigh, Bool.or_false, decide_eq_false hcontrol, Bool.not_false]

/-- Line breaks are blank, and the only printable blank is the plain space. -/
theorem isLineBreak_of_isPrintable {c : Char} (h : isPrintable c = true) :
    isLineBreak c = false := by
  have hblank : lineBreaks.all (fun c => isBlank c && c.toNat != 0x20) = true := by decide
  rw [isLineBreak, decide_eq_false_iff_not]
  intro hmem
  have hc := List.all_eq_true.mp hblank c hmem
  rw [Bool.and_eq_true, bne_iff_ne] at hc
  rw [isPrintable_eq_false_of_isBlank hc.1 hc.2] at h
  cases h

end Text

open Text (isPrintable isLineBreak linesOf)

theorem Numeral.isPrintable_of_mem_write {n : Int} {c : Char} (h : c ∈ write n) :
    isPrintable c = true := by
  rcases mem_write h with hdigit | rfl
  · simp only [Char.isDigit, Bool.and_eq_true, decide_eq_true_eq] at hdigit
    have hbounds : 48 ≤ c.toNat ∧ c.toNat ≤ 57 := hdigit
    exact Text.isPrintable_of_ascii (by omega) (by omega)
  · decide

theorem Numeral.isPrintable_of_mem_text {n : Int} {c : Char} (h : c ∈ (text n).toList) :
    isPrintable c = true := by
  rw [toList_text] at h
  exact isPrintable_of_mem_write h

namespace Token

theorem isPrintable_of_mem_record {t : Token} {c : Char} (h : c ∈ t.record.toList) :
    isPrintable c = true := by
  have hbracket : isPrintable ')' = true := by decide
  cases t with
  | keyword k =>
    have hall : (keyword k).record.toList.all isPrintable = true := by
      cases k <;> decide
    exact List.all_eq_true.mp hall c h
  | text word =>
    have hopening : "Token(TEXT, ".toList.all isPrintable = true := by decide
    change c ∈ ("Token(TEXT, " ++ Text.quoted word ++ ")").toList at h
    rw [String.toList_append, String.toList_append, List.mem_append, List.mem_append] at h
    rcases h with (h | h) | h
    · exact List.all_eq_true.mp hopening c h
    · exact Text.isPrintable_of_mem_quoted h
    · rwa [List.mem_singleton.mp h]
  | number value =>
    have hopening : "Token(NUMBER, ".toList.all isPrintable = true := by decide
    change c ∈ ("Token(NUMBER, " ++ Numeral.text value ++ ")").toList at h
    rw [String.toList_append, String.toList_append, List.mem_append, List.mem_append] at h
    rcases h with (h | h) | h
    · exact List.all_eq_true.mp hopening c h
    · exact Numeral.isPrintable_of_mem_text h
    · rwa [List.mem_singleton.mp h]

end Token

namespace CommandLine

/-! ## Lines of a listing -/

/-- A line of the listing: the number in five columns, and the record two columns behind it. -/
def listingLine (index : Nat) (t : Token) : List Char :=
  List.leftpad 5 ' ' (Numeral.write index) ++ ' ' :: ' ' :: t.record.toList

variable {tokens tokens' : List Token} {index : Nat} {lines : List String} {c : Char}

theorem map_toList_listingFrom (index : Nat) (tokens : List Token) :
    (listingFrom index tokens).map String.toList =
      tokens.mapIdx fun i t => listingLine (i + index) t := by
  induction tokens generalizing index with
  | nil => rfl
  | cons t rest ih =>
    have hnumber : (String.ofList (rightAligned 5 index)).toList = rightAligned 5 index :=
      String.toList_ofList
    rw [listingFrom, List.map_cons, List.mapIdx_cons, ih, String.toList_append,
      String.toList_append, hnumber, List.append_assoc, Nat.zero_add]
    simp only [Nat.add_assoc, Nat.add_comm 1]
    rfl

theorem map_toList_listing (tokens : List Token) :
    (listing tokens).map String.toList = tokens.mapIdx listingLine :=
  map_toList_listingFrom 0 tokens

theorem listingLine_inj {t u : Token} (h : listingLine index t = listingLine index u) : t = u := by
  have hrecord := List.append_cancel_left h
  rw [List.cons.injEq, List.cons.injEq] at hrecord
  exact Token.record_inj (String.toList_inj.mp hrecord.2.2)

theorem isPrintable_of_mem_listingLine {t : Token} (h : c ∈ listingLine index t) :
    isPrintable c = true := by
  have hspace : isPrintable ' ' = true := by decide
  rw [listingLine, List.leftpad, List.mem_append, List.mem_append, List.mem_cons,
    List.mem_cons] at h
  rcases h with (h | h) | rfl | rfl | h
  · rwa [List.eq_of_mem_replicate h]
  · exact Numeral.isPrintable_of_mem_write h
  · exact hspace
  · exact hspace
  · exact Token.isPrintable_of_mem_record h

theorem isPrintable_of_mem_listing {line : String} (hline : line ∈ listing tokens)
    (h : c ∈ line.toList) : isPrintable c = true := by
  have hmem : line.toList ∈ (listing tokens).map String.toList := List.mem_map_of_mem hline
  rw [map_toList_listing, List.mem_mapIdx] at hmem
  obtain ⟨i, hi, hchars⟩ := hmem
  rw [← hchars] at h
  exact isPrintable_of_mem_listingLine h

/-! ## The listing as it is written -/

theorem toList_written (lines : List String) :
    (written lines).toList = lines.flatMap fun line => line.toList ++ ['\n'] := by
  rw [written, String.toList_join, List.flatMap_map]
  simp only [String.toList_append]
  rfl

/-- Behind the last line break there is nothing. -/
theorem linesOf_written (h : ∀ line ∈ lines, ∀ c ∈ line.toList, isLineBreak c = false) :
    linesOf (written lines).toList = lines.map String.toList ++ [[]] := by
  rw [toList_written]
  induction lines with
  | nil => exact List.splitOnP_nil
  | cons line lines ih =>
    rw [List.forall_mem_cons] at h
    rw [List.flatMap_cons, List.append_assoc, linesOf, List.singleton_append,
      List.splitOnP_append_cons _ _ rfl, List.splitOnP_eq_singleton h.1, ← linesOf, ih h.2]
    rfl

theorem linesOf_written_listing (tokens : List Token) :
    linesOf (written (listing tokens)).toList = tokens.mapIdx listingLine ++ [[]] := by
  rw [← map_toList_listing]
  apply linesOf_written
  intro line hline c hc
  exact Text.isLineBreak_of_isPrintable (isPrintable_of_mem_listing hline hc)

theorem mapIdx_listingLine_inj (h : tokens.mapIdx listingLine = tokens'.mapIdx listingLine) :
    tokens = tokens' := by
  have hlength := congrArg List.length h
  rw [List.length_mapIdx, List.length_mapIdx] at hlength
  refine List.ext_getElem hlength fun i hi hi' => ?_
  have hline : (tokens.mapIdx listingLine)[i]? = (tokens'.mapIdx listingLine)[i]? := by rw [h]
  rw [List.getElem?_mapIdx, List.getElem?_mapIdx, List.getElem?_eq_getElem hi,
    List.getElem?_eq_getElem hi'] at hline
  exact listingLine_inj (Option.some.inj hline)

/-- A listing has nothing in it that only a terminal gets. -/
theorem echoAll_listing {kit : Toolkit} (hkit : kit.Documented) (channel : Channel)
    (tokens : List Token) : kit.echoAll channel (listing tokens) = written (listing tokens) := by
  apply hkit.echoAll_eq
  intro line hline hescape
  have hprintable : isPrintable Text.escape = false := by decide
  rw [isPrintable_of_mem_listing hline hescape] at hprintable
  cases hprintable

/-- The command is asked for the tokens of a file that holds the text. -/
def ListsTokens (look : String → Entry) (arguments : List String) (text : String) : Prop :=
  ∃ words path, Asks arguments words path ∧ (Flags.given words).tokens = true ∧
    look path = .file (Utf8.encode text)

theorem ListsTokens.out_eq {kit : Toolkit} {look : String → Entry} {arguments : List String}
    {text : String} (h : ListsTokens look arguments text) (hkit : kit.Documented)
    (htokens : tokensOf text = .ok tokens) (room : Nat) (env : Environment) (channel : Channel) :
    kit.out channel (runIn kit room look env arguments) = written (listing tokens) := by
  obtain ⟨words, path, hasks, hflag, hfile⟩ := h
  rw [runIn_of_asks hkit hasks hfile, reportFile_tokens rfl htokens hflag]
  exact echoAll_listing hkit channel tokens

/-- The listing of a text has one line for each token, with its number in five columns and its
record.  No record has a line break in it, and each tells its token, so two listings are the same
if and only if the tokens are. -/
theorem run_lists_tokens :
    (∀ (kit : Toolkit) (room : Nat) (look : String → Entry) (env : Environment)
        (arguments : List String) (text : String) (tokens : List Token),
      kit.Documented → ListsTokens look arguments text → tokensOf text = .ok tokens → ∀ channel,
        linesOf (kit.out channel (runIn kit room look env arguments)).toList =
          (tokens.mapIdx fun i t =>
            List.leftpad 5 ' ' (Numeral.write i) ++ ' ' :: ' ' :: t.record.toList) ++ [[]]) ∧
    (∀ t : Token, ∀ c ∈ t.record.toList, isLineBreak c = false) ∧
    (∀ t u : Token, t.record = u.record ↔ t = u) ∧
    ∀ (kit kit' : Toolkit) (room room' : Nat) (look look' : String → Entry)
        (env env' : Environment) (arguments arguments' : List String) (text text' : String)
        (tokens tokens' : List Token),
      kit.Documented → ListsTokens look arguments text → tokensOf text = .ok tokens →
      kit'.Documented → ListsTokens look' arguments' text' → tokensOf text' = .ok tokens' →
      ∀ channel channel',
        kit.out channel (runIn kit room look env arguments) =
            kit'.out channel' (runIn kit' room' look' env' arguments') ↔
          tokens = tokens' := by
  refine ⟨?_, ?_, ?_, ?_⟩
  · intro kit room look env arguments text tokens hkit h htokens channel
    rw [h.out_eq hkit htokens, linesOf_written_listing]
    rfl
  · intro t c hc
    exact Text.isLineBreak_of_isPrintable (Token.isPrintable_of_mem_record hc)
  · intro t u
    exact ⟨Token.record_inj, congrArg Token.record⟩
  · intro kit kit' room room' look look' env env' arguments arguments' text text' tokens tokens'
      hkit h htokens hkit' h' htokens' channel channel'
    rw [h.out_eq hkit htokens, h'.out_eq hkit' htokens']
    constructor
    · intro hout
      have hlines := linesOf_written_listing tokens
      rw [hout, linesOf_written_listing] at hlines
      exact (mapIdx_listingLine_inj (List.append_cancel_right hlines)).symm
    · rintro rfl
      rfl

/-- Two files that differ in how the tokens are spelled and in what is between them, with a word
that has a quote and a control sequence in it. -/
theorem run_lists_tokens_escaped :
    let text := "it's\x1b[1m 007;"
    let text' := "it's\x1b[1m +7 ;\r\n"
    let tokens : List Token := [.text "it's\x1b[1m", .number 7, .keyword .semicolon]
    let tree : FileTree :=
      [FileTree.file "p.cm" (Utf8.encode text), FileTree.file "q.cm" (Utf8.encode text')]
    let r := run tree {} ["--tokens", "p.cm"]
    let r' := run tree {} ["-v", "q.cm", "--tokens"]
    ListsTokens tree.look ["--tokens", "p.cm"] text ∧ tokensOf text = .ok tokens ∧
      ListsTokens tree.look ["-v", "q.cm", "--tokens"] text' ∧ tokensOf text' = .ok tokens ∧
      linesOf (r.out .file).toList =
        ["    0  Token(TEXT, \"it's\\x1b[1m\")".toList, "    1  Token(NUMBER, 7)".toList,
          "    2  Token(SEMICOLON)".toList, []] ∧
      r.out .file = r'.out .terminal := by
  intro text text' tokens tree r r'
  have hasks : ListsTokens tree.look ["--tokens", "p.cm"] text :=
    ⟨["--tokens"], "p.cm", .plain ["--tokens"] "p.cm" [] (by decide) (by decide), by decide, rfl⟩
  have hasks' : ListsTokens tree.look ["-v", "q.cm", "--tokens"] text' :=
    ⟨["-v", "--tokens"], "q.cm", .plain ["-v"] "q.cm" ["--tokens"] (by decide) (by decide),
      by decide, rfl⟩
  have htokens : tokensOf text = .ok tokens := show tokensOf "it's\x1b[1m 007;" = _ from rfl
  have htokens' : tokensOf text' = .ok tokens :=
    show tokensOf "it's\x1b[1m +7 ;\r\n" = _ from rfl
  obtain ⟨hlines, -, -, hsame⟩ := run_lists_tokens
  refine ⟨hasks, htokens, hasks', htokens', ?_, ?_⟩
  · exact (hlines Toolkit.standard _ tree.look {} _ text tokens Toolkit.standard_documented hasks
      htokens .file).trans rfl
  · exact (hsame Toolkit.standard Toolkit.standard _ _ tree.look tree.look {} {} _ _ text text'
      tokens tokens Toolkit.standard_documented hasks htokens Toolkit.standard_documented hasks'
      htokens' .file .terminal).mpr rfl

end CommandLine
end CounterLang
