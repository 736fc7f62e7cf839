/-
What the arguments of the command ask for, and what comes out when it prints a text.

Flags can be given in any order, before and behind the path, and more than once.  All that
counts is which of them are there (`Flags.given`).  A path that looks like an option is set
apart by two dashes.

The command sorts out no arguments and writes to no channel itself, but leaves both to a toolkit.
`Toolkit.Documented` is what is relied on there, and the results about the command hold for every
toolkit like that.  The one in use is (`Toolkit.standard_documented`).
-/
import CounterLang.CommandLine.Report

namespace CounterLang
namespace CommandLine

variable {arguments words : List String} {path : String}

/-- The words that set a flag. -/
def flagWords : List String := ["--tokens", "--ast", "--trace", "-v", "--verbose"]

namespace Flags

/-- The flags that are set by some words. -/
def given (words : List String) : Flags :=
  ⟨"--tokens" ∈ words, "--ast" ∈ words, "--trace" ∈ words, "-v" ∈ words ∨ "--verbose" ∈ words⟩

/-- The flags of `f`, with those set by some words. -/
def set (f : Flags) (words : List String) : Flags :=
  let g := given words
  ⟨g.tokens || f.tokens, g.outline || f.outline, g.trace || f.trace, g.verbose || f.verbose⟩

theorem set_append (f : Flags) (words words' : List String) :
    f.set (words ++ words') = (f.set words).set words' := by
  simp only [set, given, List.mem_append, Bool.decide_or]
  grind

theorem none_set (words : List String) : Flags.set {} words = given words := by
  simp only [set, Bool.or_false]

end Flags

/-- The arguments give the words, which all set flags, and name the path. -/
inductive Asks : (arguments words : List String) → (path : String) → Prop
  | plain (before : List String) (path : String) (after : List String)
      (hwords : ∀ w ∈ before ++ after, w ∈ flagWords)
      (hpath : Arguments.isOption path = false) :
      Asks (before ++ path :: after) (before ++ after) path
  | apart (words : List String) (path : String) (hwords : ∀ w ∈ words, w ∈ flagWords) :
      Asks (words ++ ["--", path]) words path

namespace Arguments

theorem option_of_mem (a : Arguments) {word : String} (h : word ∈ flagWords) :
    isOption word = true ∧ word ≠ "--" ∧
      a.option word = .ok { a with flags := a.flags.set [word] } := by
  simp only [flagWords, List.mem_cons, List.not_mem_nil, or_false] at h
  rcases h with rfl | rfl | rfl | rfl | rfl
  all_goals exact ⟨by decide, by decide, rfl⟩

theorem readInto_words (a : Arguments) (hwords : ∀ w ∈ words, w ∈ flagWords)
    (rest : List String) :
    a.readInto (words ++ rest) = readInto { a with flags := a.flags.set words } rest := by
  induction words generalizing a with
  | nil => rfl
  | cons word words ih =>
    rw [List.forall_mem_cons] at hwords
    obtain ⟨hoption, hne, hread⟩ := a.option_of_mem hwords.1
    rw [List.cons_append, readInto, if_neg hne, if_pos hoption, hread]
    show readInto _ (words ++ rest) = _
    rw [ih _ hwords.2, ← Flags.set_append, List.singleton_append]

theorem readInto_operand (a : Arguments) (hpath : isOption path = false) (rest : List String) :
    a.readInto (path :: rest) = (a.addOperand path).readInto rest := by
  have hne : path ≠ "--" := by
    rintro rfl
    cases hpath
  rw [readInto, if_neg hne, hpath, if_neg Bool.false_ne_true]

theorem read_of_asks (h : Asks arguments words path) :
    read arguments = .ok { flags := Flags.given words, operands := [path] } := by
  cases h with
  | plain before path after hwords hpath =>
    have hboth := List.forall_mem_append.mp hwords
    rw [read, readInto_words _ hboth.1, readInto_operand _ hpath, ← List.append_nil after,
      readInto_words _ hboth.2, List.append_nil, ← Flags.none_set, Flags.set_append]
    rfl
  | apart words path hwords =>
    rw [read, readInto_words _ hwords, Flags.none_set]
    rfl

end Arguments

/-! ## Toolkits -/

/-- What is known of a toolkit from its documentation. -/
structure Toolkit.Documented (kit : Toolkit) : Prop where
  plan_of_asks {arguments words : List String} {path : String}
    (h : Asks arguments words path) : kit.plan arguments = .look (Flags.given words) path []
  /-- A terminal gets a text as it is, and an end of line. -/
  echo_terminal (text : String) : kit.echo .terminal text = text ++ "\n"
  /-- What is left out elsewhere are control sequences, which start with the escape character. -/
  echo_of_not_mem (channel : Channel) {text : String} (h : Text.escape ∉ text.toList) :
    kit.echo channel text = text ++ "\n"

theorem Toolkit.standard_documented : standard.Documented where
  plan_of_asks {arguments words path} h := by
    show CommandLine.plan arguments = _
    rw [CommandLine.plan, Arguments.read_of_asks h]
  echo_terminal _ := rfl
  echo_of_not_mem channel text h := by
    cases channel with
    | terminal => rfl
    | file => exact congrArg (· ++ "\n") (Text.visible_eq_self h)

section Run

variable {kit : Toolkit} {room : Nat} {look : String → Entry} {bytes : List UInt8}

/-- The command reports on the file that the path names. -/
theorem runIn_of_asks (hkit : kit.Documented) (h : Asks arguments words path)
    (hfile : look path = .file bytes) (env : Environment) :
    runIn kit room look env arguments = reportFile room env (Flags.given words) path bytes := by
  rw [runIn, hkit.plan_of_asks h]
  simp only [hfile]
  rfl

end Run

namespace Toolkit

variable {kit : Toolkit} {channel : Channel} {text : String}

/-- The output is what comes of the text when it is printed.  That is the text itself and an end
of line, unless it has an escape character in it and the channel is no terminal. -/
def Shows (kit : Toolkit) (channel : Channel) (output text : String) : Prop :=
  output = kit.echo channel text ∧
    (channel = .terminal ∨ Text.escape ∉ text.toList → output = text ++ "\n")

theorem Documented.shows_echo (hkit : kit.Documented) (channel : Channel) (text : String) :
    kit.Shows channel (kit.echo channel text) text := by
  refine ⟨rfl, ?_⟩
  rintro (rfl | hescape)
  · exact hkit.echo_terminal text
  · exact hkit.echo_of_not_mem channel hescape

theorem echoAll_nil (kit : Toolkit) (channel : Channel) : kit.echoAll channel [] = "" := rfl

theorem echoAll_singleton (kit : Toolkit) (channel : Channel) (text : String) :
    kit.echoAll channel [text] = kit.echo channel text := String.empty_append

theorem Documented.echoAll_eq (hkit : kit.Documented) (channel : Channel) {texts : List String}
    (h : ∀ text ∈ texts, Text.escape ∉ text.toList) : kit.echoAll channel texts = written texts :=
  congrArg String.join (List.map_congr_left fun text ht => hkit.echo_of_not_mem channel (h text ht))

end Toolkit

end CommandLine
end CounterLang
