/-
Scanning: cutting a text into the pieces that are one token each, and reading the pieces
one after the other.  Scans that have been started of one text can be asked for their tokens
in any order, and so can passages, which go through the text character by character.
-/
import CounterLang.Token.Word

namespace CounterLang

/-- A punctuation mark is a token of its own wherever it stands. -/
def punctuation : List Char := [':', ';']

def isPunctuation (c : Char) : Bool := c ∈ punctuation

/-- The pieces of a text, given the part of a word, last character first, that has been
passed.  Blanks and punctuation marks end a word, and only blanks are dropped. -/
def piecesAfter (word : List Char) : List Char → List (List Char)
  | [] => flush word
  | c :: rest =>
    if Text.isBlank c then flush word ++ piecesAfter [] rest
    else if isPunctuation c then flush word ++ [c] :: piecesAfter [] rest
    else piecesAfter (c :: word) rest
where
  flush (word : List Char) : List (List Char) := if word = [] then [] else [word.reverse]

/-- The stretches of a text that are one token each, in order. -/
def pieces (text : List Char) : List String := (piecesAfter [] text).map String.ofList

/-- A scan of a text: the pieces that have not been read yet.  A scan reads a piece only
when asked for it, so a piece that cannot be read does no harm to those before it. -/
structure Scan where
  ahead : List String
deriving DecidableEq, Repr

namespace Scan

def start (text : String) : Scan := ⟨pieces text.toList⟩

/-- The next token and the scan after it.  A scan that has met a piece it cannot read is
over. -/
def next (s : Scan) : Option (Except Numeral.TooLong Token) × Scan :=
  match s.ahead with
  | [] => (none, s)
  | piece :: rest =>
    match Token.ofWord piece with
    | .ok t => (some (.ok t), ⟨rest⟩)
    | .error e => (some (.error e), ⟨[]⟩)

def tokens (s : Scan) : Except Numeral.TooLong (List Token) := s.ahead.mapM Token.ofWord

end Scan

def tokensOf (text : String) : Except Numeral.TooLong (List Token) := (Scan.start text).tokens

/-! ## Several scans of one text -/

/-- A text and the scans of it that have been started, in order. -/
structure Scans where
  text : String
  scans : List Scan
deriving DecidableEq, Repr

namespace Scans

inductive Step
  | start
  /-- Asks the scan with this index for its next token. -/
  | next (index : Nat)
deriving DecidableEq, Repr

inductive Reply
  | started (index : Nat)
  | token (t : Token)
  | tooLong (e : Numeral.TooLong)
  | ended
  /-- There is no scan with the index that was given. -/
  | unknown
deriving DecidableEq, Repr

/-- The reply that gives an item out. -/
def Reply.ofItem : Except Numeral.TooLong Token → Reply
  | .ok t => .token t
  | .error e => .tooLong e

def ofText (text : String) : Scans := ⟨text, []⟩

def step (s : Scans) : Step → Reply × Scans
  | .start => (.started s.scans.length, { s with scans := s.scans ++ [Scan.start s.text] })
  | .next index =>
    match s.scans[index]? with
    | none => (.unknown, s)
    | some scan =>
      let (item, scan) := scan.next
      let reply := match item with
        | none => .ended
        | some (.ok t) => .token t
        | some (.error e) => .tooLong e
      (reply, { s with scans := s.scans.set index scan })

def run (s : Scans) : List Step → List Reply
  | [] => []
  | step :: steps =>
    let (reply, s) := s.step step
    reply :: s.run steps

end Scans

/-! ## Passing a text character by character -/

/-- A scan that is put off in the middle of a text.  Where a mark has ended the word that it
gave last, it owes the mark. -/
structure Passage where
  owed : Option Char
  rest : List Char
deriving DecidableEq, Repr

namespace Passage

def start (text : String) : Passage := ⟨none, text.toList⟩

def finished : Passage := ⟨none, []⟩

/-- Gives a piece and is put off, unless the piece is refused. -/
def give (piece : List Char) (later : Passage) :
    Option (Except Numeral.TooLong Token) × Passage :=
  match Token.ofWord (String.ofList piece) with
  | .ok t => (some (.ok t), later)
  | .error e => (some (.error e), finished)

/-- Goes on from a part of a word, last character first, until there is a piece to give. -/
def pass (word : List Char) : List Char → Option (Except Numeral.TooLong Token) × Passage
  | [] => if word = [] then (none, finished) else give word.reverse finished
  | c :: rest =>
    if Text.isBlank c then
      if word = [] then pass [] rest else give word.reverse ⟨none, rest⟩
    else if isPunctuation c then
      if word = [] then give [c] ⟨none, rest⟩ else give word.reverse ⟨some c, rest⟩
    else pass (c :: word) rest

def next (p : Passage) : Option (Except Numeral.TooLong Token) × Passage :=
  match p.owed with
  | some c => give [c] ⟨none, p.rest⟩
  | none => pass [] p.rest

end Passage

/-- A text and the passages of it that have been started, in order. -/
structure Passages where
  text : String
  passages : List Passage
deriving DecidableEq, Repr

namespace Passages

open Scans (Step Reply)

def ofText (text : String) : Passages := ⟨text, []⟩

def step (s : Passages) : Step → Reply × Passages
  | .start =>
    (.started s.passages.length, { s with passages := s.passages ++ [Passage.start s.text] })
  | .next index =>
    match s.passages[index]? with
    | none => (.unknown, s)
    | some p =>
      ((p.next.1.map Reply.ofItem).getD .ended,
        { s with passages := s.passages.set index p.next.2 })

def run (s : Passages) : List Step → List Reply
  | [] => []
  | step :: steps => (s.step step).1 :: (s.step step).2.run steps

end Passages
end CounterLang
