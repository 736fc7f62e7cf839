/-
Tokens: the words and marks that a program is made of.
-/
import CounterLang.Text.Quoted
import CounterLang.Text.Numeral

namespace CounterLang

/-- The words with a meaning of their own, and the two punctuation marks. -/
inductive Keyword
  | incr
  | decr
  | jez
  | define
  /-- Separates the head of a definition from its body. -/
  | body
  /-- Closes a definition or a loop. -/
  | close
  | loop
  | colon
  | semicolon
deriving DecidableEq, Repr

namespace Keyword

def spelling : Keyword → String
  | incr => "INCR"
  | decr => "DECR"
  | jez => "JEZ"
  | define => "DEFINE"
  | body => "AS"
  | close => "END"
  | loop => "REPEAT"
  | colon => ":"
  | semicolon => ";"

/-- The name of the keyword, which for a punctuation mark is a word. -/
def label : Keyword → String
  | colon => "COLON"
  | semicolon => "SEMICOLON"
  | k => k.spelling

def all : List Keyword := [incr, decr, jez, define, body, close, loop, colon, semicolon]

/-- The keywords in the order of the language's vocabulary, where the end of a block
comes before the start of a body. -/
def vocabulary : List Keyword :=
  [incr, decr, jez, define, close, body, loop, colon, semicolon]

/-- Matching is exact: `Incr` and `INCRX` are no keywords. -/
def ofSpelling? (word : String) : Option Keyword := all.find? (·.spelling = word)

@[simp] theorem ofSpelling?_spelling (k : Keyword) : ofSpelling? k.spelling = some k := by
  cases k <;> decide

theorem eq_spelling_of_ofSpelling? {word : String} {k : Keyword}
    (h : ofSpelling? word = some k) : word = k.spelling := by
  have hk := List.find?_some h
  simp only [decide_eq_true_eq] at hk
  exact hk.symm

end Keyword

/-- What can be asked of the next token: a given keyword, any other word, any number. -/
inductive Kind
  | keyword (k : Keyword)
  | text
  | number
deriving DecidableEq, Repr

namespace Kind

def spelling : Kind → String
  | keyword k => k.spelling
  | text => "text"
  | number => "number"

def label : Kind → String
  | keyword k => k.label
  | text => "TEXT"
  | number => "NUMBER"

/-- The kind as an expectation is worded: what stands in the program is quoted. -/
def wanted : Kind → String
  | keyword k => "'" ++ k.spelling ++ "'"
  | k => k.spelling

def all : List Kind := Keyword.all.map keyword ++ [text, number]

end Kind

/-- A token of a program.  Texts and numbers are not limited to those that a program text
can spell, so that a list of tokens can be made without one. -/
inductive Token
  | keyword (k : Keyword)
  | text (word : String)
  | number (value : Int)
deriving DecidableEq, Repr

namespace Token

def kind : Token → Kind
  | keyword k => .keyword k
  | text _ => .text
  | number _ => .number

def spelling : Token → String
  | keyword k => k.spelling
  | text word => word
  | number value => Numeral.text value

/-- The token as it is named in an error message.  A text stands there as it is. -/
def shown : Token → String
  | keyword k => "'" ++ k.spelling ++ "'"
  | text word => "text '" ++ word ++ "'"
  | number value => "number " ++ Numeral.text value

/-- The token as a record on one line, from which it can be told apart from any other. -/
def record : Token → String
  | keyword k => "Token(" ++ k.label ++ ")"
  | text word => "Token(TEXT, " ++ Text.quoted word ++ ")"
  | number value => "Token(NUMBER, " ++ Numeral.text value ++ ")"

end Token
end CounterLang
