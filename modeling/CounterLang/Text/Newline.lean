/-
Ends of lines.
-/

namespace CounterLang
namespace Text

/-- Every line ends in a line feed, whether it ended in one before, in a carriage return or
in both. -/
def foldNewlines : List Char → List Char
  | [] => []
  | '\r' :: '\n' :: rest => '\n' :: foldNewlines rest
  | c :: rest => (if c = '\r' then '\n' else c) :: foldNewlines rest

end Text
end CounterLang
