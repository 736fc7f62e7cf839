/-
A tree of files, given as the paths of the files, and what a path names in it.
-/

namespace CounterLang

/-! ## Paths -/

namespace Path

/-- The parts of a path between its slashes, given the part that has been passed, last
character first.  Parts can be empty. -/
def partsAfter (part : List Char) : List Char → List String
  | [] => [String.ofList part.reverse]
  | c :: rest =>
    if c = '/' then String.ofList part.reverse :: partsAfter [] rest
    else partsAfter (c :: part) rest

def parts (path : String) : List String := partsAfter [] path.toList

def isIdle (part : String) : Bool := part = "" || part = "."

/-- What a path starts with: nothing, a slash, or the two slashes that may have a meaning
of their own.  More than two count as one. -/
def root (path : String) : String :=
  match path.toList with
  | '/' :: '/' :: '/' :: _ => "/"
  | '/' :: '/' :: _ => "//"
  | '/' :: _ => "/"
  | _ => ""

/-- The path without the parts that stay where they are. -/
def tidy (path : String) : String :=
  let shown := root path ++ "/".intercalate ((parts path).filter fun part => !isIdle part)
  if shown = "" then "." else shown

end Path

/-! ## Trees -/

inductive Entry
  | missing
  | directory
  | file (bytes : List UInt8)
deriving DecidableEq, Repr

/-- The files below a directory, each with the names on the way to it.  A directory is
there if a file is in it. -/
abbrev FileTree := List (List String × List UInt8)

namespace FileTree

/-- A file under its path, which is relative and goes down only. -/
def file (path : String) (bytes : List UInt8) : List String × List UInt8 :=
  ((Path.parts path).filter fun part => !Path.isIdle part, bytes)

/-- What is found by going down the given names. -/
def entry (tree : FileTree) (names : List String) : Entry :=
  match tree.lookup names with
  | some bytes => .file bytes
  | none =>
    if names = [] ∨ tree.any fun f => names.isPrefixOf f.1 then .directory else .missing

/-- Follows the parts of a path from the directory that lies `names` down.  Each part asks
for a directory to start from.  Of what lies above the tree nothing is known but that it
consists of directories. -/
def follow (tree : FileTree) : (above : Nat) → (names : List String) → List String → Entry
  | 0, names, [] => tree.entry names
  | _ + 1, _, [] => .directory
  | above, names, part :: rest =>
    if above = 0 ∧ tree.entry names ≠ .directory then .missing
    else if Path.isIdle part then tree.follow above names rest
    else if part = ".." then
      if above = 0 ∧ names ≠ [] then tree.follow 0 names.dropLast rest
      else tree.follow (above + 1) [] rest
    else if above = 0 then tree.follow 0 (names ++ [part]) rest
    else .missing

/-- A path of more bytes than this names nothing. -/
def pathLimit : Nat := 4095

/-- What a path names for someone in the top directory of the tree.  The path of the root
directory is known to name a directory, and no other path from there is known. -/
def look (tree : FileTree) (path : String) : Entry :=
  if path = "" ∨ pathLimit < path.utf8ByteSize then .missing
  else if Path.root path = "" then tree.follow 0 [] (Path.parts path)
  else if (Path.parts path).all fun part => Path.isIdle part || part = ".." then .directory
  else .missing

end FileTree
end CounterLang
