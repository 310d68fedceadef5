/-! # Paths

A path is a root and the names between its slashes. Empty names and single dots are left out when it
is read; double dots stay, since they may lead through a link. -/

namespace ExprLang

structure Path where
  /-- Empty for a relative path, else one slash, or two if exactly two stand in front. -/
  root : String
  names : List String
deriving DecidableEq, Repr

namespace Path

def pieces : List Char → List (List Char)
  | [] => [[]]
  | c :: cs =>
    if c = '/' then [] :: pieces cs
    else
      match pieces cs with
      | [] => [[c]]
      | piece :: rest => (c :: piece) :: rest

def rootOf (cs : List Char) : String :=
  match (cs.takeWhile (· = '/')).length with
  | 0 => ""
  | 2 => "//"
  | _ => "/"

def ofText (text : String) : Path where
  root := rootOf text.toList
  names := ((pieces text.toList).map String.ofList).filter fun name => name ≠ "" && name ≠ "."

/-- The path as it is shown; an empty one is a single dot. -/
def text (path : Path) : String :=
  let text := path.root ++ "/".intercalate path.names
  if text = "" then "." else text

/-- The last name, empty if there is none. -/
def name (path : Path) : String := path.names.getLastD ""

end Path

end ExprLang
