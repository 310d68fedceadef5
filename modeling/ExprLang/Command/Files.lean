import ExprLang.Command.Path

/-! # Files

What opening a path can come to, and a tree of files held in memory in which paths can be looked
up. -/

namespace ExprLang

inductive FileEntry where
  | missing
  /-- A name before the last one is a file. -/
  | belowFile
  | directory
  | file (bytes : ByteArray)

/-- Files and empty directories by their names from the working directory on. A directory is in the
tree as soon as something below it is. -/
structure FileTree where
  files : List (List String × ByteArray)
  directories : List (List String)

namespace FileTree

def isDirectory (tree : FileTree) (names : List String) : Bool :=
  names.isEmpty || tree.directories.any names.isPrefixOf ||
    tree.files.any fun (file, _) => names.isPrefixOf file && names ≠ file

/-- Follows names from a directory on. Nothing is known above the working directory but that its
parents are directories; `none` stands for them. -/
def follow (tree : FileTree) : Option (List String) → List String → FileEntry
  | _, [] => .directory
  | none, name :: names => if name = ".." then tree.follow none names else .missing
  | some here, name :: names =>
    if name = ".." then
      tree.follow (if here.isEmpty then none else some here.dropLast) names
    else
      let there := here ++ [name]
      match tree.files.lookup there with
      | some bytes => if names.isEmpty then .file bytes else .belowFile
      | none => if tree.isDirectory there then tree.follow (some there) names else .missing

/-- What is found at a path, seen from the working directory. -/
def lookup (tree : FileTree) (path : Path) : FileEntry :=
  tree.follow (if path.root = "" then some [] else none) path.names

end FileTree

/-- The text of a file, unless its bytes are not UTF-8. -/
def decodeText? (bytes : ByteArray) : Option String := String.fromUTF8? bytes

end ExprLang
