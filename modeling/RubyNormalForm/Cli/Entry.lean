import RubyNormalForm.Text.Utf8

/-!
# Files and directories

What is found at a path: the bytes of a file, a file that cannot be read, the entries of a
directory, a directory that cannot be listed, or something else. A directory is searched depth
first, with the entries of each directory in the order of their names, which are texts. Only files
are searched for; links in a directory are not followed.
-/

namespace RubyNormalForm.Cli

/-- What is found at a path. -/
inductive Entry where
  | file (bytes : List UInt8)
  /-- A file that cannot be read. -/
  | unreadable
  | dir (entries : List (String × Entry))
  /-- A directory that cannot be listed. -/
  | locked
  /-- Neither a file nor a directory, such as a link in a directory. -/
  | special

namespace Entry

instance : Inhabited Entry := ⟨.dir []⟩

/-- The text of a file; `none` for bytes that are not text, and for anything else. -/
def text? : Entry → Option String
  | .file bytes => (Utf8.decode? bytes).map String.ofList
  | _ => none

/-- Whether it is a directory. -/
def isDir : Entry → Bool
  | .dir _ => true
  | .locked => true
  | _ => false

/-- Whether it is a file. -/
def isFile : Entry → Bool
  | .file _ => true
  | .unreadable => true
  | _ => false

mutual

/-- Whether every directory in it can be listed. -/
def isListed : Entry → Bool
  | .dir entries => areListed entries
  | .locked => false
  | _ => true

/-- Whether every directory in the entries of a directory can be listed. -/
def areListed : List (String × Entry) → Bool
  | [] => true
  | (_, entry) :: rest => isListed entry && areListed rest

end

/-- The extension of files that hold raw trees, with its dot. -/
def extension : List Char := ".dump".toList

/-- Whether a file is searched for: its name is something followed by the extension. -/
def isDump (name : String) : Bool :=
  let chars := name.toList
  extension.length < chars.length && extension.isSuffixOf chars

/-- A path joined with a name by one slash. -/
def join (path name : String) : String :=
  if path.toList.getLast? == some '/' then path ++ name else path ++ "/" ++ name

/-- The order of names in a directory. -/
def byName {α : Type} (a b : String × α) : Bool :=
  decide (a.1 ≤ b.1)

/-- Whether an entry of a directory is looked into: a directory is, and a file with the
extension. -/
def isSearched (name : String) (entry : Entry) : Bool :=
  entry.isDir || entry.isFile && isDump name

mutual

/-- The raw trees at a path: the paths of the files and what they hold. The path itself is
taken whatever its name. -/
def dumpsBelow (path : String) : Entry → List (String × Entry)
  | .dir entries => ((dumpsOf path entries).mergeSort byName).flatMap Prod.snd
  | .locked => []
  | other => [(path, other)]

/-- The raw trees at each entry of a directory, with the names of the entries. Files with
another extension have none. -/
def dumpsOf (path : String) : List (String × Entry) → List (String × List (String × Entry))
  | [] => []
  | (name, entry) :: rest =>
    (name, if isSearched name entry then dumpsBelow (join path name) entry else []) ::
      dumpsOf path rest

end

end Entry

end RubyNormalForm.Cli
