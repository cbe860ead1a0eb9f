import MethodGroups.Settings.Decode

/-!
# Settings from a file

A file may be missing or unreadable before its text is looked at.  Reading is
described for a tree of files and directories.  An absolute path, which begins
with a slash, is followed from the root of the tree, and any other path from the
working directory.
-/

namespace MethodGroups

/-- Why a file cannot be read. -/
inductive ReadFailure where
  | notFound
  | notADirectory
  | isADirectory
  | nameTooLong
  /-- The path contains a NUL character. -/
  | nul
  deriving DecidableEq, Repr

/-- The failure in words, with its number if it has one. -/
def ReadFailure.message : ReadFailure → String
  | .notFound => "No such file or directory (os error 2)"
  | .notADirectory => "Not a directory (os error 20)"
  | .isADirectory => "Is a directory (os error 21)"
  | .nameTooLong => "File name too long (os error 36)"
  | .nul => "file name contained an unexpected NUL byte"

/-- A file with its text, or a directory with its entries. -/
inductive FileTree where
  | file (text : String)
  | directory (entries : List (String × FileTree))
  deriving Repr, Inhabited

namespace FileTree

/-- The text of the file at a path of names, given the directories above the
place where the path starts, nearest first.  An empty name and `.` stay in a
directory, and `..` leads to the one above. -/
def follow : FileTree → List FileTree → List String → Except ReadFailure String
  | .file text, _, [] => .ok text
  | .file _, _, _ :: _ => .error .notADirectory
  | .directory _, _, [] => .error .isADirectory
  | .directory entries, above, name :: rest =>
      let here := FileTree.directory entries
      if name = "" || name = "." then follow here above rest
      else if name = ".." then
        match above with
        | [] => follow here [] rest
        | parent :: above => follow parent above rest
      else if 255 < name.utf8ByteSize then .error .nameTooLong
      else
        match List.lookup name entries with
        | some tree => follow tree (here :: above) rest
        | none => .error .notFound
termination_by _ _ path => path.length

end FileTree

/-- A tree of files and the names that lead from its root to the working
directory. -/
structure FileSystem where
  root : FileTree
  workingDirectory : List String
  deriving Repr, Inhabited

namespace FileSystem

/-- The names that lead from the root along a path.  Cut at its slashes, an
absolute path has an empty first name. -/
def route (files : FileSystem) (path : String) : List String :=
  match path.splitOn "/" with
  | "" :: names => names
  | names => files.workingDirectory ++ names

/-- The text of the file at a path.  The limit on the length of a path counts what
is written, without the working directory. -/
def read (files : FileSystem) (path : String) : Except ReadFailure String :=
  if path.contains '\x00' then .error .nul
  else if path.isEmpty then .error .notFound
  else if 4096 ≤ path.utf8ByteSize then .error .nameTooLong
  else files.root.follow [] (files.route path)

end FileSystem

/-- Why settings cannot be loaded. -/
inductive LoadError where
  | unreadable (path : String) (failure : ReadFailure)
  /-- The file is read, but gives no settings. -/
  | malformed
  deriving DecidableEq, Repr

/-- The failure to read a file in words; the words for a malformed text are not
fixed here. -/
def LoadError.message? : LoadError → Option String
  | .unreadable path failure => some ("Failed to read " ++ path ++ ": " ++ failure.message)
  | .malformed => none

/-- The settings in the file at a path. -/
def Settings.load (files : FileSystem) (path : String) : Except LoadError Settings :=
  match files.read path with
  | .error failure => .error (.unreadable path failure)
  | .ok text =>
      match Settings.ofToml? text with
      | some settings => .ok settings
      | none => .error .malformed

end MethodGroups
