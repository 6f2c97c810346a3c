import ScriptReader.Text.Bytes

/-!
# Directory — the files that a program finds where it runs

A path is read part by part, from the place where the program runs or, after a slash, from the
root.  Empty parts and single dots lead nowhere, and no part leads on from a file, an empty one at
the end included.  `Directory.read` yields what is in the file at the path's end, or why it cannot.
-/

namespace ScriptReader

open ScriptReader.Text

/-- Why a file cannot be read. -/
inductive FileFault where
  | notFound
  | denied
  /-- The path leads on from a file. -/
  | notDirectory
  /-- The path ends at a directory. -/
  | isDirectory
  | nameTooLong
  deriving DecidableEq, Repr

namespace FileFault

/-- What fails: a directory can be opened, but not read. -/
def action : FileFault → String
  | isDirectory => "read"
  | _ => "open"

/-- The fault in the words and with the number of the operating system. -/
def reason : FileFault → String
  | notFound => "No such file or directory (os error 2)"
  | denied => "Permission denied (os error 13)"
  | notDirectory => "Not a directory (os error 20)"
  | isDirectory => "Is a directory (os error 21)"
  | nameTooLong => "File name too long (os error 36)"

end FileFault

/-- A directory that holds files only, each with its name and contents. -/
structure Directory where
  files : List (String × List UInt8)

/-- Where the parts of a path lead. -/
inductive Place where
  /-- The directory itself. -/
  | here
  /-- A directory above it, in which nothing else is known to be. -/
  | above
  | file (contents : List UInt8)

/-- What stands between the slashes of a path. -/
def pathParts : List Char → List (List Char)
  | [] => [[]]
  | c :: cs => if c = '/' then [] :: pathParts cs else (pathParts cs).modifyHead (c :: ·)

namespace Directory

/-- Follows one part of a path; a name may have 255 bytes. -/
def follow (d : Directory) : Place → List Char → Except FileFault Place
  | .file _, _ => .error .notDirectory
  | place, part =>
    if part = [] ∨ part = ['.'] then .ok place
    else if part = ['.', '.'] then .ok .above
    else if 255 < byteCount part then .error .nameTooLong
    else
      match place, d.files.lookup (String.ofList part) with
      | .here, some contents => .ok (.file contents)
      | _, _ => .error .notFound

/-- The contents of the file that a path leads to; a path may have 4095 bytes. -/
def read (d : Directory) (path : String) : Except FileFault (List UInt8) :=
  let cs := path.toList
  if cs = [] then .error .notFound
  else if 4095 < byteCount cs then .error .nameTooLong
  else
    match (pathParts cs).foldlM d.follow (if cs.head? = some '/' then .above else .here) with
    | .error fault => .error fault
    | .ok (.file contents) => .ok contents
    | .ok _ => .error .isDirectory

example : read ⟨[("a", [1])]⟩ ".//a" = .ok [1] := by rfl
example : read ⟨[("a", [1])]⟩ "a/" = .error .notDirectory := by rfl
example : read ⟨[("a", [1])]⟩ "./b" = .error .notFound := by rfl
example : read ⟨[("a", [1])]⟩ "./" = .error .isDirectory := by rfl

end Directory

end ScriptReader
