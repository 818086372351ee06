import Sysroot.Text.Quoted

/-!
# Refusals of the file system

The file system refuses an operation with a numbered reason.  A message names the reason
and the path it concerns, or both paths when the operation has two.  A path with a NUL
cannot even be put to the file system.
-/

namespace Sysroot

/-- The reasons for which the file system refuses an operation. -/
inductive Errno where
  | noEntry
  | execFormat
  | access
  | busy
  | alreadyExists
  | notDirectory
  | isDirectory
  | invalid
  | nameTooLong
  | notEmpty
  | loop
deriving DecidableEq, Repr

/-- The number of a reason. -/
def Errno.number : Errno → Nat
  | noEntry => 2
  | execFormat => 8
  | access => 13
  | busy => 16
  | alreadyExists => 17
  | notDirectory => 20
  | isDirectory => 21
  | invalid => 22
  | nameTooLong => 36
  | notEmpty => 39
  | loop => 40

/-- The words for a reason. -/
def Errno.text : Errno → String
  | noEntry => "No such file or directory"
  | execFormat => "Exec format error"
  | access => "Permission denied"
  | busy => "Device or resource busy"
  | alreadyExists => "File exists"
  | notDirectory => "Not a directory"
  | isDirectory => "Is a directory"
  | invalid => "Invalid argument"
  | nameTooLong => "File name too long"
  | notEmpty => "Directory not empty"
  | loop => "Too many levels of symbolic links"

/-- A refused operation. -/
inductive SystemError where
  /-- The operation on a path was refused. -/
  | refused (reason : Errno) (path : String)
  /-- The operation that takes one path to another was refused. -/
  | refusedPair (reason : Errno) (source target : String)
  /-- A tree was to be removed, and its root is no directory. -/
  | removeFile (path : String)
  /-- A tree was to be removed, and its root is a symbolic link. -/
  | removeLink
  /-- A file was to be copied over itself; `placed` when the target was given by the directory
  it is in. -/
  | sameFile (source target : String) (placed : Bool)
  /-- A path has a NUL in it. -/
  | nullCharacter
deriving DecidableEq, Repr

/-- The reason behind a refused operation, when it is a numbered one. -/
def SystemError.reason? : SystemError → Option Errno
  | refused reason _ | refusedPair reason _ _ => some reason
  | removeFile _ => some .notDirectory
  | removeLink | sameFile .. | nullCharacter => none

/-- The words for a refused operation. -/
def SystemError.text (e : SystemError) : String :=
  let numbered := fun (reason : Errno) =>
    "[Errno " ++ toString reason.number ++ "] " ++ reason.text ++ ": "
  let posix := fun (path : String) => "PosixPath(" ++ Text.quoted path ++ ")"
  match e with
  | refused reason path => numbered reason ++ Text.quoted path
  | refusedPair reason source target =>
      numbered reason ++ Text.quoted source ++ " -> " ++ Text.quoted target
  | removeFile path => numbered .notDirectory ++ posix path
  | removeLink => "Cannot call rmtree on a symbolic link"
  | sameFile source target placed =>
      posix source ++ " and " ++ (if placed then Text.quoted target else posix target) ++
        " are the same file"
  | nullCharacter => "embedded null byte"

end Sysroot
