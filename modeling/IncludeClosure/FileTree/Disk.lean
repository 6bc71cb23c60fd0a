import IncludeClosure.FileTree.Walk
import IncludeClosure.Program
/-!
# FileTree.Disk — what a program asks a file system

Three questions are all that is ever asked: what a path names, what a file holds, and where a path really leads.
`Disk` lists them and `FileTree.answer` answers them from a tree.
-/
namespace IncludeClosure

/-- What identifies one version of a file. -/
structure Stamp where
  length : Nat
  /-- When the file was changed last, in whatever unit the file system counts. -/
  modified : Int
deriving DecidableEq, Repr

/-- What a path names.  A directory has a length and a time of change too, but they are left out: they only matter where
they are those of a file that stood at the same path before. -/
inductive Status where
  | directory
  | file (stamp : Stamp)
deriving DecidableEq, Repr

/-- A question to the file system. -/
inductive Disk where
  | status (path : Path)
  | contents (path : Path)
  /-- Which path without links, `.` and `..` names the same? -/
  | canonical (path : Path)
deriving DecidableEq, Repr

namespace Disk

/-- What the question is answered with. -/
abbrev Answer : Disk → Type
  | status _ => Except OsError Status
  | contents _ => Except OsError Bytes
  | canonical _ => Except OsError Path

def readFile (p : Path) : Program Answer (Except OsError Bytes) :=
  Program.query (contents p)

def canonicalize (p : Path) : Program Answer (Except OsError Path) :=
  Program.query (canonical p)

end Disk

namespace File

def stamp (f : File) : Stamp :=
  { length := f.bytes.length, modified := f.modified }

/-- **What a reader gets.**  The stamp of a file is seen also where its bytes are not. -/
def read (f : File) : Except OsError Bytes :=
  match f.fault with
  | some e => .error e
  | none => .ok f.bytes

theorem read_ok_iff {f : File} {bytes : Bytes} : f.read = .ok bytes ↔ f.fault = none ∧ f.bytes = bytes := by
  unfold read
  cases f.fault <;> simp

end File

namespace FileTree

def pathOf (position : Position) : Path :=
  .ofComponents (.root :: position.map .name)

def status (t : FileTree) (p : Path) : Except OsError Status :=
  match t.find p with
  | .error e => .error e
  | .ok (_, .file f) => .ok (.file f.stamp)
  | .ok (_, .directory) => .ok .directory
  | .ok (_, .link _) => .error .tooManyLinks

/-- **Whether `p` names a regular file.** -/
def isFile (t : FileTree) (p : Path) : Bool :=
  match t.status p with
  | .ok (.file _) => true
  | _ => false

/-- **The bytes of the file** at `p`.  They may be refused for a path that names a regular file. -/
def read (t : FileTree) (p : Path) : Except OsError Bytes :=
  match t.find p with
  | .error e => .error e
  | .ok (_, .file f) => f.read
  | .ok (_, .directory) => .error .isDirectory
  | .ok (_, .link _) => .error .tooManyLinks

def canonical (t : FileTree) (p : Path) : Except OsError Path :=
  match t.find p with
  | .error e => .error e
  | .ok (position, _) => .ok (pathOf position)

/-- **The tree's answers.** -/
def answer (t : FileTree) : (question : Disk) → question.Answer
  | .status p => t.status p
  | .contents p => t.read p
  | .canonical p => t.canonical p

end FileTree
end IncludeClosure
