import IncludeClosure.Scan.Closure
/-!
# Scan.Reach — what a scan ought to find

The include closure of a unit on a given tree, said without a memo and without an order of work.  First what names mean
and what files hold on the tree, asked anew every time; then the artifacts that are **reached** from the entry sources
and the forced includes by following directives.
-/
namespace IncludeClosure

namespace FileTree

def directives (t : FileTree) (p : Path) : Except OsError (List Directive) :=
  (t.read p).map Directive.extract

end FileTree

namespace Lookup

def existingOn? (l : Lookup) (t : FileTree) (candidate : Path) : Option Artifact :=
  match l.generated.lyingAt? candidate with
  | some generated => some generated
  | none => if t.isFile candidate then some (l.context.roots.resolve candidate) else none

/-- **What a name means on a tree** in a file of the directory `beside?`: the first candidate that exists. -/
def meaning? (l : Lookup) (t : FileTree) (beside? : Option Path) (form : IncludeForm) (name : String) :
    Option Artifact :=
  (l.dirs.candidates beside? form name).findSome? (l.existingOn? t)

/-- **The directives of an artifact on a tree;** a generated file has none until it is written. -/
def directivesOn (l : Lookup) (t : FileTree) (a : Artifact) : Except OsError (List Directive) :=
  match l.generated.written? a with
  | some written => if t.isFile written then t.directives written else .ok []
  | none => t.directives a.path

/-- What a directive of `a` means on a tree.  The place where a generated file is written does not count here, the
place where it lies does. -/
def target? (l : Lookup) (t : FileTree) (a : Artifact) (d : Directive) : Option Artifact :=
  l.meaning? t a.path.parent? d.form d.target

/-- **The artifacts reached on a tree:** the least set with the entry sources and the forced includes that contains
what the directives of its members mean. -/
inductive Reach (l : Lookup) (t : FileTree) (mainSource : Artifact) (sources : List Artifact)
    (forced : List String) : Artifact → Prop where
  | source {a : Artifact} (entry : a ∈ sources) : Reach l t mainSource sources forced a
  | forced {name : String} {a : Artifact} (given : name ∈ forced)
      (meaning : l.meaning? t mainSource.path.parent? .quote name = some a) : Reach l t mainSource sources forced a
  | directive {a b : Artifact} {ds : List Directive} {d : Directive} (reached : Reach l t mainSource sources forced a)
      (directives : l.directivesOn t a = .ok ds) (mem : d ∈ ds) (target : l.target? t a d = some b) :
      Reach l t mainSource sources forced b

end Lookup
end IncludeClosure
