import Mathlib.Data.List.Forall2
import IncludeClosure.Directive.Lexer
import IncludeClosure.Request.Job
/-!
# Request.Relocation — one project below two execution roots

What it means that a request keeps to its execution root, that a tree stands below a directory of another tree, and
that two answers are the same up to the execution root.  A path is **inward** when it is relative and has no `..`.  A
request and a tree with inward paths alone never name what lies outside, so the place where the project stands should
show in nothing but the roots of the answer.
-/
namespace IncludeClosure

namespace Path

/-- **Relative and without `..`:** seen from a directory it leads to that directory or below. -/
def Inward (p : Path) : Prop :=
  p.isAbsolute = false ∧ .parent ∉ p.components

instance (p : Path) : Decidable p.Inward :=
  inferInstanceAs (Decidable (_ ∧ _))

/-- **`p` lies below `home` where `p'` lies below `home'`.** -/
def Moved (home home' p p' : Path) : Prop :=
  ∃ names : List String,
    p.components = home.components ++ names.map .name ∧ p'.components = home'.components ++ names.map .name

/-- An absolute path in normal form that is not the whole file system. -/
structure Anchored (home : Path) : Prop where
  absolute : home.isAbsolute = true
  normal : home.normalize = home
  notTop : home ≠ ⟨"/"⟩

end Path

namespace UnitDeclaration

/-- The paths of the declaration itself are inward, and its main source is not the execution root. -/
structure KeepsInward (d : UnitDeclaration) : Prop where
  mainSource : d.mainSource.Inward
  mainBelow : ∃ name, .name name ∈ d.mainSource.components
  sources : ∀ p ∈ d.sources, p.Inward
  quoteDirs : ∀ p ∈ d.quoteDirs, p.Inward
  includeDirs : ∀ p ∈ d.includeDirs, p.Inward
  systemDirs : ∀ p ∈ d.systemDirs, p.Inward
  builtinDirs : ∀ p ∈ d.builtinDirs, p.Inward
  forcedIncludes : ∀ name ∈ d.forcedIncludes, Path.Inward ⟨name⟩
  generated : ∀ entry ∈ d.generated.entries, entry.1.Inward ∧ entry.2.Inward

/-- **The declaration keeps to its execution root,** and so do its auxiliaries, theirs and so on. -/
inductive Inward : UnitDeclaration → Prop where
  | intro {d : UnitDeclaration} (own : d.KeepsInward) (auxiliary : ∀ a ∈ d.auxiliary, Inward a) : Inward d

end UnitDeclaration

/-- **The request keeps to its execution root.** -/
structure Request.Inward (q : Request) : Prop where
  roots : ∀ r ∈ q.roots, r.path.Inward
  unit : q.unit.Inward

namespace FileTree

/-- **A tree that leads nowhere else:** without links, and no directive in it is absolute or has a `..`. -/
structure SelfContained (t : FileTree) : Prop where
  linkFree : ∀ position target, t.node? position ≠ some (.link target)
  inward : ∀ position f, t.node? position = some (.file f) → ∀ d ∈ Directive.extract f.bytes, Path.Inward ⟨d.target⟩

end FileTree

/-- **Two nodes are alike:** both are directories, files that are read alike, whenever they were changed, or links to one
target. -/
inductive Node.Alike : Node → Node → Prop where
  | directory : Alike .directory .directory
  | file {f g : File} (read : f.read = g.read) : Alike (.file f) (.file g)
  | link (target : Path) : Alike (.link target) (.link target)

/-- **A copy of `project` stands at `home`:** the path leads to a directory, below it stands what stands in `project`
and nothing else, and the system takes the paths of the files.  Nothing is said about the rest of the tree. -/
structure FileTree.Holds (t : FileTree) (home : Path) (project : FileTree) : Prop where
  copy : ∃ position, t.find home = .ok (position, .directory) ∧
    ∀ below ≠ [], Option.Rel Node.Alike (t.node? (position ++ below)) (project.node? below)
  fits : ∀ position f, project.node? position = some (.file f) →
    (Path.ofComponents (home.components ++ position.map .name)).text.utf8ByteSize ≤ FileTree.longestPath

/-- **One root below two homes.** -/
structure ArtifactRoot.Relocated (home home' : Path) (r r' : ArtifactRoot) : Prop where
  path : Path.Moved home home' r.path r'.path
  kind : r.kind = r'.kind

/-- **One artifact below two homes:** only the root has moved. -/
structure Artifact.Relocated (home home' : Path) (a a' : Artifact) : Prop where
  root : ArtifactRoot.Relocated home home' a.root a'.root
  rel : a.rel = a'.rel

/-- Two scans fail for one kind of reason. -/
def ScanError.SameKind : ScanError → ScanError → Prop
  | .unreadable _ _, .unreadable _ _ => True
  | .absoluteInput _, .absoluteInput _ => True
  | .interrupted, .interrupted => True
  | _, _ => False

/-- **Two outcomes correspond:** both are errors, or neither is. -/
inductive Corresponds {ε ε' α β : Type} (errors : ε → ε' → Prop) (values : α → β → Prop) :
    Except ε α → Except ε' β → Prop where
  | error {e : ε} {e' : ε'} (same : errors e e') : Corresponds errors values (.error e) (.error e')
  | ok {a : α} {b : β} (same : values a b) : Corresponds errors values (.ok a) (.ok b)

/-- **The answers of two scans correspond:** input by input in order, or in the kind of error. -/
abbrev Scan.Corresponds (home home' : Path) :
    Except ScanError (List Artifact) → Except ScanError (List Artifact) → Prop :=
  IncludeClosure.Corresponds ScanError.SameKind (List.Forall₂ (Artifact.Relocated home home'))

end IncludeClosure
