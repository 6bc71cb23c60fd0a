import IncludeClosure.Compilation.Unit
import IncludeClosure.Scan.Lookup
/-!
# Scan.Closure — following directives until nothing new is found

The scan of one unit keeps a **frontier**: the artifacts seen so far and, last one first, those whose directives have
not been looked at.  The entry sources and the forced includes start it; each round takes the top artifact and adds
what its directives mean.  Everything found is recorded for the action.

Every round takes an artifact that no other round takes, and an artifact other than an entry source or a generated
file lies at a path that the system can name.  So there are never more rounds than `roundLimit`.
-/
namespace IncludeClosure

/-- The artifacts seen, and those that are still to be read. -/
structure Frontier where
  seen : List Artifact
  pending : List Artifact
deriving DecidableEq

namespace Frontier

def empty : Frontier :=
  { seen := [], pending := [] }

/-- **See an artifact.**  One that was seen before changes nothing. -/
def see (f : Frontier) (a : Artifact) : Frontier :=
  if a ∈ f.seen then f else { seen := a :: f.seen, pending := a :: f.pending }

end Frontier

namespace Lookup

def seeSources : List Artifact → Frontier → Scan Frontier
  | [], f => pure f
  | a :: rest, f => do
    Scan.step (.record a)
    seeSources rest (f.see a)

/-- Record what the forced includes mean and see it; a name that means nothing is passed over. -/
def seeForced (l : Lookup) (beside? : Option Path) : List String → Frontier → Scan Frontier
  | [], f => pure f
  | name :: rest, f => do
    match ← l.find? beside? .quote name with
    | some a => do
      Scan.step (.record a)
      seeForced l beside? rest (f.see a)
    | none => seeForced l beside? rest f

/-- **See what the directives of one file mean,** and record what was not seen before. -/
def seeDirectives (l : Lookup) (beside? : Option Path) : List Directive → Frontier → Scan Frontier
  | [], f => pure f
  | d :: rest, f => do
    match ← l.find? beside? d.form d.target with
    | some a =>
      if a ∈ f.seen then seeDirectives l beside? rest f
      else do
        Scan.step (.record a)
        seeDirectives l beside? rest (f.see a)
    | none => seeDirectives l beside? rest f

/-- **Follow the frontier until nothing is pending,** for at most `rounds` rounds. -/
def follow (l : Lookup) : Nat → Frontier → Scan (Except ScanError Unit)
  | 0, _ => pure (.ok ())
  | rounds + 1, f =>
    match f.pending with
    | [] => pure (.ok ())
    | a :: rest =>
      if l.context.interrupted then pure (.error .interrupted)
      else do
        match ← l.directivesOf a with
        | .error e => pure (.error e)
        | .ok directives => do
          let f ← l.seeDirectives a.path.parent? directives { f with pending := rest }
          follow l rounds f

/-- A bound on the number of paths that the system takes: each has fewer than 4096 bytes.  Nobody counts that far, so
proofs do not either. -/
@[irreducible] def nameablePaths : Nat :=
  Nat.pow 256 (FileTree.longestPath + 1)

/-- **More rounds than a scan can have,** given the number of entry sources. -/
def roundLimit (l : Lookup) (sources : Nat) : Nat :=
  sources + l.generated.entries.length + nameablePaths

/-- **The include closure** of some entry sources and forced includes, recorded for the action.  Forced includes are
looked up as quoted names beside the main source. -/
def closure (l : Lookup) (mainSource : Artifact) (sources : List Artifact) (forced : List String) :
    Scan (Except ScanError Unit) := do
  let f ← seeSources sources .empty
  let f ← l.seeForced mainSource.path.parent? forced f
  l.follow (l.roundLimit sources.length) f

end Lookup
end IncludeClosure
