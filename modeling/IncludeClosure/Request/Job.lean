import IncludeClosure.Request.Reader
import IncludeClosure.Scan.Action
/-!
# Request.Job — from a request to an action

Every path of a request is seen from its execution root and named by the request's roots: the execution root itself as
a source, then the declared ones.  A generated file has to lie under an output root with a parent.
-/
namespace IncludeClosure

namespace RootSet

def resolveFrom (roots : RootSet) (execRoot p : Path) : Artifact :=
  roots.resolve (execRoot.join p)

end RootSet

namespace ArtifactRoot

def holdsOutputs (root : ArtifactRoot) : Bool :=
  root.kind = .output && root.hasParent

end ArtifactRoot

namespace UnitDeclaration

/-- The generated files of a unit, declared one after another; the first that lies under no output root is an error. -/
def generatedFiles (execRoot : Path) (roots : RootSet) :
    GeneratedFiles → List (Path × Path) → Except Request.Error GeneratedFiles
  | files, [] => .ok files
  | files, (declared, written) :: rest =>
    let artifact := roots.resolveFrom execRoot declared
    if artifact.root.holdsOutputs then
      generatedFiles execRoot roots (files.declare artifact (execRoot.join written).normalize) rest
    else .error (.outsideOutputs declared)

mutual

/-- **The unit that a declaration describes;** an error in it comes before those of its auxiliaries. -/
def toUnit (execRoot : Path) (roots : RootSet) : UnitDeclaration → Except Request.Error CompilationUnit
  | ⟨mainSource, sources, quoteDirs, includeDirs, systemDirs, builtinDirs, forcedIncludes, generated, auxiliary⟩ => do
    let main := roots.resolveFrom execRoot mainSource
    let generated ← generatedFiles execRoot roots .none generated.entries
    let auxiliary ← toUnits execRoot roots auxiliary
    .ok
      { mainSource := main
        sources := if sources.isEmpty then [main] else sources.map (roots.resolveFrom execRoot)
        quoteDirs, includeDirs, systemDirs, builtinDirs, forcedIncludes, generated, auxiliary }

def toUnits (execRoot : Path) (roots : RootSet) :
    List UnitDeclaration → Except Request.Error (List CompilationUnit)
  | [] => .ok []
  | d :: rest => do
    let u ← toUnit execRoot roots d
    let others ← toUnits execRoot roots rest
    .ok (u :: others)

end

end UnitDeclaration

namespace Request

/-- **The execution root:** the one that overrides the request's, the request's own, or `base`, seen from `base`. -/
def resolveExecRoot (q : Request) (base : Path) (overriding : Option Path) : Path :=
  match overriding.or q.execRoot with
  | some root => (base.join root).normalize
  | none => base.normalize

def rootSet (q : Request) (execRoot : Path) : RootSet :=
  q.roots.foldl (fun roots d => roots.add (.mount (execRoot.join d.path) d.kind))
    (.ofList [.mount execRoot .source])

/-- **The action that a request describes,** seen from the directory `base`. -/
def toJob (q : Request) (name : String) (base : Path) (overriding : Option Path) : Except Error Job := do
  let execRoot := q.resolveExecRoot base overriding
  let roots := q.rootSet execRoot
  let unit ← q.unit.toUnit execRoot roots
  .ok { name, unit, context := .withRoots execRoot roots }

/-- **Read a request file.** -/
def load (p : Path) : Program Disk.Answer (Except Error Request) := do
  match ← Disk.readFile p with
  | .error cause => return .error (.unreadable p cause)
  | .ok bytes =>
    match Text.ofUtf8? bytes with
    | none => return .error (.unreadable p .notText)
    | some text => return ofJson text

end Request
end IncludeClosure
