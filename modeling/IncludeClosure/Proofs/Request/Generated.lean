import IncludeClosure.Proofs.Artifact.Owner
import IncludeClosure.Request.Job
/-!
# Proofs.Request.Generated — which generated files a request may declare

The check on a generated file looks at one root, the owner of the place where the file lies (`Request.OwnedByOutput`).
It is made in pre-order: the files of a unit come in path order before those of its auxiliaries, and the first one
that fails is the error (`UnitDeclaration.refusal_toUnit`).

Lying under an output root (`Request.UnderOutput`) is less than that.  A source root as deep as every output root above
the file takes the file from them: a deeper one always, one at the same path when it is registered first.  So a request
is refused or not by the order of two declarations (`Request.toJob_shadowed`).
-/
namespace IncludeClosure

/-- The error of an outcome, if it is one. -/
def Request.refusal {α : Type} : Except Request.Error α → Option Request.Error
  | .error e => some e
  | .ok _ => none

/-- One step after another: the error of the first, or else that of the second. -/
theorem Request.refusal_bind {α β : Type} {next : Option Request.Error} (x : Except Request.Error α)
    {f : α → Except Request.Error β} (h : ∀ a, refusal (f a) = next) : refusal (x >>= f) = (refusal x).or next := by
  cases x with
  | error e => rfl
  | ok a => exact h a

theorem Request.refusal_map {α β : Type} (x : Except Request.Error α) (f : α → β) :
    refusal (x >>= fun a => .ok (f a)) = refusal x := by
  cases x <;> rfl

namespace UnitDeclaration

mutual

/-- **The generated files that a unit and its auxiliaries declare,** in pre-order and in path order within a unit. -/
def declared : UnitDeclaration → List Path
  | ⟨_, _, _, _, _, _, _, generated, auxiliary⟩ => generated.entries.map (·.1) ++ declaredIn auxiliary

def declaredIn : List UnitDeclaration → List Path
  | [] => []
  | d :: rest => d.declared ++ declaredIn rest

end

section

variable (execRoot : Path) (roots : RootSet)

/-- The first of some declared files that belongs to no output root, as an error. -/
def firstOutside (files : List Path) : Option Request.Error :=
  (files.find? fun p => !(roots.resolveFrom execRoot p).root.holdsOutputs).map .outsideOutputs

theorem firstOutside_append (files more : List Path) :
    firstOutside execRoot roots (files ++ more) =
      (firstOutside execRoot roots files).or (firstOutside execRoot roots more) := by
  unfold firstOutside
  rw [List.find?_append, Option.map_or]

theorem refusal_generatedFiles : ∀ (files : GeneratedFiles) (entries : List (Path × Path)),
    Request.refusal (generatedFiles execRoot roots files entries) = firstOutside execRoot roots (entries.map (·.1))
  | _, [] => rfl
  | files, (p, written) :: rest => by
    unfold generatedFiles firstOutside
    rw [List.map_cons, List.find?_cons]
    dsimp only
    cases (roots.resolveFrom execRoot p).root.holdsOutputs with
    | false => rfl
    | true => exact refusal_generatedFiles _ rest

mutual

/-- **A unit is refused for the first generated file of its tree** that belongs to no output root. -/
theorem refusal_toUnit : ∀ d : UnitDeclaration,
    Request.refusal (d.toUnit execRoot roots) = firstOutside execRoot roots d.declared
  | ⟨_, _, _, _, _, _, _, generated, auxiliary⟩ => by
    unfold toUnit declared
    rw [firstOutside_append, ← refusal_generatedFiles execRoot roots .none, ← refusal_toUnits auxiliary]
    exact Request.refusal_bind _ fun files => Request.refusal_map _ _

theorem refusal_toUnits : ∀ ds : List UnitDeclaration,
    Request.refusal (toUnits execRoot roots ds) = firstOutside execRoot roots (declaredIn ds)
  | [] => rfl
  | d :: rest => by
    unfold toUnits declaredIn
    rw [firstOutside_append, ← refusal_toUnit d, ← refusal_toUnits rest]
    exact Request.refusal_bind _ fun u => Request.refusal_map _ _

end
end
end UnitDeclaration

namespace Request

/-- **The roots of a request** in the order of their registration: the execution root as a source, then those that it
declares. -/
def registered (q : Request) (execRoot : Path) : List ArtifactRoot :=
  .mount execRoot .source :: q.roots.map fun d => .mount (execRoot.join d.path) d.kind

theorem rootSet_eq (q : Request) (execRoot : Path) : q.rootSet execRoot = .ofList (q.registered execRoot) := by
  unfold rootSet registered RootSet.ofList
  rw [List.foldl_cons, List.foldl_cons, List.foldl_nil, List.foldl_map]

/-- The owner of the place of a declared file is an output root with a parent. -/
def OwnedByOutput (q : Request) (execRoot p : Path) : Prop :=
  ∃ root, ArtifactRoot.Owns (q.registered execRoot) (execRoot.join p).normalize root ∧ root.holdsOutputs = true

/-- The place of a declared file lies under an output root with a parent. -/
def UnderOutput (q : Request) (execRoot p : Path) : Prop :=
  ∃ root ∈ q.registered execRoot, root.holdsOutputs = true ∧ (execRoot.join p).normalize.startsWith root.path = true

instance (q : Request) (execRoot p : Path) : Decidable (q.UnderOutput execRoot p) :=
  inferInstanceAs (Decidable (∃ root ∈ q.registered execRoot, _ ∧ _))

variable {q : Request} {execRoot p : Path}

theorem OwnedByOutput.underOutput (h : q.OwnedByOutput execRoot p) : q.UnderOutput execRoot p := by
  obtain ⟨root, owns, output⟩ := h
  exact ⟨root, owns.mem, output, owns.1⟩

theorem holdsOutputs_resolveFrom : ((q.rootSet execRoot).resolveFrom execRoot p).root.holdsOutputs = true ↔
    q.OwnedByOutput execRoot p := by
  unfold OwnedByOutput RootSet.resolveFrom
  rw [rootSet_eq]
  rcases RootSet.root_resolve_ofList (q.registered execRoot) (execRoot.join p) with owns | ⟨unowned, source⟩
  · refine ⟨fun output => ⟨_, owns, output⟩, fun ⟨root, owns', output⟩ => ?_⟩
    rwa [owns.unique owns']
  · unfold ArtifactRoot.holdsOutputs
    refine ⟨fun output => ?_, fun ⟨root, owns, _⟩ => absurd owns (unowned root)⟩
    rw [source] at output
    cases output

/-- **An output root deeper than the sources** above a file owns the file, or a deeper output root does. -/
theorem ownedByOutput_of_deeper {root : ArtifactRoot} (mem : root ∈ q.registered execRoot)
    (output : root.holdsOutputs = true) (inside : (execRoot.join p).normalize.startsWith root.path = true)
    (deeper : ∀ r ∈ q.registered execRoot, r.kind = .source →
      (execRoot.join p).normalize.startsWith r.path = true → r.path.depth < root.path.depth) :
    q.OwnedByOutput execRoot p := by
  have answers := RootSet.registers_ofList (q.registered execRoot)
  cases found : (RootSet.ofList (q.registered execRoot)).find? (execRoot.join p).normalize with
  | none => exact absurd inside (answers.outside _ found root mem)
  | some r =>
    have owns := answers.owner _ r found
    have depth := owns.depth_le root mem inside
    unfold ArtifactRoot.holdsOutputs at output
    have parent := ArtifactRoot.hasParent_of_depth_le inside owns.1 depth (Bool.and_eq_true_iff.1 output).2
    refine ⟨r, owns, ?_⟩
    unfold ArtifactRoot.holdsOutputs
    cases kind : r.kind with
    | output => exact parent
    | source => exact absurd (deeper r owns.mem kind owns.1) (Nat.not_lt.2 depth)

theorem refusal_toJob (q : Request) (name : String) (base : Path) (overriding : Option Path) :
    refusal (q.toJob name base overriding) =
      UnitDeclaration.firstOutside (q.resolveExecRoot base overriding) (q.rootSet (q.resolveExecRoot base overriding))
        q.unit.declared := by
  rw [← UnitDeclaration.refusal_toUnit]
  exact refusal_map _ _

/-- **Which requests are refused, and for which file.**  A request gives no action when a generated file of its unit,
or of an auxiliary at any depth, is not owned by an output root with a parent, and only then; the error names the first
such file in pre-order.  A file that is owned so lies under an output root; one that lies under an output root deeper
than every source root above the file is owned so, whatever other roots are declared and in whatever order. -/
theorem toJob_error_iff (q : Request) (name : String) (base : Path) (overriding : Option Path) :
    (∀ e, q.toJob name base overriding = .error e ↔
      ∃ before p after, q.unit.declared = before ++ p :: after ∧
        (∀ x ∈ before, q.OwnedByOutput (q.resolveExecRoot base overriding) x) ∧
        ¬ q.OwnedByOutput (q.resolveExecRoot base overriding) p ∧ e = .outsideOutputs p) ∧
    (∀ execRoot p, q.OwnedByOutput execRoot p → q.UnderOutput execRoot p) ∧
    ∀ execRoot p, ∀ root ∈ q.registered execRoot, root.holdsOutputs = true →
      (execRoot.join p).normalize.startsWith root.path = true →
      (∀ r ∈ q.registered execRoot, r.kind = .source → (execRoot.join p).normalize.startsWith r.path = true →
        r.path.depth < root.path.depth) →
      q.OwnedByOutput execRoot p := by
  refine ⟨fun e => ?_, fun _ _ => OwnedByOutput.underOutput, fun _ _ _ => ownedByOutput_of_deeper⟩
  have refused : q.toJob name base overriding = .error e ↔ refusal (q.toJob name base overriding) = some e := by
    cases q.toJob name base overriding with
    | error e' => exact ⟨fun h => congrArg some (Except.error.inj h), fun h => congrArg _ (Option.some.inj h)⟩
    | ok job => exact ⟨nofun, nofun⟩
  rw [refused, refusal_toJob, UnitDeclaration.firstOutside, Option.map_eq_some_iff]
  constructor
  · rintro ⟨p, found, rfl⟩
    obtain ⟨outside, before, after, split, owned⟩ := List.find?_eq_some_iff_append.1 found
    refine ⟨before, p, after, split, fun x mem => ?_, fun output => ?_, rfl⟩
    · exact holdsOutputs_resolveFrom.1 (by simpa using owned x mem)
    · rw [holdsOutputs_resolveFrom.2 output] at outside
      cases outside
  · rintro ⟨before, p, after, split, owned, outside, rfl⟩
    refine ⟨p, List.find?_eq_some_iff_append.2 ⟨?_, before, after, split, fun x mem => ?_⟩, rfl⟩
    · rw [Bool.not_eq_true', ← Bool.not_eq_true]
      exact mt holdsOutputs_resolveFrom.1 outside
    · rw [holdsOutputs_resolveFrom.2 (owned x mem)]
      rfl

end Request

/-! ## Two requests with generated files -/

namespace Sample

/-- An auxiliary declares a generated file that lies under the execution root alone. -/
def strayRequest : Request where
  version := Request.currentVersion
  execRoot := none
  roots := [{ path := ⟨"out"⟩, kind := .output }]
  unit :=
    { UnitDeclaration.empty with
      mainSource := ⟨"a.cc"⟩, generated := SortedTable.empty.set ⟨"out/g.h"⟩ ⟨"tmp/g.h"⟩
      auxiliary :=
        [{ UnitDeclaration.empty with
           mainSource := ⟨"b.cc"⟩, generated := SortedTable.empty.set ⟨"gen/h.h"⟩ ⟨"tmp/h.h"⟩ }] }

/-- One directory is declared twice, as a source and as an output. -/
def shadowedRequest : Request where
  version := Request.currentVersion
  execRoot := none
  roots := [{ path := ⟨"out"⟩, kind := .source }, { path := ⟨"out"⟩, kind := .output }]
  unit :=
    { UnitDeclaration.empty with
      mainSource := ⟨"a.cc"⟩, generated := SortedTable.empty.set ⟨"out/g.h"⟩ ⟨"out/g.h"⟩ }

end Sample

/-- The file of the unit lies under an output root below the one source; that of the auxiliary is the first error. -/
theorem Request.toJob_error_iff_stray :
    Sample.strayRequest.toJob "//:a" ⟨"/w"⟩ none = .error (.outsideOutputs ⟨"gen/h.h"⟩) ∧
    Sample.strayRequest.OwnedByOutput ⟨"/w"⟩ ⟨"out/g.h"⟩ := by
  obtain ⟨refused, under, deeper⟩ := Request.toJob_error_iff Sample.strayRequest "//:a" ⟨"/w"⟩ none
  have owned : Sample.strayRequest.OwnedByOutput ⟨"/w"⟩ ⟨"out/g.h"⟩ :=
    deeper ⟨"/w"⟩ ⟨"out/g.h"⟩ (.mount ⟨"/w/out"⟩ .output) (by decide +kernel) (by decide) (by decide +kernel) (by decide +kernel)
  have stray : ¬ Sample.strayRequest.OwnedByOutput ⟨"/w"⟩ ⟨"gen/h.h"⟩ := fun h => absurd (under _ _ h) (by decide +kernel)
  refine ⟨(refused _).2 ⟨[⟨"out/g.h"⟩], ⟨"gen/h.h"⟩, [], rfl, fun x mem => ?_, stray, rfl⟩, owned⟩
  rw [List.mem_singleton.1 mem]
  exact owned

/-- **A generated file under a declared output root is refused** when a source root at the same path is declared first;
declared in the other order, the same roots let it pass. -/
theorem Request.toJob_shadowed :
    Sample.shadowedRequest.unit.declared = [⟨"out/g.h"⟩] ∧ Sample.shadowedRequest.UnderOutput ⟨"/w"⟩ ⟨"out/g.h"⟩ ∧
    Sample.shadowedRequest.toJob "//:a" ⟨"/w"⟩ none = .error (.outsideOutputs ⟨"out/g.h"⟩) ∧
    ∃ job, { Sample.shadowedRequest with roots := Sample.shadowedRequest.roots.reverse }.toJob "//:a" ⟨"/w"⟩ none =
      .ok job :=
  ⟨rfl, by decide +kernel, rfl, _, rfl⟩

end IncludeClosure
