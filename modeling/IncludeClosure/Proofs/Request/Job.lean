import IncludeClosure.Proofs.Scan.Action
import IncludeClosure.Request.Job
/-!
# Proofs.Request.Job — what the jobs of requests are like

A job that comes from a request (`Job.Requested`) is not interrupted, and in all its units the places where generated
files are written are in normal form.  So an action that a request describes is answered as it has to be, whatever
traceable cache it finds (`Requested.answers`).
-/
namespace IncludeClosure

theorem GeneratedFiles.Placed.declare {g : GeneratedFiles} (h : g.Placed) (a : Artifact) {written : Path}
    (hw : written.normalize = written) : (g.declare a written).Placed := by
  intro entry he
  rcases Sorted.mem_insertWith _ _ he with rfl | he | ⟨old, -, rfl⟩
  · exact hw
  · exact h entry he
  · exact hw

namespace UnitDeclaration

variable {execRoot : Path} {roots : RootSet}

theorem placed_of_generatedFiles : ∀ {entries : List (Path × Path)} {files files' : GeneratedFiles},
    files.Placed → generatedFiles execRoot roots files entries = .ok files' → files'.Placed
  | [], _, _, placed, h => by
    cases h
    exact placed
  | (declared, written) :: entries, files, files', placed, h => by
    unfold generatedFiles at h
    dsimp only at h
    split at h
    · exact placed_of_generatedFiles (placed.declare _ (Path.normalize_normalize _)) h
    · cases h

/-- **What a declared unit is made of.** -/
theorem toUnit_ok {d : UnitDeclaration} {u : CompilationUnit} (h : d.toUnit execRoot roots = .ok u) :
    generatedFiles execRoot roots .none d.generated.entries = .ok u.generated ∧
    toUnits execRoot roots d.auxiliary = .ok u.auxiliary ∧
    u =
      { mainSource := roots.resolveFrom execRoot d.mainSource
        sources := if d.sources.isEmpty then [roots.resolveFrom execRoot d.mainSource]
          else d.sources.map (roots.resolveFrom execRoot)
        quoteDirs := d.quoteDirs, includeDirs := d.includeDirs, systemDirs := d.systemDirs
        builtinDirs := d.builtinDirs, forcedIncludes := d.forcedIncludes
        generated := u.generated, auxiliary := u.auxiliary } := by
  obtain ⟨mainSource, sources, quoteDirs, includeDirs, systemDirs, builtinDirs, forcedIncludes, generated, auxiliary⟩ := d
  unfold toUnit at h
  dsimp only at h ⊢
  cases hg : generatedFiles execRoot roots .none generated.entries with
  | error e =>
    rw [hg] at h
    cases h
  | ok files =>
    rw [hg] at h
    cases ha : toUnits execRoot roots auxiliary with
    | error e =>
      rw [ha] at h
      cases h
    | ok us =>
      rw [ha] at h
      cases h
      exact ⟨rfl, rfl, rfl⟩

theorem toUnits_ok {d : UnitDeclaration} {ds : List UnitDeclaration} {us : List CompilationUnit}
    (h : toUnits execRoot roots (d :: ds) = .ok us) :
    ∃ v vs, us = v :: vs ∧ d.toUnit execRoot roots = .ok v ∧ toUnits execRoot roots ds = .ok vs := by
  unfold toUnits at h
  cases hv : toUnit execRoot roots d with
  | error e =>
    rw [hv] at h
    cases h
  | ok v =>
    rw [hv] at h
    cases hs : toUnits execRoot roots ds with
    | error e =>
      rw [hs] at h
      cases h
    | ok vs =>
      rw [hs] at h
      cases h
      exact ⟨v, vs, rfl, rfl, rfl⟩

theorem placed_of_toUnit {d : UnitDeclaration} {u : CompilationUnit} (h : d.toUnit execRoot roots = .ok u) :
    u.generated.Placed :=
  placed_of_generatedFiles (fun _ h => absurd h List.not_mem_nil) (toUnit_ok h).1

/-- Every unit of a list comes from one of the declarations. -/
theorem exists_of_toUnits : ∀ {ds : List UnitDeclaration} {us : List CompilationUnit},
    toUnits execRoot roots ds = .ok us → ∀ u ∈ us, ∃ d ∈ ds, d.toUnit execRoot roots = .ok u
  | [], _, h, u, hu => by
    unfold toUnits at h
    cases h
    exact absurd hu List.not_mem_nil
  | d :: ds, _, h, u, hu => by
    obtain ⟨v, vs, rfl, hv, hs⟩ := toUnits_ok h
    rcases List.mem_cons.1 hu with rfl | hu
    · exact ⟨d, List.mem_cons_self, hv⟩
    · obtain ⟨e, he, hu⟩ := exists_of_toUnits hs u hu
      exact ⟨e, List.mem_cons_of_mem _ he, hu⟩

/-- Every unit that a scan looks at comes from a declaration. -/
theorem exists_of_scannables {d : UnitDeclaration} {u : CompilationUnit} (h : d.toUnit execRoot roots = .ok u) :
    ∀ v ∈ u.scannables, ∃ e : UnitDeclaration, e.toUnit execRoot roots = .ok v := by
  intro v mem
  rcases List.mem_cons.1 mem with rfl | mem
  · exact ⟨d, h⟩
  · obtain ⟨e, -, he⟩ := exists_of_toUnits (toUnit_ok h).2.1 v mem
    exact ⟨e, he⟩

end UnitDeclaration

namespace Job

/-- Some request describes the action. -/
def Requested (job : Job) : Prop :=
  ∃ (q : Request) (name : String) (base : Path) (overriding : Option Path), q.toJob name base overriding = .ok job

variable {job : Job}

/-- **The unit and the context of an action that a request describes.** -/
theorem toJob_ok {q : Request} {name : String} {base : Path} {overriding : Option Path}
    (h : q.toJob name base overriding = .ok job) :
    q.unit.toUnit (q.resolveExecRoot base overriding) (q.rootSet (q.resolveExecRoot base overriding)) = .ok job.unit ∧
    job.context =
      .withRoots (q.resolveExecRoot base overriding) (q.rootSet (q.resolveExecRoot base overriding)) := by
  unfold Request.toJob at h
  dsimp only at h
  cases hu : q.unit.toUnit (q.resolveExecRoot base overriding) (q.rootSet (q.resolveExecRoot base overriding)) with
  | error e =>
    rw [hu] at h
    cases h
  | ok u =>
    rw [hu] at h
    cases h
    exact ⟨rfl, rfl⟩

theorem Requested.running (h : job.Requested) : job.context.interrupted = false := by
  obtain ⟨q, name, base, overriding, h⟩ := h
  obtain ⟨-, hc⟩ := toJob_ok h
  rw [hc]
  rfl

theorem Requested.placed (h : job.Requested) : ∀ u ∈ job.unit.scannables, u.generated.Placed := by
  obtain ⟨q, name, base, overriding, h⟩ := h
  intro u mem
  obtain ⟨d, hd⟩ := UnitDeclaration.exists_of_scannables (toJob_ok h).1 u mem
  exact UnitDeclaration.placed_of_toUnit hd

/-- **A requested action on a steady tree** is answered as it has to be, and leaves a cache that can be traced. -/
theorem Requested.answers (h : job.Requested) {t : FileTree} {past : List FileTree} (steady : t.Steady past)
    {cache : ScanCache} (traced : cache.memo.Traced past) :
    job.Answers t ((job.inputs cache).run t.answer).1 ∧ ((job.inputs cache).run t.answer).2.memo.Traced past :=
  answers_of_traced steady h.running h.placed traced

theorem Requested.answers_empty (h : job.Requested) (t : FileTree) :
    job.Answers t ((job.inputs .empty).run t.answer).1 :=
  (answers_of_traced (.self t) h.running h.placed (FileMemo.traced_empty [t])).1

end Job

namespace Sample

def request : Request where
  version := Request.currentVersion
  execRoot := none
  roots := [{ path := ⟨"out"⟩, kind := .output }]
  unit :=
    { UnitDeclaration.empty with
      mainSource := ⟨"a.cc"⟩, includeDirs := [⟨"out"⟩], builtinDirs := [⟨"/usr/include"⟩], forcedIncludes := ["g.h"]
      generated := SortedTable.empty.set ⟨"out/g.h"⟩ ⟨"/tmp/g.h"⟩ }

theorem requested_job : job.Requested :=
  ⟨request, "//:a", ⟨"/w"⟩, none, rfl⟩

end Sample
end IncludeClosure
