import IncludeClosure.Proofs.Path.Absorb
import IncludeClosure.Proofs.Request.Relocation
import IncludeClosure.Proofs.Scan.Lockstep
/-!
# Proofs.Request.Tidy — search lists up to spelling and repetition

A list of directories is **tidy** when each is in normal form and stands where it comes first.  A list and the tidy one
are searched alike (`searchedAlike_distinct`): a name below a directory does not depend on how the directory is spelled,
and a directory that was passed over once is passed over again.  So the closures of two configurations with the same
tidy lists are in lock step, and requests that are the same when their lists are tidy have the same inputs.
-/
namespace IncludeClosure

namespace Path

/-- **The directories of a list,** each in normal form and only where it comes first. -/
def distinct (dirs : List Path) : List Path :=
  (dirs.map normalize).eraseDups

/-- **Two lists are searched alike:** whatever makes a directory count, as long as its spelling does not, the first that
counts is the same. -/
def SearchedAlike (dirs dirs' : List Path) : Prop :=
  ∀ (β : Type) (counts : Path → Option β), (∀ p, counts p.normalize = counts p) →
    dirs.findSome? counts = dirs'.findSome? counts

theorem findSome?_filter_ne {β : Type} {counts : Path → Option β} {p : Path} (passed : counts p = none) :
    ∀ ps : List Path, (ps.filter (fun q => !q == p)).findSome? counts = ps.findSome? counts
  | [] => rfl
  | q :: ps => by
    have ih := findSome?_filter_ne passed ps
    by_cases same : q = p
    · simp [same, passed, ih]
    · simp [same, ih, List.findSome?_cons]

/-- **A repetition is never the first to count.** -/
theorem findSome?_eraseDups {β : Type} (counts : Path → Option β) (ps : List Path) :
    ps.eraseDups.findSome? counts = ps.findSome? counts := by
  match ps with
  | [] => rfl
  | p :: ps =>
    rw [List.eraseDups_cons, List.findSome?_cons, List.findSome?_cons]
    cases passed : counts p with
    | some b => rfl
    | none =>
      dsimp only
      rw [findSome?_eraseDups counts (ps.filter _), findSome?_filter_ne passed]
termination_by ps.length
decreasing_by exact Nat.lt_succ_of_le (List.length_filter_le _ _)

theorem searchedAlike_distinct (dirs : List Path) : SearchedAlike (distinct dirs) dirs := by
  intro β counts normal
  have spelled : counts ∘ normalize = counts := funext normal
  rw [distinct, findSome?_eraseDups, List.findSome?_map, spelled]

namespace SearchedAlike

variable {dirs dirs' more more' : List Path}

theorem refl (dirs : List Path) : SearchedAlike dirs dirs :=
  fun _ _ _ => rfl

theorem symm (h : SearchedAlike dirs dirs') : SearchedAlike dirs' dirs :=
  fun _ counts normal => (h _ counts normal).symm

theorem append (h : SearchedAlike dirs dirs') (later : SearchedAlike more more') :
    SearchedAlike (dirs ++ more) (dirs' ++ more') := by
  intro β counts normal
  rw [List.findSome?_append, List.findSome?_append, h _ counts normal, later _ counts normal]

theorem ofDistinct (h : distinct dirs = distinct dirs') : SearchedAlike dirs dirs' := by
  intro β counts normal
  rw [← searchedAlike_distinct dirs _ counts normal, h, searchedAlike_distinct dirs' _ counts normal]

/-- **Lists seen from a directory.** -/
theorem relativeTo (h : SearchedAlike dirs dirs') (root : Path) :
    SearchedAlike (root.relativeTo dirs) (root.relativeTo dirs') := by
  intro β counts normal
  unfold Path.relativeTo
  rw [List.findSome?_map, List.findSome?_map]
  refine h _ _ fun p => ?_
  show counts (root.join p.normalize).normalize = counts (root.join p).normalize
  rw [normalize_join_normalize]

/-- Whether some directory is as asked. -/
theorem any_eq (h : SearchedAlike dirs dirs') {asked : Path → Bool} (normal : ∀ p, asked p.normalize = asked p) :
    dirs.any asked = dirs'.any asked := by
  have first := h Unit (fun p => if asked p then some () else none) fun p => by rw [normal]
  have isSome := congrArg Option.isSome first
  rw [List.isSome_findSome?, List.isSome_findSome?] at isSome
  simpa [apply_ite Option.isSome] using isSome

end SearchedAlike
end Path

namespace SearchDirs

/-- **The configuration with tidy lists.** -/
def tidy (dirs : SearchDirs) : SearchDirs where
  quote := Path.distinct dirs.quote
  angle := Path.distinct dirs.angle

variable {dirs dirs' : SearchDirs}

theorem Alike.ofLists (quote : Path.SearchedAlike dirs.quote dirs'.quote)
    (angle : Path.SearchedAlike dirs.angle dirs'.angle) : dirs.Alike dirs' := by
  intro beside form name β counts
  have normal (p : Path) : counts (p.normalize.join ⟨name⟩).normalize = counts (p.join ⟨name⟩).normalize := by
    rw [Path.normalize_normalize_join]
  have inQuote := quote β (fun dir => counts (dir.join ⟨name⟩).normalize) normal
  have inAngle := angle β (fun dir => counts (dir.join ⟨name⟩).normalize) normal
  unfold candidates
  dsimp only
  split
  · rfl
  · rw [List.findSome?_map, List.findSome?_map]
    cases form with
    | quote =>
      simp only [forForm, List.findSome?_append]
      exact congrArg₂ _ (congrArg₂ _ rfl inQuote) inAngle
    | angle => exact inAngle

theorem Alike.ofTidy (h : dirs.tidy = dirs'.tidy) : dirs.Alike dirs' :=
  .ofLists (.ofDistinct (congrArg quote h)) (.ofDistinct (congrArg angle h))

/-- Two spellings of one configuration search like two others that search alike. -/
theorem Alike.congr {a b : SearchDirs} (h : dirs.Alike dirs') (ha : a.same dirs = true) (hb : b.same dirs' = true) :
    a.Alike b := by
  intro beside form name β counts
  rw [candidates_congr ha, candidates_congr hb, h beside form name]

end SearchDirs

namespace CompilationUnit

/-- **Two units search alike** and are the same otherwise; nothing is said about their auxiliaries. -/
structure Alike (u u' : CompilationUnit) : Prop where
  mainSource : u.mainSource = u'.mainSource
  sources : u.sources = u'.sources
  quoteDirs : Path.SearchedAlike u.quoteDirs u'.quoteDirs
  angleDirs : Path.SearchedAlike (u.includeDirs ++ u.systemDirs) (u'.includeDirs ++ u'.systemDirs)
  builtinDirs : Path.SearchedAlike u.builtinDirs u'.builtinDirs
  forcedIncludes : u.forcedIncludes = u'.forcedIncludes
  generated : u.generated = u'.generated

end CompilationUnit

namespace Scan

variable {t : FileTree} {context : Context} {builtin builtin' : List Path}

theorem searchDirs_alike {u u' : CompilationUnit} (h : u.Alike u') (toolchain : Path.SearchedAlike builtin builtin') :
    (searchDirs context builtin u).Alike (searchDirs context builtin' u') :=
  .ofLists (h.quoteDirs.relativeTo _) ((h.angleDirs.append toolchain).relativeTo _)

/-- **A scanner that is handed out** has the configuration asked for, and the memo has not changed. -/
theorem runOn_scannerFor (dirs : SearchDirs) (s : ScanStore) :
    (runOn t (scannerFor dirs) s).1.dirs.same dirs = true ∧ (runOn t (scannerFor dirs) s).2.Agree s := by
  have looked : runOn t (step (.findScanner dirs)) s = (s.cache.scanners.find? dirs, s) := rfl
  unfold scannerFor
  rw [runOn_bind, looked]
  dsimp only
  cases found : s.cache.scanners.find? dirs with
  | some scanner => exact ⟨ScannerTable.same_of_find? found, rfl, rfl⟩
  | none => exact ⟨ScannerTable.same_of_keep _ { number := s.cache.scanners.built, dirs }, rfl, rfl⟩

theorem lockstep_scannerFor (dirs dirs' : SearchDirs) :
    Lockstep t (fun a b => a.dirs.same dirs = true ∧ b.dirs.same dirs' = true)
      (scannerFor dirs) (scannerFor dirs') := by
  intro s s' agree
  obtain ⟨same, kept⟩ := runOn_scannerFor (t := t) dirs s
  obtain ⟨same', kept'⟩ := runOn_scannerFor (t := t) dirs' s'
  exact ⟨⟨same, same'⟩, kept.memo.trans (agree.memo.trans kept'.memo.symm),
    kept.found.trans (agree.found.trans kept'.found.symm)⟩

theorem lockstep_recordAll : ∀ sources : List Artifact, Lockstep t Eq (recordAll sources) (recordAll sources)
  | [] => lockstep_done rfl
  | _ :: sources => lockstep_step_bind trivial fun _ => lockstep_recordAll sources

theorem lockstep_unit {u u' : CompilationUnit} (h : u.Alike u') (toolchain : Path.SearchedAlike builtin builtin') :
    Lockstep t Eq (unit context builtin u) (unit context builtin' u') := by
  unfold unit
  split
  · exact lockstep_done rfl
  · refine (lockstep_scannerFor _ _).bind fun scanner scanner' same => ?_
    rw [← h.mainSource, ← h.sources, ← h.forcedIncludes, ← h.generated]
    refine (lockstep_recordAll u.sources).andThen fun _ => ?_
    have alike : scanner.dirs.Alike scanner'.dirs := (searchDirs_alike h toolchain).congr same.1 same.2
    exact Lookup.lockstep_closure (l := { dirs := scanner.dirs, generated := u.generated, context }) alike _ _ _

theorem lockstep_eachUnit (toolchain : Path.SearchedAlike builtin builtin') {us us' : List CompilationUnit}
    (h : List.Forall₂ CompilationUnit.Alike us us') :
    Lockstep t Eq (eachUnit context builtin us) (eachUnit context builtin' us') := by
  induction h with
  | nil => exact lockstep_done rfl
  | cons first _ ih =>
    unfold eachUnit
    refine (lockstep_unit first toolchain).andThen fun outcome => ?_
    split
    · exact lockstep_done rfl
    · exact ih

end Scan

namespace UnitDeclaration

mutual

/-- **The declaration with tidy lists,** the directories for angle-bracketed names being one list. -/
def tidy : UnitDeclaration → UnitDeclaration
  | ⟨mainSource, sources, quoteDirs, includeDirs, systemDirs, builtinDirs, forcedIncludes, generated, auxiliary⟩ =>
    { mainSource, sources, quoteDirs := Path.distinct quoteDirs
      includeDirs := Path.distinct (includeDirs ++ systemDirs), systemDirs := []
      builtinDirs := Path.distinct builtinDirs, forcedIncludes, generated
      auxiliary := tidyAll auxiliary }

def tidyAll : List UnitDeclaration → List UnitDeclaration
  | [] => []
  | d :: ds => d.tidy :: tidyAll ds

end

variable {execRoot : Path} {roots : RootSet}

mutual

/-- **A declaration and the tidy one** describe units that search alike, or neither describes one. -/
theorem toUnit_tidy : ∀ d : UnitDeclaration,
    Corresponds Eq (fun u u' => u.Alike u' ∧ List.Forall₂ CompilationUnit.Alike u.auxiliary u'.auxiliary)
      (d.tidy.toUnit execRoot roots) (d.toUnit execRoot roots)
  | ⟨mainSource, sources, quoteDirs, includeDirs, systemDirs, builtinDirs, forcedIncludes, generated, auxiliary⟩ => by
    unfold tidy toUnit
    dsimp only
    cases generatedFiles execRoot roots .none generated.entries with
    | error e => exact .error rfl
    | ok files =>
      refine (toUnits_tidyAll auxiliary).bind fun us us' hus => .ok ⟨?_, hus⟩
      constructor
      case quoteDirs => exact Path.searchedAlike_distinct _
      case angleDirs => simpa using Path.searchedAlike_distinct _
      case builtinDirs => exact Path.searchedAlike_distinct _
      all_goals rfl

theorem toUnits_tidyAll : ∀ ds : List UnitDeclaration,
    Corresponds Eq (List.Forall₂ CompilationUnit.Alike)
      (toUnits execRoot roots (tidyAll ds)) (toUnits execRoot roots ds)
  | [] => by
    unfold tidyAll toUnits
    exact .ok .nil
  | d :: ds => by
    unfold tidyAll toUnits
    refine (toUnit_tidy d).bind fun u u' hu => ?_
    exact (toUnits_tidyAll ds).bind fun us us' hus => .ok (.cons hu.1 hus)

end

end UnitDeclaration

/-- Which inputs are left depends on which paths lie in the toolchain alone. -/
theorem ArtifactSet.inputs_congr {roots roots' : List Path}
    (same : ∀ p : Path, p.startsWithAny roots = p.startsWithAny roots') (found : ArtifactSet) :
    found.inputs roots = found.inputs roots' := by
  have lists : ∀ artifacts, inputsOf roots artifacts = inputsOf roots' artifacts := by
    intro artifacts
    induction artifacts with
    | nil => rfl
    | cons a rest ih => rw [inputsOf, inputsOf, same, ih]
  exact lists found.toList

theorem Scan.startsWithAny_builtinRoots_of_alike {context : Context} {u u' : CompilationUnit} (h : u.Alike u')
    (p : Path) : p.startsWithAny (builtinRoots context u) = p.startsWithAny (builtinRoots context u') := by
  unfold Path.startsWithAny builtinRoots Path.relativeTo
  rw [List.any_map, List.any_map, List.any_filter, List.any_filter]
  refine h.builtinDirs.any_eq fun dir => ?_
  rw [Path.isAbsolute_normalize, Function.comp_apply, Function.comp_apply, Path.normalize_join_normalize]

/-- **Actions whose units search alike** are answered alike. -/
theorem Job.inputs_eq_of_alike {t : FileTree} {job job' : Job} (context : job.context = job'.context)
    (units : List.Forall₂ CompilationUnit.Alike job.unit.scannables job'.unit.scannables) (cache : ScanCache) :
    ((job.inputs cache).run t.answer).1 = ((job'.inputs cache).run t.answer).1 := by
  obtain ⟨primary, -⟩ := List.forall₂_cons.1 units
  have agree : ScanStore.Agree (.ofCache cache) (.ofCache cache) := ⟨rfl, rfl⟩
  have inStep : Scan.Lockstep t Eq (Scan.eachUnit job.context job.unit.builtinDirs job.unit.scannables)
      (Scan.eachUnit job.context job'.unit.builtinDirs job'.unit.scannables) :=
    Scan.lockstep_eachUnit primary.builtinDirs units
  obtain ⟨outcome, -, found⟩ := inStep _ _ agree
  rw [run_inputs_eq, run_inputs_eq, ← context]
  dsimp only
  rw [outcome, found]
  exact congrArg _ (funext fun _ => ArtifactSet.inputs_congr (Scan.startsWithAny_builtinRoots_of_alike primary) _)

namespace Request

/-- **The request with tidy lists.** -/
def tidy (q : Request) : Request :=
  { q with unit := q.unit.tidy }

/-- **The inputs of a request,** as a build in the directory `base` gets them, or why there are none. -/
def answer (q : Request) (t : FileTree) (cache : ScanCache) (name : String) (base : Path) (overriding : Option Path) :
    Except Error (Except ScanError (List Artifact)) :=
  (q.toJob name base overriding).map (fun job => ((job.inputs cache).run t.answer).1)

theorem toJob_tidy (q : Request) (name : String) (base : Path) (overriding : Option Path) :
    Corresponds Eq (fun job job' => job.context = job'.context ∧
        List.Forall₂ CompilationUnit.Alike job.unit.scannables job'.unit.scannables)
      (q.tidy.toJob name base overriding) (q.toJob name base overriding) :=
  (UnitDeclaration.toUnit_tidy q.unit).bind fun _ _ same => .ok ⟨rfl, .cons same.1 same.2⟩

theorem answer_tidy (q : Request) (t : FileTree) (cache : ScanCache) (name : String) (base : Path)
    (overriding : Option Path) :
    q.tidy.answer t cache name base overriding = q.answer t cache name base overriding := by
  have jobs := q.toJob_tidy name base overriding
  unfold answer
  generalize q.tidy.toJob name base overriding = first, q.toJob name base overriding = second at jobs ⊢
  cases jobs with
  | error same => exact congrArg Except.error same
  | ok same => exact congrArg Except.ok (Job.inputs_eq_of_alike same.1 same.2 cache)

/-- **Search lists matter up to spelling and repetition.**  Two configurations whose tidy lists are the same, with
caches that remember the same files, have closures with the same outcome, and the same is found.  Two requests that are
the same when their lists are tidy have the same inputs. -/
theorem answer_eq_of_tidy (t : FileTree) :
    (∀ (l : Lookup) (dirs : SearchDirs) (mainSource : Artifact) (sources : List Artifact) (forced : List String)
      (s s' : ScanStore), l.dirs.tidy = dirs.tidy → s.Agree s' →
      (Scan.runOn t (l.closure mainSource sources forced) s).1
        = (Scan.runOn t ({ l with dirs }.closure mainSource sources forced) s').1 ∧
      (Scan.runOn t (l.closure mainSource sources forced) s).2.Agree
        (Scan.runOn t ({ l with dirs }.closure mainSource sources forced) s').2) ∧
    ∀ (q q' : Request) (cache : ScanCache) (name : String) (base : Path) (overriding : Option Path), q.tidy = q'.tidy →
      q.answer t cache name base overriding = q'.answer t cache name base overriding := by
  constructor
  · intro l dirs mainSource sources forced s s' tidy agree
    exact Lookup.lockstep_closure (.ofTidy tidy) mainSource sources forced s s' agree
  · intro q q' cache name base overriding tidy
    rw [← answer_tidy q, ← answer_tidy q', tidy]

end Request

namespace Sample

/-- A request for the generated header, with the given directories. -/
def searching (quoteDirs includeDirs systemDirs : List Path) : Request where
  version := Request.currentVersion
  execRoot := none
  roots := [{ path := ⟨"out"⟩, kind := .output }]
  unit :=
    { UnitDeclaration.empty with
      mainSource := ⟨"a.cc"⟩, quoteDirs, includeDirs, systemDirs, forcedIncludes := ["g.h"]
      generated := SortedTable.empty.set ⟨"out/g.h"⟩ ⟨"tmp/g.h"⟩ }

def cluttered : Request :=
  searching [⟨"x/../inc"⟩, ⟨"inc"⟩] [⟨"out"⟩] [⟨"./out//"⟩, ⟨"sys"⟩]

def uncluttered : Request :=
  searching [⟨"inc"⟩] [⟨"out"⟩, ⟨"sys"⟩] []

theorem tidy_cluttered : cluttered.tidy = uncluttered.tidy := rfl

/-- The directories of `lookup`, spelled in other ways and repeated. -/
def clutteredDirs : SearchDirs where
  quote := []
  angle := [⟨"/w//out"⟩, ⟨"/usr/x/../include"⟩, ⟨"/w/out/."⟩]

theorem tidy_clutteredDirs : lookup.dirs.tidy = clutteredDirs.tidy := by
  decide

end Sample

theorem Request.answer_eq_of_tidy_cluttered :
    Sample.lookup.dirs.tidy = Sample.clutteredDirs.tidy ∧ ScanStore.Agree .empty .empty ∧
    (Scan.runOn Sample.tree (Sample.lookup.closure Sample.aCc [Sample.aCc] ["g.h"]) .empty).1
      = (Scan.runOn Sample.tree ({ Sample.lookup with dirs := Sample.clutteredDirs }.closure Sample.aCc [Sample.aCc]
          ["g.h"]) .empty).1 ∧
    Sample.cluttered.tidy = Sample.uncluttered.tidy ∧
    Sample.cluttered.answer Sample.tree .empty "//:a" ⟨"/w"⟩ none
      = Sample.uncluttered.answer Sample.tree .empty "//:a" ⟨"/w"⟩ none := by
  obtain ⟨closures, requests⟩ := answer_eq_of_tidy Sample.tree
  have agree : ScanStore.Agree .empty .empty := ⟨rfl, rfl⟩
  refine ⟨Sample.tidy_clutteredDirs, agree, ?_, Sample.tidy_cluttered, ?_⟩
  · exact (closures _ _ _ _ _ _ _ Sample.tidy_clutteredDirs agree).1
  · exact requests _ _ _ _ _ _ Sample.tidy_cluttered

end IncludeClosure
