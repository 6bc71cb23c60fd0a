import IncludeClosure.Proofs.Artifact.Faithful
import IncludeClosure.Proofs.Request.Job
/-!
# Proofs.Request.Merge — where a declared generated file is written

Every unit of a job stands where its declaration stands among the auxiliaries, at any depth (`toUnit_at?`).  Its
generated files are declared one after another, and a later declaration of a place takes it from an earlier one: what is
found for an artifact is the last declaration of its place in path order (`written?_generatedFiles`).  So nothing is lost
of a request whose declarations of one place agree, and the two declarations of `Request.written?_merged` are merged into
one.
-/
namespace IncludeClosure

/-- **A table after an entry is set:** the new value for its key, and the old ones for the others. -/
theorem Sorted.find?_set {κ ν : Type} [DecidableEq κ] {order : κ → κ → Ordering} [Std.LawfulEqCmp order]
    (key other : κ) (value : ν) (table : List (κ × ν)) :
    ((set order key value table).find? (·.1 == other)).map (·.2) =
      if key = other then some value else (table.find? (·.1 == other)).map (·.2) := by
  induction table with
  | nil => by_cases same : key = other <;> simp [set, insertWith, same]
  | cons entry table ih =>
    unfold set at ih ⊢
    unfold insertWith
    split
    case h_1 => by_cases same : key = other <;> simp [same]
    case h_2 equal =>
      have here : key = entry.1 := Std.LawfulEqCmp.eq_of_compare equal
      by_cases same : key = other <;> simp [← here, same]
    case h_3 greater =>
      by_cases here : entry.1 = other
      · have apart : key ≠ other := by
          rintro rfl
          rw [onKey, here, @Std.ReflCmp.compare_self _ order] at greater
          cases greater
        simp [here, apart]
      · simp [here, ih]

/-- A declaration replaces what was declared for its artifact, and nothing else. -/
theorem GeneratedFiles.written?_declare (g : GeneratedFiles) (a b : Artifact) (w : Path) :
    (g.declare a w).written? b = if a = b then some w else g.written? b :=
  Sorted.find?_set a b w g.entries

/-- **The declaration at a place** among the auxiliaries: one number for each level. -/
def UnitDeclaration.at? : UnitDeclaration → List Nat → Option UnitDeclaration
  | d, [] => some d
  | d, i :: place => d.auxiliary[i]?.bind (·.at? place)

/-- **The unit at a place** among the auxiliaries. -/
def CompilationUnit.at? : CompilationUnit → List Nat → Option CompilationUnit
  | u, [] => some u
  | u, i :: place => u.auxiliary[i]?.bind (·.at? place)

namespace UnitDeclaration

variable {execRoot : Path} {roots : RootSet}

theorem toUnits_getElem? : ∀ {ds : List UnitDeclaration} {us : List CompilationUnit},
    toUnits execRoot roots ds = .ok us → ∀ i : Nat,
      Option.Rel (fun d u => d.toUnit execRoot roots = .ok u) ds[i]? us[i]?
  | [], us, h, i => by
    unfold toUnits at h
    cases h
    exact .none
  | d :: ds, us, h, i => by
    obtain ⟨v, vs, rfl, hv, hs⟩ := toUnits_ok h
    cases i with
    | zero => exact .some hv
    | succ i => exact toUnits_getElem? hs i

/-- **A unit stands where its declaration stands,** at any depth. -/
theorem toUnit_at? : ∀ (place : List Nat) {d : UnitDeclaration} {u : CompilationUnit},
    d.toUnit execRoot roots = .ok u →
      Option.Rel (fun d u => d.toUnit execRoot roots = .ok u) (d.at? place) (u.at? place)
  | [], d, u, h => .some h
  | i :: place, d, u, h => by
    have next := toUnits_getElem? (toUnit_ok h).2.1 i
    unfold at? CompilationUnit.at?
    generalize d.auxiliary[i]? = e at next ⊢
    generalize u.auxiliary[i]? = v at next ⊢
    cases next with
    | none => exact .none
    | some h => exact toUnit_at? place h

/-! ## The last declaration of a place -/

/-- **A declaration counts** if none after it, in path order, folds to the same place. -/
def Counts (execRoot : Path) (entries : List (Path × Path)) (entry : Path × Path) : Prop :=
  ∃ before after, entries = before ++ entry :: after ∧
    ∀ later ∈ after, (execRoot.join later.1).normalize ≠ (execRoot.join entry.1).normalize

variable {entries : List (Path × Path)} {entry : Path × Path} {a : Artifact}

theorem find?_reverse_iff : entries.reverse.find? (fun e => roots.resolveFrom execRoot e.1 == a) = some entry ↔
    Counts execRoot entries entry ∧ roots.resolveFrom execRoot entry.1 = a := by
  rw [List.find?_eq_some_iff_append]
  constructor
  · rintro ⟨here, after, before, split, others⟩
    have here := eq_of_beq here
    refine ⟨⟨before.reverse, after.reverse, ?_, fun later mem same => ?_⟩, here⟩
    · rw [← List.reverse_reverse entries, split]
      simp
    · have other := others later (List.mem_reverse.1 mem)
      rw [← here, RootSet.resolveFrom, RootSet.resolveFrom, RootSet.resolve_eq_iff.2 same] at other
      simp at other
  · rintro ⟨⟨before, after, split, others⟩, here⟩
    refine ⟨beq_iff_eq.2 here, after.reverse, before.reverse, by simp [split], fun later mem => ?_⟩
    have other := others later (List.mem_reverse.1 mem)
    rw [Bool.not_eq_true', beq_eq_false_iff_ne, ← here]
    exact fun same => other (RootSet.resolve_eq_iff.1 same)

/-- Some declaration of a place counts, if there is any. -/
theorem exists_counts (execRoot : Path) (roots : RootSet) (mem : entry ∈ entries) : ∃ last ∈ entries,
    Counts execRoot entries last ∧ roots.resolveFrom execRoot last.1 = roots.resolveFrom execRoot entry.1 := by
  have found : (entries.reverse.find? fun e => roots.resolveFrom execRoot e.1 ==
      roots.resolveFrom execRoot entry.1).isSome :=
    List.find?_isSome.2 ⟨entry, List.mem_reverse.2 mem, beq_self_eq_true _⟩
  obtain ⟨last, e⟩ := Option.isSome_iff_exists.1 found
  exact ⟨last, List.mem_reverse.1 (List.mem_of_find?_eq_some e), find?_reverse_iff.1 e⟩

/-- **What is found for an artifact** is its last declaration, or what was found before. -/
theorem written?_generatedFiles (a : Artifact) : ∀ {entries : List (Path × Path)} {files files' : GeneratedFiles},
    generatedFiles execRoot roots files entries = .ok files' → files'.written? a =
      ((entries.reverse.find? fun e => roots.resolveFrom execRoot e.1 == a).map
        fun e => (execRoot.join e.2).normalize).or (files.written? a)
  | [], files, files', h => by
    cases h
    rfl
  | (declared, written) :: entries, files, files', h => by
    unfold generatedFiles at h
    dsimp only at h
    split at h
    · rw [written?_generatedFiles a h, GeneratedFiles.written?_declare, List.reverse_cons, List.find?_append,
        Option.map_or, Option.or_assoc]
      congr 1
      by_cases same : roots.resolveFrom execRoot declared = a
      · simp [same]
      · simp [same]
    · cases h

theorem written?_iff {d : UnitDeclaration} {u : CompilationUnit} (h : d.toUnit execRoot roots = .ok u) (a : Artifact)
    (w : Path) : u.generated.written? a = some w ↔ ∃ entry, Counts execRoot d.generated.entries entry ∧
      roots.resolveFrom execRoot entry.1 = a ∧ (execRoot.join entry.2).normalize = w := by
  rw [written?_generatedFiles a (toUnit_ok h).1]
  show (Option.map _ _).or none = some w ↔ _
  rw [Option.or_none, Option.map_eq_some_iff]
  simp only [find?_reverse_iff, and_assoc]

/-- **A declaration is not lost** if all the declarations of its place agree. -/
theorem written?_of_agree {d : UnitDeclaration} {u : CompilationUnit} (h : d.toUnit execRoot roots = .ok u)
    (mem : entry ∈ d.generated.entries)
    (agree : ∀ other ∈ d.generated.entries, (execRoot.join other.1).normalize = (execRoot.join entry.1).normalize →
      (execRoot.join other.2).normalize = (execRoot.join entry.2).normalize) :
    u.generated.written? (roots.resolveFrom execRoot entry.1) = some (execRoot.join entry.2).normalize := by
  obtain ⟨last, among, counts, same⟩ := exists_counts execRoot roots mem
  exact (written?_iff h _ _).2 ⟨last, counts, same, agree last among (RootSet.resolve_eq_iff.1 same)⟩

end UnitDeclaration

namespace Request

open UnitDeclaration (Counts)

variable {q : Request} {name : String} {base : Path} {overriding : Option Path} {job : Job}

theorem resolveExecRoot_normal (q : Request) (base : Path) (overriding : Option Path) :
    (q.resolveExecRoot base overriding).normalize = q.resolveExecRoot base overriding := by
  unfold resolveExecRoot
  split
  · exact Path.normalize_normalize _
  · exact Path.normalize_normalize _

theorem toUnit_of_toJob (described : q.toJob name base overriding = .ok job) :
    job.context.execRoot = q.resolveExecRoot base overriding ∧ job.context.roots = q.rootSet job.context.execRoot ∧
      q.unit.toUnit job.context.execRoot job.context.roots = .ok job.unit := by
  obtain ⟨made, context⟩ := Job.toJob_ok described
  have execRoot : job.context.execRoot = q.resolveExecRoot base overriding := by
    rw [context]
    exact q.resolveExecRoot_normal base overriding
  have roots : job.context.roots = q.rootSet (q.resolveExecRoot base overriding) := by
    rw [context]
    rfl
  rw [roots, execRoot]
  exact ⟨rfl, rfl, made⟩

/-- **Where the generated files of a job are written.**  The units of the job stand where the declarations of the
request stand, at every depth.  A unit finds a generated file where the last declaration of its place says, in path
order, and finds no other.  So every declaration counts that agrees with all those of its place. -/
theorem written?_toJob (q : Request) (name : String) (base : Path) (overriding : Option Path) (job : Job)
    (described : q.toJob name base overriding = .ok job) :
    job.context.execRoot = q.resolveExecRoot base overriding ∧ job.context.roots = q.rootSet job.context.execRoot ∧
    ∀ place : List Nat, (q.unit.at? place = none ↔ job.unit.at? place = none) ∧
      ∀ d u, q.unit.at? place = some d → job.unit.at? place = some u →
        (∀ a w, u.generated.written? a = some w ↔ ∃ entry, Counts job.context.execRoot d.generated.entries entry ∧
          job.context.roots.resolveFrom job.context.execRoot entry.1 = a ∧
          (job.context.execRoot.join entry.2).normalize = w) ∧
        ∀ entry ∈ d.generated.entries,
          (∀ other ∈ d.generated.entries,
            (job.context.execRoot.join other.1).normalize = (job.context.execRoot.join entry.1).normalize →
            (job.context.execRoot.join other.2).normalize = (job.context.execRoot.join entry.2).normalize) →
          u.generated.written? (job.context.roots.resolveFrom job.context.execRoot entry.1) =
            some (job.context.execRoot.join entry.2).normalize := by
  obtain ⟨execRoot, roots, made⟩ := toUnit_of_toJob described
  refine ⟨execRoot, roots, fun place => ?_⟩
  have alike := UnitDeclaration.toUnit_at? place made
  generalize q.unit.at? place = declared at alike ⊢
  generalize job.unit.at? place = unit at alike ⊢
  cases alike with
  | none => exact ⟨by simp, nofun⟩
  | some made =>
    refine ⟨by simp, ?_⟩
    rintro d u ⟨⟩ ⟨⟩
    exact ⟨UnitDeclaration.written?_iff made, fun entry mem agree => UnitDeclaration.written?_of_agree made mem agree⟩

end Request

/-! ## Two requests that spell one place in two ways -/

namespace Sample

/-- An auxiliary of an auxiliary declares one file twice, and says the same both times. -/
def agreeingRequest : Request where
  version := Request.currentVersion
  execRoot := none
  roots := [{ path := ⟨"out"⟩, kind := .output }]
  unit :=
    { UnitDeclaration.empty with
      mainSource := ⟨"a.cc"⟩
      auxiliary :=
        [{ UnitDeclaration.empty with
           mainSource := ⟨"b.cc"⟩
           auxiliary :=
             [{ UnitDeclaration.empty with
                mainSource := ⟨"c.cc"⟩
                generated := (SortedTable.empty.set ⟨"out/g.h"⟩ ⟨"tmp/g.h"⟩).set ⟨"out/x/../g.h"⟩ ⟨"/w/./tmp/g.h"⟩ }] }] }

/-- One file is declared twice, to be written in two places. -/
def mergedRequest : Request where
  version := Request.currentVersion
  execRoot := none
  roots := [{ path := ⟨"out"⟩, kind := .output }]
  unit :=
    { UnitDeclaration.empty with
      mainSource := ⟨"a.cc"⟩
      generated := (SortedTable.empty.set ⟨"out/g.h"⟩ ⟨"tmp/g.h"⟩).set ⟨"out/x/../g.h"⟩ ⟨"tmp/none.h"⟩ }

end Sample

/-- The unit at depth two finds the file that is declared twice. -/
theorem Request.written?_toJob_agreeing : ∃ job u, Sample.agreeingRequest.toJob "//:a" ⟨"/w"⟩ none = .ok job ∧
    job.unit.at? [0, 0] = some u ∧
    u.generated.written? (job.context.roots.resolveFrom job.context.execRoot ⟨"out/g.h"⟩) = some ⟨"/w/tmp/g.h"⟩ := by
  obtain ⟨job, described⟩ : ∃ job, Sample.agreeingRequest.toJob "//:a" ⟨"/w"⟩ none = .ok job := ⟨_, rfl⟩
  obtain ⟨execRoot, -, units⟩ := Request.written?_toJob Sample.agreeingRequest "//:a" ⟨"/w"⟩ none job described
  have root : job.context.execRoot = ⟨"/w"⟩ := execRoot.trans (by decide)
  obtain ⟨same, units⟩ := units [0, 0]
  obtain ⟨u, unit⟩ : ∃ u, job.unit.at? [0, 0] = some u := Option.ne_none_iff_exists'.1 (mt same.2 nofun)
  obtain ⟨-, written⟩ := units _ u rfl unit
  rw [root] at written
  refine ⟨job, u, described, unit, ?_⟩
  rw [root, written (⟨"out/g.h"⟩, ⟨"tmp/g.h"⟩) (by decide +kernel) (by decide +kernel)]
  decide

/-- **Two declarations of one place are merged,** and the first is lost: it says `tmp/g.h`, and the job `tmp/none.h`. -/
theorem Request.written?_merged : ∃ job, Sample.mergedRequest.toJob "//:a" ⟨"/w"⟩ none = .ok job ∧
    (⟨"out/g.h"⟩, ⟨"tmp/g.h"⟩) ∈ Sample.mergedRequest.unit.generated.entries ∧
    (job.context.execRoot.join ⟨"tmp/g.h"⟩).normalize = ⟨"/w/tmp/g.h"⟩ ∧
    job.unit.generated.written? (job.context.roots.resolveFrom job.context.execRoot ⟨"out/g.h"⟩) =
      some ⟨"/w/tmp/none.h"⟩ :=
  ⟨_, rfl, by decide +kernel, by decide +kernel, by decide +kernel⟩

end IncludeClosure
