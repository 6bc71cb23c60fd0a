import IncludeClosure.Proofs.Scan.Closure
import IncludeClosure.Scan.Action
/-!
# Proofs.Scan.Action — the inputs of an action are what its units reach

A unit is scanned with the lookup that its action gives it (`Job.lookup`), and ends as its closure does, whatever the
cache holds and whatever scanner is in use (`ensures_unit`).  So an action gives its inputs exactly when everything that
a unit reaches can be read there and everything outside the toolchain can be declared; a file that cannot be read comes
before one that cannot be declared (`run_inputs`).
-/
namespace IncludeClosure
namespace Job

/-- **How the names in a unit of the action are looked up:** in the unit's own directories and then in the toolchain
directories of the primary unit, all seen from the execution root. -/
def lookup (job : Job) (u : CompilationUnit) : Lookup where
  dirs :=
    { quote := u.quoteDirs.map (fun dir => (job.context.execRoot.join dir).normalize)
      angle := (u.includeDirs ++ u.systemDirs ++ job.unit.builtinDirs).map
        (fun dir => (job.context.execRoot.join dir).normalize) }
  generated := u.generated
  context := job.context

/-- The artifact is in the include closure of a unit. -/
def ReachIn (job : Job) (t : FileTree) (u : CompilationUnit) (a : Artifact) : Prop :=
  (job.lookup u).Reach t u.mainSource u.sources u.forcedIncludes a

/-- **Reached by the action:** by its primary unit or one of the auxiliaries of that. -/
def Reach (job : Job) (t : FileTree) (a : Artifact) : Prop :=
  ∃ u ∈ job.unit.scannables, job.ReachIn t u a

def Readable (job : Job) (t : FileTree) : Prop :=
  ∀ u ∈ job.unit.scannables, ∀ a, job.ReachIn t u a → ∃ ds, (job.lookup u).directivesOn t a = .ok ds

/-- The artifact lies under an absolute directory of the primary unit's toolchain. -/
def InToolchain (job : Job) (a : Artifact) : Prop :=
  ∃ dir ∈ job.unit.builtinDirs, dir.isAbsolute = true ∧ a.path.startsWith dir.normalize = true

/-- The action reaches the artifact, outside the toolchain and outside every root with a parent. -/
def Stray (job : Job) (t : FileTree) (a : Artifact) : Prop :=
  job.Reach t a ∧ ¬ job.InToolchain a ∧ a.root.hasParent = false

/-- The unit reaches a file that it cannot read, and the error names that file. -/
def FailsIn (job : Job) (t : FileTree) (u : CompilationUnit) (e : ScanError) : Prop :=
  ∃ a cause, job.ReachIn t u a ∧ (job.lookup u).directivesOn t a = .error cause ∧
    e = .unreadable ((job.lookup u).readPath a) cause

/-- **What the scan of a unit comes to:** what the closure of the unit comes to. -/
def ClosesIn (job : Job) (t : FileTree) (u : CompilationUnit) : List Artifact → Except ScanError Unit → Prop :=
  (job.lookup u).Closes t u.mainSource u.sources u.forcedIncludes []

end Job

namespace Scan

open Lookup (Closes)

variable {t : FileTree}

/-- **The scanner of a configuration** has a spelling of that configuration, whoever built it. -/
theorem ensures_scannerFor (dirs : SearchDirs) :
    Ensures t (scannerFor dirs) (fun found scanner => found = [] ∧ scanner.dirs.same dirs = true) := by
  unfold scannerFor
  refine ensures_step_bind trivial fun inUse may => ?_
  cases inUse with
  | some scanner => exact ⟨rfl, may scanner rfl⟩
  | none =>
    refine ensures_step_bind trivial fun scanner built => ?_
    rw [ensures_step]
    refine ⟨trivial, fun inUse same => ⟨rfl, ?_⟩⟩
    have built : scanner.dirs = dirs := built
    rw [← built]
    exact same

theorem ensures_recordAll : ∀ artifacts : List Artifact,
    Ensures t (recordAll artifacts) (fun found _ => found = artifacts)
  | [] => rfl
  | a :: artifacts => by
    refine ensures_step_bind trivial fun _ _ => ensures_mono (ensures_recordAll artifacts) ?_
    rintro _ _ rfl
    rfl

/-- **The scan of one unit** ends as the unit's closure does. -/
theorem ensures_unit (job : Job) (running : job.context.interrupted = false) {u : CompilationUnit}
    (placed : u.generated.Placed) :
    Ensures t (unit job.context job.unit.builtinDirs u) (job.ClosesIn t u) := by
  unfold unit
  rw [if_neg (by rw [running]; decide), ensures_bind]
  refine ensures_mono (ensures_scannerFor _) ?_
  rintro _ scanner ⟨rfl, same⟩
  have hcand : scanner.dirs.candidates = (job.lookup u).dirs.candidates := SearchDirs.candidates_congr same
  rw [ensures_bind]
  refine ensures_mono (ensures_recordAll u.sources) ?_
  rintro found _ rfl
  refine ensures_mono (Lookup.ensures_closure running placed) ?_
  intro more outcome closes
  have hm : Lookup.meaning? { dirs := scanner.dirs, generated := u.generated, context := job.context } t
      = (job.lookup u).meaning? t := by
    funext beside form name
    unfold Lookup.meaning?
    rw [hcand]
    rfl
  show job.ClosesIn t u (u.sources ++ more) outcome
  refine Closes.append (fun a ha => .source ha) ?_
  exact (closes.congr hm rfl).mono_known (fun a ha => absurd ha List.not_mem_nil)

/-- **What the scans of some units of an action come to:** all they record is reached, a good end means that all that
these units reach is recorded and can be read, and an error names a file that one of them reaches and cannot read. -/
structure Covers (job : Job) (t : FileTree) (us : List CompilationUnit) (found : List Artifact)
    (outcome : Except ScanError Unit) : Prop where
  reached : ∀ a ∈ found, ∃ u ∈ us, job.ReachIn t u a
  complete : outcome = .ok () → ∀ u ∈ us, ∀ a, job.ReachIn t u a →
    a ∈ found ∧ ∃ ds, (job.lookup u).directivesOn t a = .ok ds
  failed : ∀ e, outcome = .error e → ∃ u ∈ us, job.FailsIn t u e

theorem Covers.ofUnit {job : Job} {u : CompilationUnit} {us : List CompilationUnit} {found : List Artifact}
    {e : ScanError} (h : job.ClosesIn t u found (.error e)) :
    Covers job t (u :: us) found (.error e) where
  reached a ha := ⟨u, List.mem_cons_self, h.reached a ha⟩
  complete hok := nomatch hok
  failed e' he' := ⟨u, List.mem_cons_self, h.failed e' he'⟩

theorem Covers.cons {job : Job} {u : CompilationUnit} {us : List CompilationUnit} {found more : List Artifact}
    {outcome : Except ScanError Unit}
    (first : job.ClosesIn t u found (.ok ()))
    (rest : Covers job t us more outcome) : Covers job t (u :: us) (found ++ more) outcome where
  reached a ha := by
    rcases List.mem_append.1 ha with ha | ha
    · exact ⟨u, List.mem_cons_self, first.reached a ha⟩
    · obtain ⟨v, hv, hr⟩ := rest.reached a ha
      exact ⟨v, List.mem_cons_of_mem _ hv, hr⟩
  complete hok v hv a ha := by
    rcases List.mem_cons.1 hv with rfl | hv
    · obtain ⟨hm, hd⟩ := first.complete rfl a ha
      exact ⟨List.mem_append_left _ (hm.resolve_left List.not_mem_nil), hd⟩
    · obtain ⟨hm, hd⟩ := rest.complete hok v hv a ha
      exact ⟨List.mem_append_right _ hm, hd⟩
  failed e he := by
    obtain ⟨v, hv, hf⟩ := rest.failed e he
    exact ⟨v, List.mem_cons_of_mem _ hv, hf⟩

/-- **The scans of some units** of an action, whatever the cache holds. -/
theorem ensures_eachUnit (job : Job) (running : job.context.interrupted = false) :
    ∀ us : List CompilationUnit, (∀ u ∈ us, u.generated.Placed) →
      Ensures t (eachUnit job.context job.unit.builtinDirs us) (Covers job t us)
  | [], _ => ⟨fun a ha => absurd ha List.not_mem_nil, fun _ u hu => absurd hu List.not_mem_nil, fun e he => nomatch he⟩
  | u :: us, placed => by
    unfold eachUnit
    rw [ensures_bind]
    refine ensures_mono (ensures_unit job running (placed u List.mem_cons_self)) ?_
    intro found outcome closes
    cases outcome with
    | error e =>
      show Covers job t (u :: us) (found ++ []) (.error e)
      rw [List.append_nil]
      exact .ofUnit closes
    | ok =>
      have ih := ensures_eachUnit job running us fun v hv => placed v (List.mem_cons_of_mem _ hv)
      exact ensures_mono ih fun more outcome rest => rest.cons closes

end Scan

/-- The artifact has to be declared, and it cannot be. -/
def Artifact.strays (roots : List Path) (a : Artifact) : Bool :=
  !a.path.startsWithAny roots && !a.root.hasParent

namespace ArtifactSet

theorem inputsOf_ok {roots : List Path} : ∀ {found : List Artifact}, (∀ a ∈ found, a.strays roots = false) →
    inputsOf roots found = .ok (found.filter (fun a => !a.path.startsWithAny roots))
  | [], _ => rfl
  | a :: found, h => by
    have ih := inputsOf_ok fun b hb => h b (List.mem_cons_of_mem _ hb)
    have ha := h a List.mem_cons_self
    unfold Artifact.strays at ha
    unfold inputsOf
    by_cases inside : a.path.startsWithAny roots = true
    · rw [if_pos inside, ih, List.filter_cons_of_neg (by simp [inside])]
    · have parent : a.root.hasParent = true := by simpa [inside] using ha
      rw [if_neg inside, if_pos parent, ih, List.filter_cons_of_pos (by simp [inside])]
      rfl

theorem inputsOf_error {roots : List Path} {first : Artifact} (after : List Artifact)
    (hf : first.strays roots = true) : ∀ {before : List Artifact}, (∀ a ∈ before, a.strays roots = false) →
    inputsOf roots (before ++ first :: after) = .error (.absoluteInput first.path)
  | [], _ => by
    obtain ⟨outside, orphan⟩ := Bool.and_eq_true_iff.1 hf
    rw [List.nil_append, inputsOf, if_neg (by simpa using outside), if_neg (by simpa using orphan)]
  | a :: before, h => by
    have ih := inputsOf_error after hf fun b hb => h b (List.mem_cons_of_mem _ hb)
    have ha := h a List.mem_cons_self
    unfold Artifact.strays at ha
    rw [List.cons_append, inputsOf]
    by_cases inside : a.path.startsWithAny roots = true
    · rw [if_pos inside, ih]
    · have parent : a.root.hasParent = true := by simpa [inside] using ha
      rw [if_neg inside, if_pos parent, ih]
      rfl

/-- **The inputs among the artifacts found:** all that lie outside `roots`, or the first of them that cannot be
declared as an error. -/
theorem inputs_cases (found : ArtifactSet) (roots : List Path) :
    (∀ a ∈ found, a.strays roots = false) ∧
      found.inputs roots = .ok (found.toList.filter (fun a => !a.path.startsWithAny roots)) ∨
    ∃ first ∈ found, first.strays roots = true ∧
      (∀ a ∈ found, a.strays roots = true → (Artifact.order first a).isLE) ∧
      found.inputs roots = .error (.absoluteInput first.path) := by
  cases h : found.toList.find? (Artifact.strays roots) with
  | none =>
    have none (a : Artifact) (ha : a ∈ found) : a.strays roots = false :=
      Bool.not_eq_true _ ▸ List.find?_eq_none.1 h a ha
    exact .inl ⟨none, inputsOf_ok none⟩
  | some first =>
    obtain ⟨hs, before, after, split, hb⟩ := List.find?_eq_some_iff_append.1 h
    have hb (a : Artifact) (ha : a ∈ before) : a.strays roots = false := Bool.not_eq_true' _ ▸ hb a ha
    refine .inr ⟨first, List.mem_of_find?_eq_some h, hs, fun a ha hsa => ?_, ?_⟩
    · have increasing := found.increasing
      rw [← mem_toList, split] at ha
      rw [split] at increasing
      rcases List.mem_append.1 ha with ha | ha
      · rw [hb a ha] at hsa
        cases hsa
      · rcases List.mem_cons.1 ha with rfl | ha
        · rw [@Std.ReflCmp.compare_self _ Artifact.order]
          rfl
        · obtain ⟨lt, -⟩ := List.pairwise_cons.1 (List.pairwise_append.1 increasing).2.1
          rw [lt a ha]
          rfl
    · unfold inputs
      rw [split]
      exact inputsOf_error after hs hb

end ArtifactSet

namespace Job

variable {job : Job} {t : FileTree}

theorem startsWithAny_builtinRoots {a : Artifact} :
    a.path.startsWithAny (Scan.builtinRoots job.context job.unit) = true ↔ job.InToolchain a := by
  unfold Path.startsWithAny Scan.builtinRoots Path.relativeTo
  rw [List.any_map, List.any_filter, List.any_eq_true]
  refine exists_congr fun dir => and_congr_right fun _ => ?_
  rw [Bool.and_eq_true]
  refine and_congr_right fun absolute => ?_
  have hj : job.context.execRoot.join dir = dir := if_pos absolute
  rw [Function.comp_apply, hj]

/-- **What an action has to be answered with on a tree.**  A file that cannot be read comes first; then, in artifact
order, one that cannot be declared. -/
structure Answers (job : Job) (t : FileTree) (outcome : Except ScanError (List Artifact)) : Prop where
  ok_iff : (∃ inputs, outcome = .ok inputs) ↔ job.Readable t ∧ ∀ a, ¬ job.Stray t a
  inputs : ∀ inputs, outcome = .ok inputs →
    Sorted.Increasing Artifact.order inputs ∧ ∀ a, a ∈ inputs ↔ job.Reach t a ∧ ¬ job.InToolchain a
  unreadable : ¬ job.Readable t → ∃ u ∈ job.unit.scannables, ∃ e, job.FailsIn t u e ∧ outcome = .error e
  undeclarable : job.Readable t → (∃ a, job.Stray t a) → ∃ a, job.Stray t a ∧
    (∀ b, job.Stray t b → (Artifact.order a b).isLE) ∧ outcome = .error (.absoluteInput a.path)

/-- **All answers to an action agree** on whether it has inputs and on what they are. -/
theorem Answers.agree {outcome outcome' : Except ScanError (List Artifact)} (h : job.Answers t outcome)
    (h' : job.Answers t outcome') : outcome.toOption = outcome'.toOption := by
  cases e : outcome with
  | ok inputs =>
    obtain ⟨inputs', e'⟩ := h'.ok_iff.2 (h.ok_iff.1 ⟨inputs, e⟩)
    obtain ⟨hs, hm⟩ := h.inputs inputs e
    obtain ⟨hs', hm'⟩ := h'.inputs inputs' e'
    rw [e', hs.ext hs' fun a => by rw [hm, hm']]
  | error failure =>
    cases e' : outcome' with
    | ok inputs' =>
      obtain ⟨inputs, hok⟩ := h.ok_iff.2 (h'.ok_iff.1 ⟨inputs', e'⟩)
      rw [e] at hok
      cases hok
    | error failure' => rfl

theorem Answers.ofError {u : CompilationUnit} (hu : u ∈ job.unit.scannables) {e : ScanError}
    (h : job.FailsIn t u e) : job.Answers t (.error e) := by
  have unread : ¬ job.Readable t := by
    intro readable
    obtain ⟨a, cause, ha, hc, -⟩ := h
    obtain ⟨ds, hd⟩ := readable u hu a ha
    rw [hc] at hd
    cases hd
  constructor
  case ok_iff => exact ⟨fun ⟨_, hok⟩ => (nomatch hok), fun h => absurd h.1 unread⟩
  case inputs =>
    intro inputs hok
    cases hok
  case unreadable => exact fun _ => ⟨u, hu, e, h, rfl⟩
  case undeclarable => exact fun readable => absurd readable unread

/-- **When all that is reached has been found and can be read,** what is found is filtered and checked. -/
theorem Answers.ofFound (readable : job.Readable t) {found : ArtifactSet} (hf : ∀ a, a ∈ found ↔ job.Reach t a) :
    job.Answers t (found.inputs (Scan.builtinRoots job.context job.unit)) := by
  have hstray (a : Artifact) : job.Stray t a ↔
      a ∈ found ∧ a.strays (Scan.builtinRoots job.context job.unit) = true := by
    rw [Stray, hf, ← startsWithAny_builtinRoots, Artifact.strays, Bool.and_eq_true, Bool.not_eq_true',
      Bool.not_eq_true', Bool.not_eq_true]
  rcases found.inputs_cases (Scan.builtinRoots job.context job.unit) with ⟨none, hok⟩ | ⟨first, hm, hs, least, herror⟩
  · have declarable (a : Artifact) : ¬ job.Stray t a := by
      rw [hstray]
      rintro ⟨ha, hsa⟩
      rw [none a ha] at hsa
      cases hsa
    rw [hok]
    constructor
    case ok_iff => exact ⟨fun _ => ⟨readable, declarable⟩, fun _ => ⟨_, rfl⟩⟩
    case inputs =>
      intro inputs he
      cases he
      refine ⟨List.Pairwise.filter _ found.increasing, fun a => ?_⟩
      rw [List.mem_filter, ArtifactSet.mem_toList, hf, Bool.not_eq_true', ← startsWithAny_builtinRoots,
        Bool.not_eq_true]
    case unreadable => exact fun unread => absurd readable unread
    case undeclarable => exact fun _ ⟨a, ha⟩ => absurd ha (declarable a)
  · have stray : job.Stray t first := (hstray first).2 ⟨hm, hs⟩
    rw [herror]
    constructor
    case ok_iff => exact ⟨fun ⟨_, hok⟩ => (nomatch hok), fun h => absurd stray (h.2 first)⟩
    case inputs =>
      intro inputs hok
      cases hok
    case unreadable => exact fun unread => absurd readable unread
    case undeclarable => exact fun _ _ => ⟨first, stray, fun a ha => least a ((hstray a).1 ha).1 ((hstray a).1 ha).2, rfl⟩

/-- What some scans of all units of the action come to is what the action is answered with. -/
theorem Answers.ofCovers {recorded : List Artifact} {outcome : Except ScanError Unit}
    (covers : Scan.Covers job t job.unit.scannables recorded outcome) {found : ArtifactSet}
    (hf : ∀ a, a ∈ found ↔ a ∈ recorded) :
    job.Answers t (outcome.bind fun _ => found.inputs (Scan.builtinRoots job.context job.unit)) := by
  cases outcome with
  | error e =>
    obtain ⟨u, hu, fails⟩ := covers.failed e rfl
    exact .ofError hu fails
  | ok =>
    refine .ofFound (fun u hu a ha => (covers.complete rfl u hu a ha).2) fun a => ?_
    rw [hf]
    exact ⟨covers.reached a, fun ⟨u, hu, ha⟩ => (covers.complete rfl u hu a ha).1⟩

theorem runOn_units (job : Job) (t : FileTree) (s : ScanStore) :
    Scan.runOn t (Scan.units job.context job.unit) s =
      ((Scan.runOn t (Scan.eachUnit job.context job.unit.builtinDirs job.unit.scannables) s).1.map
        (fun _ => Scan.builtinRoots job.context job.unit),
       (Scan.runOn t (Scan.eachUnit job.context job.unit.builtinDirs job.unit.scannables) s).2) := by
  unfold Scan.units
  rw [Scan.runOn_bind]
  cases (Scan.runOn t (Scan.eachUnit job.context job.unit.builtinDirs job.unit.scannables) s).1 <;> rfl

theorem run_inputs_eq (job : Job) (t : FileTree) (cache : ScanCache) :
    let result := Scan.runOn t (Scan.eachUnit job.context job.unit.builtinDirs job.unit.scannables) (.ofCache cache)
    (job.inputs cache).run t.answer =
      (result.1.bind fun _ => result.2.found.inputs (Scan.builtinRoots job.context job.unit), result.2.cache) := by
  have hrun : (job.inputs cache).run t.answer =
      ((Scan.runOn t (Scan.units job.context job.unit) (.ofCache cache)).1.bind
        (Scan.runOn t (Scan.units job.context job.unit) (.ofCache cache)).2.found.inputs,
       (Scan.runOn t (Scan.units job.context job.unit) (.ofCache cache)).2.cache) := by
    unfold inputs
    rw [Program.run_bind]
    rfl
  rw [hrun, job.runOn_units]
  dsimp only
  cases (Scan.runOn t (Scan.eachUnit job.context job.unit.builtinDirs job.unit.scannables) (.ofCache cache)).1 <;> rfl

/-- **An action on a steady tree,** whose cache can be traced, is answered as it has to be, and its cache can still be
traced. -/
theorem answers_of_traced {past : List FileTree} (steady : t.Steady past) (running : job.context.interrupted = false)
    (placed : ∀ u ∈ job.unit.scannables, u.generated.Placed) {cache : ScanCache} (traced : cache.memo.Traced past) :
    job.Answers t ((job.inputs cache).run t.answer).1 ∧ ((job.inputs cache).run t.answer).2.memo.Traced past := by
  obtain ⟨recorded, covers, traced', hfound⟩ := Scan.runOn_ensures steady
    (Scan.ensures_eachUnit job running job.unit.scannables placed) (s := .ofCache cache) traced
  rw [run_inputs_eq]
  refine ⟨.ofCovers covers fun a => ?_, traced'⟩
  rw [hfound]
  exact or_iff_right (ArtifactSet.notMem_empty a)

/-- **The inputs of an action from a fresh cache.** -/
theorem run_inputs (job : Job) (t : FileTree) (running : job.context.interrupted = false)
    (placed : ∀ u ∈ job.unit.scannables, u.generated.Placed) :
    job.Answers t ((job.inputs .empty).run t.answer).1 :=
  (answers_of_traced (.self t) running placed (FileMemo.traced_empty [t])).1

end Job

namespace Sample

def job : Job where
  name := "//:a"
  unit :=
    { mainSource := aCc, sources := [aCc], quoteDirs := [], includeDirs := [⟨"out"⟩], systemDirs := []
      builtinDirs := [⟨"/usr/include"⟩], forcedIncludes := ["g.h"], generated := lookup.generated, auxiliary := [] }
  context := lookup.context

theorem placed_job : ∀ u ∈ job.unit.scannables, u.generated.Placed := by
  intro u hu
  rw [List.mem_singleton.1 hu]
  exact placed_lookup

theorem reach_job {fault : Option OsError} {a : Artifact} :
    job.Reach (treeWith fault) a ↔ a = aCc ∨ a = bH ∨ a = gH := by
  have hl : job.lookup job.unit = lookup := rfl
  constructor
  · rintro ⟨u, hu, ha⟩
    rw [List.mem_singleton.1 hu, Job.ReachIn, hl] at ha
    exact reach_iff.1 ha
  · intro ha
    refine ⟨job.unit, List.mem_singleton.2 rfl, ?_⟩
    rw [Job.ReachIn, hl]
    exact reach_iff.2 ha

/-- What answers the action are the three artifacts that it reaches. -/
theorem eq_of_answers {outcome : Except ScanError (List Artifact)} (h : job.Answers tree outcome) :
    outcome = .ok [aCc, bH, gH] := by
  have readable : job.Readable tree := by
    intro u hu a ha
    have hr := reach_job.1 ⟨u, hu, ha⟩
    rw [List.mem_singleton.1 hu]
    rcases hr with rfl | rfl | rfl <;> exact ⟨_, rfl⟩
  have declarable (a : Artifact) : ¬ job.Stray tree a := by
    rintro ⟨ha, -, hp⟩
    rcases reach_job.1 ha with rfl | rfl | rfl <;> exact absurd hp (by decide)
  obtain ⟨inputs, hok⟩ := h.ok_iff.2 ⟨readable, declarable⟩
  obtain ⟨increasing, mem⟩ := h.inputs inputs hok
  have sorted : Sorted.Increasing Artifact.order [aCc, bH, gH] := by
    unfold Sorted.Increasing
    decide
  have outside (a : Artifact) (ha : a ∈ [aCc, bH, gH]) : ¬ job.InToolchain a := by
    rintro ⟨dir, hdir, -, hs⟩
    rw [List.mem_singleton.1 hdir] at hs
    revert a
    decide
  rw [hok, increasing.ext sorted fun a => ?_]
  rw [mem, reach_job]
  constructor
  · intro ha
    simpa using ha.1
  · intro ha
    exact ⟨by simpa using ha, outside a ha⟩

/-- Where the header cannot be read, what answers the action is an error that names the header. -/
theorem eq_of_answers_unread {outcome : Except ScanError (List Artifact)} {cause : OsError}
    (h : job.Answers (treeWith (some cause)) outcome) : outcome = .error (.unreadable ⟨"/w/b.h"⟩ cause) := by
  have unread : ¬ job.Readable (treeWith (some cause)) := by
    intro readable
    obtain ⟨ds, read⟩ := readable job.unit List.mem_cons_self bH (reach_iff.2 (.inr (.inl rfl)))
    have refused : lookup.directivesOn (treeWith (some cause)) bH = .error cause := directivesOn_bH _
    cases refused.symm.trans read
  obtain ⟨u, hu, e, ⟨a, c, reached, unread, rfl⟩, same⟩ := h.unreadable unread
  rw [List.mem_singleton.1 hu] at reached unread same
  obtain ⟨rfl, e⟩ := eq_bH_of_unread reached unread
  cases e
  exact same

end Sample

/-- The header is found in any case; when it cannot be read the action fails, and the error names the header. -/
theorem Job.run_inputs_of_cycle :
    Sample.job.context.interrupted = false ∧ (∀ u ∈ Sample.job.unit.scannables, u.generated.Placed) ∧
    ((Sample.job.inputs .empty).run Sample.tree.answer).1 = .ok [Sample.aCc, Sample.bH, Sample.gH] ∧
    ((Sample.job.inputs .empty).run (Sample.treeWith (some Sample.denied)).answer).1 =
      .error (.unreadable ⟨"/w/b.h"⟩ Sample.denied) :=
  ⟨rfl, Sample.placed_job, Sample.eq_of_answers (Job.run_inputs Sample.job Sample.tree rfl Sample.placed_job),
    Sample.eq_of_answers_unread (Job.run_inputs Sample.job _ rfl Sample.placed_job)⟩

end IncludeClosure
