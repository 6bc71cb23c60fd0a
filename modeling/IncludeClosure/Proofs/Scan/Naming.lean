import IncludeClosure.Proofs.Artifact.Resolve
import IncludeClosure.Proofs.Request.Job
import IncludeClosure.Proofs.Scan.Pool
/-!
# Proofs.Scan.Naming — a scan names every file once

The roots of an action name a file by one artifact, the one that they give for its path (`RootSet.Names`).  Entry
sources and generated files of a request are given by the roots, and so is what a look-up finds on the disk.  Nothing
else is ever recorded.  For that it does not matter what the disk or the cache answers, so a scan is followed through
all answers there are (`Scan.Yields`).  So no two artifacts that an action has found lie at one path
(`Job.namedOnce_of_requested`): not when the cache holds what is false, not when the disk changes between two steps, and
not when units and actions take turns.
-/
namespace IncludeClosure

/-- The roots name the file where the artifact lies by this artifact. -/
def RootSet.Names (roots : RootSet) (a : Artifact) : Prop :=
  roots.resolve a.path = a

theorem RootSet.names_resolve (roots : RootSet) (p : Path) : roots.Names (roots.resolve p) :=
  roots.resolve_path_resolve p

namespace Scan

variable {α β : Type}

/-- **What a scan yields whatever its steps are answered with:** all it records satisfies `P`, and what it gives in the
end satisfies `Q`. -/
def Yields (P : Artifact → Prop) : Scan α → (α → Prop) → Prop
  | .done a, Q => Q a
  | .ask step resume, Q => (∀ a ∈ step.recorded, P a) ∧ ∀ answer, Yields P (resume answer) Q

variable {P : Artifact → Prop}

theorem yields_done {a : α} {Q : α → Prop} (h : Q a) : Yields P (.done a) Q := h

theorem yields_mono : ∀ {scan : Scan α} {Q R : α → Prop}, Yields P scan Q → (∀ a, Q a → R a) → Yields P scan R
  | .done a, _, _, h, himp => himp a h
  | .ask _ _, _, _, h, himp => ⟨h.1, fun answer => yields_mono (h.2 answer) himp⟩

/-- **A sequence** yields what its second part yields after its first. -/
theorem yields_bind : ∀ (scan : Scan α) (f : α → Scan β) (Q : β → Prop),
    Yields P (scan >>= f) Q ↔ Yields P scan (fun a => Yields P (f a) Q)
  | .done _, _, _ => Iff.rfl
  | .ask _ resume, f, Q => and_congr_right fun _ => forall_congr' fun answer => yields_bind (resume answer) f Q

theorem yields_step_bind {step : Step} {f : step.Answer → Scan β} {Q : β → Prop} (recorded : ∀ a ∈ step.recorded, P a)
    (rest : ∀ answer, Yields P (f answer) Q) : Yields P (Scan.step step >>= f) Q :=
  ⟨recorded, rest⟩

/-- **A step that records nothing,** and then the rest. -/
theorem yields_quiet_bind {step : Step} {f : step.Answer → Scan β} {Q : β → Prop} (quiet : step.recorded = [])
    (rest : ∀ answer, Yields P (f answer) Q) : Yields P (Scan.step step >>= f) Q :=
  yields_step_bind (by rw [quiet]; exact fun a h => absurd h List.not_mem_nil) rest

theorem yields_record_bind {a : Artifact} {f : Unit → Scan β} {Q : β → Prop} (recorded : P a)
    (rest : ∀ answer, Yields P (f answer) Q) : Yields P (Scan.step (.record a) >>= f) Q := by
  refine yields_step_bind (fun b hb => ?_) rest
  rw [List.mem_singleton.1 hb]
  exact recorded

theorem yields_disk_bind {question : Disk} {f : question.Answer → Scan β} {Q : β → Prop}
    (rest : ∀ answer, Yields P (f answer) Q) : Yields P (disk question >>= f) Q :=
  yields_step_bind (fun _ h => absurd h List.not_mem_nil) rest

theorem yields_isFile (p : Path) : Yields P (isFile p) fun _ => True := by
  unfold isFile
  refine yields_quiet_bind rfl fun known => ?_
  split
  · trivial
  · refine yields_disk_bind fun status => ?_
    split
    · exact yields_quiet_bind rfl fun _ => trivial
    · trivial

theorem yields_readDirectives (p : Path) (stamp : Option Stamp) : Yields P (readDirectives p stamp) fun _ => True := by
  unfold readDirectives
  refine yields_disk_bind fun contents => ?_
  split
  · trivial
  · split
    · exact yields_quiet_bind rfl fun _ => trivial
    · trivial

theorem yields_directives (p : Path) : Yields P (directives p) fun _ => True := by
  unfold directives
  refine yields_disk_bind fun status => ?_
  split
  · trivial
  · exact yields_readDirectives p none
  · refine yields_quiet_bind rfl fun remembered => ?_
    split
    · split
      · trivial
      · exact yields_readDirectives p _
    · exact yields_readDirectives p _

/-- **What a scan leaves found** was found before or satisfies `P`. -/
theorem Yields.found (t : FileTree) : ∀ {scan : Scan α} {Q : α → Prop} {s : ScanStore}, Yields P scan Q →
    (∀ a ∈ s.found, P a) → ∀ a ∈ (runOn t scan s).2.found, P a
  | .done _, _, _, _, hs => hs
  | .ask step resume, Q, s, h, hs => by
    rw [runOn_ask]
    refine Yields.found t (h.2 _) fun a ha => ?_
    exact ((mem_found_reply t s step a).1 ha).elim (hs a) (h.1 a)

end Scan

namespace Lookup

open Scan (Yields yields_mono yields_bind yields_record_bind)

variable {l : Lookup}

/-- What a name means is named by the roots. -/
theorem yields_existing (generated : ∀ a ∈ l.generated.entries.map (·.1), l.context.roots.Names a) (p : Path) :
    Yields l.context.roots.Names (l.existing? p) fun found => ∀ a, found = some a → l.context.roots.Names a := by
  unfold existing?
  split
  · rename_i found lies
    refine Scan.yields_done fun a e => ?_
    cases e
    exact generated found (GeneratedFiles.mem_of_lyingAt? lies)
  · rw [yields_bind]
    refine yields_mono (Scan.yields_isFile p) fun known _ => ?_
    split
    · refine Scan.yields_done fun a e => ?_
      cases e
      exact l.context.roots.names_resolve p
    · exact Scan.yields_done fun a e => by cases e

theorem yields_firstExisting (generated : ∀ a ∈ l.generated.entries.map (·.1), l.context.roots.Names a) :
    ∀ ps : List Path,
      Yields l.context.roots.Names (l.firstExisting? ps) fun found => ∀ a, found = some a → l.context.roots.Names a
  | [] => Scan.yields_done fun a e => by cases e
  | p :: ps => by
    unfold firstExisting?
    rw [yields_bind]
    refine yields_mono (yields_existing generated p) fun found named => ?_
    split
    · exact named
    · exact yields_firstExisting generated ps

theorem yields_directivesOf (l : Lookup) (a : Artifact) {P : Artifact → Prop} :
    Yields P (l.directivesOf a) fun _ => True := by
  unfold directivesOf
  split
  · rename_i written _
    rw [yields_bind]
    refine yields_mono (Scan.yields_isFile written) fun known _ => ?_
    split
    · rw [yields_bind]
      exact yields_mono (Scan.yields_directives written) fun _ _ => trivial
    · trivial
  · rw [yields_bind]
    exact yields_mono (Scan.yields_directives a.path) fun _ _ => trivial

theorem yields_seeSources {P : Artifact → Prop} : ∀ {sources : List Artifact} (f : Frontier), (∀ a ∈ sources, P a) →
    Yields P (seeSources sources f) fun _ => True
  | [], _, _ => trivial
  | a :: sources, f, h => by
    refine yields_record_bind (h a List.mem_cons_self) fun _ => ?_
    exact yields_seeSources (f.see a) fun b hb => h b (List.mem_cons_of_mem _ hb)

section

variable (generated : ∀ a ∈ l.generated.entries.map (·.1), l.context.roots.Names a)
include generated

theorem yields_seeForced (beside : Option Path) : ∀ (names : List String) (f : Frontier),
    Yields l.context.roots.Names (l.seeForced beside names f) fun _ => True
  | [], _ => trivial
  | name :: names, f => by
    unfold seeForced
    rw [yields_bind]
    refine yields_mono (yields_firstExisting generated _) fun found named => ?_
    split
    · rename_i a
      exact yields_record_bind (named a rfl) fun _ => yields_seeForced beside names (f.see a)
    · exact yields_seeForced beside names f

theorem yields_seeDirectives (beside : Option Path) : ∀ (ds : List Directive) (f : Frontier),
    Yields l.context.roots.Names (l.seeDirectives beside ds f) fun _ => True
  | [], _ => trivial
  | d :: ds, f => by
    unfold seeDirectives
    rw [yields_bind]
    refine yields_mono (yields_firstExisting generated _) fun found named => ?_
    split
    · rename_i a
      split
      · exact yields_seeDirectives beside ds f
      · exact yields_record_bind (named a rfl) fun _ => yields_seeDirectives beside ds (f.see a)
    · exact yields_seeDirectives beside ds f

theorem yields_follow : ∀ (rounds : Nat) (f : Frontier), Yields l.context.roots.Names (l.follow rounds f) fun _ => True
  | 0, _ => trivial
  | rounds + 1, f => by
    unfold follow
    split
    · trivial
    · rename_i a rest _
      split
      · trivial
      · rw [yields_bind]
        refine yields_mono (l.yields_directivesOf a) fun outcome _ => ?_
        split
        · trivial
        · rw [yields_bind]
          exact yields_mono (yields_seeDirectives generated _ _ _) fun f _ => yields_follow rounds f

/-- **A closure records what the roots name** when its entry sources and generated files are named by them. -/
theorem yields_closure {sources : List Artifact} (named : ∀ a ∈ sources, l.context.roots.Names a)
    (mainSource : Artifact) (forced : List String) :
    Yields l.context.roots.Names (l.closure mainSource sources forced) fun _ => True := by
  unfold closure
  rw [yields_bind]
  refine yields_mono (yields_seeSources .empty named) fun f _ => ?_
  rw [yields_bind]
  exact yields_mono (yields_seeForced generated _ forced f) fun f _ => yields_follow generated _ f

end

end Lookup

namespace CompilationUnit

/-- The roots name the entry sources and the generated files of the unit. -/
structure NamedBy (u : CompilationUnit) (roots : RootSet) : Prop where
  sources : ∀ a ∈ u.sources, roots.Names a
  generated : ∀ a ∈ u.generated.entries.map (·.1), roots.Names a

end CompilationUnit

namespace Scan

variable {context : Context}

theorem yields_scannerFor {P : Artifact → Prop} (dirs : SearchDirs) : Yields P (scannerFor dirs) fun _ => True := by
  unfold scannerFor
  refine yields_quiet_bind rfl fun inUse => ?_
  split
  · trivial
  · refine yields_quiet_bind rfl fun scanner => ?_
    exact ⟨fun a h => absurd h List.not_mem_nil, fun _ => trivial⟩

theorem yields_recordAll {P : Artifact → Prop} : ∀ {artifacts : List Artifact}, (∀ a ∈ artifacts, P a) →
    Yields P (recordAll artifacts) fun _ => True
  | [], _ => trivial
  | a :: artifacts, h => by
    refine yields_record_bind (h a List.mem_cons_self) fun _ => ?_
    exact yields_recordAll fun b hb => h b (List.mem_cons_of_mem _ hb)

/-- **The scan of one unit** records what the roots name. -/
theorem yields_unit (builtinDirs : List Path) {u : CompilationUnit} (named : u.NamedBy context.roots) :
    Yields context.roots.Names (unit context builtinDirs u) fun _ => True := by
  unfold unit
  split
  · trivial
  · rw [yields_bind]
    refine yields_mono (yields_scannerFor _) fun scanner _ => ?_
    rw [yields_bind]
    refine yields_mono (yields_recordAll named.sources) fun _ _ => ?_
    exact Lookup.yields_closure (l := { dirs := scanner.dirs, generated := u.generated, context }) named.generated
      named.sources u.mainSource u.forcedIncludes

theorem yields_eachUnit (builtinDirs : List Path) : ∀ {us : List CompilationUnit},
    (∀ u ∈ us, u.NamedBy context.roots) →
      Yields context.roots.Names (eachUnit context builtinDirs us) fun _ => True
  | [], _ => trivial
  | u :: us, named => by
    unfold eachUnit
    rw [yields_bind]
    refine yields_mono (yields_unit builtinDirs (named u List.mem_cons_self)) fun outcome _ => ?_
    split
    · trivial
    · exact yields_eachUnit builtinDirs fun v hv => named v (List.mem_cons_of_mem _ hv)

theorem yields_units {u : CompilationUnit} (named : ∀ v ∈ u.scannables, v.NamedBy context.roots) :
    Yields context.roots.Names (units context u) fun _ => True := by
  unfold units
  rw [yields_bind]
  refine yields_mono (yields_eachUnit u.builtinDirs named) fun outcome _ => ?_
  split <;> trivial

end Scan

namespace Pool

variable {α : Type}

/-- **Some turns,** each of the scan with the given number and on the tree that the file system is then. -/
def playOn (p : Pool α) (turns : List (FileTree × Nat)) : Pool α :=
  turns.foldl (fun p (t, k) => p.turn t k) p

/-- All that the `i`-th action has found, and all that its scans can still record, satisfies `P`. -/
structure Holds (p : Pool α) (i : Nat) (P : Artifact → Prop) : Prop where
  found : ∀ a ∈ p.foundBy i, P a
  tasks : ∀ task ∈ p.tasks, task.action = i → Scan.Yields P task.scan fun _ => True

/-- **One turn,** whoever takes it. -/
theorem Holds.turn {p : Pool α} {i : Nat} {P : Artifact → Prop} (h : p.Holds i P) (t : FileTree) (k : Nat) :
    (p.turn t k).Holds i P := by
  unfold Pool.turn
  split
  · rename_i action step resume hk
    have mem := List.mem_of_getElem? hk
    constructor
    case found =>
      intro a ha
      by_cases hi : i = action
      · subst hi
        have recorded := (h.tasks _ mem rfl).1
        unfold foundBy at ha
        dsimp only at ha
        rw [List.getElem?_set] at ha
        split at ha
        · split at ha
          · exact ((Scan.mem_found_reply t _ step a).1 ha).elim (h.found a) (recorded a)
          · exact absurd ha (ArtifactSet.notMem_empty a)
        · contradiction
      · refine h.found a ?_
        unfold foundBy at ha ⊢
        dsimp only at ha
        rw [List.getElem?_set_ne (Ne.symm hi)] at ha
        exact ha
    case tasks =>
      intro task ht hi
      rcases List.mem_or_eq_of_mem_set ht with ht | rfl
      · exact h.tasks task ht hi
      · exact (h.tasks _ mem hi).2 _
  · exact h

theorem Holds.playOn {i : Nat} {P : Artifact → Prop} : ∀ (turns : List (FileTree × Nat)) {p : Pool α}, p.Holds i P →
    (p.playOn turns).Holds i P
  | [], _, h => h
  | (t, k) :: turns, _, h => Holds.playOn turns (h.turn t k)

theorem Holds.start {jobs : List Job} {i : Nat} {job : Job} (hj : jobs[i]? = some job)
    (named : ∀ u ∈ job.unit.scannables, u.NamedBy job.context.roots) (cache : ScanCache) :
    (ofJobs jobs cache).Holds i job.context.roots.Names where
  found a ha := by
    rw [foundBy_ofJobs] at ha
    exact absurd ha (ArtifactSet.notMem_empty a)
  tasks task ht hi := by
    rw [tasks_ofJobs] at ht
    obtain ⟨e, he, rfl⟩ := List.mem_map.1 ht
    obtain ⟨hj', hu⟩ := Errand.mem_ofJobs.1 he
    rw [show e.action = i from hi, hj] at hj'
    cases hj'
    exact Scan.yields_unit _ (named e.unit hu)

end Pool

namespace UnitDeclaration

variable {execRoot : Path} {roots : RootSet}

theorem names_of_generatedFiles : ∀ {entries : List (Path × Path)} {files files' : GeneratedFiles},
    (∀ a ∈ files.entries.map (·.1), roots.Names a) → generatedFiles execRoot roots files entries = .ok files' →
    ∀ a ∈ files'.entries.map (·.1), roots.Names a
  | [], _, _, named, h => by
    cases h
    exact named
  | (declared, written) :: entries, files, files', named, h => by
    unfold generatedFiles at h
    dsimp only at h
    split at h
    · refine names_of_generatedFiles (fun a ha => ?_) h
      obtain ⟨entry, he, rfl⟩ := List.mem_map.1 ha
      rcases Sorted.mem_insertWith _ _ he with rfl | he | ⟨old, ho, rfl⟩
      · exact roots.names_resolve _
      · exact named _ (List.mem_map_of_mem he)
      · exact named old.1 (List.mem_map_of_mem ho)
    · cases h

theorem namedBy_of_toUnit {d : UnitDeclaration} {u : CompilationUnit} (h : d.toUnit execRoot roots = .ok u) :
    u.NamedBy roots where
  sources a ha := by
    rw [(toUnit_ok h).2.2] at ha
    dsimp only at ha
    split at ha
    · rw [List.mem_singleton.1 ha]
      exact roots.names_resolve _
    · obtain ⟨p, -, rfl⟩ := List.mem_map.1 ha
      exact roots.names_resolve _
  generated := names_of_generatedFiles (fun a ha => absurd ha List.not_mem_nil) (toUnit_ok h).1

end UnitDeclaration

/-- **Every file is named once:** by the artifact that the roots give for its path, so by no other. -/
structure NamedOnce (roots : RootSet) (found : List Artifact) : Prop where
  named : ∀ a ∈ found, roots.resolve a.path = a
  apart : ∀ a ∈ found, ∀ b ∈ found, a ≠ b → a.path.components ≠ b.path.components

theorem NamedOnce.of_names {roots : RootSet} {found : List Artifact} (named : ∀ a ∈ found, roots.Names a) :
    NamedOnce roots found where
  named := named
  apart a ha b hb different same := different (by rw [← named a ha, ← named b hb, roots.resolve_congr same])

namespace ArtifactSet

theorem mem_of_inputsOf {roots : List Path} : ∀ {found inputs : List Artifact}, inputsOf roots found = .ok inputs →
    ∀ a ∈ inputs, a ∈ found
  | [], _, h, a, ha => by
    cases h
    exact ha
  | b :: found, inputs, h, a, ha => by
    unfold inputsOf at h
    split at h
    · exact List.mem_cons_of_mem _ (mem_of_inputsOf h a ha)
    · split at h
      · cases rest : inputsOf roots found with
        | error e =>
          rw [rest] at h
          cases h
        | ok others =>
          rw [rest] at h
          cases h
          rcases List.mem_cons.1 ha with rfl | ha
          · exact List.mem_cons_self
          · exact List.mem_cons_of_mem _ (mem_of_inputsOf rest a ha)
      · cases h

end ArtifactSet

namespace Job

variable {job : Job}

theorem Requested.namedBy (h : job.Requested) : ∀ u ∈ job.unit.scannables, u.NamedBy job.context.roots := by
  obtain ⟨q, name, base, overriding, h⟩ := h
  obtain ⟨hu, hc⟩ := toJob_ok h
  rw [hc]
  intro u mem
  obtain ⟨d, hd⟩ := UnitDeclaration.exists_of_scannables hu u mem
  exact UnitDeclaration.namedBy_of_toUnit hd

/-- **A requested action names every file once,** whatever cache it meets: in what its units have recorded when they are
scanned one after another, in its inputs, and in what they have recorded at any moment when they take turns with each
other and with the units of other actions, on a disk that may change between two turns. -/
theorem namedOnce_of_requested (h : job.Requested) (cache : ScanCache) :
    (∀ t : FileTree, NamedOnce job.context.roots
      (Scan.runOn t (Scan.units job.context job.unit) (.ofCache cache)).2.found.toList) ∧
    (∀ (t : FileTree) (inputs : List Artifact), ((job.inputs cache).run t.answer).1 = .ok inputs →
      NamedOnce job.context.roots inputs) ∧
    ∀ (jobs : List Job) (turns : List (FileTree × Nat)) (i : Nat), jobs[i]? = some job →
      NamedOnce job.context.roots (((Pool.ofJobs jobs cache).playOn turns).foundBy i).toList := by
  have found (t : FileTree) : ∀ a ∈ (Scan.runOn t (Scan.units job.context job.unit) (.ofCache cache)).2.found,
      job.context.roots.Names a :=
    (Scan.yields_units h.namedBy).found t fun a ha => absurd ha (ArtifactSet.notMem_empty a)
  refine ⟨fun t => .of_names (found t), fun t inputs ok => .of_names fun a ha => found t a ?_,
    fun jobs turns i hj => .of_names ?_⟩
  · have run : ((job.inputs cache).run t.answer).1 =
        (Scan.runOn t (Scan.units job.context job.unit) (.ofCache cache)).1.bind
          (Scan.runOn t (Scan.units job.context job.unit) (.ofCache cache)).2.found.inputs := by
      unfold Job.inputs
      rw [Program.run_bind]
      rfl
    rw [run] at ok
    cases outcome : (Scan.runOn t (Scan.units job.context job.unit) (.ofCache cache)).1 with
    | error e =>
      rw [outcome] at ok
      cases ok
    | ok roots =>
      rw [outcome] at ok
      exact ArtifactSet.mem_of_inputsOf ok a ha
  · exact ((Pool.Holds.start hj h.namedBy cache).playOn turns).found

end Job

/-- The generated header lies under two roots, one inside the other, and is named by the inner one alone. -/
theorem Job.namedOnce_of_requested_nested :
    Sample.job.Requested ∧ NamedOnce Sample.job.context.roots [Sample.aCc, Sample.bH, Sample.gH] := by
  have ok := Sample.eq_of_answers (Sample.requested_job.answers_empty Sample.tree)
  exact ⟨Sample.requested_job, (Job.namedOnce_of_requested Sample.requested_job .empty).2.1 Sample.tree _ ok⟩

end IncludeClosure
