import IncludeClosure.Proofs.Artifact.Resolve
import IncludeClosure.Proofs.FileTree.Copy
import IncludeClosure.Proofs.Request.Job
/-!
# Proofs.Scan.Unreadable — which file a scan can fail on

What a name means was just seen to be a regular file, and a generated file that is not written is not read; so of the
artifacts that are reached, all but the entry sources are regular files where they were seen.  They are read where their
artifact lies, and that is the same path unless it is a registered root (`RootSet.path_resolve`).  So a scan that fails
to read a file names an entry source, a root that is a regular file, or a regular file that is kept from being read
(`Lookup.Reach.unread_cases`).  Where every regular file can be read the last case is left out
(`Job.path_of_unreadable`); that the second one occurs is shown by `Job.unreadable_root`.
-/
namespace IncludeClosure

namespace FileTree

/-- **Every regular file can be read.** -/
def AllReadable (t : FileTree) : Prop :=
  ∀ p, t.isFile p = true → ∃ bytes, t.read p = .ok bytes

theorem AllReadable.directives {t : FileTree} (h : t.AllReadable) {p : Path} (file : t.isFile p = true) :
    ∃ ds, t.directives p = .ok ds := by
  obtain ⟨bytes, read⟩ := h p file
  exact ⟨_, directives_ok_iff.2 ⟨bytes, read, rfl⟩⟩

theorem allReadable_of_files {t : FileTree} (h : ∀ f ∈ t.files, f.fault = none) : t.AllReadable := by
  intro p file
  obtain ⟨position, f, found⟩ := isFile_iff_find.1 file
  have held : f.read = .ok f.bytes := File.read_ok_iff.2 ⟨h f (mem_files_of_find found), rfl⟩
  exact ⟨f.bytes, read_ok_iff.2 ⟨position, f, found, held⟩⟩

end FileTree

namespace GeneratedFiles

theorem exists_written {g : GeneratedFiles} {a : Artifact} (h : a ∈ g.entries.map (·.1)) :
    ∃ written, g.written? a = some written := by
  obtain ⟨entry, he, rfl⟩ := List.mem_map.1 h
  cases found : g.entries.find? (·.1 == entry.1) with
  | none => exact absurd (beq_self_eq_true entry.1) (List.find?_eq_none.1 found entry he)
  | some other => exact ⟨other.2, by rw [written?, found]; rfl⟩

end GeneratedFiles

namespace Lookup

variable {l : Lookup} {t : FileTree} {mainSource : Artifact} {sources : List Artifact} {forced : List String}
  {a : Artifact}

/-- **What is reached** is an entry source, or it is what some name means. -/
theorem Reach.entry_or_found (h : l.Reach t mainSource sources forced a) :
    a ∈ sources ∨ a ∈ l.generated.entries.map (·.1) ∨
      ∃ p, p.normalize = p ∧ t.isFile p = true ∧ a = l.context.roots.resolve p := by
  cases h with
  | source entry => exact .inl entry
  | forced _ meaning => exact .inr (found_of_meaning meaning)
  | directive _ _ _ target => exact .inr (found_of_meaning target)

/-- **An artifact that cannot be read** cannot be read at its place.  If it is a generated file, it is written there. -/
theorem unread_of_directivesOn {cause : OsError} (unread : l.directivesOn t a = .error cause) :
    t.directives (l.readPath a) = .error cause ∧
      (t.isFile (l.readPath a) = true ∨ l.generated.written? a = none ∧ l.readPath a = a.path) := by
  unfold directivesOn at unread
  cases written : l.generated.written? a with
  | none =>
    have place : l.readPath a = a.path := by rw [readPath, written]; rfl
    rw [written] at unread
    rw [place]
    exact ⟨unread, .inr ⟨rfl, rfl⟩⟩
  | some p =>
    have place : l.readPath a = p := by rw [readPath, written]; rfl
    rw [written] at unread
    dsimp only at unread
    rw [place]
    split at unread
    · exact ⟨unread, .inl ‹_›⟩
    · cases unread

/-- **An artifact that is reached and cannot be read** is an entry source, or the regular file at its place is kept from
being read, or a registered root is its file. -/
theorem Reach.unread_cases (h : l.Reach t mainSource sources forced a) {cause : OsError}
    (unread : l.directivesOn t a = .error cause) :
    a ∈ sources ∨ t.isFile (l.readPath a) = true ∨
      ∃ root ∈ l.context.roots.roots, t.isFile root.path = true ∧ l.readPath a = root.path.join ⟨""⟩ := by
  rcases (unread_of_directivesOn unread).2 with file | ⟨notGenerated, readPath⟩
  · exact .inr (.inl file)
  -- what a directive found was seen to be a file, so only the way back from its artifact to the path can miss it
  rcases h.entry_or_found with entry | generated | ⟨p, normal, file, rfl⟩
  · exact .inl entry
  · obtain ⟨written, e⟩ := GeneratedFiles.exists_written generated
    rw [notGenerated] at e
    cases e
  · rcases l.context.roots.path_resolve normal with same | ⟨root, mem, rfl, path⟩
    · refine .inr (.inl ?_)
      rw [readPath, same]
      exact file
    · exact .inr (.inr ⟨root, mem, file, readPath.trans path⟩)

end Lookup

/-- **A requested action that fails to read a file,** where every regular file can be read, names an entry source of one
of its units, where that is read, or a registered root that is a regular file, with a slash after it. -/
theorem Job.path_of_unreadable {job : Job} (h : job.Requested) {t : FileTree} (allReadable : t.AllReadable) {path : Path}
    {cause : OsError} (failed : ((job.inputs .empty).run t.answer).1 = .error (.unreadable path cause)) :
    (∃ u ∈ job.unit.scannables, ∃ a ∈ u.sources, path = (job.lookup u).readPath a) ∨
      ∃ root ∈ job.context.roots.roots, t.isFile root.path = true ∧ path = root.path.join ⟨""⟩ := by
  have answers := h.answers_empty t
  rw [failed] at answers
  by_cases readable : job.Readable t
  · -- everything that is reached can be read, so the failure would be about a file that cannot be declared
    by_cases stray : ∃ a, job.Stray t a
    · obtain ⟨a, -, -, e⟩ := answers.undeclarable readable stray
      cases e
    · obtain ⟨inputs, e⟩ := answers.ok_iff.2 ⟨readable, fun a ha => stray ⟨a, ha⟩⟩
      cases e
  · obtain ⟨u, hu, e, ⟨a, c, reached, unread, rfl⟩, same⟩ := answers.unreadable readable
    cases same
    rcases Lookup.Reach.unread_cases reached unread with entry | file | root
    · exact .inl ⟨u, hu, a, entry, rfl⟩
    · obtain ⟨ds, read⟩ := allReadable.directives file
      rw [(Lookup.unread_of_directivesOn unread).1] at read
      cases read
    · exact .inr root

/-! ## A header that is a registered root -/

namespace Sample

def rootedRequest : Request where
  version := Request.currentVersion
  execRoot := none
  roots := [{ path := ⟨"b.h"⟩, kind := .source }]
  unit := { UnitDeclaration.empty with mainSource := ⟨"a.cc"⟩ }

def rootedJob : Job where
  name := "//:a"
  unit :=
    { mainSource := aCc, sources := [aCc], quoteDirs := [], includeDirs := [], systemDirs := [], builtinDirs := []
      forcedIncludes := [], generated := .none, auxiliary := [] }
  context := .withRoots ⟨"/w"⟩ (.ofList [aCc.root, .mount ⟨"/w/b.h"⟩ .source])

/-- The header as it is named by the root that it is. -/
def bRoot : Artifact := .under (.mount ⟨"/w/b.h"⟩ .source) ⟨""⟩

theorem requested_rootedJob : rootedJob.Requested :=
  ⟨rootedRequest, "//:a", ⟨"/w"⟩, none, rfl⟩

theorem directivesOn_bRoot : (rootedJob.lookup rootedJob.unit).directivesOn tree bRoot = .error .notDirectory := rfl

theorem reach_bRoot {a : Artifact} : rootedJob.ReachIn tree rootedJob.unit a ↔ a = aCc ∨ a = bRoot := by
  have da : (rootedJob.lookup rootedJob.unit).directivesOn tree aCc = .ok [{ form := .quote, target := "b.h" }] := rfl
  have hb : (rootedJob.lookup rootedJob.unit).target? tree aCc { form := .quote, target := "b.h" } = some bRoot := rfl
  constructor
  · intro h
    induction h with
    | source entry => exact .inl (List.mem_singleton.1 entry)
    | forced given _ => exact absurd given List.not_mem_nil
    | directive _ directives mem target ih =>
      rcases ih with rfl | rfl
      · rw [da] at directives
        cases directives
        rw [List.mem_singleton.1 mem, hb] at target
        cases target
        exact .inr rfl
      · rw [directivesOn_bRoot] at directives
        cases directives
  · have source : rootedJob.ReachIn tree rootedJob.unit aCc := .source List.mem_cons_self
    rintro (rfl | rfl)
    · exact source
    · exact .directive source da List.mem_cons_self hb

theorem run_rootedJob :
    ((rootedJob.inputs .empty).run tree.answer).1 = .error (.unreadable ⟨"/w/b.h/"⟩ .notDirectory) := by
  have unread : ¬ rootedJob.Readable tree := by
    intro readable
    obtain ⟨ds, ok⟩ := readable rootedJob.unit List.mem_cons_self bRoot (reach_bRoot.2 (.inr rfl))
    rw [directivesOn_bRoot] at ok
    cases ok
  obtain ⟨u, hu, e, ⟨a, cause, reached, failed, rfl⟩, same⟩ :=
    (requested_rootedJob.answers_empty tree).unreadable unread
  rw [same]
  rw [List.mem_singleton.1 hu] at reached failed ⊢
  rcases reach_bRoot.1 reached with rfl | rfl
  · cases failed
  · rw [directivesOn_bRoot] at failed
    cases failed
    rfl

end Sample

theorem Job.path_of_unreadable_root :
    Sample.rootedJob.Requested ∧ Sample.tree.AllReadable ∧
    ((∃ u ∈ Sample.rootedJob.unit.scannables, ∃ a ∈ u.sources,
        (⟨"/w/b.h/"⟩ : Path) = (Sample.rootedJob.lookup u).readPath a) ∨
      ∃ root ∈ Sample.rootedJob.context.roots.roots, Sample.tree.isFile root.path = true ∧
        (⟨"/w/b.h/"⟩ : Path) = root.path.join ⟨""⟩) :=
  have allReadable : Sample.tree.AllReadable := FileTree.allReadable_of_files (by decide)
  ⟨Sample.requested_rootedJob, allReadable,
    Job.path_of_unreadable Sample.requested_rootedJob allReadable Sample.run_rootedJob⟩

/-- **A header that was seen to be a regular file makes the scan fail** when it is registered as a root. -/
theorem Job.unreadable_root :
    Sample.rootedJob.Requested ∧ Sample.tree.AllReadable ∧ Sample.tree.isFile ⟨"/w/b.h"⟩ = true ∧
    ((Sample.rootedJob.inputs .empty).run Sample.tree.answer).1 = .error (.unreadable ⟨"/w/b.h/"⟩ .notDirectory) ∧
    ∀ u ∈ Sample.rootedJob.unit.scannables, ∀ a ∈ u.sources,
      a.path ≠ ⟨"/w/b.h/"⟩ ∧ (Sample.rootedJob.lookup u).readPath a ≠ ⟨"/w/b.h/"⟩ := by
  refine ⟨Sample.requested_rootedJob, FileTree.allReadable_of_files (by decide), rfl, Sample.run_rootedJob,
    fun u hu a ha => ?_⟩
  rw [List.mem_singleton.1 hu] at ha ⊢
  rw [List.mem_singleton.1 (ha : a ∈ [Sample.aCc])]
  decide

end IncludeClosure
