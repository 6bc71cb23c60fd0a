import IncludeClosure.Proofs.Artifact.Relocate
import IncludeClosure.Proofs.FileTree.Copy
import IncludeClosure.Proofs.Scan.Action
/-!
# Proofs.Scan.Relocation — one scan below two execution roots

Two lookups below two directories correspond when their directories, generated files and roots do
(`Lookup.Relocated`).  On trees that mirror each other a name then means twins (`Lookup.Relocated.meaning?`), twins have
the same directives (`Lookup.Relocated.directivesOn`), and whatever is reached on one side has a twin that is reached on
the other (`Lookup.Reach.relocate`).  So the answers to two actions that correspond do so too: what is reached lies
below a root with a parent and outside the toolchain on both sides, and a file cannot be read on one side when its twin
cannot (`Job.Answers.corresponds`).
-/
namespace IncludeClosure

variable {home home' : Path}

namespace GeneratedFiles

/-- **One generated file below two homes:** twins that are not the homes, written at one place below them. -/
structure Entry (home home' : Path) (e e' : Artifact × Path) : Prop where
  artifact : Artifact.Twin home home' e.1 e'.1
  below : e.1.path.components ≠ home.components
  written : Path.Twin home home' e.2 e'.2

theorem Entry.symm {e e' : Artifact × Path} (h : Entry home home' e e') : Entry home' home e' e where
  artifact := h.artifact.symm
  below same := h.below ((h.artifact.path.components_eq_iff (.start home home')).2 same)
  written := h.written.symm

/-- **The generated files of a unit below two homes.** -/
def Relocated (home home' : Path) (g g' : GeneratedFiles) : Prop :=
  List.Forall₂ (Entry home home') g.entries g'.entries

namespace Relocated

variable {g g' : GeneratedFiles}

theorem symm (h : Relocated home home' g g') : Relocated home' home g' g :=
  List.Forall₂.flip (h.imp fun _ _ he => he.symm)

theorem lyingAt? (h : Relocated home home' g g') {p p' : Path} (moved : Path.Moved home home' p p') :
    Option.Rel (Artifact.Twin home home') (g.lyingAt? p) (g'.lyingAt? p') := by
  have agree (e e' : Artifact × Path) (he : Entry home home' e e') : e.1.path.same p = e'.1.path.same p' := by
    rw [Bool.eq_iff_iff, Path.same_iff, Path.same_iff]
    exact he.artifact.path.components_eq_iff moved
  have found := forall₂_find? agree h
  unfold GeneratedFiles.lyingAt?
  generalize g.entries.find? _ = there at found ⊢
  generalize g'.entries.find? _ = here at found ⊢
  cases found with
  | none => exact .none
  | some he => exact .some he.artifact

theorem written? (h : Relocated home home' g g') {a a' : Artifact} (twin : Artifact.Twin home home' a a') :
    Option.Rel (fun w w' => Path.Twin home home' w w' ∧ a.path.components ≠ home.components) (g.written? a)
      (g'.written? a') := by
  have agree (e e' : Artifact × Path) (he : Entry home home' e e') : (e.1 == a) = (e'.1 == a') := by
    rw [Bool.eq_iff_iff, beq_iff_eq, beq_iff_eq]
    exact he.artifact.relocated.eq_iff twin.relocated
  have found := forall₂_find? agree h
  unfold GeneratedFiles.written?
  generalize hg : g.entries.find? _ = there at found ⊢
  generalize g'.entries.find? _ = here at found ⊢
  cases found with
  | none => exact .none
  | some he =>
    have same := List.find?_some hg
    rw [beq_iff_eq] at same
    exact .some ⟨he.written, same ▸ he.below⟩

theorem declare (h : Relocated home home' g g') {a a' : Artifact} {w w' : Path} (twin : Artifact.Twin home home' a a')
    (below : a.path.components ≠ home.components) (written : Path.Twin home home' w w') :
    Relocated home home' (g.declare a w) (g'.declare a' w') := by
  have entry : Entry home home' (a, w) (a', w') := ⟨twin, below, written⟩
  have agree (e e' : Artifact × Path) (he : Entry home home' e e') :
      Sorted.onKey Prod.fst Artifact.order (a, w) e = Sorted.onKey Prod.fst Artifact.order (a', w') e' :=
    twin.relocated.order_eq he.artifact.relocated
  have merged (e e' : Artifact × Path) (he : Entry home home' e e') : Entry home home' (e.1, w) (e'.1, w') :=
    ⟨he.artifact, he.below, written⟩
  exact Sorted.forall₂_insertWith entry agree merged h

end Relocated
end GeneratedFiles

namespace Lookup

/-- **The lookups of one unit below two homes.** -/
structure Relocated (home home' : Path) (l l' : Lookup) : Prop where
  quote : List.Forall₂ (Path.Moved home home') l.dirs.quote l'.dirs.quote
  angle : List.Forall₂ (Path.Moved home home') l.dirs.angle l'.dirs.angle
  generated : l.generated.Relocated home home' l'.generated
  roots : l.context.roots.Relocated home home' l'.context.roots

variable {l l' : Lookup} {t t' : FileTree}

namespace Relocated

theorem symm (h : Relocated home home' l l') : Relocated home' home l' l where
  quote := List.Forall₂.flip (h.quote.imp fun _ _ hp => hp.symm)
  angle := List.Forall₂.flip (h.angle.imp fun _ _ hp => hp.symm)
  generated := h.generated.symm
  roots := h.roots.symm

section

variable (h : Relocated home home' l l') (hh : home.Anchored) (hh' : home'.Anchored)
include h hh hh'

/-- **The candidates for an inward name** correspond in order. -/
theorem candidates {beside beside' : Option Path} (hb : Option.Rel (Path.Moved home home') beside beside')
    (form : IncludeForm) {name : String} (inward : Path.Inward ⟨name⟩) :
    List.Forall₂ (Path.Twin home home') (l.dirs.candidates beside form name) (l'.dirs.candidates beside' form name) := by
  have dirs : List.Forall₂ (Path.Moved home home') (l.dirs.forForm beside form) (l'.dirs.forForm beside' form) := by
    cases form with
    | angle => exact h.angle
    | quote =>
      refine List.rel_append (List.rel_append ?_ h.quote) h.angle
      cases hb with
      | none => exact .nil
      | some moved => exact .cons moved .nil
  unfold SearchDirs.candidates
  dsimp only
  rw [if_neg (by rw [inward.1]; decide), if_neg (by rw [inward.1]; decide), List.forall₂_map_left_iff,
    List.forall₂_map_right_iff]
  exact dirs.imp fun _ _ moved => .of_normalize hh hh' (moved.join hh hh' inward)

variable (mirrors : FileTree.Mirrors home home' t t')
include mirrors

theorem existingOn? {p p' : Path} (twin : Path.Twin home home' p p') :
    Option.Rel (Artifact.Twin home home') (l.existingOn? t p) (l'.existingOn? t' p') := by
  have lying := h.generated.lyingAt? twin.moved
  unfold Lookup.existingOn?
  generalize l.generated.lyingAt? p = there at lying ⊢
  generalize l'.generated.lyingAt? p' = here at lying ⊢
  cases lying with
  | some twins => exact .some twins
  | none =>
    dsimp only
    rw [mirrors.isFile_eq twin]
    split
    · exact .some (h.roots.twin_resolve hh hh' twin.moved)
    · exact .none

/-- **An inward name means twins.** -/
theorem meaning? {beside beside' : Option Path} (hb : Option.Rel (Path.Moved home home') beside beside')
    (form : IncludeForm) {name : String} (inward : Path.Inward ⟨name⟩) :
    Option.Rel (Artifact.Twin home home') (l.meaning? t beside form name) (l'.meaning? t' beside' form name) :=
  forall₂_findSome? (fun _ _ twin => h.existingOn? hh hh' mirrors twin) (h.candidates hh hh' hb form inward)

omit hh' in
/-- **Twins have the same directives.**  These are inward, and an artifact that has directives is not the home. -/
theorem directivesOn {a a' : Artifact} (twin : Artifact.Twin home home' a a') {ds : List Directive}
    (hd : l.directivesOn t a = .ok ds) :
    l'.directivesOn t' a' = .ok ds ∧ (∀ d ∈ ds, Path.Inward ⟨d.target⟩) ∧ a.path.components ≠ home.components := by
  unfold Lookup.directivesOn at hd ⊢
  have written := h.generated.written? twin
  generalize l.generated.written? a = there at written hd
  generalize l'.generated.written? a' = here at written ⊢
  cases written with
  | @some w w' places =>
    obtain ⟨place, below⟩ := places
    dsimp only at hd ⊢
    rw [← mirrors.isFile_eq place]
    by_cases file : t.isFile w = true
    · rw [if_pos file] at hd ⊢
      obtain ⟨same, inward⟩ := mirrors.directives place hd
      exact ⟨same, inward, below⟩
    · rw [if_neg file] at hd ⊢
      cases hd
      exact ⟨rfl, nofun, below⟩
  | none =>
    dsimp only at hd ⊢
    rcases twin.spelled with empty | place
    · obtain ⟨bytes, read, -⟩ := FileTree.directives_ok_iff.1 hd
      unfold Artifact.path at read
      rw [empty] at read
      exact absurd read (FileTree.read_join_nothing bytes)
    · obtain ⟨same, inward⟩ := mirrors.directives place hd
      refine ⟨same, inward, fun home => ?_⟩
      obtain ⟨bytes, read, -⟩ := FileTree.directives_ok_iff.1 hd
      rw [Path.eq_of_normal place.normal hh.normal home] at read
      exact mirrors.notFile (.ok bytes) (FileTree.read_ok_iff.1 read)

end
end Relocated

/-- **What is reached on one side has a twin that is reached on the other.** -/
theorem Reach.relocate (h : Relocated home home' l l') (hh : home.Anchored) (hh' : home'.Anchored)
    (mirrors : FileTree.Mirrors home home' t t') {main main' : Artifact}
    (beside : Option.Rel (Path.Moved home home') main.path.parent? main'.path.parent?)
    {sources sources' : List Artifact} (hs : List.Forall₂ (Artifact.Twin home home') sources sources')
    {forced : List String} (inward : ∀ name ∈ forced, Path.Inward ⟨name⟩) {a : Artifact}
    (reached : l.Reach t main sources forced a) :
    ∃ a', Artifact.Twin home home' a a' ∧ l'.Reach t' main' sources' forced a' := by
  have found {a : Artifact} {b b' : Option Path} {form : IncludeForm} {name : String} (hi : Path.Inward ⟨name⟩)
      (hb : Option.Rel (Path.Moved home home') b b') (means : l.meaning? t b form name = some a) :
      ∃ a', Artifact.Twin home home' a a' ∧ l'.meaning? t' b' form name = some a' := by
    have twins := h.meaning? hh hh' mirrors hb form hi
    rw [means] at twins
    generalize l'.meaning? t' b' form name = here at twins ⊢
    cases twins with
    | some twin => exact ⟨_, twin, rfl⟩
  induction reached with
  | source entry =>
    obtain ⟨a', mem, twin⟩ := forall₂_exists hs _ entry
    exact ⟨a', twin, .source mem⟩
  | forced given meaning =>
    obtain ⟨a', twin, meaning'⟩ := found (inward _ given) beside meaning
    exact ⟨a', twin, .forced given meaning'⟩
  | directive _ directives mem target ih =>
    obtain ⟨a', twin, reached'⟩ := ih
    obtain ⟨directives', inside, below⟩ := h.directivesOn hh mirrors twin directives
    obtain ⟨b', twin', target'⟩ := found (inside _ mem) (twin.path.parent? below) target
    exact ⟨b', twin', .directive reached' directives' mem target'⟩

end Lookup

/-! ## Units and actions -/

/-- **One unit below two homes:** the directories and forced includes are the same inward names on both sides. -/
structure CompilationUnit.Relocated (home home' : Path) (u u' : CompilationUnit) : Prop where
  beside : Option.Rel (Path.Moved home home') u.mainSource.path.parent? u'.mainSource.path.parent?
  sources : List.Forall₂ (Artifact.Twin home home') u.sources u'.sources
  quoteDirs : u'.quoteDirs = u.quoteDirs ∧ ∀ dir ∈ u.quoteDirs, dir.Inward
  includeDirs : u'.includeDirs = u.includeDirs ∧ ∀ dir ∈ u.includeDirs, dir.Inward
  systemDirs : u'.systemDirs = u.systemDirs ∧ ∀ dir ∈ u.systemDirs, dir.Inward
  builtinDirs : u'.builtinDirs = u.builtinDirs ∧ ∀ dir ∈ u.builtinDirs, dir.Inward
  forcedIncludes : u'.forcedIncludes = u.forcedIncludes ∧ ∀ name ∈ u.forcedIncludes, Path.Inward ⟨name⟩
  generated : u.generated.Relocated home home' u'.generated

theorem CompilationUnit.Relocated.symm {u u' : CompilationUnit} (h : Relocated home home' u u') :
    Relocated home' home u' u where
  beside := by
    have beside := h.beside
    generalize u.mainSource.path.parent? = there at beside ⊢
    generalize u'.mainSource.path.parent? = here at beside ⊢
    cases beside with
    | none => exact .none
    | some moved => exact .some moved.symm
  sources := List.Forall₂.flip (h.sources.imp fun _ _ twin => twin.symm)
  quoteDirs := ⟨h.quoteDirs.1.symm, h.quoteDirs.1 ▸ h.quoteDirs.2⟩
  includeDirs := ⟨h.includeDirs.1.symm, h.includeDirs.1 ▸ h.includeDirs.2⟩
  systemDirs := ⟨h.systemDirs.1.symm, h.systemDirs.1 ▸ h.systemDirs.2⟩
  builtinDirs := ⟨h.builtinDirs.1.symm, h.builtinDirs.1 ▸ h.builtinDirs.2⟩
  forcedIncludes := ⟨h.forcedIncludes.1.symm, h.forcedIncludes.1 ▸ h.forcedIncludes.2⟩
  generated := h.generated.symm

namespace Job

variable {job job' : Job} {t t' : FileTree}

/-- **One action below two homes.** -/
structure Relocated (home home' : Path) (job job' : Job) : Prop where
  execRoot : job.context.execRoot = home
  execRoot' : job'.context.execRoot = home'
  roots : job.context.roots.Relocated home home' job'.context.roots
  units : List.Forall₂ (CompilationUnit.Relocated home home') job.unit.scannables job'.unit.scannables

namespace Relocated

theorem symm (h : Relocated home home' job job') : Relocated home' home job' job where
  execRoot := h.execRoot'
  execRoot' := h.execRoot
  roots := h.roots.symm
  units := List.Forall₂.flip (h.units.imp fun _ _ hu => hu.symm)

theorem unit (h : Relocated home home' job job') : CompilationUnit.Relocated home home' job.unit job'.unit :=
  (List.forall₂_cons.1 h.units).1

/-- Inward directories, seen from the two homes. -/
theorem forall₂_dirs (hh : home.Anchored) (hh' : home'.Anchored) {dirs : List Path} (inward : ∀ dir ∈ dirs, dir.Inward) :
    List.Forall₂ (Path.Moved home home') (dirs.map (fun dir => (home.join dir).normalize))
      (dirs.map (fun dir => (home'.join dir).normalize)) := by
  rw [List.forall₂_map_left_iff, List.forall₂_map_right_iff, List.forall₂_same]
  exact fun dir mem => (Path.Moved.join (.start home home') hh hh' (inward dir mem)).normalize hh hh'

section

variable (h : Relocated home home' job job') (hh : home.Anchored) (hh' : home'.Anchored)
include h hh hh'

theorem lookup {u u' : CompilationUnit} (hu : CompilationUnit.Relocated home home' u u') :
    Lookup.Relocated home home' (job.lookup u) (job'.lookup u') where
  quote := by
    unfold Job.lookup
    rw [h.execRoot, h.execRoot', hu.quoteDirs.1]
    exact forall₂_dirs hh hh' hu.quoteDirs.2
  angle := by
    unfold Job.lookup
    rw [h.execRoot, h.execRoot', hu.includeDirs.1, hu.systemDirs.1, h.unit.builtinDirs.1]
    refine forall₂_dirs hh hh' fun dir mem => ?_
    rcases List.mem_append.1 mem with mem | mem
    · exact (List.mem_append.1 mem).elim (hu.includeDirs.2 dir) (hu.systemDirs.2 dir)
    · exact h.unit.builtinDirs.2 dir mem
  generated := hu.generated
  roots := h.roots

omit hh hh' in
theorem not_inToolchain (a : Artifact) : ¬ job.InToolchain a := by
  rintro ⟨dir, mem, absolute, -⟩
  rw [(h.unit.builtinDirs.2 dir mem).1] at absolute
  cases absolute

variable (mirrors : FileTree.Mirrors home home' t t')
include mirrors

theorem reachIn {u u' : CompilationUnit} (hu : CompilationUnit.Relocated home home' u u') {a : Artifact}
    (reached : job.ReachIn t u a) : ∃ a', Artifact.Twin home home' a a' ∧ job'.ReachIn t' u' a' := by
  unfold ReachIn at reached ⊢
  rw [hu.forcedIncludes.1]
  exact reached.relocate (h.lookup hh hh' hu) hh hh' mirrors hu.beside hu.sources hu.forcedIncludes.2

theorem reach {a : Artifact} (reached : job.Reach t a) : ∃ a', Artifact.Twin home home' a a' ∧ job'.Reach t' a' := by
  obtain ⟨u, hu, reached⟩ := reached
  obtain ⟨u', hu', same⟩ := forall₂_exists h.units u hu
  obtain ⟨a', twin, reached'⟩ := h.reachIn hh hh' mirrors same reached
  exact ⟨a', twin, u', hu', reached'⟩

theorem not_stray (a : Artifact) : ¬ job.Stray t a := by
  rintro ⟨reached, -, orphan⟩
  obtain ⟨a', twin, -⟩ := h.reach hh hh' mirrors reached
  rw [twin.hasParent hh] at orphan
  cases orphan

/-- **What is reached can be read on both sides or on neither.** -/
theorem readable (readable' : job'.Readable t') : job.Readable t := by
  intro u hu a reached
  obtain ⟨u', hu', same⟩ := forall₂_exists h.units u hu
  obtain ⟨a', twin, reached'⟩ := h.reachIn hh hh' mirrors same reached
  obtain ⟨ds, hd⟩ := readable' u' hu' a' reached'
  exact ⟨ds, ((h.lookup hh hh' same).symm.directivesOn hh' (mirrors.symm hh hh') twin.symm hd).1⟩

end
end Relocated

/-- **The answers to one action below two homes correspond.** -/
theorem Answers.corresponds (h : Relocated home home' job job') (hh : home.Anchored) (hh' : home'.Anchored)
    (mirrors : FileTree.Mirrors home home' t t') {outcome outcome' : Except ScanError (List Artifact)}
    (answers : job.Answers t outcome) (answers' : job'.Answers t' outcome') :
    Scan.Corresponds home home' outcome outcome' := by
  have mirrors' := mirrors.symm hh hh'
  by_cases readable : job.Readable t
  · obtain ⟨inputs, ok⟩ := answers.ok_iff.2 ⟨readable, h.not_stray hh hh' mirrors⟩
    obtain ⟨inputs', ok'⟩ :=
      answers'.ok_iff.2 ⟨h.symm.readable hh' hh mirrors' readable, h.symm.not_stray hh' hh mirrors'⟩
    obtain ⟨increasing, mem⟩ := answers.inputs inputs ok
    obtain ⟨increasing', mem'⟩ := answers'.inputs inputs' ok'
    have agree (a a' b b' : Artifact) (ha : a.Relocated home home' a') (hb : b.Relocated home home' b') :
        Artifact.order a b = Artifact.order a' b' := ha.order_eq hb
    rw [ok, ok']
    refine .ok (Sorted.forall₂_of_increasing agree increasing increasing' (fun a ha => ?_) fun a' ha' => ?_)
    · obtain ⟨a', twin, reached'⟩ := h.reach hh hh' mirrors ((mem a).1 ha).1
      exact ⟨a', (mem' a').2 ⟨reached', h.symm.not_inToolchain a'⟩, twin.relocated⟩
    · obtain ⟨a, twin, reached⟩ := h.symm.reach hh' hh mirrors' ((mem' a').1 ha').1
      exact ⟨a, (mem a).2 ⟨reached, h.not_inToolchain a⟩, twin.relocated.symm⟩
  · have unread : ¬ job'.Readable t' := fun readable' => readable (h.readable hh hh' mirrors readable')
    obtain ⟨_, -, _, ⟨_, _, -, -, rfl⟩, failed⟩ := answers.unreadable readable
    obtain ⟨_, -, _, ⟨_, _, -, -, rfl⟩, failed'⟩ := answers'.unreadable unread
    rw [failed, failed']
    exact .error trivial

end Job
end IncludeClosure
