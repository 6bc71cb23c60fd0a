import IncludeClosure.Proofs.Request.Job
import IncludeClosure.Proofs.Scan.Relocation
/-!
# Proofs.Request.Relocation — where a project stands shows in nothing but the roots

A request that keeps to its execution root makes the same roots, units and errors below two execution roots
(`toUnit_corresponds`): every path of it is joined to the root, and a generated file lies under an output root on both
sides or on neither.  The two actions then correspond, and so do their answers on trees with copies of one project
(`inputs_corresponds`), whatever else stands in the trees.
-/
namespace IncludeClosure

theorem Corresponds.bind {ε ε' α β γ δ : Type} {errors : ε → ε' → Prop} {R : α → β → Prop} {S : γ → δ → Prop}
    {x : Except ε α} {y : Except ε' β} (h : Corresponds errors R x y) {f : α → Except ε γ} {g : β → Except ε' δ}
    (next : ∀ a b, R a b → Corresponds errors S (f a) (g b)) : Corresponds errors S (x >>= f) (y >>= g) := by
  cases h with
  | error same => exact .error same
  | ok same => exact next _ _ same

variable {home home' : Path}

theorem Artifact.Twin.holdsOutputs_eq {a a' : Artifact} (h : Twin home home' a a') (hh : home.Anchored)
    (hh' : home'.Anchored) : a.root.holdsOutputs = a'.root.holdsOutputs := by
  unfold ArtifactRoot.holdsOutputs
  rw [h.relocated.root.kind, h.hasParent hh, h.symm.hasParent hh']

/-- **One unit and its auxiliaries below two homes.** -/
structure CompilationUnit.AllRelocated (home home' : Path) (u u' : CompilationUnit) : Prop where
  unit : Relocated home home' u u'
  auxiliary : List.Forall₂ (Relocated home home') u.auxiliary u'.auxiliary

namespace UnitDeclaration

section

variable (hh : home.Anchored)
include hh

theorem components_path_resolveFrom (s : RootSet) {p : Path} (inward : p.Inward) :
    (s.resolveFrom home p).path.components = home.components ++ Path.named p.text.toList := by
  obtain ⟨names, e⟩ := inward.exists_names
  unfold RootSet.resolveFrom
  rw [s.components_path_resolve, Path.components_normalize, hh.components_join inward, e,
    Path.normalComponents_append hh.normal]

end

variable {s s' : RootSet} (hs : s.Relocated home home' s') (hh : home.Anchored) (hh' : home'.Anchored)
include hs hh hh'

theorem twin_resolveFrom {p : Path} (inward : p.Inward) :
    Artifact.Twin home home' (s.resolveFrom home p) (s'.resolveFrom home' p) :=
  hs.twin_resolve hh hh' ((Path.Moved.start home home').join hh hh' inward)

omit hh' in
/-- A generated file is not the home, which is a source. -/
theorem components_ne_of_holdsOutputs {p : Path} (inward : p.Inward)
    (output : (s.resolveFrom home p).root.holdsOutputs = true) :
    (s.resolveFrom home p).path.components ≠ home.components := by
  have kind : (s.resolveFrom home p).root.kind = .output := by
    unfold ArtifactRoot.holdsOutputs at output
    simpa using (Bool.and_eq_true_iff.1 output).1
  have apart := hs.components_ne_of_output hh kind
  rw [hh.components_join inward] at apart
  rwa [components_path_resolveFrom hh s inward]

/-- **The generated files of a unit** are declared on both sides, or the same one is refused. -/
theorem generatedFiles_corresponds : ∀ {entries : List (Path × Path)}, (∀ e ∈ entries, e.1.Inward ∧ e.2.Inward) →
    ∀ {g g' : GeneratedFiles}, g.Relocated home home' g' → Corresponds Eq (GeneratedFiles.Relocated home home')
      (generatedFiles home s g entries) (generatedFiles home' s' g' entries)
  | [], _, _, _, hg => .ok hg
  | (declared, written) :: entries, inward, g, g', hg => by
    obtain ⟨insideDeclared, insideWritten⟩ := inward (declared, written) List.mem_cons_self
    have twin := twin_resolveFrom hs hh hh' insideDeclared
    unfold generatedFiles
    dsimp only
    rw [← twin.holdsOutputs_eq hh hh']
    by_cases output : (s.resolveFrom home declared).root.holdsOutputs = true
    · rw [if_pos output, if_pos output]
      refine generatedFiles_corresponds (fun e mem => inward e (List.mem_cons_of_mem _ mem)) ?_
      have place := Path.Twin.of_normalize hh hh' ((Path.Moved.start home home').join hh hh' insideWritten)
      have below := components_ne_of_holdsOutputs hs hh insideDeclared output
      exact hg.declare twin below place
    · rw [if_neg output, if_neg output]
      exact .error rfl

/-- The main source lies strictly below the execution root, so its directory is not outside. -/
theorem beside_mainSource {p : Path} (inward : p.Inward) (below : ∃ name, .name name ∈ p.components) :
    Option.Rel (Path.Moved home home') (s.resolveFrom home p).path.parent? (s'.resolveFrom home' p).path.parent? := by
  refine (twin_resolveFrom hs hh hh' inward).path.parent? fun same => ?_
  rw [components_path_resolveFrom hh s inward, List.append_right_eq_self] at same
  obtain ⟨name, mem⟩ := below
  rw [Path.components_eq, same, List.append_nil] at mem
  exact Path.name_notMem_leading name _ mem

omit hs hh hh' in
theorem toUnits_corresponds : ∀ {ds : List UnitDeclaration},
    (∀ d ∈ ds, Corresponds Eq (CompilationUnit.AllRelocated home home') (d.toUnit home s) (d.toUnit home' s')) →
    Corresponds Eq (List.Forall₂ (CompilationUnit.Relocated home home')) (toUnits home s ds) (toUnits home' s' ds)
  | [], _ => by
    unfold toUnits
    exact .ok .nil
  | d :: ds, each => by
    unfold toUnits
    refine (each d List.mem_cons_self).bind fun u u' hu => ?_
    refine (toUnits_corresponds fun e mem => each e (List.mem_cons_of_mem _ mem)).bind fun us us' hus => ?_
    exact .ok (.cons hu.unit hus)

/-- **A unit that keeps to its execution root** is made on both sides, with its auxiliaries, or the same error is. -/
theorem toUnit_corresponds {d : UnitDeclaration} (inward : d.Inward) :
    Corresponds Eq (CompilationUnit.AllRelocated home home') (d.toUnit home s) (d.toUnit home' s') := by
  induction inward with
  | @intro d own _ ih =>
    obtain ⟨mainSource, sources, quoteDirs, includeDirs, systemDirs, builtinDirs, forcedIncludes, generated, auxiliary⟩ := d
    unfold toUnit
    dsimp only
    have start : GeneratedFiles.Relocated home home' .none .none := .nil
    refine (generatedFiles_corresponds hs hh hh' own.generated start).bind fun g g' hg => ?_
    refine (toUnits_corresponds ih).bind fun us us' hus => .ok ⟨?_, hus⟩
    constructor
    case beside => exact beside_mainSource hs hh hh' own.mainSource own.mainBelow
    case sources =>
      dsimp only
      split
      · exact .cons (twin_resolveFrom hs hh hh' own.mainSource) .nil
      · rw [List.forall₂_map_left_iff, List.forall₂_map_right_iff, List.forall₂_same]
        exact fun p mem => twin_resolveFrom hs hh hh' (own.sources p mem)
    case quoteDirs => exact ⟨rfl, own.quoteDirs⟩
    case includeDirs => exact ⟨rfl, own.includeDirs⟩
    case systemDirs => exact ⟨rfl, own.systemDirs⟩
    case builtinDirs => exact ⟨rfl, own.builtinDirs⟩
    case forcedIncludes => exact ⟨rfl, own.forcedIncludes⟩
    case generated => exact hg

end UnitDeclaration

namespace Request

variable {q : Request}

theorem resolveExecRoot_of_anchored (hh : home.Anchored) (base : Path) : q.resolveExecRoot base (some home) = home := by
  have absolute : base.join home = home := if_pos hh.absolute
  show (base.join home).normalize = home
  rw [absolute, hh.normal]

theorem rootSet_relocated (inward : ∀ r ∈ q.roots, r.path.Inward) (hh : home.Anchored) (hh' : home'.Anchored) :
    RootSet.Relocated home home' (q.rootSet home) (q.rootSet home') := by
  have added : ∀ (ds : List RootDeclaration), (∀ r ∈ ds, r.path.Inward) → ∀ {s s' : RootSet},
      RootSet.Relocated home home' s s' →
      RootSet.Relocated home home' (ds.foldl (fun roots d => roots.add (.mount (home.join d.path) d.kind)) s)
        (ds.foldl (fun roots d => roots.add (.mount (home'.join d.path) d.kind)) s') := by
    intro ds
    induction ds with
    | nil => exact fun _ _ _ hs => hs
    | cons d ds ih =>
      intro inward s s' hs
      have moved := (Path.Moved.start home home').join hh hh' (inward d List.mem_cons_self)
      exact ih (fun r mem => inward r (List.mem_cons_of_mem _ mem))
        (hs.add (ArtifactRoot.relocated_mount hh hh' moved d.kind))
  exact added q.roots inward (.start hh hh')

/-- **A request that keeps to its execution root** describes one action below two homes, or is refused for one reason. -/
theorem toJob_corresponds (inward : q.Inward) (hh : home.Anchored) (hh' : home'.Anchored) (name name' : String)
    (base base' : Path) :
    Corresponds Eq (Job.Relocated home home') (q.toJob name base (some home)) (q.toJob name' base' (some home')) := by
  unfold toJob
  dsimp only
  rw [resolveExecRoot_of_anchored hh, resolveExecRoot_of_anchored hh']
  have roots := rootSet_relocated inward.roots hh hh'
  refine (UnitDeclaration.toUnit_corresponds roots hh hh' inward.unit).bind fun u u' hu => .ok ?_
  exact ⟨hh.normal, hh'.normal, roots, .cons hu.unit hu.auxiliary⟩

/-- **One project below two execution roots.**  The request is refused for one reason, or both scans fail for one kind
of reason, or they find the same inputs in the same order, up to the execution root in their roots. -/
theorem inputs_corresponds (inward : q.Inward) (hh : home.Anchored) (hh' : home'.Anchored) {project t t' : FileTree}
    (contained : project.SelfContained) (holds : t.Holds home project) (holds' : t'.Holds home' project)
    (name name' : String) (base base' : Path) :
    Corresponds Eq (fun job job' => Scan.Corresponds home home' ((job.inputs .empty).run t.answer).1
        ((job'.inputs .empty).run t'.answer).1)
      (q.toJob name base (some home)) (q.toJob name' base' (some home')) := by
  have jobs := toJob_corresponds inward hh hh' name name' base base'
  generalize described : q.toJob name base (some home) = first at jobs ⊢
  generalize described' : q.toJob name' base' (some home') = second at jobs ⊢
  cases jobs with
  | error same => exact .error same
  | @ok job job' same =>
    have requested : job.Requested := ⟨q, name, base, some home, described⟩
    have requested' : job'.Requested := ⟨q, name', base', some home', described'⟩
    have mirrors := holds.mirrors holds' contained hh hh'
    exact .ok ((requested.answers_empty t).corresponds same hh hh' mirrors (requested'.answers_empty t'))

end Request

/-! ## The cycle of two files, moved -/

namespace Sample

/-- The files of `tree`, without the place where they stand. -/
def project : FileTree where
  nodes :=
    [(["a.cc"], .file { bytes := Text.utf8Bytes "#include \"b.h\"\n", modified := 0 }),
     (["b.h"], .file { bytes := Text.utf8Bytes "#include \"a.cc\"\n", modified := 0 })]
  workingDirectory := []

/-- A copy that is changed later and stands deeper, with another header of the same name outside. -/
def movedTree : FileTree where
  nodes :=
    [(["srv"], .directory), (["srv", "b.h"], .file { bytes := [], modified := 0 }), (["srv", "w"], .directory),
     (["srv", "w", "a.cc"], .file { bytes := Text.utf8Bytes "#include \"b.h\"\n", modified := 7 }),
     (["srv", "w", "b.h"], .file { bytes := Text.utf8Bytes "#include \"a.cc\"\n", modified := 7 })]
  workingDirectory := ["srv"]

def inwardRequest : Request where
  version := Request.currentVersion
  execRoot := none
  roots := [{ path := ⟨"out"⟩, kind := .output }]
  unit :=
    { UnitDeclaration.empty with
      mainSource := ⟨"a.cc"⟩, includeDirs := [⟨"out"⟩], forcedIncludes := ["g.h"]
      generated := SortedTable.empty.set ⟨"out/g.h"⟩ ⟨"tmp/g.h"⟩ }

theorem inward_inwardRequest : inwardRequest.Inward where
  roots := by decide
  unit := by
    refine .intro ?_ (fun a mem => absurd mem List.not_mem_nil)
    constructor
    case mainBelow => exact ⟨"a.cc", by decide⟩
    all_goals decide

theorem anchored_w : Path.Anchored ⟨"/w"⟩ :=
  ⟨by decide, by decide, by decide⟩

theorem anchored_srv_w : Path.Anchored ⟨"/srv/w"⟩ :=
  ⟨by decide, by decide, by decide⟩

theorem selfContained_project : project.SelfContained where
  linkFree position target h := by
    rcases FileTree.mem_of_node? h with ⟨-, e⟩ | mem
    · cases e
    · simp [project] at mem
  inward position f h := by
    have files : ∀ entry ∈ project.nodes, ∀ f, entry.2 = .file f →
        ∀ d ∈ Directive.extract f.bytes, Path.Inward ⟨d.target⟩ := by
      simp only [project, List.forall_mem_cons]
      refine ⟨?_, ?_, List.forall_mem_nil _⟩
      · rintro f ⟨⟩
        decide
      · rintro f ⟨⟩
        decide
    rcases FileTree.mem_of_node? h with ⟨-, e⟩ | mem
    · cases e
    · exact files _ mem f rfl

theorem holds_tree : tree.Holds ⟨"/w"⟩ project := by
  refine FileTree.holds_of_nodes ["w"] rfl ?_ (by decide) (by decide)
  simp only [project, List.forall_mem_cons]
  exact ⟨.some (.file rfl), .some (.file rfl), List.forall_mem_nil _⟩

theorem holds_movedTree : movedTree.Holds ⟨"/srv/w"⟩ project := by
  refine FileTree.holds_of_nodes ["srv", "w"] rfl ?_ (by decide) (by decide)
  simp only [project, List.forall_mem_cons]
  exact ⟨.some (.file rfl), .some (.file rfl), List.forall_mem_nil _⟩

end Sample

/-- The moved project has the same inputs in the same order, and the header outside is none of them. -/
theorem Request.inputs_corresponds_moved :
    Sample.inwardRequest.Inward ∧ Path.Anchored ⟨"/w"⟩ ∧ Path.Anchored ⟨"/srv/w"⟩ ∧ Sample.project.SelfContained ∧
    Sample.tree.Holds ⟨"/w"⟩ Sample.project ∧ Sample.movedTree.Holds ⟨"/srv/w"⟩ Sample.project ∧
    ∃ job job' inputs', Sample.inwardRequest.toJob "//:a" ⟨"/w"⟩ (some ⟨"/w"⟩) = .ok job ∧
      Sample.inwardRequest.toJob "//:a" ⟨"/"⟩ (some ⟨"/srv/w"⟩) = .ok job' ∧
      ((job.inputs .empty).run Sample.tree.answer).1 = .ok [Sample.aCc, Sample.bH, Sample.gH] ∧
      ((job'.inputs .empty).run Sample.movedTree.answer).1 = .ok inputs' ∧
      List.Forall₂ (Artifact.Relocated ⟨"/w"⟩ ⟨"/srv/w"⟩) [Sample.aCc, Sample.bH, Sample.gH] inputs' := by
  refine ⟨Sample.inward_inwardRequest, Sample.anchored_w, Sample.anchored_srv_w, Sample.selfContained_project,
    Sample.holds_tree, Sample.holds_movedTree, ?_⟩
  have jobs := Request.inputs_corresponds Sample.inward_inwardRequest Sample.anchored_w Sample.anchored_srv_w
    Sample.selfContained_project Sample.holds_tree Sample.holds_movedTree "//:a" "//:a" ⟨"/w"⟩ ⟨"/"⟩
  have left : (Sample.inwardRequest.toJob "//:a" ⟨"/w"⟩ (some ⟨"/w"⟩)).map
      (fun job => ((job.inputs .empty).run Sample.tree.answer).1) = .ok (.ok [Sample.aCc, Sample.bH, Sample.gH]) := by
    decide +kernel
  generalize Sample.inwardRequest.toJob "//:a" ⟨"/w"⟩ (some ⟨"/w"⟩) = first at jobs left ⊢
  generalize Sample.inwardRequest.toJob "//:a" ⟨"/"⟩ (some ⟨"/srv/w"⟩) = second at jobs ⊢
  cases jobs with
  | error _ => cases left
  | @ok job job' same =>
    have found : ((job.inputs .empty).run Sample.tree.answer).1 = .ok [Sample.aCc, Sample.bH, Sample.gH] :=
      Except.ok.inj left
    rw [found] at same
    generalize outcome : ((job'.inputs .empty).run Sample.movedTree.answer).1 = answer at same
    cases same with
    | @ok _ inputs' same => exact ⟨job, job', inputs', rfl, rfl, found, outcome, same⟩

end IncludeClosure
