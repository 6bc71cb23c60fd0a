import IncludeClosure.Proofs.Path.Join
import IncludeClosure.Proofs.Scan.Memo
/-!
# Proofs.Scan.Lookup — names mean what they mean on the tree

Whatever the cache holds, a name is found to mean the first candidate that exists on the tree (`gives_find`), and the
directives of an artifact are those that it has on the tree (`gives_directivesOf`).  The second needs the places where
generated files are written to be in normal form: they are looked for in the memo of existing files, which does not
tell `a` from `a/`.
-/
namespace IncludeClosure
namespace GeneratedFiles

/-- Every generated file is written at a path in normal form. -/
def Placed (g : GeneratedFiles) : Prop :=
  ∀ entry ∈ g.entries, entry.2.normalize = entry.2

theorem Placed.written {g : GeneratedFiles} (h : g.Placed) {a : Artifact} {p : Path} (hw : g.written? a = some p) :
    p.normalize = p := by
  obtain ⟨entry, he, rfl⟩ := Option.map_eq_some_iff.1 hw
  exact h entry (List.mem_of_find?_eq_some he)

theorem mem_of_lyingAt? {g : GeneratedFiles} {p : Path} {a : Artifact} (h : g.lyingAt? p = some a) :
    a ∈ g.entries.map (·.1) := by
  obtain ⟨entry, he, rfl⟩ := Option.map_eq_some_iff.1 h
  exact List.mem_map_of_mem (List.mem_of_find?_eq_some he)

end GeneratedFiles

namespace SearchDirs

theorem map_of_sameList {α : Type} {f : Path → α} (hf : ∀ p q : Path, p.components = q.components → f p = f q) :
    ∀ {ps qs : List Path}, sameList ps qs = true → ps.map f = qs.map f
  | [], [], _ => rfl
  | p :: ps, q :: qs, h => by
    unfold sameList at h
    obtain ⟨hp, hs⟩ := Bool.and_eq_true_iff.1 h
    rw [List.map_cons, List.map_cons, hf p q ((Path.same_iff p q).1 hp), map_of_sameList hf hs]

/-- **Two spellings of one configuration** have the same candidates for every name. -/
theorem candidates_congr {a b : SearchDirs} (h : a.same b = true) : a.candidates = b.candidates := by
  funext beside form name
  obtain ⟨hq, ha⟩ := Bool.and_eq_true_iff.1 h
  have hj (p q : Path) (hpq : p.components = q.components) :
      (p.join ⟨name⟩).normalize = (q.join ⟨name⟩).normalize := Path.normalize_join_congr hpq ⟨name⟩
  unfold candidates
  dsimp only
  split
  · rfl
  · cases form with
    | quote => simp only [forForm, List.map_append, map_of_sameList hj hq, map_of_sameList hj ha]
    | angle => exact map_of_sameList hj ha

end SearchDirs

namespace Lookup

open Scan (Gives)

variable {t : FileTree}

/-- Where the directives of an artifact are read. -/
def readPath (l : Lookup) (a : Artifact) : Path :=
  (l.generated.written? a).getD a.path

theorem normalize_of_mem_candidates {dirs : SearchDirs} {beside : Option Path} {form : IncludeForm} {name : String}
    {p : Path} (h : p ∈ dirs.candidates beside form name) : p.normalize = p := by
  simp only [SearchDirs.candidates] at h
  split at h
  · rw [List.mem_singleton.1 h, Path.normalize_normalize]
  · obtain ⟨dir, -, rfl⟩ := List.mem_map.1 h
    exact Path.normalize_normalize _

theorem gives_existing (l : Lookup) {p : Path} (hp : p.normalize = p) : Gives t (l.existing? p) (l.existingOn? t p) := by
  unfold existing? existingOn?
  cases l.generated.lyingAt? p with
  | some found => exact ⟨rfl, rfl⟩
  | none =>
    refine (Scan.gives_isFile hp).bind ?_
    dsimp only
    split <;> exact ⟨rfl, rfl⟩

theorem gives_firstExisting (l : Lookup) : ∀ {ps : List Path}, (∀ p ∈ ps, p.normalize = p) →
    Gives t (l.firstExisting? ps) (ps.findSome? (l.existingOn? t))
  | [], _ => ⟨rfl, rfl⟩
  | p :: ps, h => by
    rw [List.findSome?_cons]
    refine (l.gives_existing (h p List.mem_cons_self)).bind ?_
    cases l.existingOn? t p with
    | some a => exact ⟨rfl, rfl⟩
    | none => exact l.gives_firstExisting fun q hq => h q (List.mem_cons_of_mem _ hq)

/-- **A name means the first candidate that exists on the tree.** -/
theorem gives_find (l : Lookup) (beside : Option Path) (form : IncludeForm) (name : String) :
    Gives t (l.find? beside form name) (l.meaning? t beside form name) :=
  l.gives_firstExisting fun _ => normalize_of_mem_candidates

/-- **The directives of an artifact are those on the tree.** -/
theorem gives_directivesOf (l : Lookup) (placed : l.generated.Placed) (a : Artifact) :
    Gives t (l.directivesOf a) ((l.directivesOn t a).mapError (.unreadable (l.readPath a))) := by
  unfold directivesOf directivesOn readPath
  cases e : l.generated.written? a with
  | none => exact (Scan.gives_directives a.path).bind ⟨rfl, rfl⟩
  | some written =>
    refine (Scan.gives_isFile (placed.written e)).bind ?_
    dsimp only [Option.getD_some]
    split
    · exact (Scan.gives_directives written).bind ⟨rfl, rfl⟩
    · exact ⟨rfl, rfl⟩

/-- **What a name means** is a generated file, or the artifact of a path in normal form that names a regular file. -/
theorem found_of_meaning {l : Lookup} {beside : Option Path} {form : IncludeForm} {name : String} {a : Artifact}
    (h : l.meaning? t beside form name = some a) :
    a ∈ l.generated.entries.map (·.1) ∨
      ∃ p, p.normalize = p ∧ t.isFile p = true ∧ a = l.context.roots.resolve p := by
  obtain ⟨p, candidate, hp⟩ := List.exists_of_findSome?_eq_some h
  unfold existingOn? at hp
  split at hp
  · rename_i found e
    cases hp
    exact .inl (GeneratedFiles.mem_of_lyingAt? e)
  · split at hp
    · rename_i hf
      cases hp
      exact .inr ⟨p, normalize_of_mem_candidates candidate, hf, rfl⟩
    · cases hp

end Lookup
end IncludeClosure
