import Mathlib.Data.List.Nodup
import IncludeClosure.Proofs.Scan.Closure
/-!
# Proofs.Scan.Priority — the first candidate that stands wins

A candidate **stands** when a generated file lies there or it is a regular file.  A name means something exactly when
one of its candidates stands, and then it means the generated file at the first such candidate, or else the artifact of
the regular file there.  What lies after that candidate or nowhere in the list is never asked for, so it may change.
-/
namespace IncludeClosure

namespace GeneratedFiles

variable {g : GeneratedFiles} {a : Artifact} {p : Path}

/-- The generated file lies at `p`, whether it is written or not. -/
def Lies (g : GeneratedFiles) (a : Artifact) (p : Path) : Prop :=
  a ∈ g.entries.map (·.1) ∧ a.path.components = p.components

/-- No two generated files lie at one path. -/
def Apart (g : GeneratedFiles) : Prop :=
  (g.entries.map (·.1.path.components)).Nodup

theorem lies_of_lyingAt? (h : g.lyingAt? p = some a) : g.Lies a p := by
  refine ⟨mem_of_lyingAt? h, ?_⟩
  obtain ⟨entry, found, rfl⟩ := Option.map_eq_some_iff.1 h
  have same := List.find?_some found
  exact (Path.same_iff _ _).1 same

theorem lyingAt?_eq_none_iff : g.lyingAt? p = Option.none ↔ ∀ a, ¬ g.Lies a p := by
  constructor
  · rintro missing a ⟨mem, same⟩
    obtain ⟨entry, listed, rfl⟩ := List.mem_map.1 mem
    have other := List.find?_eq_none.1 (Option.map_eq_none_iff.1 missing) entry listed
    exact other ((Path.same_iff _ _).2 same)
  · intro bare
    cases found : g.lyingAt? p with
    | none => rfl
    | some a => exact absurd (lies_of_lyingAt? found) (bare a)

theorem Apart.eq_of_lies (apart : g.Apart) {b : Artifact} (ha : g.Lies a p) (hb : g.Lies b p) : a = b := by
  obtain ⟨memA, sameA⟩ := ha
  obtain ⟨memB, sameB⟩ := hb
  obtain ⟨x, memX, rfl⟩ := List.mem_map.1 memA
  obtain ⟨y, memY, rfl⟩ := List.mem_map.1 memB
  rw [List.inj_on_of_nodup_map apart memX memY (sameA.trans sameB.symm)]

theorem Apart.lyingAt?_eq_some_iff (apart : g.Apart) : g.lyingAt? p = some a ↔ g.Lies a p := by
  refine ⟨lies_of_lyingAt?, fun lies => ?_⟩
  cases found : g.lyingAt? p with
  | none => exact absurd lies (lyingAt?_eq_none_iff.1 found a)
  | some b => rw [apart.eq_of_lies lies (lies_of_lyingAt? found)]

/-- **Which file lies at a path** is told by which files do. -/
theorem Apart.lyingAt?_congr (apart : g.Apart) {g' : GeneratedFiles} (apart' : g'.Apart)
    (same : ∀ a, g'.Lies a p ↔ g.Lies a p) : g'.lyingAt? p = g.lyingAt? p := by
  apply Option.ext
  intro a
  rw [apart.lyingAt?_eq_some_iff, apart'.lyingAt?_eq_some_iff, same]

end GeneratedFiles

namespace Lookup

variable {t : FileTree} {l : Lookup}

/-- **Something is at the candidate:** a generated file or a regular one. -/
def Stands (l : Lookup) (t : FileTree) (p : Path) : Prop :=
  (∃ a, l.generated.Lies a p) ∨ t.isFile p = true

theorem existingOn?_eq_of_lies (apart : l.generated.Apart) {a : Artifact} {p : Path} (lies : l.generated.Lies a p) :
    l.existingOn? t p = some a := by
  simp [existingOn?, apart.lyingAt?_eq_some_iff.2 lies]

theorem existingOn?_eq_of_not_lies {p : Path} (bare : ∀ a, ¬ l.generated.Lies a p) :
    l.existingOn? t p = if t.isFile p then some (l.context.roots.resolve p) else none := by
  simp [existingOn?, GeneratedFiles.lyingAt?_eq_none_iff.2 bare]

theorem isSome_existingOn?_iff {p : Path} : (l.existingOn? t p).isSome = true ↔ l.Stands t p := by
  unfold Stands existingOn?
  cases found : l.generated.lyingAt? p with
  | some a =>
    have lies : ∃ a, l.generated.Lies a p := ⟨a, GeneratedFiles.lies_of_lyingAt? found⟩
    simp [lies]
  | none =>
    have bare : ¬ ∃ a, l.generated.Lies a p := not_exists.2 (GeneratedFiles.lyingAt?_eq_none_iff.1 found)
    simp [bare]

theorem existingOn?_eq_none_iff {p : Path} : l.existingOn? t p = none ↔ ¬ l.Stands t p := by
  rw [← isSome_existingOn?_iff, Bool.not_eq_true, Option.isSome_eq_false_iff, Option.isNone_iff_eq_none]

/-- **The candidates before the first that stands** do not count. -/
theorem findSome?_existingOn? {before after : List Path} {p : Path} (first : ∀ q ∈ before, ¬ l.Stands t q)
    (stands : l.Stands t p) : (before ++ p :: after).findSome? (l.existingOn? t) = l.existingOn? t p := by
  have passed : before.findSome? (l.existingOn? t) = none :=
    List.findSome?_eq_none_iff.2 fun q mem => existingOn?_eq_none_iff.2 (first q mem)
  obtain ⟨a, found⟩ := Option.isSome_iff_exists.1 (isSome_existingOn?_iff.2 stands)
  rw [List.findSome?_append, passed, Option.none_or, List.findSome?_cons, found]

/-- **A name looked up with an empty memo** means what it means on the tree. -/
theorem runOn_find (t : FileTree) (l : Lookup) (beside : Option Path) (form : IncludeForm) (name : String)
    {s : ScanStore} (fresh : s.cache.memo = .empty) :
    (Scan.runOn t (l.find? beside form name) s).1 = l.meaning? t beside form name := by
  have traced : s.cache.memo.Traced [t] := by
    rw [fresh]
    exact FileMemo.traced_empty [t]
  obtain ⟨_, ⟨-, gives⟩, -, -⟩ := Scan.runOn_ensures (.self t) (l.gives_find beside form name) traced
  exact gives

/-- **A name means the first of its candidates that stands.**  There is an answer exactly when one does.  It is the
generated file that lies there, and the artifact of the regular file if none does.  Another tree and other generated
files give the same answer if nothing is different up to there.  An angle-bracketed name does not depend on the file
that includes it, nor on the directories for quoted names. -/
theorem find_first (t : FileTree) (l : Lookup) (beside : Option Path) (form : IncludeForm) (name : String)
    (s : ScanStore) (fresh : s.cache.memo = .empty) (apart : l.generated.Apart) :
    let answer := (Scan.runOn t (l.find? beside form name) s).1
    (answer.isSome = true ↔ ∃ p ∈ l.dirs.candidates beside form name, l.Stands t p) ∧
    (∀ before p after, l.dirs.candidates beside form name = before ++ p :: after →
      (∀ q ∈ before, ¬ l.Stands t q) → l.Stands t p →
      (∀ a, l.generated.Lies a p → answer = some a) ∧
      ((∀ a, ¬ l.generated.Lies a p) → answer = some (l.context.roots.resolve p)) ∧
      ∀ (t' : FileTree) (generated : GeneratedFiles) (s' : ScanStore), generated.Apart → s'.cache.memo = .empty →
        (∀ q ∈ before ++ [p], t'.isFile q = t.isFile q ∧ ∀ a, generated.Lies a q ↔ l.generated.Lies a q) →
        (Scan.runOn t' ({ l with generated }.find? beside form name) s').1 = answer) ∧
    (form = .angle → ∀ (beside' : Option Path) (quote : List Path),
      (Scan.runOn t ({ l with dirs := { l.dirs with quote } }.find? beside' form name) s).1 = answer) := by
  intro answer
  have means : answer = l.meaning? t beside form name := runOn_find t l beside form name fresh
  refine ⟨?_, ?_, ?_⟩
  · rw [means]
    unfold meaning?
    rw [List.isSome_findSome?, List.any_eq_true]
    simp only [isSome_existingOn?_iff]
  · intro before p after split first stands
    have here : answer = l.existingOn? t p := by
      rw [means, meaning?, split, findSome?_existingOn? first stands]
    refine ⟨fun a lies => ?_, fun bare => ?_, ?_⟩
    · rw [here, existingOn?_eq_of_lies apart lies]
    · have isFile : t.isFile p = true := stands.resolve_left fun ⟨a, lies⟩ => bare a lies
      rw [here, existingOn?_eq_of_not_lies bare, if_pos isFile]
    · intro t' generated s' apart' fresh' same
      have alike (q : Path) (mem : q ∈ before ++ [p]) :
          existingOn? { l with generated } t' q = l.existingOn? t q := by
        obtain ⟨isFile, lies⟩ := same q mem
        simp only [existingOn?, apart.lyingAt?_congr apart' lies, isFile]
      have stands' (q : Path) (mem : q ∈ before ++ [p]) : Stands { l with generated } t' q ↔ l.Stands t q := by
        rw [← isSome_existingOn?_iff, alike q mem, isSome_existingOn?_iff]
      have last : p ∈ before ++ [p] := List.mem_append_right _ List.mem_cons_self
      rw [runOn_find t' _ beside form name fresh', here, ← alike p last]
      show (l.dirs.candidates beside form name).findSome? _ = _
      rw [split]
      exact findSome?_existingOn?
        (fun q mem => mt (stands' q (List.mem_append_left _ mem)).1 (first q mem)) ((stands' p last).2 stands)
  · rintro rfl beside' quote
    rw [runOn_find t _ beside' .angle name fresh, means]
    rfl

end Lookup

namespace Sample

theorem apart_lookup : lookup.generated.Apart := by
  unfold GeneratedFiles.Apart
  decide

end Sample

/-- Nothing stands beside the including file, so the generated file is meant before it is written. -/
theorem Lookup.find_first_generated :
    ScanStore.empty.cache.memo = .empty ∧ Sample.lookup.generated.Apart ∧
    ¬ Sample.lookup.Stands Sample.tree ⟨"/w/g.h"⟩ ∧ Sample.lookup.generated.Lies Sample.gH ⟨"/w/out/g.h"⟩ ∧
    (Scan.runOn Sample.tree (Sample.lookup.find? (some ⟨"/w"⟩) .quote "g.h") .empty).1 = some Sample.gH := by
  have passed : ¬ Sample.lookup.Stands Sample.tree ⟨"/w/g.h"⟩ := existingOn?_eq_none_iff.1 rfl
  have lies : Sample.lookup.generated.Lies Sample.gH ⟨"/w/out/g.h"⟩ := GeneratedFiles.lies_of_lyingAt? rfl
  obtain ⟨-, winner, -⟩ :=
    find_first Sample.tree Sample.lookup (some ⟨"/w"⟩) .quote "g.h" .empty rfl Sample.apart_lookup
  have first : ∀ q ∈ [(⟨"/w/g.h"⟩ : Path)], ¬ Sample.lookup.Stands Sample.tree q := by
    intro q mem
    rw [List.mem_singleton.1 mem]
    exact passed
  have answer := (winner [⟨"/w/g.h"⟩] ⟨"/w/out/g.h"⟩ [⟨"/usr/include/g.h"⟩] rfl first (.inl ⟨_, lies⟩)).1
  exact ⟨rfl, Sample.apart_lookup, passed, lies, answer Sample.gH lies⟩

end IncludeClosure
