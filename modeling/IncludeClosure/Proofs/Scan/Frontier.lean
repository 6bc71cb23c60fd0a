import Mathlib.Data.List.Perm.Subperm
import Mathlib.Data.Nat.Digits.Defs
import IncludeClosure.Proofs.Scan.Lookup
/-!
# Proofs.Scan.Frontier — what a frontier has seen, and how much it can see

Seeing artifacts puts the new ones, and only these, in front of what was seen and of what is pending (`exists_new`).  An
artifact that a scan sees is an entry source, a generated file or the artifact of a path that the system takes
(`Sighted`).  The system takes fewer than `nameablePaths` paths, since the bytes of a short path are the digits of a
small number (`code_lt`), so no frontier ever sees more than `roundLimit` artifacts (`length_le_roundLimit`).
-/
namespace IncludeClosure
namespace Frontier

/-- See artifacts, one after another. -/
def seeAll (f : Frontier) (xs : List Artifact) : Frontier :=
  xs.foldl see f

@[simp] theorem seeAll_nil (f : Frontier) : f.seeAll [] = f := rfl

@[simp] theorem seeAll_cons (f : Frontier) (a : Artifact) (xs : List Artifact) :
    f.seeAll (a :: xs) = (f.see a).seeAll xs := rfl

theorem see_of_mem {f : Frontier} {a : Artifact} (h : a ∈ f.seen) : f.see a = f := if_pos h

theorem see_of_notMem {f : Frontier} {a : Artifact} (h : a ∉ f.seen) :
    f.see a = { seen := a :: f.seen, pending := a :: f.pending } := if_neg h

theorem mem_seen_see {f : Frontier} {a b : Artifact} : b ∈ (f.see a).seen ↔ b = a ∨ b ∈ f.seen := by
  by_cases h : a ∈ f.seen
  · rw [see_of_mem h]
    constructor
    · exact .inr
    · rintro (rfl | hb)
      · exact h
      · exact hb
  · rw [see_of_notMem h, List.mem_cons]

theorem mem_seen_seeAll : ∀ (xs : List Artifact) {f : Frontier} {b : Artifact},
    b ∈ (f.seeAll xs).seen ↔ b ∈ f.seen ∨ b ∈ xs
  | [], f, b => by simp
  | a :: xs, f, b => by
    rw [seeAll_cons, mem_seen_seeAll xs, mem_seen_see, List.mem_cons, or_comm (a := b = a), or_assoc]

/-- **What is new** comes in front of what was seen and of what is pending, each artifact once. -/
theorem exists_new : ∀ (xs : List Artifact) (f : Frontier), ∃ new,
    (f.seeAll xs).seen = new ++ f.seen ∧ (f.seeAll xs).pending = new ++ f.pending ∧
      (f.seen.Nodup → (f.seeAll xs).seen.Nodup)
  | [], f => ⟨[], rfl, rfl, id⟩
  | a :: xs, f => by
    obtain ⟨new, hs, hp, hn⟩ := exists_new xs (f.see a)
    rw [seeAll_cons]
    by_cases h : a ∈ f.seen
    · rw [see_of_mem h] at hs hp hn ⊢
      exact ⟨new, hs, hp, hn⟩
    · rw [see_of_notMem h] at hs hp hn ⊢
      exact ⟨new ++ [a], by simp [hs], by simp [hp], fun hf => hn (List.nodup_cons.2 ⟨h, hf⟩)⟩

end Frontier

namespace Path

/-- A number that tells a path from every other: its bytes as digits, and a one in front. -/
def code (p : Path) : Nat :=
  Nat.ofDigits 256 ((Text.utf8Bytes p.text).map UInt8.toNat ++ [1])

theorem digit_lt {p : Path} {d : Nat} (h : d ∈ (Text.utf8Bytes p.text).map UInt8.toNat ++ [1]) : d < 256 := by
  rcases List.mem_append.1 h with h | h
  · obtain ⟨b, -, rfl⟩ := List.mem_map.1 h
    exact b.toNat_lt
  · rw [List.mem_singleton.1 h]; decide

theorem code_injective : Function.Injective code := by
  intro p q h
  have digits (p : Path) : Nat.digits 256 p.code = (Text.utf8Bytes p.text).map UInt8.toNat ++ [1] :=
    Nat.digits_ofDigits 256 (by decide) _ (fun _ => digit_lt) (by simp)
  have hd := digits p
  rw [h, digits q] at hd
  have hb : Text.utf8Bytes q.text = Text.utf8Bytes p.text :=
    List.map_injective_iff.2 (fun _ _ => UInt8.toNat_inj.1) (List.append_cancel_right hd)
  have ht : q.text = p.text := by
    have := congrArg Text.ofUtf8? hb
    rw [Text.ofUtf8?_utf8Bytes, Text.ofUtf8?_utf8Bytes] at this
    exact Option.some.inj this
  cases p; cases q; cases ht; rfl

/-- **A path that the system takes** has a small number. -/
theorem code_lt {p : Path} (h : p.text.utf8ByteSize ≤ FileTree.longestPath) : p.code < Lookup.nameablePaths := by
  have hl : ((Text.utf8Bytes p.text).map UInt8.toNat ++ [1]).length ≤ FileTree.longestPath + 1 := by
    rw [List.length_append, List.length_map]
    exact Nat.succ_le_succ h
  unfold Lookup.nameablePaths
  generalize FileTree.longestPath + 1 = digits at hl
  have hcode : p.code < 256 ^ ((Text.utf8Bytes p.text).map UInt8.toNat ++ [1]).length :=
    Nat.ofDigits_lt_base_pow_length (by decide) fun _ => digit_lt
  exact Nat.lt_of_lt_of_le hcode (Nat.pow_le_pow_right (by decide) hl)

end Path

namespace Lookup

/-- **What a scan of some entry sources can see on a tree:** these, the generated files, and the artifacts of regular
files. -/
def Sighted (l : Lookup) (t : FileTree) (sources : List Artifact) (a : Artifact) : Prop :=
  a ∈ sources ∨ a ∈ l.generated.entries.map (·.1) ∨ ∃ p, t.isFile p = true ∧ a = l.context.roots.resolve p

theorem sighted_of_meaning {l : Lookup} {t : FileTree} {sources : List Artifact} {beside : Option Path}
    {form : IncludeForm} {name : String} {a : Artifact} (h : l.meaning? t beside form name = some a) :
    l.Sighted t sources a :=
  .inr ((found_of_meaning h).imp_right fun ⟨p, _, hf⟩ => ⟨p, hf⟩)

theorem size_le_of_isFile {t : FileTree} {p : Path} (h : t.isFile p = true) :
    p.text.utf8ByteSize ≤ FileTree.longestPath := by
  obtain ⟨position, f, hf⟩ := FileTree.isFile_iff_find.1 h
  exact FileTree.size_le_of_find hf

/-- There are no more entry sources, generated files and artifacts of paths that the system takes than rounds. -/
theorem length_le_of_nameable (l : Lookup) (sources seen : List Artifact) (hn : seen.Nodup)
    (h : ∀ a ∈ seen, a ∈ sources ∨ a ∈ l.generated.entries.map (·.1) ∨
      ∃ p : Path, p.text.utf8ByteSize ≤ FileTree.longestPath ∧ a = l.context.roots.resolve p) :
    seen.length ≤ l.roundLimit sources.length := by
  let pathAt : Nat → Path := Function.invFun Path.code
  have hinv (p : Path) : pathAt p.code = p := Function.leftInverse_invFun Path.code_injective p
  have hsub : seen ⊆ sources ++ l.generated.entries.map (·.1) ++
      (List.range nameablePaths).map (fun n => l.context.roots.resolve (pathAt n)) := by
    intro a ha
    rcases h a ha with hs | hg | ⟨p, hp, rfl⟩
    · exact List.mem_append_left _ (List.mem_append_left _ hs)
    · exact List.mem_append_left _ (List.mem_append_right _ hg)
    · refine List.mem_append_right _ (List.mem_map.2 ⟨p.code, ?_, by rw [hinv]⟩)
      exact List.mem_range.2 (Path.code_lt hp)
  have hl := (hn.subperm hsub).length_le
  rw [List.length_append, List.length_append, List.length_map, List.length_map, List.length_range] at hl
  exact hl

/-- **There are never more artifacts to see than rounds.** -/
theorem length_le_roundLimit (l : Lookup) (t : FileTree) (sources seen : List Artifact) (hn : seen.Nodup)
    (h : ∀ a ∈ seen, l.Sighted t sources a) : seen.length ≤ l.roundLimit sources.length := by
  refine l.length_le_of_nameable sources seen hn fun a ha => ?_
  exact (h a ha).imp_right (Or.imp_right fun ⟨p, file, e⟩ => ⟨p, size_le_of_isFile file, e⟩)

end Lookup
end IncludeClosure
