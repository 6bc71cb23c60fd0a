import IncludeClosure.Proofs.Scan.Closure
/-!
# Proofs.Scan.Lockstep — two scans that do the same

Two scans are in **lock step** on a tree when they do the same to the memo and to what is found, whatever these are, and
give related results; which scanners are in use may differ.  A sequence is in lock step part by part
(`Lockstep.bind`).  A candidate that is passed over leaves no trace, so only the first candidate that counts matters,
and two configurations that agree on it for every name (`SearchDirs.Alike`) have closures in lock step
(`lockstep_closure`).
-/
namespace IncludeClosure

/-- Two stores that differ in the scanners at most. -/
structure ScanStore.Agree (s s' : ScanStore) : Prop where
  memo : s.cache.memo = s'.cache.memo
  found : s.found = s'.found

/-- The step leaves the scanners alone. -/
def Step.Quiet : Step → Prop
  | .findScanner _ | .buildScanner _ | .keepScanner _ => False
  | _ => True

namespace Scan

variable {α β γ δ : Type} {t : FileTree}

/-- **Two scans in lock step:** from stores that agree they come to stores that agree, and their results are related. -/
def Lockstep (t : FileTree) (R : α → β → Prop) (scan : Scan α) (scan' : Scan β) : Prop :=
  ∀ s s', ScanStore.Agree s s' →
    R (runOn t scan s).1 (runOn t scan' s').1 ∧ (runOn t scan s).2.Agree (runOn t scan' s').2

theorem lockstep_done {R : α → β → Prop} {a : α} {b : β} (h : R a b) : Lockstep t R (.done a) (.done b) :=
  fun _ _ agree => ⟨h, agree⟩

theorem Lockstep.bind {R : α → β → Prop} {S : γ → δ → Prop} {scan : Scan α} {scan' : Scan β}
    (first : Lockstep t R scan scan') {f : α → Scan γ} {g : β → Scan δ}
    (rest : ∀ a b, R a b → Lockstep t S (f a) (g b)) : Lockstep t S (scan >>= f) (scan' >>= g) := by
  intro s s' agree
  obtain ⟨related, agree⟩ := first s s' agree
  rw [runOn_bind, runOn_bind]
  exact rest _ _ related _ _ agree

/-- **A part that both have** may be followed by anything that depends on it in the same way. -/
theorem Lockstep.andThen {S : γ → δ → Prop} {scan scan' : Scan α} (first : Lockstep t Eq scan scan') {f : α → Scan γ}
    {g : α → Scan δ} (rest : ∀ a, Lockstep t S (f a) (g a)) : Lockstep t S (scan >>= f) (scan' >>= g) :=
  first.bind fun a _ same => same ▸ rest a

theorem lockstep_step {step : Step} (quiet : step.Quiet) : Lockstep t Eq (Scan.step step) (Scan.step step) := by
  rintro s s' ⟨memo, found⟩
  cases step with
  | findScanner _ | buildScanner _ | keepScanner _ => exact quiet.elim
  | disk question => exact ⟨rfl, memo, found⟩
  | recallFile p => exact ⟨congrArg (·.knowsFile p) memo, memo, found⟩
  | rememberFile p => exact ⟨rfl, congrArg (·.rememberFile p) memo, found⟩
  | recallLexed p => exact ⟨congrArg (·.lexed? p) memo, memo, found⟩
  | rememberLexed p stamp directives => exact ⟨rfl, congrArg (·.rememberLexed p stamp directives) memo, found⟩
  | record a => exact ⟨rfl, memo, congrArg (·.insert a) found⟩

theorem lockstep_step_bind {S : γ → δ → Prop} {step : Step} {f : step.Answer → Scan γ} {g : step.Answer → Scan δ}
    (quiet : step.Quiet) (rest : ∀ answer, Lockstep t S (f answer) (g answer)) :
    Lockstep t S (Scan.step step >>= f) (Scan.step step >>= g) :=
  (lockstep_step quiet).andThen rest

theorem lockstep_isFile (p : Path) : Lockstep t Eq (isFile p) (isFile p) := by
  unfold isFile
  refine lockstep_step_bind trivial fun known => ?_
  split
  · exact lockstep_done rfl
  · refine lockstep_step_bind trivial fun status => ?_
    split
    · exact lockstep_step_bind trivial fun _ => lockstep_done rfl
    · exact lockstep_done rfl

theorem lockstep_readDirectives (p : Path) (stamp : Option Stamp) :
    Lockstep t Eq (readDirectives p stamp) (readDirectives p stamp) := by
  unfold readDirectives
  refine lockstep_step_bind trivial fun contents => ?_
  split
  · exact lockstep_done rfl
  · dsimp only
    split
    · exact lockstep_step_bind trivial fun _ => lockstep_done rfl
    · exact lockstep_done rfl

theorem lockstep_directives (p : Path) : Lockstep t Eq (directives p) (directives p) := by
  unfold directives
  refine lockstep_step_bind trivial fun status => ?_
  split
  · exact lockstep_done rfl
  · exact lockstep_readDirectives p none
  · refine lockstep_step_bind trivial fun remembered => ?_
    split
    · split
      · exact lockstep_done rfl
      · exact lockstep_readDirectives p _
    · exact lockstep_readDirectives p _

/-- A question whose answer is no leaves no trace. -/
theorem runOn_isFile_of_eq_false {p : Path} {s : ScanStore} (no : (runOn t (isFile p) s).1 = false) :
    (runOn t (isFile p) s).2 = s := by
  have recalled : runOn t (step (.recallFile p)) s = (s.cache.memo.knowsFile p, s) := rfl
  have asked : runOn t (disk (.status p)) s = (t.status p, s) := rfl
  unfold isFile at no ⊢
  rw [runOn_bind, recalled] at no ⊢
  dsimp only at no ⊢
  split at no
  · cases no
  · rename_i unknown
    rw [if_neg unknown, runOn_bind, asked]
    rw [runOn_bind, asked] at no
    dsimp only at no ⊢
    split at no
    · cases no
    · rfl

end Scan

namespace SearchDirs

/-- **Two configurations search alike:** whatever makes a candidate count, the first that counts is the same. -/
def Alike (dirs dirs' : SearchDirs) : Prop :=
  ∀ (beside : Option Path) (form : IncludeForm) (name : String) (β : Type) (counts : Path → Option β),
    (dirs.candidates beside form name).findSome? counts = (dirs'.candidates beside form name).findSome? counts

end SearchDirs

namespace Lookup

open Scan (Lockstep lockstep_done lockstep_step_bind runOn)

variable {t : FileTree} {l : Lookup}

/-- What a candidate counts as, for a scan with a store, and the store when it has been found. -/
def hit? (l : Lookup) (t : FileTree) (s : ScanStore) (p : Path) : Option (Artifact × ScanStore) :=
  (runOn t (l.existing? p) s).1.map (fun a => (a, (runOn t (l.existing? p) s).2))

theorem runOn_existing_of_eq_none {p : Path} {s : ScanStore} (none : (runOn t (l.existing? p) s).1 = none) :
    (runOn t (l.existing? p) s).2 = s := by
  unfold existing? at none ⊢
  split at none
  · cases none
  · rw [Scan.runOn_bind] at none ⊢
    cases isFile : (runOn t (Scan.isFile p) s).1 with
    | true => simp [isFile] at none
    | false => simpa [isFile] using Scan.runOn_isFile_of_eq_false isFile

/-- **Only the first candidate that counts** is noticed. -/
theorem runOn_firstExisting (s : ScanStore) : ∀ ps : List Path, runOn t (l.firstExisting? ps) s =
    ((ps.findSome? (l.hit? t s)).map (fun (a, s') => (some a, s'))).getD (none, s)
  | [] => rfl
  | p :: ps => by
    unfold firstExisting?
    rw [Scan.runOn_bind, List.findSome?_cons]
    cases found : (runOn t (l.existing? p) s).1 with
    | some a => simp [hit?, found]
    | none => simp [hit?, found, runOn_existing_of_eq_none found, runOn_firstExisting s ps]

theorem lockstep_existing (p : Path) : Lockstep t Eq (l.existing? p) (l.existing? p) := by
  unfold existing?
  split
  · exact lockstep_done rfl
  · refine (Scan.lockstep_isFile p).andThen fun isFile => ?_
    split <;> exact lockstep_done rfl

theorem lockstep_firstExisting : ∀ ps : List Path, Lockstep t Eq (l.firstExisting? ps) (l.firstExisting? ps)
  | [] => lockstep_done rfl
  | p :: ps => by
    unfold firstExisting?
    refine (lockstep_existing p).andThen fun found => ?_
    split
    · exact lockstep_done rfl
    · exact lockstep_firstExisting ps

theorem lockstep_directivesOf (a : Artifact) : Lockstep t Eq (l.directivesOf a) (l.directivesOf a) := by
  unfold directivesOf
  split
  · rename_i written _
    refine (Scan.lockstep_isFile written).andThen fun isFile => ?_
    split
    · exact (Scan.lockstep_directives written).andThen fun _ => lockstep_done rfl
    · exact lockstep_done rfl
  · exact (Scan.lockstep_directives a.path).andThen fun _ => lockstep_done rfl

theorem lockstep_seeSources : ∀ (sources : List Artifact) (f : Frontier),
    Lockstep t Eq (seeSources sources f) (seeSources sources f)
  | [], _ => lockstep_done rfl
  | a :: sources, f => lockstep_step_bind trivial fun _ => lockstep_seeSources sources (f.see a)

section

variable {dirs : SearchDirs} (alike : l.dirs.Alike dirs)
include alike

/-- **A name is looked up** with the same result. -/
theorem lockstep_find (beside : Option Path) (form : IncludeForm) (name : String) :
    Lockstep t Eq (l.find? beside form name) ({ l with dirs }.find? beside form name) := by
  intro s s' agree
  have other : runOn t ({ l with dirs }.find? beside form name) s' = runOn t (l.find? beside form name) s' := by
    unfold find?
    rw [runOn_firstExisting, runOn_firstExisting, alike beside form name]
    rfl
  rw [other]
  exact lockstep_firstExisting _ s s' agree

theorem lockstep_seeForced (beside : Option Path) : ∀ (names : List String) (f : Frontier),
    Lockstep t Eq (l.seeForced beside names f) ({ l with dirs }.seeForced beside names f)
  | [], _ => lockstep_done rfl
  | name :: names, f => by
    unfold seeForced
    refine (lockstep_find alike beside .quote name).andThen fun found => ?_
    split
    · rename_i a
      exact lockstep_step_bind trivial fun _ => lockstep_seeForced beside names (f.see a)
    · exact lockstep_seeForced beside names f

theorem lockstep_seeDirectives (beside : Option Path) : ∀ (ds : List Directive) (f : Frontier),
    Lockstep t Eq (l.seeDirectives beside ds f) ({ l with dirs }.seeDirectives beside ds f)
  | [], _ => lockstep_done rfl
  | d :: ds, f => by
    unfold seeDirectives
    refine (lockstep_find alike beside d.form d.target).andThen fun found => ?_
    split
    · rename_i a
      split
      · exact lockstep_seeDirectives beside ds f
      · exact lockstep_step_bind trivial fun _ => lockstep_seeDirectives beside ds (f.see a)
    · exact lockstep_seeDirectives beside ds f

theorem lockstep_follow : ∀ (rounds : Nat) (f : Frontier),
    Lockstep t Eq (l.follow rounds f) ({ l with dirs }.follow rounds f)
  | 0, _ => lockstep_done rfl
  | rounds + 1, f => by
    unfold follow
    split
    · exact lockstep_done rfl
    · rename_i a rest _
      dsimp only
      split
      · exact lockstep_done rfl
      · refine (lockstep_directivesOf a).andThen fun outcome => ?_
        split
        · exact lockstep_done rfl
        · rename_i ds
          refine (lockstep_seeDirectives alike _ ds _).andThen fun f => ?_
          exact lockstep_follow rounds f

/-- **The closures of two configurations that search alike** are in lock step. -/
theorem lockstep_closure (mainSource : Artifact) (sources : List Artifact) (forced : List String) :
    Lockstep t Eq (l.closure mainSource sources forced) ({ l with dirs }.closure mainSource sources forced) := by
  unfold closure
  refine (lockstep_seeSources sources .empty).andThen fun f => ?_
  refine (lockstep_seeForced alike _ forced f).andThen fun f => ?_
  exact lockstep_follow alike _ f

end

end Lookup
end IncludeClosure
