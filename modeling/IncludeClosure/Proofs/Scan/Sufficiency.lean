import IncludeClosure.Proofs.Artifact.Resolve
import IncludeClosure.Proofs.Scan.Action
import IncludeClosure.Proofs.Scan.Reads
/-!
# Proofs.Scan.Sufficiency — a scan depends on the files it reads and on no others

What names mean depends on which files there are, not on what they hold, and the directives of an artifact are read from
its place alone.  So every part of a scan follows (`Scan.Follows`), down from the look-ups over the rounds of a unit to
the units of an action.  On the way the parts account for what they read (`Lookup.Accounts`, `Scan.Accounts`): they read
the places of what they record, and when they end well they have read them all, also from the memo.  The rounds have to
suffice for that, as for a complete closure (`Fits`).  So the inputs of an action are the same on every tree that
differs from the one at hand only in files that the scan did not read (`Job.inputs_of_editedAt`).
-/
namespace IncludeClosure

namespace Lookup

open Scan (Follows Finds follows_done follows_mono follows_bind follows_record)

variable {l : Lookup} {t t' : FileTree} {read : Position → Prop}

/-- The file that the directives of an artifact are read from, if there is one, has been read. -/
def Covered (l : Lookup) (t : FileTree) (read : Position → Prop) (a : Artifact) : Prop :=
  ∀ position f, t.find (l.readPath a) = .ok (position, .file f) → read position

/-- **A frontier for which the rounds suffice.** -/
structure Fits (l : Lookup) (t : FileTree) (sources : List Artifact) (rounds : Nat) (f : Frontier) : Prop where
  nodup : f.seen.Nodup
  sighted : ∀ a ∈ f.seen, l.Sighted t sources a
  rounds : rounds + f.seen.length = l.roundLimit sources.length + f.pending.length

/-- **What some rounds come to** when `known` is pending before: all paths that are read are the places of artifacts
that are pending or recorded, and a good end means that all these have been read. -/
structure Accounts (l : Lookup) (t : FileTree) (read : Position → Prop) (known found : List Artifact)
    (paths : List Path) (outcome : Except ScanError Unit) : Prop where
  places : ∀ p ∈ paths, ∃ a, (a ∈ known ∨ a ∈ found) ∧ p = l.readPath a
  covered : outcome = .ok () → ∀ a, a ∈ known ∨ a ∈ found → l.Covered t read a

theorem Accounts.ofDone : l.Accounts t read [] [] [] (.ok ()) where
  places _ h := absurd h List.not_mem_nil
  covered _ a h := absurd h (by simp)

theorem Fits.done {sources : List Artifact} {f : Frontier} (fits : l.Fits t sources 0 f) : f.pending = [] := by
  have enough := l.length_le_roundLimit t sources f.seen fits.nodup fits.sighted
  have rounds := fits.rounds
  exact List.eq_nil_of_length_eq_zero (by omega)

theorem follows_seeSources : ∀ (sources : List Artifact) (f : Frontier),
    Follows t t' read (seeSources sources f) fun found paths f' =>
      found = sources ∧ paths = [] ∧ f' = f.seeAll sources
  | [], _ => follows_done ⟨rfl, rfl, rfl⟩
  | a :: sources, f => by
    refine follows_record (follows_mono (follows_seeSources sources (f.see a)) ?_)
    rintro _ _ _ ⟨rfl, rfl, rfl⟩
    exact ⟨rfl, rfl, rfl⟩

section

variable (edited : t.EditedAt (fun position => ¬ read position) t')
include edited

theorem finds_existing (sources : List Artifact) (p : Path) :
    Finds t t' read (l.existing? p) fun found => ∀ a, found = some a → l.Sighted t sources a := by
  unfold existing?
  split
  · rename_i found lies
    refine follows_done ⟨rfl, rfl, fun a e => ?_⟩
    cases e
    exact .inr (.inl (GeneratedFiles.mem_of_lyingAt? lies))
  · refine (Scan.finds_isFile edited p).bind fun known h => ?_
    split
    · obtain ⟨q, spelled, hq⟩ := h.1 ‹_›
      refine follows_done ⟨rfl, rfl, fun a e => ?_⟩
      cases e
      exact .inr (.inr ⟨q, hq, l.context.roots.resolve_congr spelled.symm⟩)
    · exact follows_done ⟨rfl, rfl, fun a e => by cases e⟩

theorem finds_firstExisting (sources : List Artifact) : ∀ ps : List Path,
    Finds t t' read (l.firstExisting? ps) fun found => ∀ a, found = some a → l.Sighted t sources a
  | [] => follows_done ⟨rfl, rfl, fun a e => by cases e⟩
  | p :: ps => by
    refine (finds_existing edited sources p).bind fun found h => ?_
    split
    · exact follows_done ⟨rfl, rfl, h⟩
    · exact finds_firstExisting sources ps

/-- **What a name means** does not depend on what files hold. -/
theorem finds_find (sources : List Artifact) (beside : Option Path) (form : IncludeForm) (name : String) :
    Finds t t' read (l.find? beside form name) fun found => ∀ a, found = some a → l.Sighted t sources a :=
  finds_firstExisting edited sources _

/-- **The directives of an artifact** are read from the place of the artifact, if from anywhere. -/
theorem follows_directivesOf (a : Artifact) :
    Follows t t' read (l.directivesOf a) fun found paths outcome =>
      found = [] ∧ (∀ p ∈ paths, p = l.readPath a) ∧ ∀ ds, outcome = .ok ds → l.Covered t read a := by
  have place {p : Path} (hp : l.readPath a = p) :
      Follows t t' read (Scan.directives p >>= fun ds => pure (ds.mapError (ScanError.unreadable p)))
        fun found paths outcome =>
          found = [] ∧ (∀ q ∈ paths, q = l.readPath a) ∧ ∀ ds, outcome = .ok ds → l.Covered t read a := by
    refine follows_bind (follows_mono (Scan.follows_directives edited p) ?_)
    rintro found paths ds ⟨rfl, hpaths, seen⟩
    refine follows_done ⟨rfl, fun q hq => ?_, fun _ _ => ?_⟩
    · rw [List.append_nil] at hq
      exact (hpaths q hq).trans hp.symm
    · unfold Covered
      rw [hp]
      exact seen
  unfold directivesOf
  split
  · rename_i written e
    have hp : l.readPath a = written := by rw [readPath, e]; rfl
    refine (Scan.finds_isFile edited written).bind fun known h => ?_
    split
    · exact place hp
    · rename_i unwritten
      have absent := h.2 (Bool.not_eq_true _ ▸ unwritten)
      refine follows_done ⟨rfl, by simp, fun _ _ position f hf => ?_⟩
      rw [hp] at hf
      rw [FileTree.isFile_iff_find.2 ⟨position, f, hf⟩] at absent
      cases absent
  · rename_i e
    have hp : l.readPath a = a.path := by rw [readPath, e]; rfl
    exact place hp

theorem follows_seeForced (sources : List Artifact) (beside : Option Path) : ∀ (names : List String) (f : Frontier),
    Follows t t' read (l.seeForced beside names f) fun found paths f' =>
      paths = [] ∧ f' = f.seeAll found ∧ ∀ a ∈ found, l.Sighted t sources a
  | [], _ => follows_done ⟨rfl, rfl, fun _ h => absurd h List.not_mem_nil⟩
  | name :: names, f => by
    refine (finds_find edited sources beside .quote name).bind fun found sighted => ?_
    cases found with
    | none => exact follows_seeForced sources beside names f
    | some a =>
      refine follows_record (follows_mono (follows_seeForced sources beside names (f.see a)) ?_)
      rintro found _ _ ⟨rfl, rfl, more⟩
      refine ⟨rfl, rfl, fun b hb => ?_⟩
      rcases List.mem_cons.1 hb with rfl | hb
      · exact sighted b rfl
      · exact more b hb

/-- **What the directives of a file mean** is recorded if it is new, and is pending then. -/
theorem follows_seeDirectives (sources : List Artifact) (beside : Option Path) : ∀ (ds : List Directive) (f : Frontier),
    Follows t t' read (l.seeDirectives beside ds f) fun found paths f' =>
      paths = [] ∧ f'.seen = found.reverse ++ f.seen ∧ f'.pending = found.reverse ++ f.pending ∧
        (f.seen.Nodup → f'.seen.Nodup) ∧ ∀ a ∈ found, l.Sighted t sources a
  | [], _ => follows_done ⟨rfl, rfl, rfl, id, fun _ h => absurd h List.not_mem_nil⟩
  | d :: ds, f => by
    refine (finds_find edited sources beside d.form d.target).bind fun found sighted => ?_
    cases found with
    | none => exact follows_seeDirectives sources beside ds f
    | some a =>
      dsimp only
      split
      · exact follows_seeDirectives sources beside ds f
      · rename_i new
        refine follows_record (follows_mono (follows_seeDirectives sources beside ds (f.see a)) ?_)
        rintro found _ f' ⟨rfl, seen, pending, nodup, more⟩
        rw [Frontier.see_of_notMem new] at seen pending nodup
        refine ⟨rfl, by simp [seen], by simp [pending], fun h => nodup (List.nodup_cons.2 ⟨new, h⟩), fun b hb => ?_⟩
        rcases List.mem_cons.1 hb with rfl | hb
        · exact sighted b rfl
        · exact more b hb

/-- **The rounds of a scan** read the places of what they follow, and when they end well they have read them all. -/
theorem follows_follow (sources : List Artifact) : ∀ (rounds : Nat) (f : Frontier), l.Fits t sources rounds f →
    Follows t t' read (l.follow rounds f) (l.Accounts t read f.pending)
  | 0, f, fits => by
    rw [fits.done]
    exact follows_done .ofDone
  | rounds + 1, f, fits => by
    unfold follow
    cases top : f.pending with
    | nil => exact follows_done .ofDone
    | cons a rest =>
      dsimp only
      split
      · exact follows_done ⟨fun _ h => absurd h List.not_mem_nil, fun h => by cases h⟩
      · refine follows_bind (follows_mono (follows_directivesOf edited a) ?_)
        rintro _ first outcome ⟨rfl, place, covered⟩
        cases outcome with
        | error e =>
          refine follows_done ⟨fun p hp => ?_, fun h => by cases h⟩
          rw [List.append_nil] at hp
          exact ⟨a, .inl List.mem_cons_self, place p hp⟩
        | ok ds =>
          refine follows_bind (follows_mono (follows_seeDirectives edited sources _ ds _) ?_)
          rintro found _ f' ⟨rfl, seen, pending, nodup, sighted⟩
          -- all that is new can be reached, so the rounds that are left suffice for it
          have next : l.Fits t sources rounds f' := by
            have count := fits.rounds
            constructor
            case nodup => exact nodup fits.nodup
            case sighted =>
              intro b hb
              rw [seen, List.mem_append, List.mem_reverse] at hb
              exact hb.elim (sighted b) (fits.sighted b)
            case rounds =>
              rw [top, List.length_cons] at count
              rw [seen, pending, List.length_append, List.length_append]
              dsimp only
              omega
          refine follows_mono (follows_follow sources rounds f' next) ?_
          intro more others outcome accounts
          have split (b : Artifact) : b ∈ f'.pending ∨ b ∈ more ↔ b ∈ rest ∨ b ∈ found ++ more := by
            rw [pending, List.mem_append, List.mem_reverse, List.mem_append]
            tauto
          constructor
          case places =>
            intro p hp
            rcases List.mem_append.1 hp with hp | hp
            · exact ⟨a, .inl List.mem_cons_self, place p hp⟩
            · obtain ⟨b, hb, e⟩ := accounts.places p hp
              exact ⟨b, ((split b).1 hb).imp_left (List.mem_cons_of_mem _), e⟩
          case covered =>
            intro hok b hb
            by_cases same : b = a
            · rw [same]
              exact covered ds rfl
            · exact accounts.covered hok b ((split b).2 (hb.imp_left fun h => (List.mem_cons.1 h).resolve_left same))

/-- **The closure of some entry sources and forced includes** reads the places of what it records. -/
theorem follows_closure (mainSource : Artifact) (sources : List Artifact) (forced : List String) :
    Follows t t' read (l.closure mainSource sources forced) (l.Accounts t read sources) := by
  unfold closure
  refine follows_bind (follows_mono (follows_seeSources sources .empty) ?_)
  rintro sources _ _ ⟨rfl, rfl, rfl⟩
  refine follows_bind (follows_mono (follows_seeForced edited sources mainSource.path.parent? forced _) ?_)
  rintro found _ _ ⟨rfl, rfl, sighted⟩
  have joined : (Frontier.empty.seeAll sources).seeAll found = Frontier.empty.seeAll (sources ++ found) :=
    List.foldl_append.symm
  rw [joined]
  obtain ⟨new, seen, pending, nodup⟩ := Frontier.exists_new (sources ++ found) .empty
  have alike : (Frontier.empty.seeAll (sources ++ found)).seen = (Frontier.empty.seeAll (sources ++ found)).pending :=
    seen.trans pending.symm
  have member (a : Artifact) : a ∈ (Frontier.empty.seeAll (sources ++ found)).pending ↔ a ∈ sources ∨ a ∈ found := by
    rw [← alike, Frontier.mem_seen_seeAll, List.mem_append]
    exact or_iff_right List.not_mem_nil
  have fits : l.Fits t sources (l.roundLimit sources.length) (Frontier.empty.seeAll (sources ++ found)) := by
    refine ⟨nodup List.nodup_nil, fun a ha => ?_, by rw [alike]⟩
    rw [alike] at ha
    rcases (member a).1 ha with ha | ha
    · exact .inl ha
    · exact sighted a ha
  refine follows_mono (follows_follow edited sources _ _ fits) ?_
  intro more others outcome accounts
  have split (a : Artifact) : a ∈ sources ∨ a ∈ sources ++ (found ++ more) ↔
      a ∈ (Frontier.empty.seeAll (sources ++ found)).pending ∨ a ∈ more := by
    rw [member, List.mem_append, List.mem_append]
    tauto
  constructor
  case places =>
    intro p hp
    obtain ⟨a, ha, e⟩ := accounts.places p hp
    exact ⟨a, (split a).2 ha, e⟩
  case covered => exact fun hok a ha => accounts.covered hok a ((split a).1 ha)

end

end Lookup
namespace Scan

variable {t t' : FileTree} {read : Position → Prop}

theorem finds_scannerFor (dirs : SearchDirs) : Finds t t' read (scannerFor dirs) fun _ => True := by
  unfold scannerFor
  refine (finds_step fun s => ⟨_, rfl, rfl, rfl⟩).bind fun inUse _ => ?_
  split
  · exact follows_done ⟨rfl, rfl, trivial⟩
  · refine (finds_step fun s => ⟨_, rfl, rfl, rfl⟩).bind fun scanner _ => ?_
    exact finds_step fun s => ⟨_, rfl, rfl, rfl⟩

theorem follows_recordAll : ∀ artifacts : List Artifact,
    Follows t t' read (recordAll artifacts) fun found paths _ => found = artifacts ∧ paths = []
  | [] => follows_done ⟨rfl, rfl⟩
  | a :: artifacts => by
    refine follows_record (follows_mono (follows_recordAll artifacts) ?_)
    rintro _ _ _ ⟨rfl, rfl⟩
    exact ⟨rfl, rfl⟩

/-- **What the scans of some units come to:** all paths that are read are places of what is recorded, and a good end
means that every artifact that is recorded has been read in a unit. -/
structure Accounts (job : Job) (t : FileTree) (read : Position → Prop) (us : List CompilationUnit)
    (found : List Artifact) (paths : List Path) (outcome : Except ScanError Unit) : Prop where
  places : ∀ p ∈ paths, ∃ u ∈ us, ∃ a ∈ found, p = (job.lookup u).readPath a
  covered : outcome = .ok () → ∀ a ∈ found, ∃ u ∈ us, (job.lookup u).Covered t read a

section

variable (edited : t.EditedAt (fun position => ¬ read position) t') (job : Job)
include edited

theorem follows_unit (u : CompilationUnit) :
    Follows t t' read (unit job.context job.unit.builtinDirs u) ((job.lookup u).Accounts t read []) := by
  unfold unit
  split
  · exact follows_done ⟨fun _ h => absurd h List.not_mem_nil, fun h => by cases h⟩
  · refine (finds_scannerFor _).bind fun scanner _ => ?_
    refine follows_bind (follows_mono (follows_recordAll u.sources) ?_)
    rintro found _ _ ⟨rfl, rfl⟩
    refine follows_mono (Lookup.follows_closure edited u.mainSource u.sources u.forcedIncludes) ?_
    intro more others outcome accounts
    -- where an artifact is read does not depend on the scanner in use
    have split (a : Artifact) : a ∈ [] ∨ a ∈ u.sources ++ more ↔ a ∈ u.sources ∨ a ∈ more := by
      rw [List.mem_append]
      exact or_iff_right List.not_mem_nil
    constructor
    case places =>
      intro p hp
      obtain ⟨a, ha, e⟩ := accounts.places p hp
      exact ⟨a, (split a).2 ha, e⟩
    case covered => exact fun hok a ha => accounts.covered hok a ((split a).1 ha)

theorem follows_eachUnit : ∀ us : List CompilationUnit,
    Follows t t' read (eachUnit job.context job.unit.builtinDirs us) (Accounts job t read us)
  | [] => follows_done ⟨fun _ h => absurd h List.not_mem_nil, fun _ _ h => absurd h List.not_mem_nil⟩
  | u :: us => by
    unfold eachUnit
    refine follows_bind (follows_mono (follows_unit edited job u) ?_)
    intro found paths outcome first
    cases outcome with
    | error e =>
      refine follows_done ⟨fun p hp => ?_, fun h => by cases h⟩
      rw [List.append_nil] at hp
      obtain ⟨a, ha, e⟩ := first.places p hp
      exact ⟨u, List.mem_cons_self, a, List.mem_append_left _ (ha.resolve_left List.not_mem_nil), e⟩
    | ok =>
      refine follows_mono (follows_eachUnit us) ?_
      intro more others outcome rest
      constructor
      case places =>
        intro p hp
        rcases List.mem_append.1 hp with hp | hp
        · obtain ⟨a, ha, e⟩ := first.places p hp
          exact ⟨u, List.mem_cons_self, a, List.mem_append_left _ (ha.resolve_left List.not_mem_nil), e⟩
        · obtain ⟨v, hv, a, ha, e⟩ := rest.places p hp
          exact ⟨v, List.mem_cons_of_mem _ hv, a, List.mem_append_right _ ha, e⟩
      case covered =>
        intro hok a ha
        rcases List.mem_append.1 ha with ha | ha
        · exact ⟨u, List.mem_cons_self, first.covered rfl a (.inr ha)⟩
        · obtain ⟨v, hv, seen⟩ := rest.covered hok a ha
          exact ⟨v, List.mem_cons_of_mem _ hv, seen⟩

end

end Scan

namespace Job

/-- **What the scan of an action finds** on a tree, from a fresh cache. -/
def accumulated (job : Job) (t : FileTree) : ArtifactSet :=
  (Scan.runOn t (Scan.units job.context job.unit) (.ofCache .empty)).2.found

/-- The scan of the action asks for the contents of the file at the position. -/
def Reads (job : Job) (t : FileTree) (position : Position) : Prop :=
  ∃ p, Disk.contents p ∈ (job.inputs .empty).asked t.answer ∧ ∃ f, t.find p = .ok (position, .file f)

theorem mem_asked_iff (job : Job) (t : FileTree) (p : Path) :
    Disk.contents p ∈ (job.inputs .empty).asked t.answer ↔
      p ∈ Scan.readsOn t (Scan.eachUnit job.context job.unit.builtinDirs job.unit.scannables) (.ofCache .empty) := by
  have units : Scan.readsOn t (Scan.units job.context job.unit) (.ofCache .empty) =
      Scan.readsOn t (Scan.eachUnit job.context job.unit.builtinDirs job.unit.scannables) (.ofCache .empty) := by
    unfold Scan.units
    rw [Scan.readsOn_bind]
    cases (Scan.runOn t (Scan.eachUnit job.context job.unit.builtinDirs job.unit.scannables) (.ofCache .empty)).1 <;>
      exact List.append_nil _
  have asked : (job.inputs .empty).asked t.answer =
      (Scan.perform (Scan.units job.context job.unit) (.ofCache .empty)).asked t.answer := by
    unfold inputs
    rw [Program.asked_bind]
    exact List.append_nil _
  rw [← units, asked]
  unfold Scan.readsOn
  rw [List.mem_filterMap]
  constructor
  · exact fun h => ⟨_, h, rfl⟩
  · rintro ⟨question, h, e⟩
    cases question with
    | contents q =>
      cases e
      exact h
    | status q => cases e
    | canonical q => cases e

/-- **The scan of an action on a tree in which files were edited that it does not read** is the same scan. -/
theorem runOn_of_editedAt (job : Job) {t t' : FileTree}
    (edited : t.EditedAt (fun position => ¬ job.Reads t position) t') :
    Scan.runOn t' (Scan.eachUnit job.context job.unit.builtinDirs job.unit.scannables) (.ofCache .empty) =
      Scan.runOn t (Scan.eachUnit job.context job.unit.builtinDirs job.unit.scannables) (.ofCache .empty) ∧
    Scan.Accounts job t (job.Reads t) job.unit.scannables (job.accumulated t).toList
      (Scan.readsOn t (Scan.eachUnit job.context job.unit.builtinDirs job.unit.scannables) (.ofCache .empty))
      (Scan.runOn t (Scan.eachUnit job.context job.unit.builtinDirs job.unit.scannables) (.ofCache .empty)).1 := by
  -- the files that count as read are those that this very scan asks for, so it cannot ask for another one
  obtain ⟨same, -, recorded, hfound, accounts⟩ :=
    Scan.follows_eachUnit edited job job.unit.scannables (.ofCache .empty) FileMemo.drawn_empty
      fun p hp position f hf => ⟨p, (job.mem_asked_iff t p).2 hp, f, hf⟩
  have member (a : Artifact) : a ∈ (job.accumulated t).toList ↔ a ∈ recorded := by
    have found : a ∈ job.accumulated t ↔ a ∈ ArtifactSet.empty ∨ a ∈ recorded := by
      unfold accumulated
      rw [job.runOn_units]
      exact hfound a
    exact found.trans (or_iff_right (ArtifactSet.notMem_empty a))
  refine ⟨same, ?_, ?_⟩
  · intro p hp
    obtain ⟨u, hu, a, ha, e⟩ := accounts.places p hp
    exact ⟨u, hu, a, (member a).2 ha, e⟩
  · exact fun hok a ha => accounts.covered hok a ((member a).1 ha)

/-- **The files that a scan reads are sufficient.**  When an action has inputs on a tree, an edit of files that its scan
did not read leaves its inputs and what was accumulated as they are.  The files that were read are those that the
accumulated artifacts are read from, in the unit where that is; so an edit of any other file changes nothing. -/
theorem inputs_of_editedAt (job : Job) (t : FileTree) {inputs : List Artifact}
    (ok : ((job.inputs .empty).run t.answer).1 = .ok inputs) :
    (∀ t', t.EditedAt (fun position => ¬ job.Reads t position) t' →
      ((job.inputs .empty).run t'.answer).1 = .ok inputs ∧ job.accumulated t' = job.accumulated t) ∧
    (∀ position, job.Reads t position → ∃ u ∈ job.unit.scannables, ∃ a ∈ job.accumulated t, ∃ f,
      t.find ((job.lookup u).readPath a) = .ok (position, .file f)) ∧
    (∀ a ∈ job.accumulated t, ∃ u ∈ job.unit.scannables, (job.lookup u).Covered t (job.Reads t) a) ∧
    ∀ t', t.EditedAt (fun position => ∀ u ∈ job.unit.scannables, ∀ a ∈ job.accumulated t, ∀ f,
        t.find ((job.lookup u).readPath a) ≠ .ok (position, .file f)) t' →
      ((job.inputs .empty).run t'.answer).1 = .ok inputs ∧ job.accumulated t' = job.accumulated t := by
  have same (t' : FileTree) (edited : t.EditedAt (fun position => ¬ job.Reads t position) t') :
      ((job.inputs .empty).run t'.answer).1 = .ok inputs ∧ job.accumulated t' = job.accumulated t := by
    have run := (job.runOn_of_editedAt edited).1
    constructor
    · rw [← ok, run_inputs_eq, run_inputs_eq, run]
    · unfold accumulated
      rw [job.runOn_units, job.runOn_units, run]
  have accounts := (job.runOn_of_editedAt (.refl t)).2
  have ended : (Scan.runOn t (Scan.eachUnit job.context job.unit.builtinDirs job.unit.scannables) (.ofCache .empty)).1 =
      .ok () := by
    rw [run_inputs_eq] at ok
    cases outcome : (Scan.runOn t (Scan.eachUnit job.context job.unit.builtinDirs job.unit.scannables)
        (.ofCache .empty)).1 with
    | ok => rfl
    | error e =>
      rw [outcome] at ok
      cases ok
  have places (position : Position) (reads : job.Reads t position) : ∃ u ∈ job.unit.scannables,
      ∃ a ∈ job.accumulated t, ∃ f, t.find ((job.lookup u).readPath a) = .ok (position, .file f) := by
    obtain ⟨p, asked, f, hf⟩ := reads
    obtain ⟨u, hu, a, ha, rfl⟩ := accounts.places p ((job.mem_asked_iff t p).1 asked)
    exact ⟨u, hu, a, ha, f, hf⟩
  refine ⟨same, places, fun a ha => accounts.covered ended a ha, fun t' edited => same t' (edited.mono ?_)⟩
  intro position elsewhere reads
  obtain ⟨u, hu, a, ha, f, hf⟩ := places position reads
  exact elsewhere u hu a ha f hf

end Job

/-! ## A header that nobody includes -/

namespace Sample

/-- The tree with one more header in it. -/
def spareTree (text : String) : FileTree :=
  { tree with nodes := tree.nodes ++ [(["w", "c.h"], .file { bytes := Text.utf8Bytes text, modified := 0 })] }

theorem editedAt_spareTree {edited : Position → Prop} (h : edited ["w", "c.h"]) (text text' : String) :
    (spareTree text).EditedAt edited (spareTree text') where
  workingDirectory := rfl
  node position := by
    cases position with
    | nil => exact .inl rfl
    | cons name rest =>
      by_cases spare : name :: rest = ["w", "c.h"]
      · rw [spare]
        exact .inr ⟨h, _, _, rfl, rfl⟩
      · have other (text : String) : (spareTree text).node? (name :: rest) = tree.node? (name :: rest) := by
          have append : (spareTree text).nodes = tree.nodes ++
            [(["w", "c.h"], .file { bytes := Text.utf8Bytes text, modified := 0 })] := rfl
          unfold FileTree.node?
          dsimp only
          rw [append, List.find?_append, List.find?_singleton, if_neg (by simpa using Ne.symm spare), Option.or_none]
        rw [other, other]
        exact .inl rfl

/-- The contents of the header are never asked for. -/
theorem not_reads_spare : ¬ job.Reads (spareTree "") ["w", "c.h"] := by
  rintro ⟨p, asked, f, hf⟩
  have elsewhere : ∀ question ∈ (job.inputs .empty).asked (spareTree "").answer, ∀ p ∈ question.contentsOf?,
      ((spareTree "").find p).toOption.map Prod.fst ≠ some ["w", "c.h"] := by decide +kernel
  refine elsewhere _ asked p rfl ?_
  rw [hf]
  rfl

end Sample

theorem Job.inputs_of_editedAt_spare :
    ((Sample.job.inputs .empty).run (Sample.spareTree "").answer).1 = .ok [Sample.aCc, Sample.bH, Sample.gH] ∧
    (Sample.spareTree "").EditedAt (fun position => ¬ Sample.job.Reads (Sample.spareTree "") position)
      (Sample.spareTree "#include \"d.h\"") ∧
    ((Sample.job.inputs .empty).run (Sample.spareTree "#include \"d.h\"").answer).1 =
      .ok [Sample.aCc, Sample.bH, Sample.gH] := by
  have ok : ((Sample.job.inputs .empty).run (Sample.spareTree "").answer).1 =
      .ok [Sample.aCc, Sample.bH, Sample.gH] := by
    decide +kernel
  have edited : (Sample.spareTree "").EditedAt (fun position => ¬ Sample.job.Reads (Sample.spareTree "") position)
      (Sample.spareTree "#include \"d.h\"") := Sample.editedAt_spareTree Sample.not_reads_spare _ _
  exact ⟨ok, edited, ((Job.inputs_of_editedAt Sample.job (Sample.spareTree "") ok).1 _ edited).1⟩

end IncludeClosure
