import IncludeClosure.Proofs.Scan.Rounds
import IncludeClosure.Proofs.Scan.Sufficiency
import IncludeClosure.Proofs.Scan.Unreadable
/-!
# Proofs.Scan.Failure — what a scan leaves behind when it fails

A round that cannot read its artifact ends the scan where it stands, with artifacts still pending and others recorded
that were never read.  What holds at that moment is what holds between any two rounds (`Midway`): what has been recorded
is what the frontier has seen, all of it is reached, and what the directives of the artifacts read so far mean has been
seen.  A round keeps this (`Midway.next`); so it holds where the loop fails (`Rounds.failed`), and all that the loop has
read are the places of the artifacts that it took (`Rounds.reads`).  A scan with an empty memo that fails has recorded
nothing that is not reached, and all that it owes to the files that it could read (`closure_failed`).
-/
namespace IncludeClosure

/-- A memo that can be traced to a tree holds entries for regular files of this tree only. -/
theorem FileMemo.Traced.drawn {m : FileMemo} {t : FileTree} (h : m.Traced [t]) : m.Drawn t fun _ => True where
  files p hp := by
    obtain ⟨-, before, past, file⟩ := h.files p hp
    rwa [List.mem_singleton.1 past] at file
  lexed p stamp ds hp := by
    obtain ⟨before, past, status, -⟩ := h.lexed p stamp ds hp
    rw [List.mem_singleton.1 past] at status
    obtain ⟨position, f, found, -⟩ := FileTree.status_file_iff.1 status
    exact ⟨position, f, found, trivial⟩

namespace Scan

/-- **What a scan reads,** when all that matters is which paths these are. -/
theorem reads_of_follows {α : Type} {t : FileTree} {scan : Scan α} {Q : List Artifact → List Path → α → Prop}
    (h : Follows t t (fun _ => True) scan Q) {s : ScanStore} (traced : s.cache.memo.Traced [t]) :
    ∃ found, Q found (readsOn t scan s) (runOn t scan s).1 := by
  obtain ⟨-, -, found, -, holds⟩ := h s traced.drawn fun _ _ _ _ _ => trivial
  exact ⟨found, holds⟩

end Scan

namespace Lookup

open Scan (runOn runWith readsOn)

variable {l : Lookup} {t : FileTree} {mainSource : Artifact} {sources : List Artifact} {forced : List String}

/-- **Between two rounds on a tree,** after the artifacts in `read` were read and when `known` had been recorded before
the scan: what has been recorded since is what has been seen, and what the directives of the artifacts read mean is
among it. -/
structure Midway (l : Lookup) (t : FileTree) (mainSource : Artifact) (sources : List Artifact) (forced : List String)
    (known : ArtifactSet) (read : List Artifact) (f : Frontier) (s : ScanStore) : Prop where
  exploring : l.Exploring t mainSource sources forced f
  traced : s.cache.memo.Traced [t]
  found : ∀ a, a ∈ s.found ↔ a ∈ known ∨ a ∈ f.seen
  followed : ∀ a ∈ read, ∃ ds, l.directivesOn t a = .ok ds ∧ ∀ d ∈ ds, ∀ b, l.target? t a d = some b → b ∈ f.seen

theorem ensures_start : Scan.Ensures t (l.start mainSource sources forced) fun found f =>
    found = sources ++ l.namedBy t mainSource forced ∧
      f = Frontier.empty.seeAll (sources ++ l.namedBy t mainSource forced) := by
  unfold start
  rw [Scan.ensures_bind]
  refine Scan.ensures_mono (ensures_seeSources sources .empty) ?_
  rintro _ _ ⟨rfl, rfl⟩
  refine Scan.ensures_mono (ensures_seeForced mainSource.path.parent? forced _) ?_
  rintro _ _ ⟨rfl, rfl⟩
  exact ⟨rfl, List.foldl_append.symm⟩

/-- **Before the first round** nothing has been read. -/
theorem Midway.ofStart {s : ScanStore} (traced : s.cache.memo.Traced [t]) :
    l.Midway t mainSource sources forced s.found [] (runOn t (l.start mainSource sources forced) s).1
      (runOn t (l.start mainSource sources forced) s).2 := by
  obtain ⟨_, ⟨rfl, frontier⟩, traced', found⟩ := Scan.runOn_ensures (.self t) ensures_start traced
  rw [frontier]
  refine ⟨.ofStart, traced', fun a => ?_, fun a h => absurd h List.not_mem_nil⟩
  rw [found, Frontier.mem_seen_seeAll]
  exact or_congr_right (or_iff_right List.not_mem_nil).symm

theorem readsOn_start {s : ScanStore} (traced : s.cache.memo.Traced [t]) :
    readsOn t (l.start mainSource sources forced) s = [] := by
  have follows : Scan.Follows t t (fun _ => True) (l.start mainSource sources forced)
      fun _ paths _ => paths = [] := by
    unfold start
    refine Scan.follows_bind (Scan.follows_mono (follows_seeSources sources .empty) ?_)
    rintro _ _ _ ⟨-, rfl, rfl⟩
    refine Scan.follows_mono (follows_seeForced (.refl t) sources mainSource.path.parent? forced _) ?_
    rintro _ _ _ ⟨rfl, -, -⟩
    rfl
  obtain ⟨-, none⟩ := Scan.reads_of_follows follows traced
  exact none

section

variable {known : ArtifactSet} {read rest : List Artifact} {f f' : Frontier} {s s' : ScanStore} {a : Artifact}

/-- **Asking for the directives of an artifact** gives those on the tree, or fails where these cannot be read.  Nothing is
recorded. -/
theorem Midway.asked (h : l.Midway t mainSource sources forced known read f s) (placed : l.generated.Placed)
    (a : Artifact) {outcome : Except ScanError (List Directive)}
    (asked : runWith t.answer (l.directivesOf a) s = (outcome, s')) :
    l.Midway t mainSource sources forced known read f s' ∧ (∀ ds, outcome = .ok ds → l.directivesOn t a = .ok ds) ∧
      ∀ e, outcome = .error e → ∃ cause, l.directivesOn t a = .error cause ∧ e = .unreadable (l.readPath a) cause := by
  obtain ⟨_, ⟨rfl, gives⟩, traced, found⟩ := Scan.runOn_ensures (.self t) (l.gives_directivesOf placed a) h.traced
  rw [show runOn t (l.directivesOf a) s = (outcome, s') from asked] at gives traced found
  refine ⟨⟨h.exploring, traced, fun b => ?_, h.followed⟩, ?_⟩
  · rw [found, ← h.found]
    exact or_iff_left List.not_mem_nil
  · dsimp only at gives
    rw [gives]
    cases l.directivesOn t a with
    | ok ds => exact ⟨fun _ same => by cases same; rfl, nofun⟩
    | error cause => exact ⟨nofun, fun _ same => ⟨cause, rfl, by cases same; rfl⟩⟩

/-- **A round that reads its artifact** keeps what holds between rounds. -/
theorem Midway.next (h : l.Midway t mainSource sources forced known read f s) (top : f.pending = a :: rest)
    {ds : List Directive} (directives : l.directivesOn t a = .ok ds)
    (seen : runWith t.answer (l.seeDirectives a.path.parent? ds { f with pending := rest }) s = (f', s')) :
    l.Midway t mainSource sources forced known (read ++ [a]) f' s' := by
  obtain ⟨recorded, ⟨frontier, more⟩, traced, found⟩ :=
    Scan.runOn_ensures (.self t) (ensures_seeDirectives (l := l) a ds { f with pending := rest }) h.traced
  rw [show runOn t (l.seeDirectives a.path.parent? ds { f with pending := rest }) s = (f', s') from seen]
    at frontier more traced found
  dsimp only at frontier more
  have kept (b : Artifact) (hb : b ∈ f.seen) : b ∈ f'.seen := by
    rw [more]
    exact List.mem_append_right _ hb
  constructor
  case exploring =>
    rw [frontier]
    exact h.exploring.next top directives
  case traced => exact traced
  case found =>
    intro b
    rw [found, h.found, more, List.mem_append, List.mem_reverse, or_assoc, or_comm (a := b ∈ f.seen)]
  case followed =>
    intro b hb
    rcases List.mem_append.1 hb with hb | hb
    · obtain ⟨ds', had, targets⟩ := h.followed b hb
      exact ⟨ds', had, fun d mem c target => kept c (targets d mem c target)⟩
    · rw [List.mem_singleton.1 hb]
      refine ⟨ds, directives, fun d mem c target => ?_⟩
      rw [frontier]
      exact (Frontier.mem_seen_seeAll _).2 (.inr (List.mem_filterMap.2 ⟨d, mem, target⟩))

/-- **A loop that fails** has read all the artifacts that it took, except the last one: that cannot be read. -/
theorem Rounds.failed {e : ScanError} {taken : List Artifact} (run : l.Rounds t.answer f s taken (.error e) s')
    (running : l.context.interrupted = false) (placed : l.generated.Placed)
    (h : l.Midway t mainSource sources forced known read f s) :
    ∃ more bad cause f', taken = more ++ [bad] ∧ l.Midway t mainSource sources forced known (read ++ more) f' s' ∧
      bad ∈ f'.seen ∧ l.directivesOn t bad = .error cause ∧ e = .unreadable (l.readPath bad) cause := by
  generalize failed : Except.error e = outcome at run
  induction run generalizing read with
  | done nothing => cases failed
  | interrupted top stopped =>
    rw [running] at stopped
    cases stopped
  | @unreadable f s s' bad rest _ top _ asked =>
    cases failed
    obtain ⟨h', -, error⟩ := h.asked placed bad asked
    obtain ⟨cause, unread, names⟩ := error e rfl
    refine ⟨[], bad, cause, f, rfl, ?_, h.exploring.pending bad (by rw [top]; exact List.mem_cons_self), unread, names⟩
    rw [List.append_nil]
    exact h'
  | @next f f' s s₁ s₂ s' a rest taken ds outcome top _ asked seen _ ih =>
    obtain ⟨h', ok, -⟩ := h.asked placed a asked
    obtain ⟨more, bad, cause, last, rfl, ends, sees, unread, names⟩ := ih (h'.next top (ok ds rfl) seen) failed
    refine ⟨a :: more, bad, cause, last, rfl, ?_, sees, unread, names⟩
    rwa [List.append_assoc] at ends

/-- **What the loop reads** are the places of the artifacts that it takes. -/
theorem Rounds.reads {outcome : Except ScanError Unit} {taken : List Artifact}
    (run : l.Rounds t.answer f s taken outcome s') (placed : l.generated.Placed)
    (h : l.Midway t mainSource sources forced known read f s) {limit : Nat} (enough : taken.length ≤ limit) :
    ∀ p ∈ readsOn t (l.follow limit f) s, ∃ a ∈ taken, p = l.readPath a := by
  have place {s : ScanStore} (traced : s.cache.memo.Traced [t]) (a : Artifact) :
      ∀ p ∈ readsOn t (l.directivesOf a) s, p = l.readPath a := by
    obtain ⟨-, -, place, -⟩ := Scan.reads_of_follows (follows_directivesOf (.refl t) a) traced
    exact place
  induction run generalizing read limit with
  | done nothing =>
    intro p hp
    rw [follow_of_nothing nothing] at hp
    exact absurd hp List.not_mem_nil
  | interrupted top stopped =>
    intro p hp
    obtain ⟨limit, rfl⟩ := Nat.exists_eq_add_of_le' (show 1 ≤ limit from enough)
    rw [follow_of_stopped top stopped] at hp
    exact absurd hp List.not_mem_nil
  | @unreadable f s s' bad rest e top running asked =>
    intro p hp
    obtain ⟨limit, rfl⟩ := Nat.exists_eq_add_of_le' (show 1 ≤ limit from enough)
    rw [follow_of_running top running, Scan.readsOn_bind,
      show runOn t (l.directivesOf bad) s = (.error e, s') from asked] at hp
    rcases List.mem_append.1 hp with hp | hp
    · exact ⟨bad, List.mem_cons_self, place h.traced bad p hp⟩
    · exact absurd hp List.not_mem_nil
  | @next f f' s s₁ s₂ s' a rest taken ds outcome top running asked seen _ ih =>
    intro p hp
    obtain ⟨limit, rfl⟩ := Nat.exists_eq_add_of_le' (Nat.le_trans (Nat.le_add_left 1 _) enough)
    obtain ⟨h', ok, -⟩ := h.asked placed a asked
    rw [follow_of_running top running, Scan.readsOn_bind,
      show runOn t (l.directivesOf a) s = (.ok ds, s₁) from asked] at hp
    dsimp only at hp
    rw [Scan.readsOn_bind,
      show runOn t (l.seeDirectives a.path.parent? ds { f with pending := rest }) s₁ = (f', s₂) from seen] at hp
    -- what names mean is found without reading a file
    have nothing : readsOn t (l.seeDirectives a.path.parent? ds { f with pending := rest }) s₁ = [] := by
      obtain ⟨-, none, -⟩ := Scan.reads_of_follows (follows_seeDirectives (.refl t) sources _ ds _) h'.traced
      exact none
    rw [nothing, List.nil_append] at hp
    rcases List.mem_append.1 hp with hp | hp
    · exact ⟨a, List.mem_cons_self, place h.traced a p hp⟩
    · obtain ⟨b, hb, e⟩ := ih (h'.next top (ok ds rfl) seen) (Nat.le_of_succ_le_succ enough) p hp
      exact ⟨b, List.mem_cons_of_mem _ hb, e⟩

end

/-- **A closure on a tree is its loop:** there are enough rounds for it when all that is remembered has short paths. -/
theorem exists_rounds_closure (l : Lookup) (t : FileTree) (mainSource : Artifact) (sources : List Artifact)
    (forced : List String) (s : ScanStore)
    (short : ∀ p ∈ s.cache.memo.files, p.text.utf8ByteSize ≤ FileTree.longestPath) :
    let begun := runOn t (l.start mainSource sources forced) s
    ∃ taken outcome s', l.Rounds t.answer begun.1 begun.2 taken outcome s' ∧
      taken.length ≤ l.roundLimit sources.length ∧
      runOn t (l.closure mainSource sources forced) s = (outcome, s') := by
  intro begun
  have underway : l.Underway t.answer s.cache.memo sources [] begun.1 begun.2 :=
    underway_start mainSource sources forced s
  have finite : {a | a ∈ sources ∨ l.Findable t.answer s.cache.memo a}.Finite :=
    (List.finite_toSet sources).union (finite_findable t.finite_namesFile l s.cache.memo)
  obtain ⟨taken, outcome, s', run⟩ := exists_rounds finite _ underway (Nat.le_add_left _ _)
  obtain ⟨nodup, sighted⟩ := run.nodup underway
  have enough : taken.length ≤ l.roundLimit sources.length :=
    l.length_le_of_nameable sources taken nodup fun a ha => (sighted a ha).imp_right fun h => h.nameable short
  refine ⟨taken, outcome, s', run, enough, ?_⟩
  rw [closure_eq, Scan.runOn_bind]
  exact run.follow enough

/-- **A closure that fails,** on a tree and from an empty memo, has kept what was recorded before, and has recorded all
entry sources, all that the forced includes mean, and nothing that is not reached.  It failed on an artifact that is
reached and whose directives cannot be read, and it names the place that these are read from.  The artifacts that it took
before were all read, all that their directives mean is recorded, and there is no other file that was read. -/
theorem closure_failed (t : FileTree) (l : Lookup) (mainSource : Artifact) (sources : List Artifact)
    (forced : List String) (s : ScanStore) (fresh : s.cache.memo = .empty) (running : l.context.interrupted = false)
    (placed : l.generated.Placed) {e : ScanError} {left : ScanStore}
    (failed : runOn t (l.closure mainSource sources forced) s = (.error e, left)) :
    (∀ a ∈ s.found, a ∈ left.found) ∧
    (∀ a ∈ sources, a ∈ left.found) ∧
    (∀ name ∈ forced, ∀ a, l.meaning? t mainSource.path.parent? .quote name = some a → a ∈ left.found) ∧
    (∀ a ∈ left.found, a ∈ s.found ∨ l.Reach t mainSource sources forced a) ∧
    let begun := runOn t (l.start mainSource sources forced) s
    ∃ read bad cause, l.Rounds t.answer begun.1 begun.2 (read ++ [bad]) (.error e) left ∧
      l.Reach t mainSource sources forced bad ∧ l.directivesOn t bad = .error cause ∧
      t.directives (l.readPath bad) = .error cause ∧ e = .unreadable (l.readPath bad) cause ∧
      (∀ a ∈ read, ∃ ds, l.directivesOn t a = .ok ds ∧
        ∀ d ∈ ds, ∀ b, l.target? t a d = some b → b ∈ left.found) ∧
      ∀ p ∈ readsOn t (l.closure mainSource sources forced) s, (∃ bytes, t.read p = .ok bytes) →
        ∃ a ∈ read, p = l.readPath a := by
  have traced : s.cache.memo.Traced [t] := by
    rw [fresh]
    exact FileMemo.traced_empty [t]
  have short : ∀ p ∈ s.cache.memo.files, p.text.utf8ByteSize ≤ FileTree.longestPath := by
    rw [fresh]
    exact fun p hp => absurd hp List.not_mem_nil
  obtain ⟨taken, outcome, s', run, enough, ran⟩ := l.exists_rounds_closure t mainSource sources forced s short
  rw [failed] at ran
  cases ran
  have begins : l.Midway t mainSource sources forced s.found [] _ _ := .ofStart traced
  obtain ⟨read, bad, cause, f, rfl, ends, sees, unread, names⟩ := run.failed running placed begins
  have recorded {a : Artifact} (seen : a ∈ f.seen) : a ∈ left.found := (ends.found a).2 (.inr seen)
  refine ⟨fun a ha => (ends.found a).2 (.inl ha), fun a entry => ?_, fun name given a meaning => ?_, fun a ha => ?_,
    read, bad, cause, run, ends.exploring.reached bad sees, unread, (unread_of_directivesOn unread).1, names,
    fun a ha => ?_, fun p asked readable => ?_⟩
  · exact recorded (ends.exploring.start a (List.mem_append_left _ entry))
  · exact recorded (ends.exploring.start a (List.mem_append_right _ (List.mem_filterMap.2 ⟨name, given, meaning⟩)))
  · exact ((ends.found a).1 ha).imp_right (ends.exploring.reached a)
  · obtain ⟨ds, directives, targets⟩ := ends.followed a ha
    exact ⟨ds, directives, fun d mem b target => recorded (targets d mem b target)⟩
  · rw [closure_eq, Scan.readsOn_bind, readsOn_start traced, List.nil_append] at asked
    obtain ⟨a, ha, rfl⟩ := run.reads placed begins enough p asked
    rcases List.mem_append.1 ha with ha | ha
    · exact ⟨a, ha, rfl⟩
    · -- the file of the last one cannot be read
      obtain ⟨bytes, held⟩ := readable
      rw [List.mem_singleton.1 ha] at held
      have directives := FileTree.directives_ok_iff.2 ⟨bytes, held, rfl⟩
      rw [(unread_of_directivesOn unread).1] at directives
      cases directives

end Lookup

/-! ## A generated file that may not be read -/

namespace Sample

/-- The generated header is written, and nobody may read it. -/
def sealedTree : FileTree :=
  { tree with
    nodes := tree.nodes ++
      [(["tmp"], .directory),
       (["tmp", "g.h"], .file { bytes := Text.utf8Bytes "#include \"a.cc\"\n", modified := 1, fault := some denied })] }

end Sample

/-- The second forced include is taken first, and read; then the generated header fails, where it is written, and the
entry source is never taken. -/
theorem Lookup.closure_failed_of_sealed :
    let result := Scan.runOn Sample.sealedTree
      (Sample.lookup.closure Sample.aCc [Sample.aCc] ["g.h", "b.h"]) .empty
    Sample.lookup.context.interrupted = false ∧ Sample.lookup.generated.Placed ∧
    result.1 = .error (.unreadable ⟨"/tmp/g.h"⟩ Sample.denied) ∧
    Sample.aCc ∈ result.2.found ∧ Sample.gH ∈ result.2.found ∧ Sample.bH ∈ result.2.found ∧
    (∀ a ∈ result.2.found, Sample.lookup.Reach Sample.sealedTree Sample.aCc [Sample.aCc] ["g.h", "b.h"] a) ∧
    ∃ bad, Sample.lookup.Reach Sample.sealedTree Sample.aCc [Sample.aCc] ["g.h", "b.h"] bad ∧
      Sample.lookup.readPath bad = ⟨"/tmp/g.h"⟩ ∧ Sample.sealedTree.isFile ⟨"/tmp/g.h"⟩ = true ∧
      Sample.sealedTree.directives ⟨"/tmp/g.h"⟩ = .error Sample.denied := by
  intro result
  have ran : result.1 = .error (.unreadable ⟨"/tmp/g.h"⟩ Sample.denied) := by decide +kernel
  obtain ⟨-, sources, named, reached, read, bad, cause, -, reaches, -, unread, names, -⟩ :=
    Lookup.closure_failed Sample.sealedTree Sample.lookup Sample.aCc [Sample.aCc] ["g.h", "b.h"] .empty rfl rfl
      Sample.placed_lookup (Prod.ext ran rfl : result = (_, result.2))
  injection names with place same
  rw [← place, ← same] at unread
  exact ⟨rfl, Sample.placed_lookup, ran, sources _ List.mem_cons_self, named "g.h" (by decide) Sample.gH rfl,
    named "b.h" (by decide) Sample.bH rfl,
    fun a ha => (reached a ha).resolve_left (ArtifactSet.notMem_empty a), bad, reaches, place.symm, rfl, unread⟩

end IncludeClosure
