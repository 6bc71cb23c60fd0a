import IncludeClosure.Proofs.Scan.Frontier
/-!
# Proofs.Scan.Closure — a scan finds what is reached, and nothing else

The frontier of a scan is **exploring** (`Exploring`): it has seen the entry sources and what the forced includes mean,
all it has seen is reached, and what the directives of an artifact mean has been seen once the artifact is no longer
pending.  A round keeps this (`Exploring.next`), and a frontier with nothing pending has seen all that is reached
(`Exploring.seen_of_reach`).  There are enough rounds: each takes one artifact from those pending, and a frontier never
sees more artifacts than there are rounds (`length_le_roundLimit`).  So whatever the cache holds, a closure ends well
exactly when all that is reached can be read, and then it has recorded just that (`ensures_closure`).
-/
namespace IncludeClosure
namespace Lookup

open Scan (Ensures ensures_mono ensures_bind ensures_step_bind)

variable {l : Lookup} {t : FileTree} {mainSource : Artifact} {sources : List Artifact} {forced : List String}

/-- What the forced includes mean on a tree. -/
def namedBy (l : Lookup) (t : FileTree) (mainSource : Artifact) (forced : List String) : List Artifact :=
  forced.filterMap (l.meaning? t mainSource.path.parent? .quote)

/-- **A frontier between two rounds.** -/
structure Exploring (l : Lookup) (t : FileTree) (mainSource : Artifact) (sources : List Artifact)
    (forced : List String) (f : Frontier) : Prop where
  nodup : f.seen.Nodup
  sighted : ∀ a ∈ f.seen, l.Sighted t sources a
  pending : ∀ a ∈ f.pending, a ∈ f.seen
  reached : ∀ a ∈ f.seen, l.Reach t mainSource sources forced a
  start : ∀ a ∈ sources ++ l.namedBy t mainSource forced, a ∈ f.seen
  followed : ∀ a ∈ f.seen, a ∉ f.pending → ∃ ds, l.directivesOn t a = .ok ds ∧
    ∀ d ∈ ds, ∀ b, l.target? t a d = some b → b ∈ f.seen

theorem Exploring.ofStart : l.Exploring t mainSource sources forced
    (Frontier.empty.seeAll (sources ++ l.namedBy t mainSource forced)) := by
  obtain ⟨new, hs, hp, hn⟩ := Frontier.exists_new (sources ++ l.namedBy t mainSource forced) .empty
  have hmem (a : Artifact) : a ∈ (Frontier.empty.seeAll (sources ++ l.namedBy t mainSource forced)).seen ↔
      a ∈ sources ∨ ∃ name ∈ forced, l.meaning? t mainSource.path.parent? .quote name = some a := by
    rw [Frontier.mem_seen_seeAll, List.mem_append, namedBy, List.mem_filterMap]
    simp [Frontier.empty]
  constructor
  case nodup => exact hn List.nodup_nil
  case sighted =>
    intro a ha
    rcases (hmem a).1 ha with h | ⟨name, -, h⟩
    · exact .inl h
    · exact sighted_of_meaning h
  case pending =>
    intro a ha
    rw [hp] at ha
    rw [hs]; exact ha
  case reached =>
    intro a ha
    rcases (hmem a).1 ha with h | ⟨name, hn, h⟩
    · exact .source h
    · exact .forced hn h
  case start =>
    intro a ha
    exact (Frontier.mem_seen_seeAll _).2 (.inr ha)
  case followed =>
    intro a ha hna
    rw [hs] at ha; rw [hp] at hna
    exact absurd ha hna

/-- **One round:** the top artifact has been read, and what its directives mean has been seen. -/
theorem Exploring.next {f : Frontier} (h : l.Exploring t mainSource sources forced f) {a : Artifact}
    {rest : List Artifact} (top : f.pending = a :: rest) {ds : List Directive} (hd : l.directivesOn t a = .ok ds) :
    l.Exploring t mainSource sources forced
      (Frontier.seeAll { f with pending := rest } (ds.filterMap (l.target? t a))) := by
  have ha : a ∈ f.seen := h.pending a (by rw [top]; exact List.mem_cons_self)
  obtain ⟨new, hs, hp, hn⟩ := Frontier.exists_new (ds.filterMap (l.target? t a)) { f with pending := rest }
  have hmem (b : Artifact) : b ∈ (Frontier.seeAll { f with pending := rest } (ds.filterMap (l.target? t a))).seen ↔
      b ∈ f.seen ∨ ∃ d ∈ ds, l.target? t a d = some b := by
    rw [Frontier.mem_seen_seeAll, List.mem_filterMap]
  constructor
  case nodup => exact hn h.nodup
  case sighted =>
    intro b hb
    rcases (hmem b).1 hb with hb | ⟨d, -, hb⟩
    · exact h.sighted b hb
    · exact sighted_of_meaning hb
  case pending =>
    intro b hb
    rw [hp] at hb; rw [hs]
    rcases List.mem_append.1 hb with hb | hb
    · exact List.mem_append_left _ hb
    · exact List.mem_append_right _ (h.pending b (by rw [top]; exact List.mem_cons_of_mem _ hb))
  case reached =>
    intro b hb
    rcases (hmem b).1 hb with hb | ⟨d, hdm, hb⟩
    · exact h.reached b hb
    · exact .directive (h.reached a ha) hd hdm hb
  case start =>
    intro b hb
    exact (hmem b).2 (.inl (h.start b hb))
  case followed =>
    -- what has just been seen is pending, so `b` had been seen before and was not pending, or is `a` itself
    intro b hb hnb
    rw [hp, List.mem_append, not_or] at hnb
    have hb : b ∈ f.seen := by
      rw [hs] at hb
      exact (List.mem_append.1 hb).resolve_left hnb.1
    by_cases hba : b = a
    · subst hba
      exact ⟨ds, hd, fun d hdm c hc => (hmem c).2 (.inr ⟨d, hdm, hc⟩)⟩
    · obtain ⟨ds', hd', hf⟩ := h.followed b hb (by rw [top]; simp [hba, hnb.2])
      exact ⟨ds', hd', fun d hdm c hc => (hmem c).2 (.inl (hf d hdm c hc))⟩

/-- **With nothing pending** all that is reached has been seen and read. -/
theorem Exploring.seen_of_reach {f : Frontier} (h : l.Exploring t mainSource sources forced f) (done : f.pending = [])
    {a : Artifact} (ha : l.Reach t mainSource sources forced a) :
    a ∈ f.seen ∧ ∃ ds, l.directivesOn t a = .ok ds := by
  have read (b : Artifact) (hb : b ∈ f.seen) := h.followed b hb (by rw [done]; exact List.not_mem_nil)
  have seen : a ∈ f.seen := by
    induction ha with
    | source entry => exact h.start _ (List.mem_append_left _ entry)
    | forced given meaning =>
      exact h.start _ (List.mem_append_right _ (List.mem_filterMap.2 ⟨_, given, meaning⟩))
    | directive _ directives mem target ih =>
      obtain ⟨ds, hd, hf⟩ := read _ ih
      rw [directives] at hd
      cases hd
      exact hf _ mem _ target
  obtain ⟨ds, hd, -⟩ := read a seen
  exact ⟨seen, ds, hd⟩

theorem Reach.congr {l' : Lookup} (hm : l.meaning? t = l'.meaning? t) (hd : l.directivesOn t = l'.directivesOn t)
    {a : Artifact} (h : l.Reach t mainSource sources forced a) : l'.Reach t mainSource sources forced a := by
  induction h with
  | source entry => exact .source entry
  | forced given meaning => exact .forced given (by rw [← hm]; exact meaning)
  | directive _ directives mem target ih =>
    rw [hd] at directives
    unfold target? at target
    rw [hm] at target
    exact .directive ih directives mem target

/-- **What a closure comes to** when `known` has been recorded before: what it records is reached, a good end means that
all that is reached is recorded and can be read, and an error names a file that is reached and cannot be read. -/
structure Closes (l : Lookup) (t : FileTree) (mainSource : Artifact) (sources : List Artifact) (forced : List String)
    (known found : List Artifact) (outcome : Except ScanError Unit) : Prop where
  reached : ∀ a ∈ found, l.Reach t mainSource sources forced a
  complete : outcome = .ok () → ∀ a, l.Reach t mainSource sources forced a →
    (a ∈ known ∨ a ∈ found) ∧ ∃ ds, l.directivesOn t a = .ok ds
  failed : ∀ e, outcome = .error e → ∃ a cause, l.Reach t mainSource sources forced a ∧
    l.directivesOn t a = .error cause ∧ e = .unreadable (l.readPath a) cause

theorem Closes.ofDone {f : Frontier} (h : l.Exploring t mainSource sources forced f) (done : f.pending = []) :
    l.Closes t mainSource sources forced f.seen [] (.ok ()) where
  reached a ha := by cases ha
  complete _ a ha := ⟨.inl (h.seen_of_reach done ha).1, (h.seen_of_reach done ha).2⟩
  failed e he := by cases he

theorem Closes.append {known found more : List Artifact} {outcome : Except ScanError Unit}
    (hr : ∀ a ∈ found, l.Reach t mainSource sources forced a)
    (h : l.Closes t mainSource sources forced (found ++ known) more outcome) :
    l.Closes t mainSource sources forced known (found ++ more) outcome where
  reached a ha := (List.mem_append.1 ha).elim (hr a) (h.reached a)
  complete hok a ha := by
    obtain ⟨hm, hd⟩ := h.complete hok a ha
    refine ⟨?_, hd⟩
    rcases hm with hm | hm
    · rcases List.mem_append.1 hm with hm | hm
      · exact .inr (List.mem_append_left _ hm)
      · exact .inl hm
    · exact .inr (List.mem_append_right _ hm)
  failed := h.failed

theorem Closes.mono_known {known known' found : List Artifact} {outcome : Except ScanError Unit}
    (hk : ∀ a ∈ known, a ∈ known') (h : l.Closes t mainSource sources forced known found outcome) :
    l.Closes t mainSource sources forced known' found outcome where
  reached := h.reached
  complete hok a ha := ⟨(h.complete hok a ha).1.imp_left (hk a), (h.complete hok a ha).2⟩
  failed := h.failed

/-- Only what names mean and where generated files are written counts. -/
theorem Closes.congr {l' : Lookup} (hm : l.meaning? t = l'.meaning? t) (hg : l.generated = l'.generated)
    {known found : List Artifact} {outcome : Except ScanError Unit}
    (h : l.Closes t mainSource sources forced known found outcome) :
    l'.Closes t mainSource sources forced known found outcome := by
  have hd : l.directivesOn t = l'.directivesOn t := by
    funext a
    unfold directivesOn
    rw [hg]
  constructor
  case reached => exact fun a ha => (h.reached a ha).congr hm hd
  case complete =>
    intro hok a ha
    rw [← hd]
    exact h.complete hok a (ha.congr hm.symm hd.symm)
  case failed =>
    intro e he
    obtain ⟨a, cause, ha, hc, rfl⟩ := h.failed e he
    refine ⟨a, cause, ha.congr hm hd, by rw [← hd]; exact hc, ?_⟩
    unfold readPath
    rw [hg]

theorem ensures_seeSources : ∀ (sources : List Artifact) (f : Frontier),
    Ensures t (seeSources sources f) (fun found f' => found = sources ∧ f' = f.seeAll sources)
  | [], _ => ⟨rfl, rfl⟩
  | a :: sources, f => by
    refine ensures_step_bind trivial fun _ _ => ensures_mono (ensures_seeSources sources (f.see a)) ?_
    rintro _ _ ⟨rfl, rfl⟩
    exact ⟨rfl, rfl⟩

theorem ensures_seeForced (beside : Option Path) : ∀ (names : List String) (f : Frontier),
    Ensures t (l.seeForced beside names f) (fun found f' =>
      found = names.filterMap (l.meaning? t beside .quote) ∧
      f' = f.seeAll (names.filterMap (l.meaning? t beside .quote)))
  | [], _ => ⟨rfl, rfl⟩
  | name :: names, f => by
    refine (l.gives_find beside .quote name).bind ?_
    cases e : l.meaning? t beside .quote name with
    | none =>
      rw [List.filterMap_cons_none e]
      exact ensures_seeForced beside names f
    | some a =>
      rw [List.filterMap_cons_some e]
      refine ensures_step_bind trivial fun _ _ => ensures_mono (ensures_seeForced beside names (f.see a)) ?_
      rintro _ _ ⟨rfl, rfl⟩
      exact ⟨rfl, rfl⟩

/-- What the directives of `a` mean is seen, and what is new about it is recorded. -/
theorem ensures_seeDirectives (a : Artifact) : ∀ (ds : List Directive) (f : Frontier),
    Ensures t (l.seeDirectives a.path.parent? ds f) (fun found f' =>
      f' = f.seeAll (ds.filterMap (l.target? t a)) ∧ f'.seen = found.reverse ++ f.seen)
  | [], _ => ⟨rfl, rfl⟩
  | d :: ds, f => by
    have hd : Scan.Gives t (l.find? a.path.parent? d.form d.target) (l.target? t a d) := l.gives_find _ _ _
    refine hd.bind ?_
    cases e : l.target? t a d with
    | none =>
      rw [List.filterMap_cons_none e]
      exact ensures_seeDirectives a ds f
    | some b =>
      rw [List.filterMap_cons_some e, Frontier.seeAll_cons]
      dsimp only
      split
      · rename_i hb
        rw [Frontier.see_of_mem hb]
        exact ensures_seeDirectives a ds f
      · rename_i hb
        refine ensures_step_bind trivial fun _ _ => ensures_mono (ensures_seeDirectives a ds (f.see b)) ?_
        rintro found f' ⟨hf, hs⟩
        refine ⟨hf, ?_⟩
        rw [hs, Frontier.see_of_notMem hb]
        simp [Step.recorded]

/-- **The rounds of a scan** that has enough of them. -/
theorem ensures_follow (running : l.context.interrupted = false) (placed : l.generated.Placed) :
    ∀ (rounds : Nat) (f : Frontier), l.Exploring t mainSource sources forced f →
      rounds + f.seen.length = l.roundLimit sources.length + f.pending.length →
      Ensures t (l.follow rounds f) (l.Closes t mainSource sources forced f.seen)
  | 0, f, h, hr => by
    -- out of rounds: as many artifacts have been seen as there can be, and so none is left pending
    have hle := l.length_le_roundLimit t sources f.seen h.nodup h.sighted
    exact Closes.ofDone h (List.eq_nil_of_length_eq_zero (by omega))
  | rounds + 1, f, h, hr => by
    unfold follow
    cases top : f.pending with
    | nil => exact Closes.ofDone h top
    | cons a rest =>
      have ha : a ∈ f.seen := h.pending a (by rw [top]; exact List.mem_cons_self)
      simp only [running, Bool.false_eq_true, if_false]
      refine (l.gives_directivesOf placed a).bind ?_
      cases hd : l.directivesOn t a with
      | error cause =>
        show l.Closes t mainSource sources forced f.seen [] (.error (.unreadable (l.readPath a) cause))
        refine ⟨fun b hb => absurd hb List.not_mem_nil, fun hok => absurd hok nofun, fun e he => ?_⟩
        cases he
        exact ⟨a, cause, h.reached a ha, hd, rfl⟩
      | ok ds =>
        -- each artifact that the round sees is also pending, so only `a` is taken off the count
        show Ensures t (l.seeDirectives _ ds _ >>= _) _
        rw [ensures_bind]
        refine ensures_mono (ensures_seeDirectives a ds _) ?_
        rintro found _ ⟨rfl, hs⟩
        have next := h.next top hd
        obtain ⟨new, hn, hp, -⟩ := Frontier.exists_new (ds.filterMap (l.target? t a)) { f with pending := rest }
        refine ensures_mono (ensures_follow running placed rounds _ next ?_) ?_
        · rw [hn, hp, List.length_append, List.length_append]
          rw [top, List.length_cons] at hr
          dsimp only
          omega
        · intro more outcome hc
          refine Closes.append (fun b hb => next.reached b ?_) (hc.mono_known fun b hb => ?_)
          · rw [hs]
            exact List.mem_append_left _ (List.mem_reverse.2 hb)
          · rw [hs, List.mem_append, List.mem_reverse] at hb
            exact List.mem_append.2 hb

/-- **The closure of some entry sources and forced includes,** whatever the cache holds. -/
theorem ensures_closure (running : l.context.interrupted = false) (placed : l.generated.Placed) :
    Ensures t (l.closure mainSource sources forced) (l.Closes t mainSource sources forced []) := by
  unfold closure
  rw [ensures_bind]
  refine ensures_mono (ensures_seeSources sources .empty) ?_
  rintro sources _ ⟨rfl, rfl⟩
  rw [ensures_bind]
  refine ensures_mono (ensures_seeForced mainSource.path.parent? forced _) ?_
  rintro _ _ ⟨rfl, rfl⟩
  have start : l.Exploring t mainSource sources forced _ := .ofStart
  obtain ⟨new, hs, hp, -⟩ := Frontier.exists_new (sources ++ l.namedBy t mainSource forced) .empty
  rw [show (Frontier.empty.seeAll sources).seeAll (forced.filterMap (l.meaning? t mainSource.path.parent? .quote))
    = Frontier.empty.seeAll (sources ++ l.namedBy t mainSource forced) from List.foldl_append.symm]
  have hl : (Frontier.empty.seeAll (sources ++ l.namedBy t mainSource forced)).seen
      = (Frontier.empty.seeAll (sources ++ l.namedBy t mainSource forced)).pending := by rw [hs, hp]; rfl
  refine ensures_mono (ensures_follow running placed _ _ start (by rw [hl])) ?_
  intro more outcome hc
  rw [← List.append_assoc]
  refine Closes.append (fun b hb => start.reached b (start.start b hb)) (hc.mono_known fun b hb => ?_)
  rw [Frontier.mem_seen_seeAll] at hb
  exact List.mem_append_left _ (hb.resolve_left List.not_mem_nil)

/-- **A closure on a tree, from an empty memo.**  It ends well exactly when every artifact that is reached can be read,
and then the action has found these besides what it had found before.  A failure names a file that is reached and cannot
be read; what was recorded until then is reached. -/
theorem runOn_closure (t : FileTree) (l : Lookup) (mainSource : Artifact) (sources : List Artifact)
    (forced : List String) (s : ScanStore) (fresh : s.cache.memo = .empty) (running : l.context.interrupted = false)
    (placed : l.generated.Placed) :
    let result := Scan.runOn t (l.closure mainSource sources forced) s
    (result.1 = .ok () ↔ ∀ a, l.Reach t mainSource sources forced a → ∃ ds, l.directivesOn t a = .ok ds) ∧
    (result.1 = .ok () → ∀ a, a ∈ result.2.found ↔ a ∈ s.found ∨ l.Reach t mainSource sources forced a) ∧
    (∀ e, result.1 = .error e → ∃ a cause, l.Reach t mainSource sources forced a ∧
      l.directivesOn t a = .error cause ∧ e = .unreadable (l.readPath a) cause) ∧
    (∀ a ∈ s.found, a ∈ result.2.found) ∧
    ∀ a ∈ result.2.found, a ∈ s.found ∨ l.Reach t mainSource sources forced a := by
  have traced : s.cache.memo.Traced [t] := by rw [fresh]; exact FileMemo.traced_empty [t]
  have ensures : Ensures t (l.closure mainSource sources forced) (l.Closes t mainSource sources forced []) :=
    ensures_closure running placed
  obtain ⟨recorded, closes, -, hfound⟩ := Scan.runOn_ensures (.self t) ensures traced
  dsimp only
  generalize Scan.runOn t (l.closure mainSource sources forced) s = result at closes hfound ⊢
  refine ⟨⟨fun hok a ha => (closes.complete hok a ha).2, fun readable => ?_⟩, fun hok a => ?_, closes.failed,
    fun a ha => (hfound a).2 (.inl ha), fun a ha => ?_⟩
  · cases outcome : result.1 with
    | ok => rfl
    | error e =>
      obtain ⟨a, cause, ha, hd, -⟩ := closes.failed e outcome
      obtain ⟨ds, hd'⟩ := readable a ha
      rw [hd] at hd'
      cases hd'
  · rw [hfound]
    refine or_congr_right ⟨closes.reached a, fun ha => ?_⟩
    exact (closes.complete hok a ha).1.resolve_left List.not_mem_nil
  · exact ((hfound a).1 ha).imp_right (closes.reached a)

end Lookup

/-! ## A source and a header that include each other -/

namespace Sample

def aCc : Artifact := .under (.mount ⟨"/w"⟩ .source) ⟨"a.cc"⟩

def bH : Artifact := .under (.mount ⟨"/w"⟩ .source) ⟨"b.h"⟩

/-- A generated file that is not written yet. -/
def gH : Artifact := .under (.mount ⟨"/w/out"⟩ .output) ⟨"g.h"⟩

/-- The header is there in any case, and `fault` is why it cannot be read, if it cannot. -/
def treeWith (fault : Option OsError) : FileTree where
  nodes :=
    [(["w"], .directory),
     (["w", "a.cc"], .file { bytes := Text.utf8Bytes "#include \"b.h\"\n", modified := 0 }),
     (["w", "b.h"], .file { bytes := Text.utf8Bytes "#include \"a.cc\"\n", modified := 0, fault })]
  workingDirectory := []

abbrev tree : FileTree :=
  treeWith none

/-- What the system says about a file that the reader may not open. -/
def denied : OsError :=
  .other 13 "Permission denied"

def lookup : Lookup where
  dirs := { quote := [], angle := [⟨"/w/out"⟩, ⟨"/usr/include"⟩] }
  generated := GeneratedFiles.none.declare gH ⟨"/tmp/g.h"⟩
  context := .withRoots ⟨"/w"⟩ (.ofList [aCc.root, gH.root])

theorem placed_lookup : lookup.generated.Placed := by
  intro entry h
  rw [List.mem_singleton.1 (show entry ∈ [(gH, ⟨"/tmp/g.h"⟩)] from h)]
  decide

theorem directivesOn_bH (fault : Option OsError) : lookup.directivesOn (treeWith fault) bH =
    match fault with
    | some e => .error e
    | none => .ok [{ form := .quote, target := "a.cc" }] := by
  cases fault <;> rfl

/-- The two files that include each other and the generated one are met on the way, and they lead nowhere else. -/
theorem reach_iff {fault : Option OsError} {a : Artifact} :
    lookup.Reach (treeWith fault) aCc [aCc] ["g.h"] a ↔ a = aCc ∨ a = bH ∨ a = gH := by
  have hb : lookup.target? (treeWith fault) aCc { form := .quote, target := "b.h" } = some bH := rfl
  have ha : lookup.target? (treeWith fault) bH { form := .quote, target := "a.cc" } = some aCc := rfl
  have hg : lookup.meaning? (treeWith fault) aCc.path.parent? .quote "g.h" = some gH := rfl
  have da : lookup.directivesOn (treeWith fault) aCc = .ok [{ form := .quote, target := "b.h" }] := rfl
  have dg : lookup.directivesOn (treeWith fault) gH = .ok [] := rfl
  constructor
  · intro h
    induction h with
    | source entry => exact .inl (List.mem_singleton.1 entry)
    | forced given meaning =>
      rw [List.mem_singleton.1 given, hg] at meaning
      cases meaning
      exact .inr (.inr rfl)
    | directive _ directives mem target ih =>
      rcases ih with rfl | rfl | rfl
      · rw [da] at directives
        cases directives
        rw [List.mem_singleton.1 mem, hb] at target
        cases target
        exact .inr (.inl rfl)
      · rw [directivesOn_bH] at directives
        split at directives
        · cases directives
        · cases directives
          rw [List.mem_singleton.1 mem, ha] at target
          cases target
          exact .inl rfl
      · rw [dg] at directives
        cases directives
        exact absurd mem List.not_mem_nil
  · have reached : lookup.Reach (treeWith fault) aCc [aCc] ["g.h"] aCc := .source List.mem_cons_self
    rintro (rfl | rfl | rfl)
    · exact reached
    · exact .directive reached da List.mem_cons_self hb
    · exact .forced List.mem_cons_self hg

/-- Only the header can be kept from being read. -/
theorem eq_bH_of_unread {fault : Option OsError} {a : Artifact} {cause : OsError}
    (reached : lookup.Reach (treeWith fault) aCc [aCc] ["g.h"] a)
    (unread : lookup.directivesOn (treeWith fault) a = .error cause) : a = bH ∧ fault = some cause := by
  rcases reach_iff.1 reached with rfl | rfl | rfl
  · cases unread
  · rw [directivesOn_bH] at unread
    split at unread
    · cases unread
      exact ⟨rfl, rfl⟩
    · cases unread
  · cases unread

end Sample

/-- The header is found in any case; when it cannot be read the closure fails, and it names the header. -/
theorem Lookup.runOn_closure_of_cycle :
    Sample.lookup.context.interrupted = false ∧ Sample.lookup.generated.Placed ∧
    (Scan.runOn Sample.tree (Sample.lookup.closure Sample.aCc [Sample.aCc] ["g.h"]) .empty).1 = .ok () ∧
    (∀ a, a ∈ (Scan.runOn Sample.tree (Sample.lookup.closure Sample.aCc [Sample.aCc] ["g.h"]) .empty).2.found ↔
      a = Sample.aCc ∨ a = Sample.bH ∨ a = Sample.gH) ∧
    (Scan.runOn (Sample.treeWith (some Sample.denied)) (Sample.lookup.closure Sample.aCc [Sample.aCc] ["g.h"])
      .empty).1 = .error (.unreadable ⟨"/w/b.h"⟩ Sample.denied) := by
  obtain ⟨hok, hfound, -⟩ := Lookup.runOn_closure Sample.tree Sample.lookup Sample.aCc [Sample.aCc] ["g.h"] .empty rfl
    rfl Sample.placed_lookup
  have ended := hok.2 fun a ha => by
    rcases Sample.reach_iff.1 ha with rfl | rfl | rfl
    · exact ⟨_, rfl⟩
    · exact ⟨_, rfl⟩
    · exact ⟨_, rfl⟩
  refine ⟨rfl, Sample.placed_lookup, ended, fun a => ?_, ?_⟩
  · rw [hfound ended a, Sample.reach_iff]
    exact or_iff_right (ArtifactSet.notMem_empty a)
  · obtain ⟨hok, -, failed, -⟩ := Lookup.runOn_closure (Sample.treeWith (some Sample.denied)) Sample.lookup Sample.aCc
      [Sample.aCc] ["g.h"] .empty rfl rfl Sample.placed_lookup
    cases outcome : (Scan.runOn (Sample.treeWith (some Sample.denied))
        (Sample.lookup.closure Sample.aCc [Sample.aCc] ["g.h"]) .empty).1 with
    | ok =>
      obtain ⟨ds, read⟩ := hok.1 outcome Sample.bH (Sample.reach_iff.2 (.inr (.inl rfl)))
      cases read
    | error e =>
      obtain ⟨a, cause, reached, unread, rfl⟩ := failed e outcome
      obtain ⟨rfl, same⟩ := Sample.eq_bH_of_unread reached unread
      cases same
      rfl

end IncludeClosure
