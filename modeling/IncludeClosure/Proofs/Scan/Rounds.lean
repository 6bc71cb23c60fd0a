import Mathlib.Data.Set.Card
import IncludeClosure.Proofs.FileTree.Plain
import IncludeClosure.Proofs.Scan.Closure
import IncludeClosure.Proofs.Scan.Reads
/-!
# Proofs.Scan.Rounds — the rounds of a scan come to an end

What is pending grows while it is consumed, files include each other in circles, and a directory link that leads upwards
gives one file ever longer paths.  The rounds end all the same, on every file system in which finitely many paths in
normal form name a regular file: each round takes an artifact that no round took before, and whatever is taken is an
entry source or what some name can mean (`Findable`), of which there are finitely many.

`Rounds` is the loop without a limit, with the artifacts that it takes.  What a round keeps is `Underway`
(`Underway.next`); so no run takes an artifact twice (`Rounds.nodup`), and there is a run (`exists_rounds`).  A limit that
is not below the number of artifacts taken changes nothing (`Rounds.follow`).
-/
namespace IncludeClosure

/-- **Whether a path names a regular file** in one of its spellings, on a file system known by its answers. -/
def Path.NamesFile (answer : (question : Disk) → question.Answer) (p : Path) : Prop :=
  ∃ q stamp, q.components = p.components ∧ answer (.status q) = .ok (.file stamp)

theorem Path.namesFile_iff {t : FileTree} {p : Path} (normal : p.normalize = p) :
    p.NamesFile t.answer ↔ t.isFile p = true := by
  constructor
  · rintro ⟨q, stamp, same, status⟩
    exact FileTree.isFile_of_normal normal same (FileTree.isFile_iff.2 ⟨stamp, status⟩)
  · intro file
    obtain ⟨stamp, status⟩ := FileTree.isFile_iff.1 file
    exact ⟨p, stamp, rfl, status⟩

/-- **On a tree finitely many paths in normal form name a regular file,** also below links that lead upwards: the system
takes no others than short ones. -/
theorem FileTree.finite_namesFile (t : FileTree) : {p : Path | p.normalize = p ∧ p.NamesFile t.answer}.Finite := by
  refine ((Set.finite_lt_nat Lookup.nameablePaths).preimage Path.code_injective.injOn).subset ?_
  rintro p ⟨normal, named⟩
  exact Path.code_lt (Lookup.size_le_of_isFile ((Path.namesFile_iff normal).1 named))

/-- **What a cache may come to know** on a file system: the files that it knows, and those that are there. -/
def FileMemo.MayKnow (answer : (question : Disk) → question.Answer) (m : FileMemo) (p : Path) : Prop :=
  m.knowsFile p = true ∨ p.NamesFile answer

/-- The second cache knows no more than the first may come to know. -/
def FileMemo.Foresees (answer : (question : Disk) → question.Answer) (m later : FileMemo) : Prop :=
  ∀ p, later.knowsFile p = true → m.MayKnow answer p

theorem FileMemo.Foresees.refl (answer : (question : Disk) → question.Answer) (m : FileMemo) : m.Foresees answer m :=
  fun _ => .inl

namespace Scan

variable {α β : Type} {answer : (question : Disk) → question.Answer} {m : FileMemo}

/-- **A scan on a file system** that is known by its answers. -/
def runWith (answer : (question : Disk) → question.Answer) (scan : Scan α) (s : ScanStore) : α × ScanStore :=
  (perform scan s).run answer

theorem runWith_bind (scan : Scan α) (f : α → Scan β) (s : ScanStore) :
    runWith answer (scan >>= f) s = runWith answer (f (runWith answer scan s).1) (runWith answer scan s).2 := by
  unfold runWith
  rw [perform_bind, Program.run_bind]

/-- **What a scan gives when the cache `m` foresees its own;** afterwards this is still so. -/
def Keeps (answer : (question : Disk) → question.Answer) (m : FileMemo) (scan : Scan α) (Q : α → Prop) : Prop :=
  ∀ s : ScanStore, m.Foresees answer s.cache.memo →
    Q (runWith answer scan s).1 ∧ m.Foresees answer (runWith answer scan s).2.cache.memo

theorem keeps_done {a : α} {Q : α → Prop} (h : Q a) : Keeps answer m (.done a) Q :=
  fun _ known => ⟨h, known⟩

theorem Keeps.mono {scan : Scan α} {Q R : α → Prop} (h : Keeps answer m scan Q) (himp : ∀ a, Q a → R a) :
    Keeps answer m scan R :=
  fun s known => (h s known).imp_left (himp _)

theorem Keeps.bind {scan : Scan α} {f : α → Scan β} {Q : α → Prop} {R : β → Prop} (h : Keeps answer m scan Q)
    (rest : ∀ a, Q a → Keeps answer m (f a) R) : Keeps answer m (scan >>= f) R := by
  intro s known
  obtain ⟨gives, known'⟩ := h s known
  rw [runWith_bind]
  exact rest _ gives _ known'

/-- A step that leaves alone which files are known. -/
theorem keeps_quiet {step : Step}
    (quiet : ∀ s : ScanStore, ((s.reply step).run answer).2.cache.memo.files = s.cache.memo.files) :
    Keeps answer m (Scan.step step) fun _ => True := by
  intro s known
  have run : runWith answer (Scan.step step) s = (s.reply step).run answer := by
    show (s.reply step >>= .done).run answer = _
    rw [Program.bind_done]
  refine ⟨trivial, fun p hp => known p ?_⟩
  rw [run] at hp
  unfold FileMemo.knowsFile at hp ⊢
  rwa [quiet s] at hp

theorem keeps_disk (question : Disk) : Keeps answer m (disk question) (· = answer question) :=
  fun _ known => ⟨rfl, known⟩

theorem keeps_isFile (p : Path) : Keeps answer m (isFile p) fun known => known = true → m.MayKnow answer p := by
  have recalls : Keeps answer m (step (.recallFile p)) fun known => known = true → m.MayKnow answer p :=
    fun s known => ⟨known p, known⟩
  unfold isFile
  refine recalls.bind fun known mayKnow => ?_
  split
  · exact keeps_done fun _ => mayKnow ‹_›
  · refine (keeps_disk _).bind ?_
    intro status given
    split
    · rename_i stamp
      have remembers : Keeps answer m (step (.rememberFile p)) fun _ => True := by
        refine fun s known => ⟨trivial, fun q hq => ?_⟩
        rcases FileMemo.knowsFile_rememberFile.1 hq with same | before
        · exact .inr ⟨p, stamp, same, given.symm⟩
        · exact known q before
      exact remembers.bind fun _ _ => keeps_done fun _ => .inr ⟨p, stamp, rfl, given.symm⟩
    · exact keeps_done fun h => by cases h

theorem keeps_readDirectives (p : Path) (stamp? : Option Stamp) :
    Keeps answer m (readDirectives p stamp?) fun _ => True := by
  unfold readDirectives
  refine (keeps_disk _).bind fun contents _ => ?_
  split
  · exact keeps_done trivial
  · split
    · exact (keeps_quiet fun _ => rfl).bind fun _ _ => keeps_done trivial
    · exact keeps_done trivial

theorem keeps_directives (p : Path) : Keeps answer m (directives p) fun _ => True := by
  unfold directives
  refine (keeps_disk _).bind fun status _ => ?_
  split
  · exact keeps_done trivial
  · exact keeps_readDirectives p none
  · refine (keeps_quiet fun _ => rfl).bind fun remembered _ => ?_
    split
    · split
      · exact keeps_done trivial
      · exact keeps_readDirectives p _
    · exact keeps_readDirectives p _

theorem keeps_record (a : Artifact) : Keeps answer m (step (.record a)) fun _ => True :=
  keeps_quiet fun _ => rfl

end Scan

namespace Lookup

open Scan (Keeps keeps_done runWith)

variable {l : Lookup} {answer : (question : Disk) → question.Answer} {m : FileMemo}

/-- **What some name can mean** to a scan that starts from the cache `m`: a generated file, or the artifact of a path in
normal form that names a regular file or is remembered to do so. -/
def Findable (l : Lookup) (answer : (question : Disk) → question.Answer) (m : FileMemo) (a : Artifact) : Prop :=
  a ∈ l.generated.entries.map (·.1) ∨
    ∃ p : Path, p.normalize = p ∧ m.MayKnow answer p ∧ a = l.context.roots.resolve p

theorem keeps_existing {p : Path} (hp : p.normalize = p) :
    Keeps answer m (l.existing? p) fun found => ∀ a, found = some a → l.Findable answer m a := by
  unfold existing?
  split
  · rename_i found lies
    refine keeps_done fun a e => ?_
    cases e
    exact .inl (GeneratedFiles.mem_of_lyingAt? lies)
  · refine (Scan.keeps_isFile p).bind fun known mayKnow => ?_
    split
    · refine keeps_done fun a e => ?_
      cases e
      exact .inr ⟨p, hp, mayKnow ‹_›, rfl⟩
    · exact keeps_done fun a e => by cases e

theorem keeps_firstExisting : ∀ {ps : List Path}, (∀ p ∈ ps, p.normalize = p) →
    Keeps answer m (l.firstExisting? ps) fun found => ∀ a, found = some a → l.Findable answer m a
  | [], _ => keeps_done fun a e => by cases e
  | p :: ps, h => by
    unfold firstExisting?
    refine (keeps_existing (h p List.mem_cons_self)).bind fun found findable => ?_
    split
    · exact keeps_done findable
    · exact keeps_firstExisting fun q hq => h q (List.mem_cons_of_mem _ hq)

theorem keeps_find (beside : Option Path) (form : IncludeForm) (name : String) :
    Keeps answer m (l.find? beside form name) fun found => ∀ a, found = some a → l.Findable answer m a :=
  keeps_firstExisting fun _ => normalize_of_mem_candidates

theorem keeps_directivesOf (a : Artifact) : Keeps answer m (l.directivesOf a) fun _ => True := by
  unfold directivesOf
  split
  · rename_i written _
    refine (Scan.keeps_isFile written).bind fun known _ => ?_
    split
    · exact (Scan.keeps_directives written).bind fun _ _ => keeps_done trivial
    · exact keeps_done trivial
  · exact (Scan.keeps_directives a.path).bind fun _ _ => keeps_done trivial

theorem keeps_seeSources : ∀ (sources : List Artifact) (f : Frontier),
    Keeps answer m (seeSources sources f) (· = f.seeAll sources)
  | [], _ => keeps_done rfl
  | a :: sources, f => (Scan.keeps_record a).bind fun _ _ => keeps_seeSources sources (f.see a)

/-- The second frontier has seen, one after another, some artifacts that names can mean. -/
def Sees (l : Lookup) (answer : (question : Disk) → question.Answer) (m : FileMemo) (f f' : Frontier) : Prop :=
  ∃ found, f' = f.seeAll found ∧ ∀ a ∈ found, l.Findable answer m a

theorem Sees.refl (f : Frontier) : l.Sees answer m f f :=
  ⟨[], rfl, fun _ h => absurd h List.not_mem_nil⟩

theorem Sees.cons {f f' : Frontier} {a : Artifact} (h : l.Findable answer m a) (rest : l.Sees answer m (f.see a) f') :
    l.Sees answer m f f' := by
  obtain ⟨found, rfl, findable⟩ := rest
  exact ⟨a :: found, rfl, List.forall_mem_cons.2 ⟨h, findable⟩⟩

theorem keeps_seeForced (beside : Option Path) : ∀ (names : List String) (f : Frontier),
    Keeps answer m (l.seeForced beside names f) (l.Sees answer m f)
  | [], f => keeps_done (.refl f)
  | name :: names, f => by
    unfold seeForced
    refine (keeps_find beside .quote name).bind fun found findable => ?_
    split
    · rename_i a
      refine (Scan.keeps_record a).bind fun _ _ => ?_
      exact (keeps_seeForced beside names (f.see a)).mono fun _ => .cons (findable a rfl)
    · exact keeps_seeForced beside names f

theorem keeps_seeDirectives (beside : Option Path) : ∀ (ds : List Directive) (f : Frontier),
    Keeps answer m (l.seeDirectives beside ds f) (l.Sees answer m f)
  | [], f => keeps_done (.refl f)
  | d :: ds, f => by
    unfold seeDirectives
    refine (keeps_find beside d.form d.target).bind fun found findable => ?_
    split
    · rename_i a
      split
      · exact keeps_seeDirectives beside ds f
      · refine (Scan.keeps_record a).bind fun _ _ => ?_
        exact (keeps_seeDirectives beside ds (f.see a)).mono fun _ => .cons (findable a rfl)
    · exact keeps_seeDirectives beside ds f

/-- **The loop, without a limit:** from a frontier and a store it takes artifacts, one in each round, and ends with an
outcome and a store. -/
inductive Rounds (l : Lookup) (answer : (question : Disk) → question.Answer) :
    Frontier → ScanStore → List Artifact → Except ScanError Unit → ScanStore → Prop where
  | done {f : Frontier} {s : ScanStore} (nothing : f.pending = []) : Rounds l answer f s [] (.ok ()) s
  | interrupted {f : Frontier} {s : ScanStore} {a : Artifact} {rest : List Artifact} (top : f.pending = a :: rest)
      (stopped : l.context.interrupted = true) : Rounds l answer f s [a] (.error .interrupted) s
  | unreadable {f : Frontier} {s s' : ScanStore} {a : Artifact} {rest : List Artifact} {e : ScanError}
      (top : f.pending = a :: rest) (running : l.context.interrupted = false)
      (asked : runWith answer (l.directivesOf a) s = (.error e, s')) : Rounds l answer f s [a] (.error e) s'
  | next {f f' : Frontier} {s s₁ s₂ s' : ScanStore} {a : Artifact} {rest taken : List Artifact}
      {ds : List Directive} {outcome : Except ScanError Unit} (top : f.pending = a :: rest)
      (running : l.context.interrupted = false) (asked : runWith answer (l.directivesOf a) s = (.ok ds, s₁))
      (seen : runWith answer (l.seeDirectives a.path.parent? ds { f with pending := rest }) s₁ = (f', s₂))
      (more : Rounds l answer f' s₂ taken outcome s') : Rounds l answer f s (a :: taken) outcome s'

/-! What the loop does with a limit, in each of the cases of `Rounds`. -/

section

variable {f : Frontier} {a : Artifact} {rest : List Artifact}

theorem follow_of_nothing (nothing : f.pending = []) : ∀ limit : Nat, l.follow limit f = pure (.ok ())
  | 0 => rfl
  | limit + 1 => by
    unfold follow
    rw [nothing]

theorem follow_of_stopped (top : f.pending = a :: rest) (stopped : l.context.interrupted = true) (limit : Nat) :
    l.follow (limit + 1) f = pure (.error .interrupted) := by
  unfold follow
  rw [top]
  exact if_pos stopped

theorem follow_of_running (top : f.pending = a :: rest) (running : l.context.interrupted = false) (limit : Nat) :
    l.follow (limit + 1) f = (l.directivesOf a >>= fun
      | .error e => pure (.error e)
      | .ok ds => l.seeDirectives a.path.parent? ds { f with pending := rest } >>= l.follow limit) := by
  rw [follow, top]
  exact if_neg (by rw [running]; decide)

end

/-- **A limit that the loop does not reach** changes nothing. -/
theorem Rounds.follow {f : Frontier} {s s' : ScanStore} {taken : List Artifact} {outcome : Except ScanError Unit}
    (h : l.Rounds answer f s taken outcome s') :
    ∀ {limit : Nat}, taken.length ≤ limit → runWith answer (l.follow limit f) s = (outcome, s') := by
  induction h with
  | done nothing =>
    intro limit _
    rw [follow_of_nothing nothing]
    rfl
  | interrupted top stopped =>
    intro limit enough
    obtain ⟨limit, rfl⟩ := Nat.exists_eq_add_of_le' (show 1 ≤ limit from enough)
    rw [follow_of_stopped top stopped]
    rfl
  | unreadable top running asked =>
    intro limit enough
    obtain ⟨limit, rfl⟩ := Nat.exists_eq_add_of_le' (show 1 ≤ limit from enough)
    rw [follow_of_running top running, Scan.runWith_bind, asked]
    rfl
  | next top running asked seen more ih =>
    intro limit enough
    obtain ⟨limit, rfl⟩ := Nat.exists_eq_add_of_le' (Nat.le_trans (Nat.le_add_left 1 _) enough)
    rw [follow_of_running top running, Scan.runWith_bind, asked]
    dsimp only
    rw [Scan.runWith_bind, seen]
    exact ih (Nat.le_of_succ_le_succ enough)

/-- **The loop between two rounds,** the artifacts in `taken` having been taken: these and what is pending are what has
been seen, all of it once, and all of it is an entry source or what some name can mean. -/
structure Underway (l : Lookup) (answer : (question : Disk) → question.Answer) (m : FileMemo)
    (sources taken : List Artifact) (f : Frontier) (s : ScanStore) : Prop where
  nodup : f.seen.Nodup
  split : f.seen.Perm (taken ++ f.pending)
  sighted : ∀ a ∈ f.seen, a ∈ sources ∨ l.Findable answer m a
  known : m.Foresees answer s.cache.memo

namespace Underway

variable {sources taken : List Artifact} {f f' : Frontier} {s s' : ScanStore}

/-- More is seen, and the store has changed. -/
theorem see (h : l.Underway answer m sources taken f s) (sees : l.Sees answer m f f')
    (known : m.Foresees answer s'.cache.memo) :
    l.Underway answer m sources taken f' s' := by
  obtain ⟨found, rfl, findable⟩ := sees
  obtain ⟨new, hs, hp, hn⟩ := Frontier.exists_new found f
  refine ⟨hn h.nodup, ?_, fun b hb => ?_, known⟩
  · rw [hs, hp]
    exact (h.split.append_left new).trans (List.perm_append_comm_assoc new taken f.pending)
  · rcases (Frontier.mem_seen_seeAll found).1 hb with hb | hb
    · exact h.sighted b hb
    · exact .inr (findable b hb)

/-- **The top artifact is taken.** -/
theorem take (h : l.Underway answer m sources taken f s) {a : Artifact} {rest : List Artifact}
    (top : f.pending = a :: rest) : l.Underway answer m sources (a :: taken) { f with pending := rest } s where
  nodup := h.nodup
  split := h.split.trans (by rw [top]; exact List.perm_middle)
  sighted := h.sighted
  known := h.known

/-- **A round** takes the top artifact, and sees what its directives mean. -/
theorem next (h : l.Underway answer m sources taken f s) {a : Artifact} {rest : List Artifact} {ds : List Directive}
    {s₁ : ScanStore} (top : f.pending = a :: rest) (asked : runWith answer (l.directivesOf a) s = (.ok ds, s₁))
    (seen : runWith answer (l.seeDirectives a.path.parent? ds { f with pending := rest }) s₁ = (f', s')) :
    l.Underway answer m sources (a :: taken) f' s' := by
  obtain ⟨-, known⟩ := keeps_directivesOf (l := l) a s h.known
  rw [asked] at known
  obtain ⟨sees, known'⟩ := keeps_seeDirectives (l := l) a.path.parent? ds { f with pending := rest } s₁ known
  rw [seen] at sees known'
  exact (h.take top).see sees known'

theorem nodup_taken (h : l.Underway answer m sources taken f s) : (taken ++ f.pending).Nodup :=
  h.split.nodup_iff.1 h.nodup

end Underway

/-- **The loop takes nothing twice,** and nothing that is neither an entry source nor what some name can mean. -/
theorem Rounds.nodup {sources taken more : List Artifact} {f : Frontier} {s s' : ScanStore}
    {outcome : Except ScanError Unit} (run : l.Rounds answer f s more outcome s')
    (h : l.Underway answer m sources taken f s) :
    (taken ++ more).Nodup ∧ ∀ a ∈ more, a ∈ sources ∨ l.Findable answer m a := by
  have only {f : Frontier} {s : ScanStore} {a : Artifact} {rest taken : List Artifact} (top : f.pending = a :: rest)
      (h : l.Underway answer m sources taken f s) :
      (taken ++ [a]).Nodup ∧ ∀ b ∈ [a], b ∈ sources ∨ l.Findable answer m b := by
    have apart := h.nodup_taken
    rw [top] at apart
    refine ⟨apart.sublist (List.Sublist.append_left (by simp) taken), fun b hb => h.sighted b ?_⟩
    rw [List.mem_singleton.1 hb, h.split.mem_iff, top]
    simp
  induction run generalizing taken with
  | done nothing =>
    have apart := h.nodup_taken
    rw [nothing] at apart
    exact ⟨apart, fun a ha => absurd ha List.not_mem_nil⟩
  | interrupted top _ => exact only top h
  | unreadable top _ _ => exact only top h
  | @next f _ _ _ _ _ a _ more _ _ top _ asked seen _ ih =>
    obtain ⟨apart, sighted⟩ := ih (h.next top asked seen)
    exact ⟨List.perm_middle.nodup_iff.2 apart, List.forall_mem_cons.2 ⟨(only top h).2 a (by simp), sighted⟩⟩

theorem length_le_ncard {U : Set Artifact} (finite : U.Finite) {xs : List Artifact} (nodup : xs.Nodup)
    (inside : ∀ a ∈ xs, a ∈ U) : xs.length ≤ U.ncard := by
  rw [← List.toFinset_card_of_nodup nodup, ← Set.ncard_coe_finset]
  exact Set.ncard_le_ncard (fun a ha => inside a (by simpa using ha)) finite

/-- **The loop ends.**  Every round takes one more of the artifacts that there are to see. -/
theorem exists_rounds {sources : List Artifact} (finite : {a | a ∈ sources ∨ l.Findable answer m a}.Finite) :
    ∀ (left : Nat) {taken : List Artifact} {f : Frontier} {s : ScanStore},
      l.Underway answer m sources taken f s →
      {a | a ∈ sources ∨ l.Findable answer m a}.ncard ≤ taken.length + left →
      ∃ more outcome s', l.Rounds answer f s more outcome s'
  | left, taken, f, s, h, bound => by
    cases top : f.pending with
    | nil => exact ⟨[], _, s, .done top⟩
    | cons a rest =>
      cases stopped : l.context.interrupted with
      | true => exact ⟨[a], _, s, .interrupted top stopped⟩
      | false =>
        cases asked : runWith answer (l.directivesOf a) s with
        | mk result s₁ =>
          cases result with
          | error e => exact ⟨[a], _, s₁, .unreadable top stopped asked⟩
          | ok ds =>
            cases seen : runWith answer (l.seeDirectives a.path.parent? ds { f with pending := rest }) s₁ with
            | mk f' s₂ =>
              cases left with
              | zero =>
                -- as many artifacts have been taken as there are, and `a` is one more
                have inside := length_le_ncard finite h.nodup h.sighted
                rw [h.split.length_eq, top, List.length_append, List.length_cons] at inside
                omega
              | succ left =>
                have bound' : {a | a ∈ sources ∨ l.Findable answer m a}.ncard ≤ (a :: taken).length + left := by
                  rw [List.length_cons]
                  omega
                obtain ⟨more, outcome, s', run⟩ := exists_rounds finite left (h.next top asked seen) bound'
                exact ⟨a :: more, outcome, s', .next top stopped asked seen run⟩

/-- **The frontier before the first round.** -/
def start (l : Lookup) (mainSource : Artifact) (sources : List Artifact) (forced : List String) : Scan Frontier := do
  let f ← seeSources sources .empty
  l.seeForced mainSource.path.parent? forced f

theorem start_follow (l : Lookup) (mainSource : Artifact) (sources : List Artifact) (forced : List String)
    (limit : Nat) :
    (do
      let f ← seeSources sources .empty
      let f ← l.seeForced mainSource.path.parent? forced f
      l.follow limit f) = (l.start mainSource sources forced >>= l.follow limit) := by
  unfold start
  rw [Program.bind_assoc]

theorem closure_eq (l : Lookup) (mainSource : Artifact) (sources : List Artifact) (forced : List String) :
    l.closure mainSource sources forced =
      (l.start mainSource sources forced >>= l.follow (l.roundLimit sources.length)) := by
  unfold closure
  exact l.start_follow mainSource sources forced (l.roundLimit sources.length)

theorem underway_start (mainSource : Artifact) (sources : List Artifact) (forced : List String) (s : ScanStore) :
    l.Underway answer s.cache.memo sources [] (runWith answer (l.start mainSource sources forced) s).1
      (runWith answer (l.start mainSource sources forced) s).2 := by
  have keeps : Keeps answer s.cache.memo (l.start mainSource sources forced)
      (l.Sees answer s.cache.memo (Frontier.empty.seeAll sources)) := by
    refine (keeps_seeSources sources .empty).bind ?_
    rintro _ rfl
    exact keeps_seeForced mainSource.path.parent? forced _
  obtain ⟨sees, known⟩ := keeps s (.refl answer _)
  obtain ⟨new, hs, hp, hn⟩ := Frontier.exists_new sources .empty
  have entries : l.Underway answer s.cache.memo sources [] (Frontier.empty.seeAll sources) s := by
    refine ⟨hn List.nodup_nil, ?_, fun a ha => ?_, .refl answer _⟩
    · rw [hs, hp]
      exact .refl _
    · exact .inl (((Frontier.mem_seen_seeAll sources).1 ha).resolve_left List.not_mem_nil)
  exact entries.see sees known

theorem finite_findable (finite : {p : Path | p.normalize = p ∧ p.NamesFile answer}.Finite) (l : Lookup)
    (m : FileMemo) : {a | l.Findable answer m a}.Finite := by
  have paths : ({p : Path | p.normalize = p ∧ p.NamesFile answer} ∪ {p | p ∈ m.files.map Path.normalize}).Finite :=
    finite.union (List.finite_toSet _)
  refine ((List.finite_toSet (l.generated.entries.map (·.1))).union
    (paths.image l.context.roots.resolve)).subset ?_
  rintro a (generated | ⟨p, normal, known | present, rfl⟩)
  · exact .inl generated
  · obtain ⟨q, hq, same⟩ := FileMemo.knowsFile_iff.1 known
    refine .inr ⟨p, .inr ?_, rfl⟩
    exact List.mem_map.2 ⟨q, hq, (Path.normalize_congr same).trans normal⟩
  · exact .inr ⟨p, .inl ⟨normal, present⟩, rfl⟩

/-- What some name can mean on a tree is a generated file or has a path that the system takes. -/
theorem Findable.nameable {t : FileTree} {a : Artifact} (h : l.Findable t.answer m a)
    (short : ∀ p ∈ m.files, p.text.utf8ByteSize ≤ FileTree.longestPath) :
    a ∈ l.generated.entries.map (·.1) ∨
      ∃ p : Path, p.text.utf8ByteSize ≤ FileTree.longestPath ∧ a = l.context.roots.resolve p := by
  refine h.imp_right ?_
  rintro ⟨p, -, known | ⟨q, stamp, same, status⟩, rfl⟩
  · obtain ⟨q, hq, same⟩ := FileMemo.knowsFile_iff.1 known
    exact ⟨q, short q hq, RootSet.resolve_congr _ same.symm⟩
  · exact ⟨q, size_le_of_isFile (FileTree.isFile_iff.2 ⟨stamp, status⟩), RootSet.resolve_congr _ same.symm⟩

/-- **The loop of a closure ends** on every file system in which finitely many paths in normal form name a regular file,
whatever the cache remembers.  It takes no artifact twice, so it asks for the directives of none twice; and it takes no
more artifacts than there are entry sources and artifacts that names can mean.  A limit that is not lower changes nothing,
and on a tree the limit of a closure is not lower. -/
theorem closure_ends (l : Lookup) (answer : (question : Disk) → question.Answer)
    (finite : {p : Path | p.normalize = p ∧ p.NamesFile answer}.Finite)
    (mainSource : Artifact) (sources : List Artifact) (forced : List String) (s : ScanStore) :
    let begun := runWith answer (l.start mainSource sources forced) s
    let findable := {a | l.Findable answer s.cache.memo a}
    findable.Finite ∧
    (∃ taken outcome s', l.Rounds answer begun.1 begun.2 taken outcome s') ∧
    ∀ taken outcome s', l.Rounds answer begun.1 begun.2 taken outcome s' →
      taken.Nodup ∧
      taken.length ≤ sources.dedup.length + findable.ncard ∧
      (∀ limit, taken.length ≤ limit → runWith answer (l.follow limit begun.1) begun.2 = (outcome, s')) ∧
      ∀ t : FileTree, t.answer = answer →
        (∀ p ∈ s.cache.memo.files, p.text.utf8ByteSize ≤ FileTree.longestPath) →
        Scan.runOn t (l.closure mainSource sources forced) s = (outcome, s') := by
  intro begun findable
  have finite : findable.Finite := finite_findable finite l s.cache.memo
  have underway : l.Underway answer s.cache.memo sources [] begun.1 begun.2 :=
    underway_start mainSource sources forced s
  have all : {a | a ∈ sources ∨ l.Findable answer s.cache.memo a}.Finite := (List.finite_toSet sources).union finite
  have size : {a | a ∈ sources ∨ l.Findable answer s.cache.memo a}.ncard ≤ sources.dedup.length + findable.ncard := by
    have entries : {a | a ∈ sources}.ncard = sources.dedup.length := by
      rw [← List.card_toFinset, ← Set.ncard_coe_finset, List.coe_toFinset]
    rw [← entries]
    exact Set.ncard_union_le {a | a ∈ sources} findable
  refine ⟨finite, exists_rounds all _ underway (Nat.le_add_left _ _), fun taken outcome s' run => ?_⟩
  obtain ⟨nodup, sighted⟩ := run.nodup underway
  refine ⟨nodup, (length_le_ncard all nodup sighted).trans size, fun limit => run.follow, fun t tree short => ?_⟩
  subst tree
  have enough : taken.length ≤ l.roundLimit sources.length :=
    l.length_le_of_nameable sources taken nodup fun a ha => (sighted a ha).imp_right fun h => h.nameable short
  have ran := run.follow enough
  rw [closure_eq, Scan.runOn_bind]
  exact ran

end Lookup

/-! ## A directory link that leads upwards -/

namespace Sample

/-- The source is also found below the link, and below the link there, and so on. -/
def upwardTree : FileTree where
  nodes :=
    [(["w"], .directory),
     (["w", "up"], .link ⟨"/w"⟩),
     (["w", "a.cc"], .file { bytes := Text.utf8Bytes "#include \"up/a.cc\"\n", modified := 0 })]
  workingDirectory := []

end Sample

theorem Lookup.closure_ends_of_upwardLink :
    Sample.upwardTree.isFile ⟨"/w/up/up/a.cc"⟩ = true ∧
    {p : Path | p.normalize = p ∧ p.NamesFile Sample.upwardTree.answer}.Finite ∧
    ∃ (taken : List Artifact) (outcome : Except ScanError Unit) (s' : ScanStore), taken.Nodup ∧
      Scan.runOn Sample.upwardTree (Sample.lookup.closure Sample.aCc [Sample.aCc] ["g.h"]) .empty = (outcome, s') := by
  have finite := Sample.upwardTree.finite_namesFile
  obtain ⟨-, ⟨taken, outcome, s', run⟩, ends⟩ :=
    Lookup.closure_ends Sample.lookup Sample.upwardTree.answer finite Sample.aCc [Sample.aCc] ["g.h"] .empty
  obtain ⟨nodup, -, -, ran⟩ := ends taken outcome s' run
  exact ⟨rfl, finite, taken, outcome, s', nodup, ran Sample.upwardTree rfl fun p hp => absurd hp List.not_mem_nil⟩

end IncludeClosure
