import Mathlib.Data.List.Dedup
import Mathlib.Logic.Function.Basic
import IncludeClosure.Proofs.Scan.Memo
import IncludeClosure.Scan.Supplier
/-!
# Proofs.Scan.Supplier — one scanner for one configuration, whoever asks first

Looking for a scanner and putting one to use are separate steps, so several calls may build a scanner for one
configuration, and all but one of these are thrown away.  A call is at one of four stages (`Stage`), and a turn takes it
to the next (`turn_eq`).  What no step breaks is `Sharing`: the scanners in use have different keys, a call that has
returned has one of them, and every number belongs to the one call that built a scanner with it.  Any order of the
steps, with calls that begin at any moment, keeps this (`Shared.play`).
-/
namespace IncludeClosure

namespace SearchDirs

theorem sameList_iff : ∀ {ps qs : List Path}, sameList ps qs = true ↔ ps.map Path.components = qs.map Path.components
  | [], [] => by simp [sameList]
  | [], _ :: _ => by simp [sameList]
  | _ :: _, [] => by simp [sameList]
  | p :: ps, q :: qs => by simp [sameList, Path.same_iff, sameList_iff]

theorem same_iff_key {a b : SearchDirs} : a.same b = true ↔ a.key = b.key := by
  simp [same, key, sameList_iff]

end SearchDirs

namespace ScannerTable

variable {table : ScannerTable} {dirs : SearchDirs} {scanner : Scanner}

theorem mem_of_find? (found : table.find? dirs = some scanner) :
    scanner ∈ table.scanners ∧ scanner.dirs.key = dirs.key :=
  ⟨List.mem_of_find?_eq_some found, SearchDirs.same_iff_key.1 (same_of_find? found)⟩

theorem key_ne_of_find? (missing : table.find? dirs = none) (mem : scanner ∈ table.scanners) :
    scanner.dirs.key ≠ dirs.key := by
  intro same
  have other := List.find?_eq_none.1 missing scanner mem
  exact other (SearchDirs.same_iff_key.2 same)

end ScannerTable

namespace Supplier

/-- **How far a call has come.** -/
inductive Stage where
  | asks
  | builds
  | keeps (scanner : Scanner)
  | has (scanner : Scanner)

namespace Stage

/-- What a call for a configuration still has to do. -/
def scan (dirs : SearchDirs) : Stage → Scan Scanner
  | asks => Scan.scannerFor dirs
  | builds => Scan.step (.buildScanner dirs) >>= fun scanner => Scan.step (.keepScanner scanner)
  | keeps scanner => Scan.step (.keepScanner scanner)
  | has scanner => pure scanner

/-- The call in a pool. -/
def task (dirs : SearchDirs) (stage : Stage) : Task Scanner :=
  { action := 0, scan := stage.scan dirs }

/-- **What one turn makes of a call** and of the scanners in use. -/
def next (dirs : SearchDirs) (table : ScannerTable) : Stage → Stage × ScannerTable
  | asks =>
    match table.find? dirs with
    | some inUse => (has inUse, table)
    | none => (builds, table)
  | builds => (keeps (table.build dirs).1, (table.build dirs).2)
  | keeps scanner => (has (table.keep scanner).1, (table.keep scanner).2)
  | has scanner => (has scanner, table)

/-- How many turns of its own a call may still need. -/
def left : Stage → Nat
  | asks => 3
  | builds => 2
  | keeps _ => 1
  | has _ => 0

theorem result?_task (dirs : SearchDirs) (stage : Stage) (scanner : Scanner) :
    (stage.task dirs).result? = some scanner ↔ stage = has scanner := by
  cases stage <;> simp [task, scan, Task.result?, Scan.scannerFor, Scan.step, Program.query]

theorem left_eq_zero_iff {stage : Stage} : stage.left = 0 ↔ ∃ scanner, stage = has scanner := by
  cases stage <;> simp [left]

theorem left_next (dirs : SearchDirs) (table : ScannerTable) (stage : Stage) :
    (stage.next dirs table).1.left ≤ stage.left - 1 := by
  cases stage with
  | asks =>
    cases found : table.find? dirs <;> simp [next, found, left]
  | builds => exact Nat.le_refl 1
  | keeps scanner => exact Nat.le_refl 0
  | has scanner => exact Nat.le_refl 0

end Stage

variable {t : FileTree}

/-- **One turn of a call** in a pool. -/
theorem turn_eq {p : Pool Scanner} {k : Nat} {dirs : SearchDirs} {stage : Stage}
    (call : p.tasks[k]? = some (stage.task dirs)) :
    (p.turn t k).tasks = p.tasks.set k ((stage.next dirs p.cache.scanners).1.task dirs) ∧
    (p.turn t k).cache.scanners = (stage.next dirs p.cache.scanners).2 := by
  unfold Pool.turn
  rw [call]
  cases stage with
  | asks =>
    unfold Stage.next
    have step : ∃ resume, Stage.asks.task dirs = { action := 0, scan := .ask (.findScanner dirs) resume } ∧
        (∀ inUse, resume (some inUse) = .done inUse) ∧ resume none = Stage.builds.scan dirs :=
      ⟨_, rfl, fun _ => rfl, rfl⟩
    obtain ⟨resume, asks, hit, miss⟩ := step
    rw [asks]
    dsimp only
    cases found : p.cache.scanners.find? dirs with
    | some inUse => simp [ScanStore.reply, found, Stage.task, Stage.scan, hit]
    | none => simp [ScanStore.reply, found, Stage.task, miss]
  | builds => exact ⟨rfl, rfl⟩
  | keeps scanner => exact ⟨rfl, rfl⟩
  | has scanner =>
    obtain ⟨inside, here⟩ := List.getElem?_eq_some_iff.1 call
    have same : p.tasks = p.tasks.set k ((Stage.has scanner).task dirs) := by
      rw [← here]
      exact (List.set_getElem_self inside).symm
    exact ⟨same, rfl⟩

/-- **What no step breaks.**  The scanners in use have different keys.  `builder n` is the call that built the scanner
with the number `n`: it is about to put that to use, or it has done so and returned it.  A call that has returned has a
scanner in use, of its own configuration. -/
structure Sharing (requests : List SearchDirs) (table : ScannerTable) (stages : Nat → Stage) (builder : Nat → Nat) :
    Prop where
  apart : (table.scanners.map (·.dirs.key)).Nodup
  kept : ∀ scanner ∈ table.scanners, scanner.number < table.built ∧ builder scanner.number < requests.length ∧
    stages (builder scanner.number) = .has scanner
  keeps : ∀ k dirs scanner, requests[k]? = some dirs → stages k = .keeps scanner →
    scanner.dirs = dirs ∧ scanner.number < table.built ∧ builder scanner.number = k
  has : ∀ k dirs scanner, requests[k]? = some dirs → stages k = .has scanner →
    scanner ∈ table.scanners ∧ scanner.dirs.key = dirs.key

namespace Sharing

variable {requests : List SearchDirs} {table : ScannerTable} {stages : Nat → Stage} {builder : Nat → Nat}
  {k : Nat} {dirs : SearchDirs}

theorem empty (built : Nat) : Sharing [] { scanners := [], built } (fun _ => .asks) id where
  apart := List.nodup_nil
  kept _ h := absurd h List.not_mem_nil
  keeps _ _ _ h := nomatch h
  has _ _ _ h := nomatch h

/-- **One more call.** -/
theorem call (h : Sharing requests table stages builder) (dirs : SearchDirs) :
    Sharing (requests ++ [dirs]) table (Function.update stages requests.length .asks) builder := by
  have earlier {j : Nat} {d : SearchDirs} {stage : Stage} (given : (requests ++ [dirs])[j]? = some d)
      (here : Function.update stages requests.length .asks j = stage) (moved : stage ≠ .asks) :
      requests[j]? = some d ∧ stages j = stage := by
    by_cases last : j = requests.length
    · rw [last, Function.update_self] at here
      exact absurd here.symm moved
    · rw [Function.update_of_ne last] at here
      refine ⟨?_, here⟩
      rw [List.getElem?_append] at given
      split at given
      · exact given
      · rw [List.getElem?_eq_none (by rw [List.length_singleton]; omega)] at given
        cases given
  constructor
  case apart => exact h.apart
  case kept =>
    intro scanner mem
    obtain ⟨old, inside, has⟩ := h.kept scanner mem
    refine ⟨old, by rw [List.length_append]; omega, ?_⟩
    rwa [Function.update_of_ne (Nat.ne_of_lt inside)]
  case keeps =>
    intro k d scanner given here
    obtain ⟨given, here⟩ := earlier given here nofun
    exact h.keeps k d scanner given here
  case has =>
    intro k d scanner given here
    obtain ⟨given, here⟩ := earlier given here nofun
    exact h.has k d scanner given here

section

variable (h : Sharing requests table stages builder) (given : requests[k]? = some dirs)
  (waits : ∀ scanner, stages k ≠ .has scanner)
include h waits

/-- The scanners in use come from calls that have returned, so a call that has not can move on. -/
theorem kept_update (stage : Stage) (scanner : Scanner) (mem : scanner ∈ table.scanners) :
    builder scanner.number ≠ k ∧ Function.update stages k stage (builder scanner.number) = .has scanner := by
  obtain ⟨-, -, has⟩ := h.kept scanner mem
  have other : builder scanner.number ≠ k := fun same => waits scanner (same ▸ has)
  exact ⟨other, by rw [Function.update_of_ne other, has]⟩

/-- **A call finds that it has to build.** -/
theorem misses : Sharing requests table (Function.update stages k .builds) builder where
  apart := h.apart
  kept scanner mem := ⟨(h.kept scanner mem).1, (h.kept scanner mem).2.1, (h.kept_update waits _ scanner mem).2⟩
  keeps j d scanner given here := by
    by_cases same : j = k
    · simp [same] at here
    · rw [Function.update_of_ne same] at here
      exact h.keeps j d scanner given here
  has j d scanner given here := by
    by_cases same : j = k
    · simp [same] at here
    · rw [Function.update_of_ne same] at here
      exact h.has j d scanner given here

include given

/-- **A call returns a scanner that is in use already.** -/
theorem returns {scanner : Scanner} (mem : scanner ∈ table.scanners) (key : scanner.dirs.key = dirs.key) :
    Sharing requests table (Function.update stages k (.has scanner)) builder where
  apart := h.apart
  kept other mem := ⟨(h.kept other mem).1, (h.kept other mem).2.1, (h.kept_update waits _ other mem).2⟩
  keeps j d other given here := by
    by_cases same : j = k
    · simp [same] at here
    · rw [Function.update_of_ne same] at here
      exact h.keeps j d other given here
  has j d other asked here := by
    by_cases same : j = k
    · subst same
      rw [given] at asked
      rw [Function.update_self] at here
      cases asked
      cases here
      exact ⟨mem, key⟩
    · rw [Function.update_of_ne same] at here
      exact h.has j d other asked here

/-- **A call builds a scanner,** which has a number that no scanner had before. -/
theorem builds : Sharing requests (table.build dirs).2 (Function.update stages k (.keeps (table.build dirs).1))
    (Function.update builder table.built k) where
  apart := h.apart
  kept scanner mem := by
    obtain ⟨old, inside, -⟩ := h.kept scanner mem
    rw [Function.update_of_ne (Nat.ne_of_lt old)]
    exact ⟨Nat.lt_succ_of_lt old, inside, (h.kept_update waits _ scanner mem).2⟩
  keeps j d scanner asked here := by
    by_cases same : j = k
    · subst same
      rw [given] at asked
      rw [Function.update_self] at here
      cases asked
      cases here
      exact ⟨rfl, Nat.lt_succ_self _, Function.update_self ..⟩
    · rw [Function.update_of_ne same] at here
      obtain ⟨own, old, built⟩ := h.keeps j d scanner asked here
      exact ⟨own, Nat.lt_succ_of_lt old, by rw [Function.update_of_ne (Nat.ne_of_lt old), built]⟩
  has j d scanner asked here := by
    by_cases same : j = k
    · simp [same] at here
    · rw [Function.update_of_ne same] at here
      exact h.has j d scanner asked here

omit waits

/-- **A call puts its scanner to use,** no other having been faster. -/
theorem wins {scanner : Scanner} (holds : stages k = .keeps scanner) (missing : table.find? scanner.dirs = none) :
    Sharing requests { table with scanners := table.scanners ++ [scanner] }
      (Function.update stages k (.has scanner)) builder := by
  obtain ⟨rfl, old, built⟩ := h.keeps k dirs scanner given holds
  have waits (other : Scanner) : stages k ≠ .has other := by rw [holds]; nofun
  constructor
  case apart =>
    rw [List.map_append, List.nodup_append]
    refine ⟨h.apart, List.nodup_singleton _, fun key inUse new single => ?_⟩
    obtain ⟨other, mem, rfl⟩ := List.mem_map.1 inUse
    rw [List.mem_singleton.1 single]
    exact ScannerTable.key_ne_of_find? missing mem
  case kept =>
    intro other mem
    rcases List.mem_append.1 mem with mem | mem
    · exact ⟨(h.kept other mem).1, (h.kept other mem).2.1, (h.kept_update waits _ other mem).2⟩
    · rw [List.mem_singleton.1 mem, built]
      exact ⟨old, (List.getElem?_eq_some_iff.1 given).1, Function.update_self ..⟩
  case keeps =>
    intro j d other asked here
    by_cases same : j = k
    · simp [same] at here
    · rw [Function.update_of_ne same] at here
      exact h.keeps j d other asked here
  case has =>
    intro j d other asked here
    by_cases same : j = k
    · subst same
      rw [given] at asked
      rw [Function.update_self] at here
      cases asked
      cases here
      exact ⟨List.mem_append_right _ List.mem_cons_self, rfl⟩
    · rw [Function.update_of_ne same] at here
      obtain ⟨mem, key⟩ := h.has j d other asked here
      exact ⟨List.mem_append_left _ mem, key⟩

end

/-- **One turn of a call.** -/
theorem turn (h : Sharing requests table stages builder) (given : requests[k]? = some dirs) :
    ∃ builder, Sharing requests ((stages k).next dirs table).2
      (Function.update stages k ((stages k).next dirs table).1) builder := by
  cases here : stages k with
  | asks =>
    have waits (scanner : Scanner) : stages k ≠ .has scanner := by rw [here]; nofun
    cases found : table.find? dirs with
    | none => exact ⟨builder, by simpa [Stage.next, found] using h.misses waits⟩
    | some inUse =>
      obtain ⟨mem, key⟩ := ScannerTable.mem_of_find? found
      exact ⟨builder, by simpa [Stage.next, found] using h.returns given waits mem key⟩
  | builds =>
    have waits (scanner : Scanner) : stages k ≠ .has scanner := by rw [here]; nofun
    exact ⟨_, h.builds given waits⟩
  | keeps scanner =>
    have waits (other : Scanner) : stages k ≠ .has other := by rw [here]; nofun
    obtain ⟨rfl, -, -⟩ := h.keeps k dirs scanner given here
    cases found : table.find? scanner.dirs with
    | none => exact ⟨builder, by simpa [Stage.next, ScannerTable.keep, found] using h.wins given here found⟩
    | some inUse =>
      obtain ⟨mem, key⟩ := ScannerTable.mem_of_find? found
      exact ⟨builder, by simpa [Stage.next, ScannerTable.keep, found] using h.returns given waits mem key⟩
  | has scanner =>
    have same : Function.update stages k (.has scanner) = stages := by rw [← here, Function.update_eq_self]
    exact ⟨builder, by simpa [Stage.next, same] using h⟩

end Sharing

theorem mem_answered (s : Supplier) (dirs : SearchDirs) :
    dirs ∈ s.answered ↔ ∃ k, s.requests[k]? = some dirs ∧ (s.returned? k).isSome = true := by
  unfold answered
  rw [List.mem_map]
  constructor
  · rintro ⟨⟨dirs, k⟩, mem, rfl⟩
    obtain ⟨mem, returned⟩ := List.mem_filter.1 mem
    exact ⟨k, List.mk_mem_zipIdx_iff_getElem?.1 mem, returned⟩
  · rintro ⟨k, given, returned⟩
    exact ⟨(dirs, k), List.mem_filter.2 ⟨List.mk_mem_zipIdx_iff_getElem?.2 given, returned⟩, rfl⟩

theorem answered_eq {s : Supplier} (all : ∀ k < s.requests.length, (s.returned? k).isSome = true) :
    s.answered = s.requests := by
  have filtered : s.requests.zipIdx.filter (fun call => (s.returned? call.2).isSome) = s.requests.zipIdx := by
    refine List.filter_eq_self.2 fun entry mem => ?_
    obtain ⟨dirs, k⟩ := entry
    exact all k (List.getElem?_eq_some_iff.1 (List.mk_mem_zipIdx_iff_getElem?.1 mem)).1
  unfold answered
  rw [filtered, List.zipIdx_map_fst]

/-- **The calls of a supplier share its scanners,** the `k`-th call being at the stage `stages k`. -/
structure Shared (s : Supplier) (stages : Nat → Stage) : Prop where
  tasks : ∀ k, s.pool.tasks[k]? = s.requests[k]?.map (stages k).task
  sharing : ∃ builder, Sharing s.requests s.pool.cache.scanners stages builder

namespace Shared

variable {s : Supplier} {stages : Nat → Stage}

theorem ofCache (cache : ScanCache) (unused : cache.scanners.scanners = []) :
    (Supplier.ofCache cache).Shared (fun _ => .asks) where
  tasks _ := rfl
  sharing := by
    refine ⟨id, ?_⟩
    have none : cache.scanners = { scanners := [], built := cache.scanners.built } := by rw [← unused]
    show Sharing [] cache.scanners _ _
    rw [none]
    exact Sharing.empty _

theorem length_tasks (h : s.Shared stages) : s.pool.tasks.length = s.requests.length := by
  refine Nat.le_antisymm ?_ ?_
  · have last := h.tasks s.requests.length
    rw [List.getElem?_eq_none (Nat.le_refl _)] at last
    exact List.getElem?_eq_none_iff.1 last
  · have last := h.tasks s.pool.tasks.length
    rw [List.getElem?_eq_none (Nat.le_refl _)] at last
    exact List.getElem?_eq_none_iff.1 (Option.map_eq_none_iff.1 last.symm)

theorem call (h : s.Shared stages) (dirs : SearchDirs) :
    ∃ next, s.step t (.call dirs) = some next ∧ next.requests = s.requests ++ [dirs] ∧
      next.Shared (Function.update stages s.requests.length .asks) := by
  refine ⟨_, rfl, rfl, ?_, ?_⟩
  · intro k
    show (s.pool.tasks ++ [_])[k]? = ((s.requests ++ [dirs])[k]?).map _
    rw [List.getElem?_append, List.getElem?_append, h.length_tasks]
    by_cases earlier : k < s.requests.length
    · rw [if_pos earlier, if_pos earlier, Function.update_of_ne (Nat.ne_of_lt earlier)]
      exact h.tasks k
    · rw [if_neg earlier, if_neg earlier]
      by_cases last : k = s.requests.length
      · rw [last, Function.update_self, Nat.sub_self]
        rfl
      · have beyond : [dirs].length ≤ k - s.requests.length := by
          rw [List.length_singleton]
          omega
        rw [List.getElem?_eq_none beyond, List.getElem?_eq_none (by simpa using beyond)]
        rfl
  · obtain ⟨builder, sharing⟩ := h.sharing
    exact ⟨builder, sharing.call dirs⟩

theorem turn (h : s.Shared stages) (k : Nat) :
    ∃ next stages', s.step t (.turn k) = some next ∧ next.requests = s.requests ∧ next.Shared stages' ∧
      ∀ j < s.requests.length, (stages' j).left ≤ (stages j).left - [Event.turn k].count (.turn j) := by
  have here := h.tasks k
  cases given : s.requests[k]? with
  | none =>
    rw [given] at here
    have idle : s.pool.turn t k = s.pool := by simp [Pool.turn, here]
    refine ⟨_, stages, rfl, rfl, ?_, fun j inside => ?_⟩
    · rw [idle]
      exact h
    · have other : k ≠ j := fun same => by simp [same, inside] at given
      simp [other]
  | some dirs =>
    rw [given] at here
    obtain ⟨tasks, scanners⟩ := turn_eq (t := t) here
    obtain ⟨builder, sharing⟩ := h.sharing
    refine ⟨_, Function.update stages k ((stages k).next dirs s.pool.cache.scanners).1, rfl, rfl, ⟨?_, ?_⟩, ?_⟩
    · intro j
      show (s.pool.turn t k).tasks[j]? = _
      rw [tasks]
      by_cases same : j = k
      · subst same
        rw [List.getElem?_set_self (List.getElem?_eq_some_iff.1 here).1, Function.update_self, given]
        rfl
      · rw [List.getElem?_set_ne (Ne.symm same), Function.update_of_ne same]
        exact h.tasks j
    · show ∃ builder, Sharing s.requests (s.pool.turn t k).cache.scanners _ builder
      rw [scanners]
      exact sharing.turn given
    · intro j _
      by_cases same : j = k
      · subst same
        simpa using Stage.left_next dirs s.pool.cache.scanners (stages j)
      · simp [Function.update_of_ne same, Ne.symm same]

/-- **One event.** -/
theorem step (h : s.Shared stages) {e : Event} {next : Supplier} (stepped : s.step t e = some next) :
    ∃ stages, next.Shared stages := by
  cases e with
  | call dirs =>
    obtain ⟨other, stepped', -, shared⟩ := h.call (t := t) dirs
    rw [stepped'] at stepped
    cases stepped
    exact ⟨_, shared⟩
  | turn k =>
    obtain ⟨other, stages', stepped', -, shared, -⟩ := h.turn (t := t) k
    rw [stepped'] at stepped
    cases stepped
    exact ⟨_, shared⟩
  | clear =>
    simp only [Supplier.step] at stepped
    split at stepped
    · cases stepped
      exact ⟨_, ofCache _ rfl⟩
    · cases stepped

/-- **A history.** -/
theorem play : ∀ {events : List Event} {s next : Supplier} {stages : Nat → Stage}, s.Shared stages →
    s.play t events = some next → ∃ stages, next.Shared stages
  | [], _, _, stages, h, played => by
    cases played
    exact ⟨stages, h⟩
  | _ :: _, _, _, _, h, played => by
    obtain ⟨_, stepped, played⟩ := Option.bind_eq_some_iff.1 played
    obtain ⟨_, h⟩ := h.step stepped
    exact h.play played

/-- **A history without clearing** is possible, and every turn brings its call nearer to the end. -/
theorem left_play : ∀ {events : List Event} {s : Supplier} {stages : Nat → Stage}, s.Shared stages →
    .clear ∉ events → ∃ next stages', s.play t events = some next ∧ s.requests <+: next.requests ∧ next.Shared stages' ∧
      ∀ k < s.requests.length, (stages' k).left ≤ (stages k).left - events.count (.turn k)
  | [], s, stages, h, _ => ⟨s, stages, rfl, List.prefix_rfl, h, fun _ _ => Nat.le_refl _⟩
  | e :: events, s, stages, h, kept => by
    obtain ⟨notClear, kept⟩ := List.ne_and_not_mem_of_not_mem_cons kept
    -- the first event alone, then the others from where it leads
    have first : ∃ next stages', s.step t e = some next ∧ s.requests <+: next.requests ∧ next.Shared stages' ∧
        ∀ k < s.requests.length, (stages' k).left ≤ (stages k).left - [e].count (.turn k) := by
      cases e with
      | call dirs =>
        obtain ⟨next, stepped, requests, shared⟩ := h.call (t := t) dirs
        refine ⟨next, _, stepped, requests ▸ List.prefix_append _ _, shared, fun k inside => ?_⟩
        simp [Function.update_of_ne (Nat.ne_of_lt inside)]
      | turn k =>
        obtain ⟨next, stages', stepped, requests, shared, nearer⟩ := h.turn (t := t) k
        exact ⟨next, stages', stepped, requests ▸ List.prefix_rfl, shared, nearer⟩
      | clear => exact absurd rfl notClear
    obtain ⟨next, stages', stepped, earlier, shared, nearer⟩ := first
    obtain ⟨last, stages'', played, earlier', shared', nearer'⟩ := shared.left_play kept
    refine ⟨last, stages'', ?_, earlier.trans earlier', shared', fun k inside => ?_⟩
    · show (s.step t e).bind _ = _
      rw [stepped]
      exact played
    · have step := nearer k inside
      have rest := nearer' k (Nat.lt_of_lt_of_le inside earlier.length_le)
      rw [List.count_cons] at step ⊢
      simp only [List.count_nil] at step
      omega

theorem returned?_eq_some_iff (h : s.Shared stages) {k : Nat} {scanner : Scanner} :
    s.returned? k = some scanner ↔ k < s.requests.length ∧ stages k = .has scanner := by
  unfold returned?
  rw [h.tasks k]
  cases given : s.requests[k]? with
  | none =>
    have outside := List.getElem?_eq_none_iff.1 given
    simp
    omega
  | some dirs =>
    have inside := (List.getElem?_eq_some_iff.1 given).1
    simp [Stage.result?_task, inside]

theorem isSome_returned?_iff (h : s.Shared stages) {k : Nat} (inside : k < s.requests.length) :
    (s.returned? k).isSome = true ↔ (stages k).left = 0 := by
  rw [Option.isSome_iff_exists, Stage.left_eq_zero_iff]
  simp [h.returned?_eq_some_iff, inside]

/-- **A scanner that was returned** is in use and has the configuration that was asked for. -/
theorem mem_of_returned? (h : s.Shared stages) {k : Nat} {dirs : SearchDirs} {scanner : Scanner}
    (given : s.requests[k]? = some dirs) (returned : s.returned? k = some scanner) :
    scanner ∈ s.pool.cache.scanners.scanners ∧ scanner.dirs.key = dirs.key := by
  obtain ⟨builder, sharing⟩ := h.sharing
  exact sharing.has k dirs scanner given (h.returned?_eq_some_iff.1 returned).2

/-- **Scanners in use** with one configuration are one scanner, and so are those with one number. -/
theorem eq_of_mem (h : s.Shared stages) {a b : Scanner} (ha : a ∈ s.pool.cache.scanners.scanners)
    (hb : b ∈ s.pool.cache.scanners.scanners) (same : a.dirs.key = b.dirs.key ∨ a.number = b.number) : a = b := by
  obtain ⟨builder, sharing⟩ := h.sharing
  rcases same with same | same
  · exact List.inj_on_of_nodup_map sharing.apart ha hb same
  · obtain ⟨-, -, hasA⟩ := sharing.kept a ha
    obtain ⟨-, -, hasB⟩ := sharing.kept b hb
    rw [same, hasB] at hasA
    cases hasA
    rfl

/-- **There are as many scanners in use** as configurations that a call has been answered for. -/
theorem size_eq (h : s.Shared stages) : s.size = (s.answered.map SearchDirs.key).dedup.length := by
  obtain ⟨builder, sharing⟩ := h.sharing
  have perm : (s.pool.cache.scanners.scanners.map (·.dirs.key)).Perm (s.answered.map SearchDirs.key).dedup := by
    refine (List.perm_ext_iff_of_nodup sharing.apart (List.nodup_dedup _)).2 fun key => ?_
    rw [List.mem_dedup, List.mem_map, List.mem_map]
    constructor
    · rintro ⟨scanner, mem, rfl⟩
      -- the call that built the scanner has returned it
      obtain ⟨-, inside, has⟩ := sharing.kept scanner mem
      have given := List.getElem?_eq_getElem inside
      refine ⟨_, (mem_answered s _).2 ⟨_, given, ?_⟩, (sharing.has _ _ _ given has).2.symm⟩
      rw [h.returned?_eq_some_iff.2 ⟨inside, has⟩]
      rfl
    · rintro ⟨dirs, mem, rfl⟩
      obtain ⟨k, given, returned⟩ := (mem_answered s dirs).1 mem
      obtain ⟨scanner, returned⟩ := Option.isSome_iff_exists.1 returned
      exact ⟨scanner, h.mem_of_returned? given returned⟩
  rw [← perm.length_eq, List.length_map]
  rfl

/-- **A supplier can be cleared** when every call has returned. -/
theorem clear (h : s.Shared stages) (all : ∀ k < s.requests.length, (s.returned? k).isSome = true) :
    s.step t .clear = some (Supplier.ofCache s.pool.cache.clear) := by
  have quiet : s.pool.tasks.all (·.result?.isSome) = true := by
    refine List.all_eq_true.2 fun task mem => ?_
    obtain ⟨k, here⟩ := List.mem_iff_getElem?.1 mem
    have inside := (List.getElem?_eq_some_iff.1 here).1
    have returned := all k (h.length_tasks ▸ inside)
    unfold returned? at returned
    rw [here] at returned
    exact returned
  simp [Supplier.step, quiet]

end Shared

/-- **Calls share scanners by configuration,** in whatever order their steps follow each other.  Each of the calls since
the supplier was cleared last that has returned has a scanner of the configuration that it asked for: the same one as
all others that asked for this configuration, and another one than the rest.  These are all the scanners in use.  A call
has returned after three turns, and when all calls have, the supplier can be cleared and nothing is left in it. -/
theorem returned_of_play (t : FileTree) (memo : FileMemo) (events : List Event) (s : Supplier)
    (played : (start memo).play t events = some s) :
    (∀ k dirs scanner, s.requests[k]? = some dirs → s.returned? k = some scanner → scanner.dirs.key = dirs.key) ∧
    (∀ j k a b first second, s.requests[j]? = some a → s.requests[k]? = some b →
      s.returned? j = some first → s.returned? k = some second →
      (a.key = b.key → first = second) ∧ (a.key ≠ b.key → first.number ≠ second.number)) ∧
    s.size = (s.answered.map SearchDirs.key).dedup.length ∧
    ((∀ k < s.requests.length, (s.returned? k).isSome = true) → s.answered = s.requests ∧
      ∃ cleared, s.step t .clear = some cleared ∧ cleared.requests = [] ∧ cleared.size = 0 ∧
        cleared.pool.cache.memo = .empty) ∧
    ∀ more, .clear ∉ more → ∃ later, s.play t more = some later ∧ s.requests <+: later.requests ∧
      ∀ k < s.requests.length, 3 ≤ more.count (.turn k) → (later.returned? k).isSome = true := by
  obtain ⟨stages, shared⟩ := (Shared.ofCache { memo, scanners := .empty } rfl).play played
  refine ⟨fun k dirs scanner given returned => (shared.mem_of_returned? given returned).2, ?_, shared.size_eq, ?_, ?_⟩
  · intro j k a b first second askedA askedB returnedA returnedB
    obtain ⟨memA, keyA⟩ := shared.mem_of_returned? askedA returnedA
    obtain ⟨memB, keyB⟩ := shared.mem_of_returned? askedB returnedB
    constructor
    · intro same
      exact shared.eq_of_mem memA memB (.inl (by rw [keyA, keyB, same]))
    · intro differ number
      have same := shared.eq_of_mem memA memB (.inr number)
      exact differ (by rw [← keyA, ← keyB, same])
  · intro all
    exact ⟨answered_eq all, _, shared.clear all, rfl, rfl, rfl⟩
  · intro more kept
    obtain ⟨later, stages', played, earlier, shared', nearer⟩ := shared.left_play kept
    refine ⟨later, played, earlier, fun k inside turns => ?_⟩
    rw [shared'.isSome_returned?_iff (Nat.lt_of_lt_of_le inside earlier.length_le)]
    have near := nearer k inside
    have few : (stages k).left ≤ 3 := by cases stages k <;> simp [Stage.left]
    omega

end Supplier

namespace Sample

/-- One configuration in two spellings, and one that has the directory in the other list. -/
def rivals : List SearchDirs :=
  [ { quote := [⟨"p/q"⟩], angle := [] }
  , { quote := [⟨"p//q"⟩], angle := [] }
  , { quote := [], angle := [⟨"p/q"⟩] } ]

/-- The first two calls both look before either has put a scanner to use, and the second is faster. -/
def race : List Supplier.Event :=
  rivals.map .call ++ [0, 1, 0, 1, 2, 1, 0, 2, 2].map .turn

end Sample

theorem Supplier.returned_of_play_race : ∃ s first second third,
    (start .empty).play { nodes := [], workingDirectory := [] } Sample.race = some s ∧ s.requests = Sample.rivals ∧
    s.returned? 0 = some first ∧ s.returned? 1 = some second ∧ s.returned? 2 = some third ∧
    first = second ∧ first.number ≠ third.number ∧
    s.size = (s.answered.map SearchDirs.key).dedup.length := by
  have played : ∃ s, (start .empty).play { nodes := [], workingDirectory := [] } Sample.race = some s := ⟨_, rfl⟩
  obtain ⟨s, played⟩ := played
  obtain ⟨-, shared, size, -, -⟩ := returned_of_play _ _ _ _ played
  cases played
  refine ⟨_, _, _, _, rfl, rfl, rfl, rfl, rfl, ?_, ?_, size⟩
  · exact (shared 0 1 _ _ _ _ rfl rfl rfl rfl).1 (by decide)
  · exact (shared 0 2 _ _ _ _ rfl rfl rfl rfl).2 (by decide)

end IncludeClosure
