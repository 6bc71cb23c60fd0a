import IncludeClosure.Proofs.FileTree.Copy
import IncludeClosure.Proofs.FileTree.Edited
import IncludeClosure.Proofs.FileTree.Growth
import IncludeClosure.Proofs.Request.Job
/-!
# Proofs.Scan.Session — a cache that lives through changes is never noticed

A **session** is a sequence of changes to the file system, scans and clearings of the cache that the scans share.  All
that the cache holds was true on one of the trees of the session (`play_traced`), and an earlier tree is not contradicted
by a later one (`FileTree.Keeps`).  So every scan of a session is answered as if its cache were fresh
(`toOption_answer`).  A file that could be read and may not be read any more contradicts: it keeps its stamp, and the
cache its directives (`answer_of_denied`).
-/
namespace IncludeClosure

/-- **A later tree keeps an earlier one:** what named a regular file still names one, and while it has the same length and
time of change, what could be read can be read and has the same bytes. -/
structure FileTree.Keeps (before after : FileTree) : Prop where
  isFile : ∀ p, before.isFile p = true → after.isFile p = true
  read : before.StampsTell after

theorem FileTree.Grows.keeps {before after : FileTree} (h : before.Grows after) : before.Keeps after where
  isFile p hp := by
    obtain ⟨position, f, hf⟩ := FileTree.isFile_iff_find.1 hp
    exact FileTree.isFile_iff_find.2 ⟨position, f, h.find hf⟩
  read _ _ _ _ _ held := by
    obtain ⟨position, f, hf, had⟩ := FileTree.read_ok_iff.1 held
    exact FileTree.read_ok_iff.2 ⟨position, f, h.find hf, had⟩

/-- A tree at the end of a history whose trees keep the earlier ones is steady. -/
theorem FileTree.Steady.ofKeeps {past : List FileTree} {t : FileTree} (h : (past ++ [t]).Pairwise FileTree.Keeps) :
    t.Steady (past ++ [t]) := by
  have keeps : ∀ before ∈ past, before.Keeps t := fun before hb =>
    (List.pairwise_append.1 h).2.2 before hb t (List.mem_singleton.2 rfl)
  constructor
  case present => exact List.mem_append_right _ (List.mem_singleton.2 rfl)
  case isFile =>
    intro before hb p hp
    rcases List.mem_append.1 hb with hb | hb
    · exact (keeps before hb).isFile p hp
    · rw [List.mem_singleton.1 hb] at hp
      exact hp
  case read =>
    intro before hb
    rcases List.mem_append.1 hb with hb | hb
    · exact (keeps before hb).read
    · rw [List.mem_singleton.1 hb]
      exact fun _ _ _ _ _ held => held

structure Session where
  tree : FileTree
  cache : ScanCache

namespace Session

/-- What happens in a session: the file system becomes another one, an action is scanned, or the cache is cleared. -/
inductive Event where
  | change (tree : FileTree)
  | scan (job : Job)
  | clear

def begin (t : FileTree) : Session where
  tree := t
  cache := .empty

def answer (s : Session) (job : Job) : Except ScanError (List Artifact) :=
  ((job.inputs s.cache).run s.tree.answer).1

/-- **One event.** -/
def step (s : Session) : Event → Session
  | .change tree => { s with tree }
  | .scan job => { s with cache := ((job.inputs s.cache).run s.tree.answer).2 }
  | .clear => { s with cache := s.cache.clear }

def play (s : Session) (events : List Event) : Session :=
  events.foldl step s

/-- The trees that the file system becomes. -/
def changes (events : List Event) : List FileTree :=
  events.filterMap fun
    | .change tree => some tree
    | _ => none

theorem changes_append (before after : List Event) : changes (before ++ after) = changes before ++ changes after :=
  List.filterMap_append

/-- **What the cache holds was true on one of the trees so far,** the last of which is the present one. -/
theorem play_traced : ∀ (events : List Event) (s : Session) (past : List FileTree),
    s.cache.memo.Traced (past ++ [s.tree]) → (past ++ s.tree :: changes events).Pairwise FileTree.Keeps →
    (∀ job, .scan job ∈ events → job.Requested) →
    ∃ past, (s.play events).cache.memo.Traced (past ++ [(s.play events).tree]) ∧
      (past ++ [(s.play events).tree]).Pairwise FileTree.Keeps
  | [], _, past, traced, keeps, _ => ⟨past, traced, keeps⟩
  | e :: events, s, past, traced, keeps, requested => by
    have later (job : Job) (h : .scan job ∈ events) : job.Requested := requested job (List.mem_cons_of_mem _ h)
    cases e with
    | change tree =>
      refine play_traced events (s.step (.change tree)) (past ++ [s.tree]) ?_ ?_ later
      · exact traced.mono fun before hb => List.mem_append_left _ hb
      · rw [List.append_assoc]
        exact keeps
    | scan job =>
      have now : (past ++ [s.tree]).Pairwise FileTree.Keeps := by
        refine keeps.sublist (List.Sublist.append_left ?_ past)
        exact (List.nil_sublist _).cons_cons s.tree
      have answers := (requested job List.mem_cons_self).answers (.ofKeeps now) traced
      exact play_traced events (s.step (.scan job)) past answers.2 keeps later
    | clear => exact play_traced events (s.step .clear) past (FileMemo.traced_empty _) keeps later

/-- **Every scan of a session is answered as with a fresh cache** on the tree of that moment: with the same inputs, or
with an error where the fresh one gives an error.  It does not matter what was scanned before and how that ended, which
files have appeared or changed since, and when the cache was cleared. -/
theorem toOption_answer (t : FileTree) (events : List Event) (requested : ∀ job, .scan job ∈ events → job.Requested)
    (keeps : (t :: changes events).Pairwise FileTree.Keeps) (before after : List Event) (job : Job)
    (now : events = before ++ .scan job :: after) :
    (((begin t).play before).answer job).toOption
      = ((job.inputs .empty).run ((begin t).play before).tree.answer).1.toOption := by
  subst now
  have hr : job.Requested := requested job (List.mem_append_right _ List.mem_cons_self)
  obtain ⟨past, traced, keeps⟩ := play_traced before (begin t) [] (FileMemo.traced_empty _)
    (keeps.sublist (by rw [changes_append]; exact (List.sublist_append_left _ _).cons_cons t))
    fun job h => requested job (List.mem_append_left _ h)
  have steady := FileTree.Steady.ofKeeps keeps
  have held := (hr.answers steady traced).1
  have empty : ScanCache.empty.memo.Traced (past ++ [((begin t).play before).tree]) := FileMemo.traced_empty _
  exact held.agree (hr.answers steady empty).1

end Session

namespace Sample

/-- The tree after the generated file has been written. -/
def written : FileTree :=
  { tree with
    nodes := tree.nodes ++
      [(["tmp"], .directory), (["tmp", "g.h"], .file { bytes := Text.utf8Bytes "#include \"b.h\"\n", modified := 1 })] }

end Sample

namespace Sample

/-- Whether the header can be read is all that tells these trees apart. -/
theorem editedAt_treeWith (fault fault' : Option OsError) :
    (treeWith fault).EditedAt (· = ["w", "b.h"]) (treeWith fault') where
  workingDirectory := rfl
  node position := by
    cases position with
    | nil => exact .inl rfl
    | cons name rest =>
      by_cases header : name :: rest = ["w", "b.h"]
      · rw [header]
        exact .inr ⟨rfl, _, _, rfl, rfl⟩
      · have passed : (["w", "b.h"] == name :: rest) = false := beq_eq_false_iff_ne.2 (Ne.symm header)
        have same (fault : Option OsError) : (treeWith fault).node? (name :: rest) =
            ([(["w"], .directory),
              (["w", "a.cc"], .file { bytes := Text.utf8Bytes "#include \"b.h\"\n", modified := 0 })].find?
                (·.1 == name :: rest)).map (·.2) := by
          simp only [FileTree.node?, treeWith, List.find?_cons, List.find?_nil, passed]
        exact .inl ((same fault').trans (same fault).symm)

end Sample

/-- The header may not be read at first, then it may, and then the generated file is there too. -/
theorem Session.toOption_answer_of_written :
    (∀ j, Event.scan j ∈ [.scan Sample.job, .change Sample.tree, .scan Sample.job, .change Sample.written,
      .scan Sample.job] → j.Requested) ∧
    [Sample.treeWith (some Sample.denied), Sample.tree, Sample.written].Pairwise FileTree.Keeps ∧
    (((begin (Sample.treeWith (some Sample.denied))).play
        [.scan Sample.job, .change Sample.tree, .scan Sample.job, .change Sample.written]).answer Sample.job).toOption
      = ((Sample.job.inputs .empty).run Sample.written.answer).1.toOption := by
  have requested (j : Job) (h : Event.scan j ∈ [.scan Sample.job, .change Sample.tree, .scan Sample.job,
      .change Sample.written, .scan Sample.job]) : j.Requested := by
    have hj : j = Sample.job := by simpa using h
    rw [hj]
    exact Sample.requested_job
  have permitted : (Sample.treeWith (some Sample.denied)).Keeps Sample.tree :=
    ⟨fun p file => by rwa [(Sample.editedAt_treeWith (some Sample.denied) none).isFile],
      FileTree.stampsTell_of_files (by decide)⟩
  have grown : Sample.tree.Keeps Sample.written := (FileTree.grows_append _ _).keeps
  have both : (Sample.treeWith (some Sample.denied)).Keeps Sample.written :=
    ⟨fun p file => grown.isFile p (permitted.isFile p file), FileTree.stampsTell_of_files (by decide)⟩
  have keeps : [Sample.treeWith (some Sample.denied), Sample.tree, Sample.written].Pairwise FileTree.Keeps := by
    simp [permitted, grown, both]
  exact ⟨requested, keeps, toOption_answer (Sample.treeWith (some Sample.denied)) _ requested keeps
    [.scan Sample.job, .change Sample.tree, .scan Sample.job, .change Sample.written] [] Sample.job rfl⟩

/-- **A file that may not be read any more is noticed by a fresh cache alone.**  It is still a regular file, and it has
its bytes, its length and its time of change. -/
theorem Session.answer_of_denied :
    Sample.job.Requested ∧
    (∀ p, (Sample.treeWith (some Sample.denied)).isFile p = Sample.tree.isFile p) ∧
    (∀ p place f place' g, Sample.tree.find p = .ok (place, .file f) →
      (Sample.treeWith (some Sample.denied)).find p = .ok (place', .file g) → f.stamp = g.stamp → f.bytes = g.bytes) ∧
    ((begin Sample.tree).play [.scan Sample.job, .change (Sample.treeWith (some Sample.denied))]).answer Sample.job =
      .ok [Sample.aCc, Sample.bH, Sample.gH] ∧
    ((Sample.job.inputs .empty).run (Sample.treeWith (some Sample.denied)).answer).1 =
      .error (.unreadable ⟨"/w/b.h"⟩ Sample.denied) := by
  have apart : ∀ f ∈ Sample.tree.files, ∀ g ∈ (Sample.treeWith (some Sample.denied)).files,
      f.stamp = g.stamp → f.bytes = g.bytes := by decide
  refine ⟨Sample.requested_job, (Sample.editedAt_treeWith none _).isFile, fun p place f place' g was is same => ?_,
    by decide +kernel, Sample.eq_of_answers_unread (Sample.requested_job.answers_empty _)⟩
  exact apart f (FileTree.mem_files_of_find was) g (FileTree.mem_files_of_find is) same

end IncludeClosure
