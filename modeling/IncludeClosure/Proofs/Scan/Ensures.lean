import IncludeClosure.Scan.Reach
/-!
# Proofs.Scan.Ensures — what a scan ensures whatever the others do

A scan asks a cache that other scans fill at the same time, so it does not know which of several answers it gets.  It
knows this: nothing the cache holds is false about the tree (`Step.MayAnswer`), as long as nobody writes down anything
false (`Step.Truthful`).  `Ensures` says that a scan writes down nothing false and that, under all such answers, what it
records for its action and what it gives in the end are as stated.

It is read off a scan part by part (`ensures_bind`).  Most parts record nothing and give one thing (`Gives`).
-/
namespace IncludeClosure

namespace Step

/-- **What a step may be answered with** on a tree, by a cache that holds nothing false about it. -/
def MayAnswer (t : FileTree) : (step : Step) → step.Answer → Prop
  | .disk question, answer => answer = t.answer question
  | .findScanner dirs, inUse => ∀ scanner, inUse = some scanner → scanner.dirs.same dirs = true
  | .buildScanner dirs, scanner => scanner.dirs = dirs
  | .keepScanner scanner, inUse => inUse.dirs.same scanner.dirs = true
  | .recallFile path, known => known = true → path.normalize = path → t.isFile path = true
  | .recallLexed path, remembered => ∀ stamp directives, remembered = some (stamp, directives) →
      t.status path = .ok (.file stamp) → t.directives path = .ok directives
  | .rememberFile _, _ => True
  | .rememberLexed _ _ _, _ => True
  | .record _, _ => True

/-- **The step writes down nothing false** about a tree. -/
def Truthful (t : FileTree) : Step → Prop
  | .rememberFile path => path.normalize = path ∧ t.isFile path = true
  | .rememberLexed path stamp directives =>
    t.status path = .ok (.file stamp) ∧ t.directives path = .ok directives
  | _ => True

/-- What the step adds to what its action has found. -/
def recorded : Step → List Artifact
  | .record a => [a]
  | _ => []

end Step

namespace Scan

variable {α β : Type}

/-- **What a scan ensures on a tree:** it writes down nothing false, and under all answers that it may get, what it
records and what it gives are as `Q` says. -/
def Ensures (t : FileTree) : Scan α → (List Artifact → α → Prop) → Prop
  | .done a, Q => Q [] a
  | .ask step resume, Q => step.Truthful t ∧ ∀ answer, step.MayAnswer t answer →
      Ensures t (resume answer) (fun found a => Q (step.recorded ++ found) a)

/-- The scan records nothing and gives `a`. -/
def Gives (t : FileTree) (scan : Scan α) (a : α) : Prop :=
  Ensures t scan (fun found b => found = [] ∧ b = a)

theorem ensures_mono {t : FileTree} : ∀ {scan : Scan α} {Q R : List Artifact → α → Prop},
    Ensures t scan Q → (∀ found a, Q found a → R found a) → Ensures t scan R
  | .done _, _, _, h, himp => himp _ _ h
  | .ask step _, _, _, h, himp =>
    ⟨h.1, fun answer may => ensures_mono (h.2 answer may) (fun found a => himp (step.recorded ++ found) a)⟩

/-- **A sequence** ensures what its second part ensures after all that the first may have done. -/
theorem ensures_bind (t : FileTree) : ∀ (scan : Scan α) (f : α → Scan β) (Q : List Artifact → β → Prop),
    Ensures t (scan >>= f) Q ↔
      Ensures t scan (fun found a => Ensures t (f a) (fun more b => Q (found ++ more) b))
  | .done _, _, _ => Iff.rfl
  | .ask step resume, f, Q => by
    rw [Program.ask_bind]
    refine and_congr_right fun _ => forall_congr' fun answer => imp_congr_right fun _ => ?_
    rw [ensures_bind t (resume answer) f]
    simp only [List.append_assoc]

theorem ensures_step (t : FileTree) (step : Step) (Q : List Artifact → step.Answer → Prop) :
    Ensures t (Scan.step step) Q ↔
      step.Truthful t ∧ ∀ answer, step.MayAnswer t answer → Q step.recorded answer := by
  show (_ ∧ ∀ answer, _ → Q (step.recorded ++ []) answer) ↔ _
  rw [List.append_nil]

theorem ensures_step_bind {t : FileTree} {step : Step} {f : step.Answer → Scan β} {Q : List Artifact → β → Prop}
    (truthful : step.Truthful t)
    (rest : ∀ answer, step.MayAnswer t answer → Ensures t (f answer) (fun more b => Q (step.recorded ++ more) b)) :
    Ensures t (Scan.step step >>= f) Q := by
  rw [ensures_bind, ensures_step]
  exact ⟨truthful, rest⟩

/-- **A part that gives `a` may be replaced by `a`.** -/
theorem Gives.bind {t : FileTree} {scan : Scan α} {a : α} {f : α → Scan β} {Q : List Artifact → β → Prop}
    (h : Gives t scan a) (rest : Ensures t (f a) Q) : Ensures t (scan >>= f) Q := by
  rw [ensures_bind]
  refine ensures_mono h ?_
  rintro _ _ ⟨rfl, rfl⟩
  exact rest

end Scan
end IncludeClosure
