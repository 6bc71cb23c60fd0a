import IncludeClosure.Path.Spelling
/-!
# Path.Normal — the lexical normal form

The normal form of a path drops `.` and lets `..` cancel the name before it, without asking the file system: a `..`
at the root is dropped, one at the front of a relative path stays.  It depends on the components alone, and taking it
twice changes nothing (`normalize_normalize`).
-/
namespace IncludeClosure
namespace Path

/-- **One more component on a stack** whose top is the last component so far. -/
def push : List Component → Component → List Component
  | stack, .current => stack
  | .name _ :: below, .parent => below
  | .root :: below, .parent => .root :: below
  | stack, c => c :: stack

def normalComponents (components : List Component) : List Component :=
  (components.foldl push []).reverse

/-- **The normal form of a path.** -/
def normalize (p : Path) : Path :=
  ofComponents (normalComponents p.components)

/-- Every fragment seen from `root`, in normal form, in order and with its repetitions. -/
def relativeTo (root : Path) (fragments : List Path) : List Path :=
  fragments.map (fun fragment => (root.join fragment).normalize)

def startsWithAny (p : Path) (fronts : List Path) : Bool :=
  fronts.any p.startsWith

/-- **A stack in normal form,** read from the top: no `.`, the root only at the bottom, below a `..` only `..`. -/
def Settled : List Component → Prop
  | [] => True
  | .current :: _ => False
  | .root :: below => below = []
  | .parent :: below => ∀ c ∈ below, c = .parent
  | .name _ :: below => Settled below

theorem settled_of_parents : ∀ stack : List Component, (∀ c ∈ stack, c = .parent) → Settled stack
  | [], _ => trivial
  | c :: below, h => by
    rw [h c (by simp)]
    exact fun x hx => h x (List.mem_cons_of_mem _ hx)

theorem settled_push {stack : List Component} {c : Component} (h : Settled stack) (hc : c = .root → stack = []) :
    Settled (push stack c) := by
  cases c with
  | root => rw [hc rfl]; rfl
  | current => cases stack with
    | nil => exact h
    | cons top below => cases top <;> exact h
  | name text => cases stack with
    | nil => exact h
    | cons top below => cases top <;> exact h
  | parent => cases stack with
    | nil => intro x hx; cases hx
    | cons top below => cases top with
      | root => exact h
      | current => exact h.elim
      | parent =>
        intro x hx
        rcases List.mem_cons.1 hx with rfl | hx
        · rfl
        · exact h x hx
      | name text => exact h

theorem settled_foldl : ∀ (cs stack : List Component), Settled stack → (∀ c ∈ cs, c ≠ .root) →
    Settled (cs.foldl push stack)
  | [], _, h, _ => h
  | c :: cs, stack, h, hr =>
    settled_foldl cs _ (settled_push h (fun e => absurd e (hr c (by simp))))
      (fun x hx => hr x (List.mem_cons_of_mem _ hx))

theorem inner_foldl : ∀ (cs stack : List Component), (∀ c ∈ cs, c.Inner) →
    (∀ c ∈ stack, c = .root ∨ c.Inner) → ∀ c ∈ cs.foldl push stack, c = .root ∨ c.Inner
  | [], _, _, h => h
  | c :: cs, stack, hi, h => by
    refine inner_foldl cs _ (fun x hx => hi x (List.mem_cons_of_mem _ hx)) (fun x hx => ?_)
    have hc := hi c (by simp)
    unfold push at hx
    split at hx
    · exact h x hx
    · exact h x (List.mem_cons_of_mem _ hx)
    · exact h x hx
    · rcases List.mem_cons.1 hx with rfl | hx
      · exact .inr hc
      · exact h x hx

theorem settled_normalComponents {cs : List Component} (h : WellFormed cs) : Settled (cs.foldl push []) := by
  obtain ⟨front, inner, rfl, hf, hi⟩ := h
  have hr : ∀ c ∈ inner, c ≠ .root := fun c hc => (hi c hc).ne_root
  rw [List.foldl_append]
  rcases hf with rfl | rfl | rfl
  · exact settled_foldl _ _ trivial hr
  · exact settled_foldl _ _ rfl hr
  · exact settled_foldl _ _ trivial hr

/-- Every component of a settled stack but the bottom one is no root. -/
theorem wellFormed_reverse_of_settled : ∀ stack : List Component, Settled stack →
    (∀ c ∈ stack, c = .root ∨ c.Inner) → WellFormed stack.reverse
  | [], _, _ => ⟨[], [], rfl, .inl rfl, by simp⟩
  | c :: below, h, hi => by
    have hb : Settled below := by
      cases c with
      | root => rw [show below = [] from h]; trivial
      | current => exact h.elim
      | parent => exact settled_of_parents below h
      | name text => exact h
    obtain ⟨front, inner, e, hf, hin⟩ :=
      wellFormed_reverse_of_settled below hb (fun x hx => hi x (List.mem_cons_of_mem _ hx))
    rcases hi c (by simp) with rfl | hc
    · rw [show below = [] from h]
      exact ⟨[.root], [], rfl, .inr (.inl rfl), by simp⟩
    · refine ⟨front, inner ++ [c], by simp [e], hf, ?_⟩
      intro x hx
      rcases List.mem_append.1 hx with hx | hx
      · exact hin x hx
      · simp at hx; subst hx; exact hc

theorem inner_normalComponents {cs : List Component} (h : WellFormed cs) :
    ∀ c ∈ cs.foldl push [], c = .root ∨ c.Inner := by
  obtain ⟨front, inner, rfl, hf, hi⟩ := h
  rw [List.foldl_append]
  refine inner_foldl inner _ hi ?_
  rcases hf with rfl | rfl | rfl <;> simp [push]

theorem wellFormed_normalComponents {cs : List Component} (h : WellFormed cs) : WellFormed (normalComponents cs) :=
  wellFormed_reverse_of_settled _ (settled_normalComponents h) (inner_normalComponents h)

/-- **The components of the normal form** are the normal components. -/
theorem components_normalize (p : Path) : p.normalize.components = normalComponents p.components :=
  components_ofComponents (wellFormed_normalComponents p.wellFormed_components)

theorem foldl_push_reverse : ∀ stack : List Component, Settled stack → stack.reverse.foldl push [] = stack
  | [], _ => rfl
  | c :: below, h => by
    rw [List.reverse_cons, List.foldl_append]
    cases c with
    | root => rw [show below = [] from h]; rfl
    | current => exact h.elim
    | parent =>
      rw [foldl_push_reverse below (settled_of_parents below h)]
      cases below with
      | nil => rfl
      | cons top rest => rw [h top (by simp)]; rfl
    | name text =>
      rw [foldl_push_reverse below h]
      cases below with
      | nil => rfl
      | cons top rest => cases top <;> rfl

/-- **Taking the normal form twice changes nothing.** -/
theorem normalize_normalize (p : Path) : p.normalize.normalize = p.normalize := by
  have h : normalComponents (normalComponents p.components) = normalComponents p.components := by
    unfold normalComponents
    rw [foldl_push_reverse _ (settled_normalComponents p.wellFormed_components)]
  unfold normalize
  rw [show (ofComponents (normalComponents p.components)).components = _ from components_normalize p, h]

theorem normalize_congr {p q : Path} (h : p.components = q.components) : p.normalize = q.normalize := by
  simp [normalize, h]

/-- **A path in normal form has one spelling.** -/
theorem eq_of_normal {p q : Path} (hp : p.normalize = p) (hq : q.normalize = q) (h : p.components = q.components) :
    p = q := by
  rw [← hp, ← hq, normalize_congr h]

end Path
end IncludeClosure
