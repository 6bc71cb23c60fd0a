import IncludeClosure.Path.Basic
import IncludeClosure.Sorted
/-!
# Path.Order — the order of paths

Paths are ordered by their components, first difference first: the root, then `.`, then `..`, then names in the order
of their code points, which is the order of their UTF-8 bytes.  So `a/b` comes before `a.h`, and two spellings of one
path compare equal (`order_eq_iff`).
-/
namespace IncludeClosure
namespace Component

def rank : Component → Nat
  | root => 0
  | current => 1
  | parent => 2
  | name _ => 3

def order : Component → Component → Ordering :=
  compareLex (compareOn rank) (compareOn text)

instance : Std.TransCmp order :=
  inferInstanceAs (Std.TransCmp (compareLex (compareOn rank) (compareOn text)))

instance : Std.LawfulEqCmp order where
  eq_of_compare {a b} h := by
    obtain ⟨hr, ht⟩ := Ordering.then_eq_eq.1 h
    have hr : a.rank = b.rank := Std.LawfulEqOrd.eq_of_compare hr
    have ht : a.text = b.text := Std.LawfulEqOrd.eq_of_compare ht
    cases a <;> cases b <;> first | rfl | (cases hr; done) | exact congrArg name ht

end Component

namespace Path

/-- **The order of paths.** -/
def order (p q : Path) : Ordering :=
  List.compareLex Component.order p.components q.components

instance : Std.TransCmp order :=
  inferInstanceAs (Std.TransCmp (Sorted.onKey components (List.compareLex Component.order)))

/-- **Paths compare equal when they are one path,** in whatever spelling. -/
theorem order_eq_iff {p q : Path} : order p q = .eq ↔ p.components = q.components :=
  @Std.LawfulEqCmp.compare_eq_iff_eq _ (List.compareLex Component.order) _ _ _

end Path
end IncludeClosure
