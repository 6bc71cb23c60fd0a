/-!
# Sorted — lists kept in a given order

A set is kept as a strictly increasing list, a table as a list of entries with strictly increasing keys.  One insertion
serves both: a member that compares equal to the new one is merged with it, and every other member keeps its place, so
the list stays increasing (`increasing_insertWith`).
-/
namespace IncludeClosure
namespace Sorted

variable {α β : Type}

def onKey (key : β → α) (order : α → α → Ordering) (x y : β) : Ordering :=
  order (key x) (key y)

instance (key : β → α) (order : α → α → Ordering) [h : Std.TransCmp order] : Std.TransCmp (onKey key order) where
  eq_swap := h.eq_swap
  isLE_trans := h.isLE_trans

/-- **Strictly increasing,** so without repetitions. -/
def Increasing (order : α → α → Ordering) (xs : List α) : Prop :=
  xs.Pairwise (fun x y => order x y = .lt)

/-- **Put `x` where it belongs.**  A member that compares equal to it is replaced by `merge member x`. -/
def insertWith (order : α → α → Ordering) (merge : α → α → α) (x : α) : List α → List α
  | [] => [x]
  | y :: rest =>
    match order x y with
    | .lt => x :: y :: rest
    | .eq => merge y x :: rest
    | .gt => y :: insertWith order merge x rest

/-- Put `x` where it belongs, unless it is there already. -/
def insert (order : α → α → Ordering) (x : α) (xs : List α) : List α :=
  insertWith order (fun old _ => old) x xs

/-- **Set the value of a key.**  An entry whose key compares equal keeps its key and takes the new value. -/
def set {κ ν : Type} (order : κ → κ → Ordering) (key : κ) (value : ν) (table : List (κ × ν)) : List (κ × ν) :=
  insertWith (onKey Prod.fst order) (fun old new => (old.1, new.2)) (key, value) table

section Order

variable {order : α → α → Ordering} [Std.TransCmp order] {merge : α → α → α}

/-- Whatever is below `x` and below all members is below them after the insertion. -/
theorem below_insertWith (keep : ∀ old new, order (merge old new) old = .eq) {b x : α} (hx : order b x = .lt) :
    ∀ {xs : List α}, (∀ y ∈ xs, order b y = .lt) → ∀ y ∈ insertWith order merge x xs, order b y = .lt
  | [], _ => by simp [insertWith, hx]
  | z :: xs, h => by
    have hz := h z List.mem_cons_self
    have hs : ∀ y ∈ xs, order b y = .lt := fun y hy => h y (List.mem_cons_of_mem _ hy)
    intro y hy
    unfold insertWith at hy
    split at hy
    · rcases List.mem_cons.1 hy with rfl | hy
      · exact hx
      · exact h y hy
    · rcases List.mem_cons.1 hy with rfl | hy
      · rw [Std.TransCmp.congr_right (keep z x)]; exact hz
      · exact hs y hy
    · rcases List.mem_cons.1 hy with rfl | hy
      · exact hz
      · exact below_insertWith keep hx hs y hy

/-- **An insertion keeps a list increasing,** if a merged member stands where the old one stood. -/
theorem increasing_insertWith (keep : ∀ old new, order (merge old new) old = .eq) (x : α) :
    ∀ {xs : List α}, Increasing order xs → Increasing order (insertWith order merge x xs)
  | [], _ => List.pairwise_singleton _ x
  | y :: xs, h => by
    obtain ⟨hy, hs⟩ := List.pairwise_cons.1 h
    unfold insertWith
    split
    · rename_i hxy
      refine List.pairwise_cons.2 ⟨fun z hz => ?_, h⟩
      rcases List.mem_cons.1 hz with rfl | hz
      · exact hxy
      · exact Std.TransCmp.lt_trans hxy (hy z hz)
    · refine List.pairwise_cons.2 ⟨fun z hz => ?_, hs⟩
      rw [Std.TransCmp.congr_left (keep y x)]; exact hy z hz
    · rename_i hxy
      exact List.pairwise_cons.2
        ⟨below_insertWith keep (Std.OrientedCmp.lt_of_gt hxy) hy, increasing_insertWith keep x hs⟩

/-- Above all members is the end. -/
theorem insertWith_of_above {x : α} : ∀ {xs : List α}, (∀ y ∈ xs, order y x = .lt) →
    insertWith order merge x xs = xs ++ [x]
  | [], _ => rfl
  | y :: xs, h => by
    have above : order x y = .gt := Std.OrientedCmp.gt_of_lt (h y List.mem_cons_self)
    rw [insertWith, above]
    exact congrArg (y :: ·) (insertWith_of_above fun z hz => h z (List.mem_cons_of_mem _ hz))

theorem increasing_insert (x : α) {xs : List α} (h : Increasing order xs) : Increasing order (insert order x xs) :=
  increasing_insertWith (fun _ _ => Std.ReflCmp.compare_self) x h

omit [Std.TransCmp order] in
/-- **The members after an insertion:** the new one and the old ones. -/
theorem mem_insert [Std.LawfulEqCmp order] (x y : α) : ∀ xs : List α, y ∈ insert order x xs ↔ y = x ∨ y ∈ xs
  | [] => by simp [insert, insertWith]
  | z :: xs => by
    have ih := mem_insert x y xs
    unfold insert at ih ⊢
    unfold insertWith
    split
    · exact List.mem_cons
    · rename_i e
      obtain rfl : x = z := Std.LawfulEqCmp.eq_of_compare e
      simp
    · rw [List.mem_cons, ih, List.mem_cons, or_left_comm]

omit [Std.TransCmp order] in
/-- A member after an insertion is the new one, an old one or the two merged. -/
theorem mem_insertWith (x y : α) : ∀ {xs : List α}, y ∈ insertWith order merge x xs →
    y = x ∨ y ∈ xs ∨ ∃ old ∈ xs, y = merge old x
  | [], h => .inl (List.mem_singleton.1 h)
  | z :: xs, h => by
    unfold insertWith at h
    split at h
    · rcases List.mem_cons.1 h with rfl | h
      · exact .inl rfl
      · exact .inr (.inl h)
    · rcases List.mem_cons.1 h with rfl | h
      · exact .inr (.inr ⟨z, List.mem_cons_self, rfl⟩)
      · exact .inr (.inl (List.mem_cons_of_mem _ h))
    · rcases List.mem_cons.1 h with rfl | h
      · exact .inr (.inl List.mem_cons_self)
      · rcases mem_insertWith x y h with rfl | h | ⟨old, ho, rfl⟩
        · exact .inl rfl
        · exact .inr (.inl (List.mem_cons_of_mem _ h))
        · exact .inr (.inr ⟨old, List.mem_cons_of_mem _ ho, rfl⟩)

/-- **Two increasing lists with the same members are one list.** -/
theorem Increasing.ext {xs ys : List α} (hx : Increasing order xs) (hy : Increasing order ys)
    (h : ∀ x, x ∈ xs ↔ x ∈ ys) : xs = ys := by
  have irrefl (x : α) : order x x ≠ .lt := by
    rw [@Std.ReflCmp.compare_self _ order]
    decide
  have nodup {zs : List α} (hz : Increasing order zs) : zs.Nodup := by
    refine List.Pairwise.imp ?_ hz
    rintro x _ hlt rfl
    exact irrefl x hlt
  have perm : xs.Perm ys := (List.perm_ext_iff_of_nodup (nodup hx) (nodup hy)).2 h
  refine List.Perm.eq_of_pairwise (fun x y _ _ hxy hyx => ?_) hx hy perm
  exact absurd (Std.TransCmp.lt_trans hxy hyx) (irrefl x)

theorem increasing_set {ν : Type} (key : α) (value : ν) {table : List (α × ν)}
    (h : Increasing (onKey Prod.fst order) table) : Increasing (onKey Prod.fst order) (set order key value table) :=
  increasing_insertWith (fun old _ => by exact @Std.ReflCmp.compare_self _ order _ old.1) (key, value) h

end Order

end Sorted

/-- **A table:** entries with strictly increasing keys. -/
structure SortedTable {κ : Type} (order : κ → κ → Ordering) (ν : Type) where
  entries : List (κ × ν)
  increasing : Sorted.Increasing (Sorted.onKey Prod.fst order) entries

namespace SortedTable

variable {κ ν : Type} {order : κ → κ → Ordering}

def empty : SortedTable order ν :=
  { entries := [], increasing := .nil }

def set [Std.TransCmp order] (table : SortedTable order ν) (key : κ) (value : ν) : SortedTable order ν :=
  { entries := Sorted.set order key value table.entries
    increasing := Sorted.increasing_set key value table.increasing }

end SortedTable
end IncludeClosure
