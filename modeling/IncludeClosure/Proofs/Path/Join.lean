import IncludeClosure.Path.Normal
/-!
# Proofs.Path.Join — what a name below a directory depends on

The components of a joined path are those of the directory and then what the name adds (`components_join`).  So a name
below a directory has one normal form, however the directory is spelled (`normalize_join_congr`).
-/
namespace IncludeClosure
namespace Path

/-- What a text names between its slashes. -/
def named (text : List Char) : List Component :=
  (pieces text).filterMap Component.ofPiece?

theorem components_eq (p : Path) : p.components = leading p.text.toList ++ named p.text.toList := rfl

/-- The pieces around a slash are those before it and those after it. -/
theorem pieces_slash (ys : List Char) : ∀ xs : List Char, pieces (xs ++ '/' :: ys) = pieces xs ++ pieces ys
  | [] => by simp [pieces]
  | c :: xs => by
    have ih := pieces_slash ys xs
    simp only [List.cons_append, pieces, ih]
    by_cases hc : c = '/'
    · simp [hc]
    · cases e : pieces xs with
      | nil => exact absurd e (pieces_ne_nil xs)
      | cons piece others => simp [hc]

theorem named_slash (xs ys : List Char) : named (xs ++ '/' :: ys) = named xs ++ named ys := by
  unfold named
  rw [pieces_slash, List.filterMap_append]

theorem named_nil : named [] = [] := by decide

/-- How a text begins is seen before its first slash. -/
theorem leading_slash {xs : List Char} (h : xs ≠ []) (ys : List Char) : leading (xs ++ '/' :: ys) = leading xs := by
  have hh : (xs ++ '/' :: ys).head? = xs.head? := by
    cases xs with
    | nil => exact absurd rfl h
    | cons c xs => rfl
  have hp : (pieces (xs ++ '/' :: ys)).head? = (pieces xs).head? := by
    rw [pieces_slash]
    cases e : pieces xs with
    | nil => exact absurd e (pieces_ne_nil xs)
    | cons piece others => rfl
  unfold leading
  rw [hh, hp]

/-- **The components of a joined path:** those of the directory, then what the name adds. -/
theorem components_join {base other : Path} (hb : base.text ≠ "") (ho : other.isAbsolute = false) :
    (base.join other).components = base.components ++ named other.text.toList := by
  have hne : base.text.toList ≠ [] := fun e => hb (String.toList_eq_nil_iff.1 e)
  unfold join
  rw [if_neg (by simp [ho])]
  split
  · rename_i e
    exact absurd (List.getLast?_eq_none_iff.1 e) hne
  · rename_i e
    obtain ⟨xs, hxs⟩ := List.getLast?_eq_some_iff.1 e
    simp only [components_eq, String.toList_append, hxs, List.append_assoc, List.singleton_append, named_slash,
      named_nil, List.append_nil]
    by_cases h : xs = []
    · subst h; rfl
    · rw [leading_slash h, leading_slash h]
  · have ht : (base.text ++ "/" ++ other.text).toList = base.text.toList ++ '/' :: other.text.toList := by simp
    rw [components_eq, components_eq, ht, leading_slash hne, named_slash, List.append_assoc]

/-- A piece that names nothing is empty or `.`. -/
theorem eq_dot_of_ofPiece? {c : Char} {piece : List Char} (h : Component.ofPiece? (c :: piece) = none) :
    c :: piece = ['.'] := by
  unfold Component.ofPiece? at h
  split at h
  · rename_i e; cases e
  · assumption
  · cases h
  · cases h

theorem components_eq_nil {p : Path} : p.components = [] ↔ p.text = "" := by
  constructor
  · intro h
    obtain ⟨hl, hn⟩ := List.append_eq_nil_iff.1 h
    cases e : p.text.toList with
    | nil => exact String.toList_eq_nil_iff.1 e
    | cons c rest =>
      rw [e] at hl hn
      have hc : c ≠ '/' := by
        rintro rfl
        cases hl
      cases hr : pieces rest with
      | nil => exact absurd hr (pieces_ne_nil rest)
      | cons piece others =>
        have hp : pieces (c :: rest) = (c :: piece) :: others := by simp [pieces, hc, hr]
        rw [hp] at hn
        have hd := eq_dot_of_ofPiece? (List.filterMap_eq_nil_iff.1 hn _ List.mem_cons_self)
        have hl' : leading (c :: rest) = [.current] := by
          unfold leading
          rw [if_neg (by simp [hc]), if_pos (by rw [hp, hd]; rfl)]
        rw [hl'] at hl
        cases hl
  · intro h
    rw [components_eq, h]
    decide

/-- **A name below a directory has one normal form,** however the directory is spelled. -/
theorem normalize_join_congr {p q : Path} (h : p.components = q.components) (other : Path) :
    (p.join other).normalize = (q.join other).normalize := by
  by_cases ho : other.isAbsolute = true
  · have hj (base : Path) : base.join other = other := if_pos ho
    rw [hj, hj]
  · have ho : other.isAbsolute = false := Bool.not_eq_true _ ▸ ho
    by_cases hp : p.text = ""
    · have hq : q.text = "" := components_eq_nil.1 (h ▸ components_eq_nil.2 hp)
      obtain rfl : p = q := by cases p; cases q; cases hp; cases hq; rfl
      rfl
    · have hq : q.text ≠ "" := fun e => hp (components_eq_nil.1 (h.symm ▸ components_eq_nil.2 e))
      exact normalize_congr (by rw [components_join hp ho, components_join hq ho, h])

end Path
end IncludeClosure
