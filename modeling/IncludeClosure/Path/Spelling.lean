import IncludeClosure.Path.Basic
/-!
# Path.Spelling — from components to a spelling and back

A component list is **well formed** when only its first member may be the root or `.`, and every name in it is one
piece between slashes.  The components of a path are well formed (`wellFormed_components`), and a well-formed list is
read back from the plainest path that spells it (`components_ofComponents`).
-/
namespace IncludeClosure
namespace Component

/-- A component that may stand anywhere in a path: `..`, or a name that is one piece and neither `.` nor `..`. -/
def Inner (c : Component) : Prop :=
  '/' ∉ c.text.toList ∧ ofPiece? c.text.toList = some c

theorem inner_of_ofPiece? {piece : List Char} {c : Component} (plain : '/' ∉ piece)
    (h : ofPiece? piece = some c) : c.Inner := by
  unfold ofPiece? at h
  split at h
  · cases h
  · cases h
  · cases h; exact ⟨by decide, by decide⟩
  · rename_i h0 h1 h2
    cases h
    refine ⟨by simpa [text] using plain, ?_⟩
    simp only [text, String.toList_ofList]
    unfold ofPiece?
    split <;> first | rfl | contradiction

theorem Inner.ne_root {c : Component} (h : c.Inner) : c ≠ root := by
  rintro rfl; exact absurd h.2 (by decide)

theorem Inner.text_ne_nil {c : Component} (h : c.Inner) : c.text.toList ≠ [] := by
  intro e; have := h.2; rw [e] at this; cases this

theorem Inner.text_ne_dot {c : Component} (h : c.Inner) : c.text.toList ≠ ['.'] := by
  intro e; have := h.2; rw [e] at this; cases this

end Component

namespace Path

/-- Only the first component may be the root or `.`. -/
def WellFormed (components : List Component) : Prop :=
  ∃ front inner, components = front ++ inner ∧ (front = [] ∨ front = [.root] ∨ front = [.current])
    ∧ ∀ c ∈ inner, Component.Inner c

theorem pieces_ne_nil : ∀ text : List Char, pieces text ≠ []
  | [] => by simp [pieces]
  | c :: rest => by
    simp only [pieces]
    split
    · simp
    · split <;> simp

theorem slash_notMem_of_mem_pieces : ∀ (text : List Char) (piece : List Char), piece ∈ pieces text → '/' ∉ piece
  | [], piece, h => by simp [pieces] at h; simp [h]
  | c :: rest, piece, h => by
    simp only [pieces] at h
    have ih := slash_notMem_of_mem_pieces rest
    split at h
    · rcases List.mem_cons.1 h with rfl | h
      · simp
      · exact ih piece h
    · rename_i hc
      split at h
      · rename_i e; exact absurd e (pieces_ne_nil rest)
      · rename_i first others e
        rcases List.mem_cons.1 h with rfl | h
        · have := ih first (by rw [e]; exact List.mem_cons_self)
          simp [this, Ne.symm hc]
        · exact ih piece (by rw [e]; exact List.mem_cons_of_mem _ h)

theorem pieces_append_slash : ∀ (piece text : List Char), '/' ∉ piece →
    pieces (piece ++ '/' :: text) = piece :: pieces text
  | [], text, _ => by simp [pieces]
  | c :: piece, text, h => by
    have hc : c ≠ '/' := fun e => h (by simp [e])
    have hp : '/' ∉ piece := fun e => h (List.mem_cons_of_mem _ e)
    simp [pieces, hc, pieces_append_slash piece text hp]

theorem pieces_of_notMem : ∀ piece : List Char, '/' ∉ piece → pieces piece = [piece]
  | [], _ => by simp [pieces]
  | c :: piece, h => by
    have hc : c ≠ '/' := fun e => h (by simp [e])
    have hp : '/' ∉ piece := fun e => h (List.mem_cons_of_mem _ e)
    simp [pieces, hc, pieces_of_notMem piece hp]

/-- **Cutting at the slashes undoes joining with slashes.** -/
theorem pieces_joinPieces : ∀ ps : List (List Char), ps ≠ [] → (∀ p ∈ ps, '/' ∉ p) → pieces (joinPieces ps) = ps
  | [], h, _ => absurd rfl h
  | [p], _, h => by simpa [joinPieces] using pieces_of_notMem p (h p (by simp))
  | p :: q :: rest, _, h => by
    rw [joinPieces, pieces_append_slash p _ (h p (by simp)),
      pieces_joinPieces (q :: rest) (by simp) (fun x hx => h x (List.mem_cons_of_mem _ hx))]
    simp

/-- **The components of a path are well formed.** -/
theorem wellFormed_components (p : Path) : WellFormed p.components := by
  refine ⟨leading p.text.toList, _, rfl, ?_, ?_⟩
  · unfold leading; split
    · exact .inr (.inl rfl)
    · split
      · exact .inr (.inr rfl)
      · exact .inl rfl
  · intro c hc
    obtain ⟨piece, hp, h⟩ := List.mem_filterMap.1 hc
    exact Component.inner_of_ofPiece? (slash_notMem_of_mem_pieces _ _ hp) h

theorem filterMap_ofPiece?_text : ∀ cs : List Component, (∀ c ∈ cs, Component.Inner c) →
    (cs.map (·.text.toList)).filterMap Component.ofPiece? = cs
  | [], _ => rfl
  | c :: cs, h => by
    simp [(h c (by simp)).2, filterMap_ofPiece?_text cs (fun x hx => h x (List.mem_cons_of_mem _ hx))]

/-- The pieces of the spelling of `front ++ inner`, where `front` is spelled by the pieces `lead`. -/
theorem pieces_spelling (lead : List (List Char)) (inner : List Component)
    (hne : lead ++ inner.map (·.text.toList) ≠ [])
    (hl : ∀ p ∈ lead, '/' ∉ p) (hi : ∀ c ∈ inner, Component.Inner c) :
    pieces (joinPieces (lead ++ inner.map (·.text.toList))) = lead ++ inner.map (·.text.toList) := by
  refine pieces_joinPieces _ hne (fun p hp => ?_)
  rcases List.mem_append.1 hp with h | h
  · exact hl p h
  · obtain ⟨c, hc, rfl⟩ := List.mem_map.1 h; exact (hi c hc).1

theorem components_ofList (text : List Char) :
    components ⟨String.ofList text⟩ = leading text ++ (pieces text).filterMap Component.ofPiece? := by
  simp [components]

/-- **A well-formed list is read back from its plainest spelling.** -/
theorem components_ofComponents {cs : List Component} (h : WellFormed cs) : (ofComponents cs).components = cs := by
  obtain ⟨front, inner, rfl, hf, hi⟩ := h
  rcases hf with rfl | rfl | rfl
  · cases inner with
    | nil => decide
    | cons c rest =>
      have hc := hi c (by simp)
      have hs : ofComponents ([] ++ c :: rest) = ⟨String.ofList (joinPieces ((c :: rest).map (·.text.toList)))⟩ := by
        unfold ofComponents; split
        · rename_i e; simp at e; exact absurd e.1 hc.ne_root
        · rfl
      have hp := pieces_spelling [] (c :: rest) (by simp) (by simp) hi
      simp only [List.nil_append] at hp
      rw [hs, components_ofList, hp, filterMap_ofPiece?_text _ hi]
      have hhead : (joinPieces ((c :: rest).map (·.text.toList))).head? = c.text.toList.head? := by
        cases e : c.text.toList with
        | nil => exact absurd e hc.text_ne_nil
        | cons x xs => cases rest <;> simp [joinPieces, e]
      have h1 : c.text.toList.head? ≠ some '/' := by
        intro e; exact hc.1 (List.mem_of_mem_head? (by simp [e]))
      have hl : leading (joinPieces ((c :: rest).map (·.text.toList))) = [] := by
        rw [leading, hhead, if_neg h1, hp, if_neg (by simpa using hc.text_ne_dot)]
      rw [hl, List.nil_append]
  · cases inner with
    | nil => decide
    | cons c rest =>
      have hs : ofComponents ([.root] ++ c :: rest)
          = ⟨String.ofList (joinPieces ([[]] ++ (c :: rest).map (·.text.toList)))⟩ := rfl
      have hp := pieces_spelling [[]] (c :: rest) (by simp) (by simp) hi
      rw [hs, components_ofList, hp, List.filterMap_append, filterMap_ofPiece?_text _ hi]
      have hh : (joinPieces ([[]] ++ (c :: rest).map (·.text.toList))).head? = some '/' := rfl
      simp only [leading, hh]; rfl
  · have hs : ofComponents ([.current] ++ inner)
        = ⟨String.ofList (joinPieces ([['.']] ++ inner.map (·.text.toList)))⟩ := rfl
    have hp := pieces_spelling [['.']] inner (by simp) (by simp) hi
    rw [hs, components_ofList, hp, List.filterMap_append, filterMap_ofPiece?_text _ hi]
    have hh : (joinPieces ([['.']] ++ inner.map (·.text.toList))).head? = some '.' := by
      cases inner <;> rfl
    simp only [leading, hh, hp]; rfl

theorem same_iff (p q : Path) : p.same q = true ↔ p.components = q.components := by
  simp [same]

end Path
end IncludeClosure
