import IncludeClosure.Proofs.Json.Token
/-!
# Proofs.Json.Document — a spelling of a value is read as this value

The tokens of a value, met where a value may come, do to the open frames what the value itself does (`run_tokens`).  The
induction is on the value, with one statement for the items of an array and one for the members of an object; what is
said of a frame there is only where it leads with the next value or key, so an open array before its first item and one
after a comma are one case.
-/
namespace IncludeClosure
namespace Json

/-- A token that has a spelling is not the one at which a text goes wrong. -/
theorem Laid.noStray {tokens : List Token} {text : List Char} (h : Laid tokens text) : Token.stray ∉ tokens := by
  induction h with
  | nil => exact List.not_mem_nil
  | cons blank first rest ih =>
    intro mem
    rcases List.mem_cons.1 mem with rfl | mem
    · cases first
    · exact ih mem

namespace Value

/-! ## The tokens of a value -/

theorem apart_singleton (token : Token) : Token.Apart [token] :=
  .singleton token

mutual

/-- No two scalars follow each other in a value. -/
theorem apart_tokens : ∀ v : Value, Token.Apart v.tokens
  | array items => by
    have inner : Token.Apart (itemTokens items ++ [.closeArray]) :=
      Token.apart_append _ rfl (apart_itemTokens items) .nil
    exact Token.apart_append [] rfl .nil inner
  | object members => by
    have inner : Token.Apart (memberTokens members ++ [.closeObject]) :=
      Token.apart_append _ rfl (apart_memberTokens members) .nil
    exact Token.apart_append [] rfl .nil inner
  | broken _ => apart_singleton _
  | null => apart_singleton _
  | boolean _ => apart_singleton _
  | number _ => apart_singleton _
  | string _ => apart_singleton _

theorem apart_itemTokens : ∀ items : List Value, Token.Apart (itemTokens items)
  | [] => .nil
  | [v] => apart_tokens v
  | v :: w :: rest => Token.apart_append _ rfl (apart_tokens v) (apart_itemTokens (w :: rest))

theorem apart_memberTokens : ∀ members : List (Value × Value), Token.Apart (memberTokens members)
  | [] => .nil
  | [(k, v)] => Token.apart_append [k.keyToken] rfl (apart_singleton _) (apart_tokens v)
  | (k, v) :: m :: rest =>
    Token.apart_append (k.keyToken :: .colon :: v.tokens) rfl
      (Token.apart_append [k.keyToken] rfl (apart_singleton _) (apart_tokens v))
      (apart_memberTokens (m :: rest))

end

/-- Only a string can be written in the place of a key. -/
theorem keyToken_eq {k : Value} (h : k.keyToken ≠ .stray) :
    ∃ text, k = string text ∧ k.keyToken = .scalar (string text) := by
  cases k with
  | string text => exact ⟨text, rfl, rfl⟩
  | _ => exact absurd rfl h

end Value

namespace Progress

open Value (tokens itemTokens memberTokens keyToken itemTokens_cons memberTokens_cons)

/-- A key and its colon. -/
theorem run_key {frame : Frame} {outer : List Frame} {acc : List (Value × Value)} {k : Value}
    (next : ∀ text, put (frame :: outer) (.string text) = .inside (.colon acc (.string text) :: outer))
    (sound : .stray ≠ k.keyToken) :
    step (step (.inside (frame :: outer)) k.keyToken) .colon = .inside (.member acc k :: outer) := by
  obtain ⟨text, rfl, token⟩ := Value.keyToken_eq (Ne.symm sound)
  have key : step (.inside (frame :: outer)) (.scalar (.string text)) = put (frame :: outer) (.string text) := rfl
  rw [token, key, next]
  rfl

mutual

/-- **The tokens of a value** do what the value does. -/
theorem run_tokens : ∀ (v : Value) {frames : List Frame}, Frame.takesValue frames = true → .stray ∉ v.tokens →
    v.tokens.foldl step (.inside frames) = put frames v
  | .array items, frames, takes, sound => by
    have opened : step (.inside frames) .openArray = .inside (.firstItem :: frames) := if_pos takes
    rw [tokens, List.foldl_cons, List.foldl_append, opened]
    cases items with
    | nil => rfl
    | cons v rest =>
      rw [run_itemTokens (v :: rest) [] (List.cons_ne_nil v rest) rfl (fun _ => rfl)
        fun mem => sound (by simp [tokens, mem])]
      show put frames (.array ((v :: rest).reverse ++ []).reverse) = _
      simp
  | .object members, frames, takes, sound => by
    have opened : step (.inside frames) .openObject = .inside (.firstKey :: frames) := if_pos takes
    rw [tokens, List.foldl_cons, List.foldl_append, opened]
    cases members with
    | nil => rfl
    | cons m rest =>
      rw [run_memberTokens (m :: rest) [] (List.cons_ne_nil m rest) (fun _ => rfl)
        fun mem => sound (by simp [tokens, mem])]
      show put frames (.object ((m :: rest).reverse ++ []).reverse) = _
      simp
  | .broken _, _, _, sound => absurd (List.mem_singleton.2 rfl) sound
  | .null, _, _, _ => rfl
  | .boolean _, _, _, _ => rfl
  | .number _, _, _, _ => rfl
  | .string _, _, _, _ => rfl

/-- **The items of an array,** after the items that the frame holds. -/
theorem run_itemTokens : ∀ (items acc : List Value) {frame : Frame} {outer : List Frame},
    items ≠ [] → Frame.takesValue (frame :: outer) = true →
    (∀ v, put (frame :: outer) v = .inside (.afterItem (v :: acc) :: outer)) → .stray ∉ itemTokens items →
    (itemTokens items).foldl step (.inside (frame :: outer)) = .inside (.afterItem (items.reverse ++ acc) :: outer)
  | [], _, _, _, filled, _, _, _ => absurd rfl filled
  | [v], acc, frame, outer, _, takes, next, sound => by
    rw [itemTokens, run_tokens v takes sound, next]
    rfl
  | v :: w :: rest, acc, frame, outer, _, takes, next, sound => by
    have more := List.cons_ne_nil w rest
    rw [itemTokens_cons v more, List.mem_append, List.mem_cons, not_or, not_or] at sound
    obtain ⟨first, _, sound⟩ := sound
    have comma : step (.inside (.afterItem (v :: acc) :: outer)) .comma = .inside (.item (v :: acc) :: outer) := rfl
    rw [itemTokens_cons v more, List.foldl_append, run_tokens v takes first, next, List.foldl_cons, comma,
      run_itemTokens (w :: rest) _ more rfl (fun _ => rfl) sound]
    simp

/-- **The members of an object,** after the members that the frame holds. -/
theorem run_memberTokens : ∀ (members acc : List (Value × Value)) {frame : Frame} {outer : List Frame},
    members ≠ [] →
    (∀ text, put (frame :: outer) (.string text) = .inside (.colon acc (.string text) :: outer)) →
    .stray ∉ memberTokens members → (memberTokens members).foldl step (.inside (frame :: outer))
      = .inside (.afterMember (members.reverse ++ acc) :: outer)
  | [], _, _, _, filled, _, _ => absurd rfl filled
  | [(k, v)], acc, frame, outer, _, next, sound => by
    simp only [memberTokens, List.mem_cons, not_or] at sound
    obtain ⟨key, _, sound⟩ := sound
    rw [memberTokens, List.foldl_cons, List.foldl_cons, run_key next key, run_tokens v rfl sound]
    rfl
  | (k, v) :: m :: rest, acc, frame, outer, _, next, sound => by
    have more := List.cons_ne_nil m rest
    rw [memberTokens_cons k v more] at sound
    simp only [List.mem_cons, List.mem_append, not_or] at sound
    obtain ⟨key, _, value, _, sound⟩ := sound
    have comma : step (put (.member acc k :: outer) v) .comma = .inside (.key ((k, v) :: acc) :: outer) := rfl
    rw [memberTokens_cons k v more, List.foldl_cons, List.foldl_cons, run_key next key, List.foldl_append,
      run_tokens v rfl value, List.foldl_cons, comma, run_memberTokens (m :: rest) _ more (fun _ => rfl) sound]
    simp

end

end Progress

/-- **A spelling of a value is read as this value.** -/
theorem Document.ofText_of_spelledAs {v : Value} {text : List Char} (h : v.SpelledAs text) :
    ofText text = { value := v, trailing := false } := by
  unfold ofText
  rw [Token.ofText_of_laid h v.apart_tokens, Progress.run_tokens v rfl h.noStray]
  rfl

namespace Value

mutual

/-- **A value that can be written can be skipped.** -/
theorem skip_of_noStray : ∀ {v : Value}, .stray ∉ v.tokens → v.skip = .ok ()
  | array items, h => by
    rw [skip]
    exact skipItems_of_noStray fun mem => h (by simp [tokens, mem])
  | object members, h => by
    rw [skip]
    exact skipMembers_of_noStray fun mem => h (by simp [tokens, mem])
  | broken _, h => absurd (List.mem_singleton.2 rfl) h
  | null, _ => rfl
  | boolean _, _ => rfl
  | number _, _ => rfl
  | string _, _ => rfl

theorem skipItems_of_noStray : ∀ {items : List Value}, .stray ∉ itemTokens items → skipItems items = .ok ()
  | [], _ => rfl
  | [v], h => by
    rw [skipItems, skip_of_noStray h]
    rfl
  | v :: w :: rest, h => by
    rw [itemTokens_cons v (List.cons_ne_nil w rest), List.mem_append, List.mem_cons, not_or, not_or] at h
    obtain ⟨first, _, rest⟩ := h
    rw [skipItems, skip_of_noStray first]
    exact skipItems_of_noStray rest

theorem skipMembers_of_noStray : ∀ {members : List (Value × Value)}, .stray ∉ memberTokens members →
    skipMembers members = .ok ()
  | [], _ => rfl
  | [(k, v)], h => by
    simp only [memberTokens, List.mem_cons, not_or] at h
    rw [skipMembers, skip_of_noStray h.2.2]
    rfl
  | (k, v) :: m :: rest, h => by
    rw [memberTokens_cons k v (List.cons_ne_nil m rest)] at h
    simp only [List.mem_cons, List.mem_append, not_or] at h
    obtain ⟨_, _, first, _, rest⟩ := h
    rw [skipMembers, skip_of_noStray first]
    exact skipMembers_of_noStray rest

end

theorem SpelledAs.skip {v : Value} {text : List Char} (h : v.SpelledAs text) : v.skip = .ok () :=
  skip_of_noStray h.noStray

end Value
end Json
end IncludeClosure
