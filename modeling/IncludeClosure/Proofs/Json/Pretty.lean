import IncludeClosure.Proofs.Json.Printer
/-!
# Proofs.Json.Pretty — the layout on several lines is a spelling of the value

The lines and the indentation are white space between tokens, so a value laid out on several lines is read as the value
itself (`Document.whole?_of_spelledAs`).  As for the layout without white space, an array or an object is a spelling if
what stands in it is, one level deeper.
-/
namespace IncludeClosure
namespace Json

namespace Value

/-- A new line and its indentation are white space. -/
theorem blank_newline (depth : Nat) : Blank (newline depth) := by
  intro c mem
  rcases List.mem_cons.1 mem with rfl | mem
  · decide
  · rw [(List.mem_replicate.1 mem).2]
    decide

variable {depth : Nat}

theorem prettyItems_cons (v : Value) {rest : List Value} (more : rest ≠ []) :
    prettyItems depth (v :: rest) = newline depth ++ v.pretty depth ++ ',' :: prettyItems depth rest :=
  prettyItems.eq_3 depth v rest more

theorem prettyMembers_cons (k v : Value) {rest : List (Value × Value)} (more : rest ≠ []) :
    prettyMembers depth ((k, v) :: rest) =
      newline depth ++ k.compact ++ ':' :: ' ' :: v.pretty depth ++ ',' :: prettyMembers depth rest :=
  prettyMembers.eq_3 depth k v rest more

theorem pretty_array {items : List Value} (filled : items ≠ []) :
    (array items).pretty depth = '[' :: prettyItems (depth + 1) items ++ newline depth ++ [']'] := by
  cases items with
  | nil => exact absurd rfl filled
  | cons => rfl

theorem pretty_object {members : List (Value × Value)} (filled : members ≠ []) :
    (object members).pretty depth =
      '\x7b' :: prettyMembers (depth + 1) members ++ newline depth ++ ['\x7d'] := by
  cases members with
  | nil => exact absurd rfl filled
  | cons => rfl

theorem spelledAs_pretty_text (s : String) : (text s).SpelledAs ((text s).pretty depth) :=
  spelledAs_compact_text s

theorem laid_prettyItems : ∀ {items : List Value}, (∀ v ∈ items, v.SpelledAs (v.pretty depth)) →
    Laid (itemTokens items) (prettyItems depth items)
  | [], _ => .nothing
  | [v], h => (h v List.mem_cons_self).blank_append (blank_newline depth)
  | v :: w :: rest, h => by
    have more := List.cons_ne_nil w rest
    have first : Laid v.tokens (newline depth ++ v.pretty depth) :=
      (h v List.mem_cons_self).blank_append (blank_newline depth)
    rw [itemTokens_cons v more, prettyItems_cons v more]
    exact first.append (.token_cons [','] .comma (laid_prettyItems fun u hu => h u (List.mem_cons_of_mem _ hu)))

/-- **An array** is written as a spelling of it, if its items are one level deeper. -/
theorem spelledAs_pretty_array {items : List Value} (h : ∀ v ∈ items, v.SpelledAs (v.pretty (depth + 1))) :
    (array items).SpelledAs ((array items).pretty depth) := by
  by_cases filled : items = []
  · rw [filled]
    exact .token_cons ['['] .openArray (.single .closeArray)
  · have close : Laid [.closeArray] (newline depth ++ [']']) :=
      (Laid.single .closeArray).blank_append (blank_newline depth)
    rw [pretty_array filled, List.append_assoc]
    exact .token_cons ['['] .openArray ((laid_prettyItems h).append close)

/-- A member on a line of its own. -/
theorem laid_prettyMember {s : String} {v : Value} (h : v.SpelledAs (v.pretty depth)) :
    Laid ((text s).keyToken :: .colon :: v.tokens) (newline depth ++ (text s).compact ++ ':' :: ' ' :: v.pretty depth) := by
  have space : Blank [' '] := fun c mem => by
    rw [List.mem_singleton.1 mem]
    decide
  have key : Laid [(text s).keyToken] (newline depth ++ (text s).compact) :=
    (spelledAs_compact_text s).blank_append (blank_newline depth)
  exact key.append (.token_cons [':'] .colon (Laid.blank_append space h))

theorem laid_prettyMembers : ∀ {members : List (Value × Value)},
    (∀ m ∈ members, (∃ s, m.1 = text s) ∧ m.2.SpelledAs (m.2.pretty depth)) →
    Laid (memberTokens members) (prettyMembers depth members)
  | [], _ => .nothing
  | [(k, v)], h => by
    obtain ⟨⟨s, rfl⟩, value⟩ := h (k, v) List.mem_cons_self
    exact laid_prettyMember value
  | (k, v) :: m :: rest, h => by
    obtain ⟨⟨s, rfl⟩, value⟩ := h (k, v) List.mem_cons_self
    have more := List.cons_ne_nil m rest
    rw [memberTokens_cons _ v more, prettyMembers_cons _ v more]
    exact (laid_prettyMember value).append
      (.token_cons [','] .comma (laid_prettyMembers fun n hn => h n (List.mem_cons_of_mem _ hn)))

/-- **An object** is, if its keys are texts and its values are. -/
theorem spelledAs_pretty_object {members : List (Value × Value)}
    (h : ∀ m ∈ members, (∃ s, m.1 = text s) ∧ m.2.SpelledAs (m.2.pretty (depth + 1))) :
    (object members).SpelledAs ((object members).pretty depth) := by
  by_cases filled : members = []
  · rw [filled]
    exact .token_cons ['\x7b'] .openObject (.single .closeObject)
  · have close : Laid [.closeObject] (newline depth ++ ['\x7d']) :=
      (Laid.single .closeObject).blank_append (blank_newline depth)
    rw [pretty_object filled, List.append_assoc]
    exact .token_cons ['\x7b'] .openObject ((laid_prettyMembers h).append close)

theorem spelledAs_pretty_record {members : List (String × Value)}
    (h : ∀ m ∈ members, m.2.SpelledAs (m.2.pretty (depth + 1))) :
    (record members).SpelledAs ((record members).pretty depth) := by
  refine spelledAs_pretty_object fun m hm => ?_
  obtain ⟨n, hn, rfl⟩ := List.mem_map.1 hm
  exact ⟨⟨n.1, rfl⟩, h n hn⟩

/-- White space after a spelling belongs to it. -/
theorem SpelledAs.append_blank {v : Value} {xs space : List Char} (h : v.SpelledAs xs) (blank : Blank space) :
    v.SpelledAs (xs ++ space) := by
  have all : Laid (v.tokens ++ []) (xs ++ space) := Laid.append h (.nil blank)
  rwa [List.append_nil] at all

end Value

/-- **A spelling of a value is a whole document** with this value. -/
theorem Document.whole?_of_spelledAs {v : Value} {text : List Char} (h : v.SpelledAs text) : whole? text = some v := by
  unfold whole?
  rw [ofText_of_spelledAs h]
  dsimp only
  rw [h.skip]

end Json
end IncludeClosure
