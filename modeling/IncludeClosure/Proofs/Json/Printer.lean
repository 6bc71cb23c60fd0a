import IncludeClosure.Json.Printer
import IncludeClosure.Proofs.Json.Document
/-!
# Proofs.Json.Printer — what is written is a spelling of the value

Each kind of value that a writer makes is written as one of its spellings, if the values in it are.  The strings carry
the work: every character has one element, itself or an escape, that says it.
-/
namespace IncludeClosure
namespace Json

/-! ## Laying out -/

namespace Laid

theorem blank_append {space : List Char} (blank : Blank space) : ∀ {tokens : List Token} {text : List Char},
    Laid tokens text → Laid tokens (space ++ text)
  | _, _, .nil more => .nil fun c hc => (List.mem_append.1 hc).elim (blank c) (more c)
  | _, _, @Laid.cons _ _ more xs ys blankMore first rest => by
    have both : Blank (space ++ more) := fun c hc => (List.mem_append.1 hc).elim (blank c) (blankMore c)
    have all := Laid.cons both first rest
    rwa [List.append_assoc] at all

theorem append {tokens more : List Token} {xs ys : List Char} (hx : Laid tokens xs) (hy : Laid more ys) :
    Laid (tokens ++ more) (xs ++ ys) := by
  induction hx with
  | nil blank => exact hy.blank_append blank
  | cons blank first _ ih =>
    have all := Laid.cons blank first ih
    simpa only [List.append_assoc, List.cons_append] using all

/-- A token with no white space before it. -/
theorem token_cons {token : Token} {tokens : List Token} (xs : List Char) {ys : List Char} (first : token.SpelledAs xs)
    (rest : Laid tokens ys) : Laid (token :: tokens) (xs ++ ys) :=
  .cons (show Blank [] from fun _ h => absurd h List.not_mem_nil) first rest

theorem nothing : Laid [] [] :=
  .nil fun _ h => absurd h List.not_mem_nil

theorem single {token : Token} {xs : List Char} (h : token.SpelledAs xs) : Laid [token] xs := by
  simpa using token_cons xs h nothing

end Laid

/-! ## Strings -/

theorem hexDigit?_hexDigit (n : Nat) : Tokenizer.hexDigit? (hexDigit n) = some (n % 16) := by
  have small : n % 16 < 16 := Nat.mod_lt n (by decide)
  unfold hexDigit
  generalize n % 16 = d at small
  interval_cases d <;> decide

/-- **One character of a string:** it is written as itself or as an escape, and either says this character. -/
theorem exists_element (c : Char) : ∃ e : Element, e.SpelledAs (escape c) ∧
    ∀ rest, Element.meaning (e :: rest) = (Element.meaning rest).map (c :: ·) := by
  have plain {text : List Char} (h : (Element.plain c).SpelledAs text) : ∃ e : Element, e.SpelledAs text ∧
      ∀ rest, Element.meaning (e :: rest) = (Element.meaning rest).map (c :: ·) :=
    ⟨.plain c, h, fun _ => rfl⟩
  unfold escape
  split
  · exact plain (.escaped rfl)
  · exact plain (.escaped rfl)
  · exact plain (.escaped rfl)
  · exact plain (.escaped rfl)
  · exact plain (.escaped rfl)
  · exact plain (.escaped rfl)
  · exact plain (.escaped rfl)
  · rename_i noQuote noBackslash _ _ _ _ _
    split
    · rename_i control
      have zero : Tokenizer.hexDigit? '0' = some 0 := by decide
      have spelled := Element.SpelledAs.unit zero zero (hexDigit?_hexDigit (c.toNat / 16)) (hexDigit?_hexDigit c.toNat)
      have value : 16 * (16 * (16 * 0 + 0) + c.toNat / 16 % 16) + c.toNat % 16 = c.toNat := by omega
      rw [value] at spelled
      refine ⟨.unit c.toNat, spelled, fun rest => ?_⟩
      have notHigh : ¬ Chars.isHigh c.toNat = true := by
        simp only [Chars.isHigh, Bool.and_eq_true, decide_eq_true_eq, not_and]
        omega
      have notLow : ¬ Chars.isLow c.toNat = true := by
        simp only [Chars.isLow, Bool.and_eq_true, decide_eq_true_eq, not_and]
        omega
      rw [Element.meaning_notHigh notHigh, if_neg notLow, Char.ofNat_toNat]
    · rename_i printable
      exact plain (.itself (Nat.not_lt.1 printable) noQuote noBackslash)

theorem exists_elements : ∀ cs : List Char, ∃ es : List Element,
    Element.EachSpelledAs es (cs.flatMap escape) ∧ Element.meaning es = .ok cs
  | [] => ⟨[], .nil, rfl⟩
  | c :: cs => by
    obtain ⟨e, first, meaningCons⟩ := exists_element c
    obtain ⟨es, rest, meaning⟩ := exists_elements cs
    exact ⟨e :: es, .cons first rest, by rw [meaningCons, meaning]; rfl⟩

namespace Value

/-! ## Values -/

/-- **A text** is written as a spelling of it. -/
theorem spelledAs_compact_text (s : String) : (text s).SpelledAs (text s).compact := by
  obtain ⟨es, spelled, meaning⟩ := exists_elements s.toList
  have token := Token.SpelledAs.string spelled
  rw [meaning] at token
  have same : (Except.ok s.toList : Except Flaw (List Char)).map String.ofList = .ok s :=
    congrArg Except.ok (String.ofList_toList)
  rw [same] at token
  exact Laid.single token

theorem compactItems_cons (v : Value) {rest : List Value} (more : rest ≠ []) :
    compactItems (v :: rest) = v.compact ++ ',' :: compactItems rest :=
  compactItems.eq_3 v rest more

theorem compactMembers_cons (k v : Value) {rest : List (Value × Value)} (more : rest ≠ []) :
    compactMembers ((k, v) :: rest) = k.compact ++ ':' :: v.compact ++ ',' :: compactMembers rest :=
  compactMembers.eq_3 k v rest more

theorem laid_compactItems : ∀ {items : List Value}, (∀ v ∈ items, v.SpelledAs v.compact) →
    Laid (itemTokens items) (compactItems items)
  | [], _ => .nothing
  | [v], h => h v List.mem_cons_self
  | v :: w :: rest, h => by
    have more := List.cons_ne_nil w rest
    rw [itemTokens_cons v more, compactItems_cons v more]
    exact (h v List.mem_cons_self).append
      (.token_cons [','] .comma (laid_compactItems fun u hu => h u (List.mem_cons_of_mem _ hu)))

/-- **An array** is, if its items are. -/
theorem spelledAs_compact_array {items : List Value} (h : ∀ v ∈ items, v.SpelledAs v.compact) :
    (array items).SpelledAs (array items).compact :=
  .token_cons ['['] .openArray ((laid_compactItems h).append (.single .closeArray))

/-- A member with its key. -/
theorem laid_member {s : String} {v : Value} (h : v.SpelledAs v.compact) :
    Laid ((text s).keyToken :: .colon :: v.tokens) ((text s).compact ++ ':' :: v.compact) :=
  (spelledAs_compact_text s).append (.token_cons [':'] .colon h)

theorem laid_compactMembers : ∀ {members : List (Value × Value)},
    (∀ m ∈ members, (∃ s, m.1 = text s) ∧ m.2.SpelledAs m.2.compact) →
    Laid (memberTokens members) (compactMembers members)
  | [], _ => .nothing
  | [(k, v)], h => by
    obtain ⟨⟨s, rfl⟩, value⟩ := h (k, v) List.mem_cons_self
    exact laid_member value
  | (k, v) :: m :: rest, h => by
    obtain ⟨⟨s, rfl⟩, value⟩ := h (k, v) List.mem_cons_self
    have more := List.cons_ne_nil m rest
    rw [memberTokens_cons _ v more, compactMembers_cons _ v more]
    exact (laid_member value).append
      (.token_cons [','] .comma (laid_compactMembers fun n hn => h n (List.mem_cons_of_mem _ hn)))

/-- **An object** is, if its keys are texts and its values are. -/
theorem spelledAs_compact_object {members : List (Value × Value)}
    (h : ∀ m ∈ members, (∃ s, m.1 = text s) ∧ m.2.SpelledAs m.2.compact) :
    (object members).SpelledAs (object members).compact :=
  .token_cons ['\x7b'] .openObject ((laid_compactMembers h).append (.single .closeObject))

theorem spelledAs_compact_record {members : List (String × Value)} (h : ∀ m ∈ members, m.2.SpelledAs m.2.compact) :
    (record members).SpelledAs (record members).compact := by
  refine spelledAs_compact_object fun m hm => ?_
  obtain ⟨n, hn, rfl⟩ := List.mem_map.1 hm
  exact ⟨⟨n.1, rfl⟩, h n hn⟩

end Value
end Json
end IncludeClosure
