import IncludeClosure.Directive.Written
import IncludeClosure.Proofs.Text.Utf8
/-!
# Proofs.Directive.Line — a written line is read back, and what is read is plain

A line that a directive is written as reads as that directive, whatever its style (`directive?_writtenAs`): the keyword
ends where no word byte follows, and the target ends at the first byte that closes it.  Conversely a line that reads as a
directive is written as it, up to what follows the closing delimiter (`exists_writtenAs`), and only plain directives are
read from a line without a newline (`plain_of_directive?`).
-/
namespace IncludeClosure

theorem IncludeForm.closing_ascii (form : IncludeForm) : form.closing.toNat < 128 := by
  cases form <;> decide

namespace Directive

/-- A byte that may stand before a target. -/
def Ordinary (b : UInt8) : Prop :=
  isBlank b = true ∨ isWordByte b = true ∨ b = 0x23

instance (b : UInt8) : Decidable (Ordinary b) :=
  inferInstanceAs (Decidable (_ ∨ _ ∨ _))

theorem Ordinary.ne {b c : UInt8} (h : Ordinary b) (hc : (isBlank c || isWordByte c || c == 0x23) = false) : b ≠ c := by
  rintro rfl
  simp only [Bool.or_eq_false_iff, beq_eq_false_iff_ne] at hc
  rcases h with h | h | h
  · rw [hc.1.1] at h
    cases h
  · rw [hc.1.2] at h
    cases h
  · exact hc.2 h

theorem isWordByte_of_isBlank {b : UInt8} (h : isBlank b = true) : isWordByte b = false := by
  simp only [isBlank, Bool.or_eq_true, decide_eq_true_eq] at h
  rcases h with ((rfl | rfl) | rfl) | rfl <;> decide

theorem skipBlanks_append {blanks : Bytes} (h : ∀ b ∈ blanks, isBlank b = true) (rest : Bytes) :
    skipBlanks (blanks ++ rest) = skipBlanks rest :=
  List.dropWhile_append_of_pos h

theorem skipBlanks_cons {b : UInt8} (h : isBlank b = false) (rest : Bytes) : skipBlanks (b :: rest) = b :: rest :=
  List.dropWhile_cons_of_neg (by simp [h])

/-- A run of bytes ends where a byte of another kind follows. -/
theorem span_append {p : UInt8 → Bool} {run rest : Bytes} (inside : ∀ b ∈ run, p b = true)
    (boundary : ∀ b ∈ rest.head?, p b = false) :
    (run ++ rest).takeWhile p = run ∧ (run ++ rest).dropWhile p = rest := by
  rw [List.takeWhile_append_of_pos inside, List.dropWhile_append_of_pos inside]
  cases rest with
  | nil => simp
  | cons b rest =>
    have hb : p b = false := boundary b rfl
    simp [hb]

/-- A run that goes up to a byte ends where that byte is first. -/
theorem takeWhile_closing {close : UInt8} {front : Bytes} (h : close ∉ front) (rest : Bytes) :
    (front ++ close :: rest).takeWhile (· != close) = front := by
  have inside : ∀ b ∈ front, (b != close) = true := by
    intro b hb
    rw [bne_iff_ne]
    rintro rfl
    exact h hb
  exact (span_append inside (by simp)).1

/-- Where a byte of another kind stands in a line, the run ends before anything that is appended. -/
theorem span_append_of_mem {p : UInt8 → Bool} {l : Bytes} {m : UInt8} (hm : m ∈ l) (hp : p m = false) (x : Bytes) :
    (l ++ x).takeWhile p = l.takeWhile p ∧ (l ++ x).dropWhile p = l.dropWhile p ++ x ∧ m ∈ l.dropWhile p := by
  have inside : ∀ c ∈ l.takeWhile p, p c = true := List.all_eq_true.1 List.all_takeWhile
  have stays : m ∈ l.dropWhile p := by
    have split : m ∈ l.takeWhile p ++ l.dropWhile p := by rwa [List.takeWhile_append_dropWhile]
    refine (List.mem_append.1 split).resolve_left fun taken => ?_
    rw [inside m taken] at hp
    cases hp
  obtain ⟨b, rest, e⟩ := List.exists_cons_of_ne_nil (List.ne_nil_of_mem stays)
  have boundary : ∀ c ∈ (l.dropWhile p ++ x).head?, p c = false := by
    intro c hc
    rw [e] at hc
    obtain rfl : b = c := Option.some.inj hc
    have head := List.head_dropWhile_not p (l := l) (by rw [e]; exact List.cons_ne_nil _ _)
    simpa [e] using head
  obtain ⟨taken, dropped⟩ := span_append inside boundary
  rw [← List.append_assoc, List.takeWhile_append_dropWhile] at taken dropped
  exact ⟨taken, dropped, stays⟩

namespace Keyword

theorem wordBytes (k : Keyword) : ∀ b ∈ Text.utf8Bytes k.spelling, isWordByte b = true := by
  have all : (Text.utf8Bytes k.spelling).all isWordByte = true := by
    cases k <;> decide
  exact List.all_eq_true.1 all

theorem exists_cons (k : Keyword) : ∃ b rest, Text.utf8Bytes k.spelling = b :: rest ∧ isBlank b = false := by
  cases k
  · exact ⟨0x69, [0x6e, 0x63, 0x6c, 0x75, 0x64, 0x65], by decide, by decide⟩
  · exact ⟨0x69, [0x6d, 0x70, 0x6f, 0x72, 0x74], by decide, by decide⟩
  · exact ⟨0x69, [0x6e, 0x63, 0x6c, 0x75, 0x64, 0x65, 0x5f, 0x6e, 0x65, 0x78, 0x74], by decide, by decide⟩

theorem mem_all (k : Keyword) : k ∈ all := by
  cases k <;> decide

end Keyword

namespace Style

/-- What stands before the target. -/
def head (style : Style) : Bytes :=
  style.indent ++ 0x23 :: style.gap ++ Text.utf8Bytes style.keyword.spelling ++ style.space

variable (style : Style)

theorem blank_indent : ∀ b ∈ style.indent, isBlank b = true := by
  intro b hb
  exact style.blank b (List.mem_append_left _ (List.mem_append_left _ hb))

theorem blank_gap : ∀ b ∈ style.gap, isBlank b = true := by
  intro b hb
  exact style.blank b (List.mem_append_left _ (List.mem_append_right _ hb))

theorem blank_space : ∀ b ∈ style.space, isBlank b = true := by
  intro b hb
  exact style.blank b (List.mem_append_right _ hb)

end Style

theorem Style.ordinary_of_mem_head {style : Style} {b : UInt8} (h : b ∈ style.head) : Ordinary b := by
  simp only [head, List.append_assoc, List.mem_append, List.cons_append, List.mem_cons] at h
  rcases h with h | rfl | h | h | h
  · exact .inl (style.blank_indent b h)
  · exact .inr (.inr rfl)
  · exact .inl (style.blank_gap b h)
  · exact .inr (.inl (style.keyword.wordBytes b h))
  · exact .inl (style.blank_space b h)

/-- **After the head of a line** comes what stands behind the keyword. -/
theorem afterKeyword?_head (style : Style) {rest : Bytes} (boundary : ∀ b ∈ rest.head?, isWordByte b = false) :
    afterKeyword? (style.head ++ rest) = some (style.space ++ rest) := by
  obtain ⟨k, ks, spelled, hk⟩ := style.keyword.exists_cons
  have hash : skipBlanks (style.head ++ rest) =
      0x23 :: (style.gap ++ (Text.utf8Bytes style.keyword.spelling ++ (style.space ++ rest))) := by
    have split : style.head ++ rest =
        style.indent ++ 0x23 :: (style.gap ++ (Text.utf8Bytes style.keyword.spelling ++ (style.space ++ rest))) := by
      simp [Style.head]
    rw [split, skipBlanks_append style.blank_indent, skipBlanks_cons (by decide)]
  have word : skipBlanks (style.gap ++ (Text.utf8Bytes style.keyword.spelling ++ (style.space ++ rest))) =
      Text.utf8Bytes style.keyword.spelling ++ (style.space ++ rest) := by
    rw [skipBlanks_append style.blank_gap, spelled]
    exact skipBlanks_cons hk _
  have ends : ∀ b ∈ (style.space ++ rest).head?, isWordByte b = false := by
    intro b hb
    cases space : style.space with
    | nil =>
      rw [space] at hb
      exact boundary b hb
    | cons c cs =>
      rw [space] at hb
      have hc : isBlank c = true := style.blank_space c (by rw [space]; exact List.mem_cons_self)
      rw [← Option.some.inj (Option.mem_def.1 hb)]
      exact isWordByte_of_isBlank hc
  obtain ⟨taken, dropped⟩ := span_append style.keyword.wordBytes ends
  have known : Keyword.all.any (fun k => Text.utf8Bytes k.spelling == Text.utf8Bytes style.keyword.spelling) = true :=
    List.any_eq_true.2 ⟨style.keyword, style.keyword.mem_all, beq_self_eq_true _⟩
  unfold afterKeyword?
  rw [hash]
  simp only [if_true, word, taken, dropped, known]

theorem awaitsTarget_head (style : Style) : awaitsTarget style.head = true := by
  have boundary : ∀ b ∈ ([] : Bytes).head?, isWordByte b = false := by simp
  have h := afterKeyword?_head style boundary
  rw [List.append_nil, List.append_nil] at h
  unfold awaitsTarget
  rw [h]
  have skipped : skipBlanks style.space = [] := by
    rw [← List.append_nil style.space, skipBlanks_append style.blank_space]
    rfl
  simp only [skipped, List.isEmpty_nil]

variable {d : Directive}

theorem utf8Bytes_display (d : Directive) :
    Text.utf8Bytes d.display = d.form.opening.toUInt8 :: (Text.utf8Bytes d.target ++ [d.form.closing.toUInt8]) := by
  have opens : Text.utf8Bytes (String.singleton d.form.opening) = [d.form.opening.toUInt8] := by
    cases d.form <;> decide
  have closes : Text.utf8Bytes (String.singleton d.form.closing) = [d.form.closing.toUInt8] := by
    cases d.form <;> decide
  unfold display
  rw [Text.utf8Bytes_append, Text.utf8Bytes_append, opens, closes]
  rfl

theorem Plain.closing_notMem (h : d.Plain) : d.form.closing.toUInt8 ∉ Text.utf8Bytes d.target := fun hb =>
  h.2.2 ((Text.toUInt8_mem_utf8Bytes d.form.closing_ascii).1 hb)

theorem Plain.newline_notMem (h : d.Plain) : (0x0a : UInt8) ∉ Text.utf8Bytes d.target := fun hb =>
  h.2.1 ((Text.toUInt8_mem_utf8Bytes (c := '\n') (by decide)).1 hb)

theorem target?_closed (h : d.Plain) :
    target? d.form (Text.utf8Bytes d.target ++ [d.form.closing.toUInt8]) = some d := by
  have upTo : upTo? d.form.closing.toUInt8 (Text.utf8Bytes d.target ++ [d.form.closing.toUInt8]) =
      some (Text.utf8Bytes d.target) := by
    unfold upTo?
    rw [if_pos (by simp), takeWhile_closing h.closing_notMem]
  have filled : Text.utf8Bytes d.target ≠ [] := fun e => h.1 (Text.utf8Bytes_eq_nil.1 e)
  unfold target?
  simp [upTo, filled, Text.ofUtf8?_utf8Bytes]

theorem writtenAs_eq (d : Directive) (style : Style) : d.writtenAs style = style.head ++ Text.utf8Bytes d.display := rfl

/-- **A written line reads as the directive it was written for.** -/
theorem directive?_writtenAs (h : d.Plain) (style : Style) : directive? (d.writtenAs style) = some d := by
  have after : afterKeyword? (d.writtenAs style) = some (style.space ++ Text.utf8Bytes d.display) := by
    refine afterKeyword?_head style fun b hb => ?_
    rw [utf8Bytes_display] at hb
    rw [← Option.some.inj (Option.mem_def.1 hb)]
    cases d.form <;> decide
  have skipped : skipBlanks (style.space ++ Text.utf8Bytes d.display) =
      d.form.opening.toUInt8 :: (Text.utf8Bytes d.target ++ [d.form.closing.toUInt8]) := by
    rw [skipBlanks_append style.blank_space, utf8Bytes_display]
    refine skipBlanks_cons ?_ _
    cases d.form <;> decide
  have read := target?_closed h
  unfold directive?
  simp only [after, Option.bind_eq_bind, Option.bind_some, skipped]
  cases form : d.form with
  | quote =>
    rw [form] at read
    exact read
  | angle =>
    rw [form] at read
    exact read

/-! ## The end of a line -/

variable {l x : Bytes} {m : UInt8}

theorem afterKeyword?_append (hm : m ∈ l) (special : ¬ Ordinary m) (x : Bytes) :
    (afterKeyword? l = none ∧ afterKeyword? (l ++ x) = none) ∨
      ∃ rest, m ∈ rest ∧ afterKeyword? l = some rest ∧ afterKeyword? (l ++ x) = some (rest ++ x) := by
  obtain ⟨blank, word, hash⟩ : isBlank m = false ∧ isWordByte m = false ∧ m ≠ 0x23 := by
    simpa [Ordinary] using special
  obtain ⟨-, skipped, hm⟩ := span_append_of_mem hm blank x
  unfold afterKeyword? skipBlanks
  rw [skipped]
  cases trimmed : l.dropWhile isBlank with
  | nil => simp [trimmed] at hm
  | cons b tail =>
    simp only [List.cons_append]
    by_cases hb : b = 0x23
    · have hm : m ∈ tail := by
        rw [trimmed] at hm
        exact (List.mem_cons.1 hm).resolve_left fun e => hash (e.trans hb)
      obtain ⟨-, skipped, hm⟩ := span_append_of_mem hm blank x
      obtain ⟨taken, dropped, hm⟩ := span_append_of_mem hm word x
      rw [skipped, taken, dropped]
      simp only [hb, if_true]
      split
      · exact .inr ⟨_, hm, rfl, rfl⟩
      · exact .inl ⟨rfl, rfl⟩
    · simp [hb]

theorem target?_append {form : IncludeForm} (hx : form.closing.toUInt8 ∉ x) (body : Bytes) :
    target? form (body ++ x) = target? form body := by
  have upTo : upTo? form.closing.toUInt8 (body ++ x) = upTo? form.closing.toUInt8 body := by
    unfold upTo?
    by_cases closes : form.closing.toUInt8 ∈ body
    · rw [if_pos closes, if_pos (List.mem_append_left _ closes), (span_append_of_mem closes (by simp) x).1]
    · rw [if_neg closes, if_neg fun h => (List.mem_append.1 h).elim closes hx]
  unfold target?
  rw [upTo]

/-- **What stands at the end of a line** makes no difference to its directive, when the head of the line is over and no
delimiter is in it that could close the target. -/
theorem directive?_append (hm : m ∈ l) (special : ¬ Ordinary m) (quote : 0x22 ∉ x) (angle : 0x3e ∉ x) :
    directive? (l ++ x) = directive? l := by
  have closing (form : IncludeForm) : form.closing.toUInt8 ∉ x := by
    cases form
    · exact quote
    · exact angle
  unfold directive?
  rcases afterKeyword?_append hm special x with ⟨e, e'⟩ | ⟨rest, hm, e, e'⟩
  · rw [e, e']
  · have blank : isBlank m = false := by
      simpa using fun h => special (.inl h)
    obtain ⟨-, skipped, hm⟩ := span_append_of_mem hm blank x
    simp only [e, e', Option.bind_eq_bind, Option.bind_some, skipBlanks, skipped]
    cases trimmed : rest.dropWhile isBlank with
    | nil => simp [trimmed] at hm
    | cons opening body => simp only [List.cons_append, target?_append (closing _) body]

/-! ## What is read from a line -/

/-- **A line that starts with a keyword** starts with the head of some style. -/
theorem exists_style {line rest : Bytes} (h : afterKeyword? line = some rest) :
    ∃ style : Style, line = style.head ++ skipBlanks rest := by
  unfold afterKeyword? at h
  split at h
  · cases h
  · rename_i hash body indented
    split at h
    · rename_i isHash
      dsimp only at h
      split at h
      · rename_i known
        obtain rfl := Option.some.inj h
        obtain ⟨keyword, -, spelled⟩ := List.any_eq_true.1 known
        have word : Text.utf8Bytes keyword.spelling = (skipBlanks body).takeWhile isWordByte := eq_of_beq spelled
        have blanks (bytes : Bytes) : ∀ b ∈ bytes.takeWhile isBlank, isBlank b = true :=
          List.all_eq_true.1 List.all_takeWhile
        have split (bytes : Bytes) : bytes.takeWhile isBlank ++ skipBlanks bytes = bytes :=
          List.takeWhile_append_dropWhile
        let style : Style :=
          { indent := line.takeWhile isBlank
            gap := body.takeWhile isBlank
            keyword
            space := ((skipBlanks body).dropWhile isWordByte).takeWhile isBlank
            blank := by
              intro b hb
              rcases List.mem_append.1 hb with hb | hb
              · exact (List.mem_append.1 hb).elim (blanks _ b) (blanks _ b)
              · exact blanks _ b hb }
        refine ⟨style, ?_⟩
        calc line = line.takeWhile isBlank ++ 0x23 :: body := by rw [← isHash, ← indented, split]
          _ = line.takeWhile isBlank ++ 0x23 :: (body.takeWhile isBlank ++ ((skipBlanks body).takeWhile isWordByte ++
                (skipBlanks body).dropWhile isWordByte)) := by rw [List.takeWhile_append_dropWhile, split]
          _ = style.head ++ skipBlanks ((skipBlanks body).dropWhile isWordByte) := by
                rw [← word, ← split ((skipBlanks body).dropWhile isWordByte)]
                simp [Style.head, style, split]
      · cases h
    · cases h

theorem target?_eq_some {form : IncludeForm} {body : Bytes} (h : target? form body = some d) :
    d.form = form ∧ d.target ≠ "" ∧ form.closing.toUInt8 ∉ Text.utf8Bytes d.target ∧
      ∃ rest, body = Text.utf8Bytes d.target ++ form.closing.toUInt8 :: rest := by
  unfold target? at h
  simp only [Option.bind_eq_bind] at h
  obtain ⟨bytes, upTo, h⟩ := Option.bind_eq_some_iff.1 h
  split at h
  · cases h
  · rename_i filled
    obtain ⟨target, read, h⟩ := Option.bind_eq_some_iff.1 h
    cases h
    have spelled : Text.utf8Bytes target = bytes := Text.utf8Bytes_of_ofUtf8? read
    unfold upTo? at upTo
    split at upTo
    · rename_i closes
      have taken : body.takeWhile (· != form.closing.toUInt8) = bytes := Option.some.inj upTo
      obtain ⟨front, rest, e, notMem⟩ := List.eq_append_cons_of_mem closes
      rw [e, takeWhile_closing notMem] at taken
      subst taken
      have some : target ≠ "" := by
        rintro rfl
        rw [← spelled] at filled
        exact filled rfl
      rw [spelled]
      exact ⟨rfl, some, notMem, rest, e⟩
    · cases upTo

/-- **What reads as a directive is written as it,** up to what follows the closing delimiter. -/
theorem exists_writtenAs {line : Bytes} (h : directive? line = some d) :
    d.target ≠ "" ∧ d.form.closing.toUInt8 ∉ Text.utf8Bytes d.target ∧ ∃ (style : Style) (rest : Bytes),
      line = style.head ++ d.form.opening.toUInt8 :: (Text.utf8Bytes d.target ++ d.form.closing.toUInt8 :: rest) := by
  unfold directive? at h
  simp only [Option.bind_eq_bind] at h
  obtain ⟨behind, after, h⟩ := Option.bind_eq_some_iff.1 h
  obtain ⟨style, written⟩ := exists_style after
  have read {form : IncludeForm} {opening : UInt8} {body : Bytes} (skipped : skipBlanks behind = opening :: body)
      (opens : opening = form.opening.toUInt8) (h : target? form body = some d) :
      d.target ≠ "" ∧ d.form.closing.toUInt8 ∉ Text.utf8Bytes d.target ∧ ∃ (style : Style) (rest : Bytes),
        line = style.head ++ d.form.opening.toUInt8 :: (Text.utf8Bytes d.target ++ d.form.closing.toUInt8 :: rest) := by
    obtain ⟨rfl, filled, closed, rest, e⟩ := target?_eq_some h
    exact ⟨filled, closed, style, rest, by rw [written, skipped, opens, e]⟩
  split at h
  · cases h
  · rename_i opening body skipped
    split at h
    · exact read skipped ‹_› h
    · split at h
      · exact read skipped ‹_› h
      · cases h

/-- **Only plain directives are read from a line.** -/
theorem plain_of_directive? {line : Bytes} (h : directive? line = some d) (oneLine : (0x0a : UInt8) ∉ line) :
    d.Plain := by
  obtain ⟨filled, closed, style, rest, e⟩ := exists_writtenAs h
  refine ⟨filled, fun newline => oneLine ?_, fun closes => closed ?_⟩
  · have mem := (Text.toUInt8_mem_utf8Bytes (c := '\n') (by decide)).2 newline
    rw [e]
    exact List.mem_append_right _ (List.mem_cons_of_mem _ (List.mem_append_left _ mem))
  · exact (Text.toUInt8_mem_utf8Bytes d.form.closing_ascii).2 closes

end Directive
end IncludeClosure
