import Mathlib.Data.List.Forall2
import IncludeClosure.Proofs.Directive.Newline
/-!
# Proofs.Directive.Offset — every directive that is found stands in the file

The line that a lexer copies leaves out comments, splices and carriage returns, so it need not be a piece of the file.
The operand of a directive is one all the same.  The delimiter that opens it is only copied where it also sets the mode
in which every byte is copied as it stands; so from that delimiter on the line is **unbroken**, up to the byte that
closes the operand (`Lexer.Unbroken`, `Unbroken.step`).  A line that is a directive therefore has its operand from what
was read since the line began (`Unbroken.stands`), and the lines before it have ended (`Lexer.Placed`): the directives
of a file stand in it at increasing offsets, each on a line of its own (`extract_standsAt`).
-/
namespace IncludeClosure
namespace Directive

variable {d : Directive}

/-- **The operand of a directive stands in a content at an offset:** the opening delimiter, the target and the closing
delimiter, byte for byte. -/
def StandsAt (content : Bytes) (offset : Nat) (d : Directive) : Prop :=
  d.form.opening.toUInt8 :: (Text.utf8Bytes d.target ++ [d.form.closing.toUInt8]) <+: content.drop offset

/-- The second offset is on a later line of the content than the first. -/
def OnLaterLine (content : Bytes) (first second : Nat) : Prop :=
  ∃ newline, first < newline ∧ newline < second ∧ content[newline]? = some 0x0a

theorem StandsAt.append {content : Bytes} {offset : Nat} (h : StandsAt content offset d) (more : Bytes) :
    StandsAt (content ++ more) offset d := by
  unfold StandsAt
  rw [List.drop_append]
  exact h.trans (List.prefix_append _ _)

theorem OnLaterLine.append {content : Bytes} {first second : Nat} (h : OnLaterLine content first second)
    (more : Bytes) : OnLaterLine (content ++ more) first second := by
  obtain ⟨newline, before, after, isNewline⟩ := h
  obtain ⟨inside, -⟩ := List.getElem?_eq_some_iff.1 isNewline
  exact ⟨newline, before, after, by rw [List.getElem?_append_left inside, isNewline]⟩

namespace Lexer

/-! ## The operand of a line -/

/-- The byte that ends the copying of bytes as they stand, if they are copied so. -/
def closing? : Mode → Option UInt8
  | .literal quote | .escape quote => some quote
  | .target => some 0x3e
  | _ => none

/-- What has been read and is copied with the next byte. -/
def waiting : Mode → Bytes
  | .escape _ => [0x5c]
  | _ => []

/-- **The operand is closed in the text that follows its opening delimiter,** and stands in what was read. -/
def Closed (since : Bytes) (form : IncludeForm) (text : Bytes) : Prop :=
  form.closing.toUInt8 ∈ text ∧
    form.opening.toUInt8 :: (text.takeWhile (· != form.closing.toUInt8) ++ [form.closing.toUInt8]) <:+: since

/-- **What follows the head of a directive on the line is a piece of what was read** since the line began: the whole
operand when it is closed, and until then all that follows, up to the last byte. -/
def Unbroken (since : Bytes) (s : Lexer) : Prop :=
  ∀ (style : Style) (form : IncludeForm) (text : Bytes),
    s.line.reverse = style.head ++ form.opening.toUInt8 :: text →
      Closed since form text ∨
        closing? s.mode = some form.closing.toUInt8 ∧ form.opening.toUInt8 :: (text ++ waiting s.mode) <:+ since

variable {since : Bytes} {s : Lexer} {form : IncludeForm} {b : UInt8}

theorem Closed.append {text : Bytes} (h : Closed since form text) (next : Bytes) :
    Closed since form (text ++ next) := by
  obtain ⟨closes, stands⟩ := h
  refine ⟨List.mem_append_left _ closes, ?_⟩
  rw [(span_append_of_mem closes (by simp) next).1]
  exact stands

theorem Closed.later {text : Bytes} (h : Closed since form text) (more : Bytes) : Closed (since ++ more) form text :=
  ⟨h.1, h.2.trans (List.prefix_append since more).isInfix⟩

/-- Text that follows the opening delimiter without a gap holds the operand once it is closed. -/
theorem Closed.ofSuffix {text : Bytes} (closes : form.closing.toUInt8 ∈ text)
    (stands : form.opening.toUInt8 :: text <:+ since) : Closed since form text := by
  obtain ⟨front, rest, rfl, notMem⟩ := List.eq_append_cons_of_mem closes
  refine ⟨closes, ?_⟩
  rw [takeWhile_closing notMem]
  have whole : form.opening.toUInt8 :: (front ++ [form.closing.toUInt8]) <+:
      form.opening.toUInt8 :: (front ++ form.closing.toUInt8 :: rest) := ⟨rest, by simp⟩
  exact whole.isInfix.trans stands.isInfix

/-- One more byte on the line either opens an operand or belongs to what follows the opening delimiter. -/
theorem reverse_cons_cases {line head text : Bytes} {opening : UInt8}
    (h : (b :: line).reverse = head ++ opening :: text) :
    (text = [] ∧ b = opening ∧ line.reverse = head) ∨
      ∃ before, text = before ++ [b] ∧ line.reverse = head ++ opening :: before := by
  rw [List.reverse_cons] at h
  rcases List.eq_nil_or_concat text with rfl | ⟨before, last, rfl⟩
  · obtain ⟨e, last⟩ := List.append_inj' h rfl
    exact .inl ⟨rfl, List.singleton_inj.1 last, e⟩
  · rw [List.concat_eq_append, ← List.cons_append, ← List.append_assoc] at h
    obtain ⟨e, last⟩ := List.append_inj' h rfl
    exact .inr ⟨before, by rw [List.concat_eq_append, last], e⟩

theorem unbroken_fresh (since : Bytes) (found : List Directive) : (fresh found).Unbroken since := by
  intro style form text e
  have filled : style.head ++ form.opening.toUInt8 :: text ≠ [] := by simp
  exact absurd e.symm filled

/-- Where bytes are not copied as they stand, all operands of the line are closed. -/
theorem Unbroken.closed (h : s.Unbroken since) (idle : closing? s.mode = none) {style : Style} {text : Bytes}
    (e : s.line.reverse = style.head ++ form.opening.toUInt8 :: text) : Closed since form text := by
  refine (h style form text e).resolve_right fun ⟨copies, _⟩ => ?_
  rw [idle] at copies
  cases copies

theorem Unbroken.enter (h : s.Unbroken since) (idle : closing? s.mode = none) (mode : Mode) (more : Bytes) :
    (s.enter mode).Unbroken (since ++ more) :=
  fun _ _ _ e => .inl ((h.closed idle e).later more)

/-- A byte that opens no operand may be copied. -/
theorem Unbroken.copy (h : s.Unbroken since) (idle : closing? s.mode = none)
    (opens : ∀ (style : Style) (form : IncludeForm), s.line.reverse = style.head → b ≠ form.opening.toUInt8) :
    (s.copy b).Unbroken since := by
  intro style form text e
  rcases reverse_cons_cases e with ⟨-, rfl, head⟩ | ⟨before, rfl, split⟩
  · exact absurd rfl (opens style form head)
  · exact .inl ((h.closed idle split).append [b])

/-- What a lexer copies on its own, a space or a byte that waited, opens no operand. -/
theorem ne_opening (own : b ∈ ([0x20, 0x2f, 0x5c] : Bytes)) (form : IncludeForm) : b ≠ form.opening.toUInt8 := by
  rintro rfl
  revert own
  cases form <;> decide

/-- **The opening delimiter** begins an operand, in a mode in which bytes are copied as they stand. -/
theorem Unbroken.open (h : s.Unbroken since) (idle : closing? s.mode = none) (form : IncludeForm) {mode : Mode}
    (copies : closing? mode = some form.closing.toUInt8) (nothing : waiting mode = []) :
    ((s.copy form.opening.toUInt8).enter mode).Unbroken (since ++ [form.opening.toUInt8]) := by
  intro style other text e
  rcases reverse_cons_cases e with ⟨rfl, same, -⟩ | ⟨before, rfl, split⟩
  · have same : form = other := by
      revert same
      cases form <;> cases other <;> decide
    subst same
    refine .inr ⟨copies, ?_⟩
    show _ :: ([] ++ waiting mode) <:+ _
    rw [nothing]
    exact List.suffix_append since _
  · exact .inl (((h.closed idle split).append _).later _)

/-- A line with a delimiter in it is not the head of a directive. -/
theorem ne_head (opened : ∃ m ∈ s.line, ¬ Ordinary m) (style : Style) : s.line.reverse ≠ style.head := by
  intro head
  obtain ⟨m, mem, special⟩ := opened
  have inside : m ∈ style.head := by
    rw [← head]
    exact List.mem_reverse.2 mem
  exact special (Style.ordinary_of_mem_head inside)

/-- **A byte that is copied as it stands** belongs to the operand, and opens no other. -/
theorem Unbroken.read (h : s.Unbroken since) (opened : ∃ m ∈ s.line, ¬ Ordinary m) (nothing : waiting s.mode = [])
    (b : UInt8) : (s.copy b).Unbroken (since ++ [b]) := by
  intro style form text e
  rcases reverse_cons_cases e with ⟨-, -, head⟩ | ⟨before, rfl, split⟩
  · exact absurd head (ne_head opened style)
  · rcases h style form before split with closed | ⟨copies, stands⟩
    · exact .inl ((closed.append [b]).later [b])
    · refine .inr ⟨copies, ?_⟩
      rw [nothing, List.append_nil] at stands
      show _ :: (before ++ [b] ++ waiting s.mode) <:+ _
      rw [nothing, List.append_nil, ← List.cons_append]
      exact List.suffix_append_self_iff.2 stands

/-- **The closing delimiter** ends the operand. -/
theorem Unbroken.close (h : (s.copy b).Unbroken since) (opened : ∃ m ∈ s.line, ¬ Ordinary m)
    (closes : closing? s.mode = some b) (nothing : waiting s.mode = []) (mode : Mode) :
    ((s.copy b).enter mode).Unbroken since := by
  intro style form text e
  rcases h style form text e with closed | ⟨copies, stands⟩
  · exact .inl closed
  · rcases reverse_cons_cases e with ⟨-, -, head⟩ | ⟨before, rfl, -⟩
    · exact absurd head (ne_head opened style)
    · have copies : closing? s.mode = some form.closing.toUInt8 := copies
      have stands : form.opening.toUInt8 :: (before ++ [b] ++ waiting s.mode) <:+ since := stands
      obtain rfl : b = form.closing.toUInt8 := Option.some.inj (closes.symm.trans copies)
      rw [nothing, List.append_nil] at stands
      exact .inl (.ofSuffix (by simp) stands)

/-- A backslash in a literal waits for the next byte. -/
theorem Unbroken.escape {quote : UInt8} {line : Bytes} {found : List Directive}
    (h : Unbroken since { mode := .literal quote, line, found }) :
    Unbroken (since ++ [0x5c]) { mode := .escape quote, line, found } := by
  intro style form text e
  refine (h style form text e).imp (fun closed => closed.later _) fun ⟨copies, stands⟩ => ⟨copies, ?_⟩
  have stands : _ :: (text ++ []) <:+ since := stands
  rw [List.append_nil] at stands
  exact List.suffix_append_self_iff.2 stands

/-- The backslash that waited is copied. -/
theorem Unbroken.unescape {quote : UInt8} {line : Bytes} {found : List Directive}
    (h : Unbroken since { mode := .escape quote, line, found }) :
    Unbroken since { mode := .literal quote, line := 0x5c :: line, found } := by
  intro style form text e
  rcases reverse_cons_cases e with ⟨-, opens, -⟩ | ⟨before, rfl, split⟩
  · cases form <;> cases opens
  · refine (h style form before split).imp (fun closed => closed.append _) fun ⟨copies, stands⟩ => ⟨copies, ?_⟩
    show _ :: (before ++ [0x5c] ++ []) <:+ since
    rw [List.append_nil]
    exact stands

theorem Unbroken.code (h : s.Unbroken since) (idle : closing? s.mode = none) (hb : b ≠ 0x0a) :
    (s.code b).Unbroken (since ++ [b]) := by
  unfold Lexer.code
  split
  · exact h.enter idle _ _
  · split
    · exact h.enter idle _ _
    · split
      · rename_i quotes
        rcases quotes with rfl | rfl
        · exact h.open idle .quote rfl rfl
        · refine (h.copy idle fun _ form _ => ?_).enter idle _ _
          cases form <;> decide
      · rename_i noQuote
        split
        · rename_i opens
          obtain ⟨rfl, -⟩ := opens
          exact h.open idle .angle rfl rfl
        · rename_i noTarget
          split
          · exact h.enter idle _ _
          · refine (h.copy idle fun style form head opens => ?_).enter idle _ _
            cases form with
            | quote => exact noQuote (.inl opens)
            | angle => exact noTarget ⟨opens, by rw [head]; exact awaitsTarget_head style⟩

/-- **One byte** other than a newline. -/
theorem Unbroken.step (h : s.Unbroken since) (sound : s.Sound) (hb : b ≠ 0x0a) :
    (s.step b).Unbroken (since ++ [b]) := by
  have opened := sound.opened
  have kept (idle : closing? s.mode = none) (c : UInt8) (own : c ∈ ([0x20, 0x2f, 0x5c] : Bytes)) :
      ((s.copy c).code b).Unbroken (since ++ [b]) :=
    (h.copy idle fun _ form _ => ne_opening own form).code idle hb
  obtain ⟨mode, line, found⟩ := s
  unfold Lexer.step
  cases mode with
  | code => exact h.code rfl hb
  | slash =>
    dsimp only
    split
    · exact h.enter rfl _ _
    · split
      · exact h.enter rfl _ _
      · exact kept rfl 0x2f (by decide)
  | backslash =>
    dsimp only
    rw [if_neg hb]
    split
    · exact h.enter rfl _ _
    · exact kept rfl 0x5c (by decide)
  | backslashReturn =>
    dsimp only
    rw [if_neg hb]
    exact kept rfl 0x5c (by decide)
  | lineComment =>
    dsimp only
    rw [if_neg hb]
    exact h.enter rfl .lineComment _
  | blockComment =>
    dsimp only
    split
    · exact h.enter rfl _ _
    · exact h.enter rfl .blockComment _
  | blockStar =>
    dsimp only
    split
    · exact (h.copy rfl fun _ form _ => ne_opening (by decide) form).enter rfl _ _
    · split
      · exact h.enter rfl .blockStar _
      · exact h.enter rfl _ _
  | literal quote =>
    have read := h.read (opened rfl) rfl b
    dsimp only
    rw [if_neg hb]
    split
    · rename_i escapes
      subst escapes
      exact h.escape
    · split
      · rename_i closes
        exact read.close (opened rfl) (congrArg some closes.symm) rfl .code
      · exact read
  | escape quote =>
    obtain ⟨m, mem, special⟩ := opened rfl
    dsimp only
    rw [if_neg hb]
    exact h.unescape.read ⟨m, List.mem_cons_of_mem _ mem, special⟩ rfl b
  | target =>
    have read := h.read (opened rfl) rfl b
    dsimp only
    rw [if_neg hb]
    split
    · rename_i closes
      exact read.close (opened rfl) (congrArg some closes.symm) rfl .code
    · exact read

theorem Unbroken.suffix (h : s.Unbroken since) (nothing : waiting s.mode = []) {style : Style} {text : Bytes}
    (e : s.line.reverse = style.head ++ form.opening.toUInt8 :: text) :
    Closed since form text ∨ form.opening.toUInt8 :: text <:+ since := by
  refine (h style form text e).imp_right fun ⟨_, stands⟩ => ?_
  rwa [nothing, List.append_nil] at stands

/-- What waits at the end of a line is copied there, and the line has come unbroken all the same. -/
theorem Unbroken.settle (h : s.Unbroken since) {style : Style} {text : Bytes}
    (e : s.settle.line.reverse = style.head ++ form.opening.toUInt8 :: text) :
    Closed since form text ∨ form.opening.toUInt8 :: text <:+ since := by
  obtain ⟨mode, line, found⟩ := s
  cases mode with
  | slash => exact (h.copy rfl fun _ form _ => ne_opening (by decide) form).suffix rfl e
  | backslash => exact (h.copy rfl fun _ form _ => ne_opening (by decide) form).suffix rfl e
  | backslashReturn => exact (h.copy rfl fun _ form _ => ne_opening (by decide) form).suffix rfl e
  | escape quote => exact h.unescape.suffix rfl e
  | code | lineComment | blockComment | blockStar | literal quote | target => exact h.suffix rfl e

/-- **A line that is a directive** has its operand from what was read since the line began. -/
theorem Unbroken.stands (h : s.Unbroken since) (read : directive? s.settle.line.reverse = some d) :
    d.form.opening.toUInt8 :: (Text.utf8Bytes d.target ++ [d.form.closing.toUInt8]) <:+: since := by
  obtain ⟨-, notMem, style, rest, e⟩ := exists_writtenAs read
  have closed : Closed since d.form (Text.utf8Bytes d.target ++ d.form.closing.toUInt8 :: rest) :=
    (h.settle e).elim id fun stands => .ofSuffix (by simp) stands
  have stands := closed.2
  rwa [takeWhile_closing notMem] at stands

/-! ## The lines of a file -/

/-- No byte but a newline ends a line. -/
theorem found_step (s : Lexer) (hb : b ≠ 0x0a) : (s.step b).found = s.found := by
  cases mode : s.mode <;> grind [Lexer.step, Lexer.code, copy, enter]

/-- A newline in a block comment or after a backslash ends no line. -/
theorem step_newline_inside (inside : s.InBlockComment ∨ s.Joins) :
    closing? s.mode = none ∧ ∃ mode, s.step 0x0a = s.enter mode := by
  obtain ⟨mode, line, found⟩ := s
  rcases inside with (rfl | rfl) | (rfl | rfl)
  · exact ⟨rfl, .blockComment, rfl⟩
  · exact ⟨rfl, .blockComment, rfl⟩
  · exact ⟨rfl, .code, rfl⟩
  · exact ⟨rfl, .code, rfl⟩

/-- **Where a lexer has found its directives:** in the lines that have ended, each on a later line than the one before.
The line that it reads now has come unbroken from what follows them. -/
structure Placed (ended since : Bytes) (s : Lexer) : Prop where
  sound : s.Sound
  unbroken : s.Unbroken since
  offsets : ∃ offsets : List Nat, List.Forall₂ (StandsAt ended) offsets s.found ∧
    offsets.Pairwise (fun later earlier => OnLaterLine ended earlier later) ∧
    ∀ o ∈ offsets, OnLaterLine ended o ended.length

variable {ended : Bytes}

theorem placed_start : Lexer.start.Placed [] [] where
  sound := sound_start
  unbroken := unbroken_fresh [] []
  offsets := ⟨[], .nil, .nil, fun _ h => absurd h List.not_mem_nil⟩

/-- **The end of a line:** the directive that the line is stands after those that were found before. -/
theorem Placed.endLine (h : s.Placed ended since) :
    ∃ offsets : List Nat, List.Forall₂ (StandsAt (ended ++ since)) offsets s.settle.endLine.found ∧
      offsets.Pairwise (fun later earlier => OnLaterLine (ended ++ since) earlier later) ∧
      ∀ o ∈ offsets, o < (ended ++ since).length := by
  obtain ⟨offsets, stands, apart, before⟩ := h.offsets
  have stands : List.Forall₂ (StandsAt (ended ++ since)) offsets s.found := stands.imp fun _ _ h => h.append since
  have apart := apart.imp fun h => h.append since
  have inside : ∀ o ∈ offsets, o < (ended ++ since).length := by
    intro o mem
    obtain ⟨newline, first, second, -⟩ := before o mem
    rw [List.length_append]
    omega
  have found : s.settle.found = s.found := by
    unfold settle
    split <;> rfl
  unfold Lexer.endLine
  rw [found]
  cases read : directive? s.settle.line.reverse with
  | none => exact ⟨offsets, stands, apart, inside⟩
  | some d =>
    obtain ⟨front, rest, split⟩ := h.unbroken.stands read
    have length := congrArg List.length split
    simp only [List.length_append, List.length_cons] at length
    refine ⟨(ended.length + front.length) :: offsets, .cons ?_ stands, List.pairwise_cons.2 ⟨fun o mem => ?_, apart⟩, ?_⟩
    · refine ⟨rest, ?_⟩
      rw [← split, ← List.drop_drop, List.drop_left, List.append_assoc, List.drop_left]
    · obtain ⟨newline, first, second, isNewline⟩ := before o mem
      refine ⟨newline, first, by omega, ?_⟩
      rw [List.getElem?_append_left second, isNewline]
    · intro o mem
      rcases List.mem_cons.1 mem with rfl | mem
      · rw [List.length_append]
        omega
      · exact inside o mem

theorem Placed.newline (h : s.Placed ended since) (ends : s.step 0x0a = s.settle.endLine) :
    (s.step 0x0a).Placed (ended ++ since ++ [0x0a]) [] := by
  obtain ⟨offsets, stands, apart, inside⟩ := h.endLine
  constructor
  case sound => exact h.sound.step 0x0a
  case unbroken =>
    rw [ends]
    exact unbroken_fresh [] _
  case offsets =>
    rw [ends]
    refine ⟨offsets, stands.imp fun _ _ h => h.append _, apart.imp fun h => h.append _, fun o mem => ?_⟩
    exact ⟨(ended ++ since).length, inside o mem, by simp, by simp⟩

/-- **One byte:** it ends the line or is added to what was read of it. -/
theorem Placed.step (h : s.Placed ended since) (b : UInt8) :
    ∃ ended' since', ended' ++ since' = ended ++ since ++ [b] ∧ (s.step b).Placed ended' since' := by
  by_cases newline : b = 0x0a
  · subst newline
    by_cases inside : s.InBlockComment ∨ s.Joins
    · obtain ⟨idle, mode, e⟩ := step_newline_inside inside
      refine ⟨ended, since ++ [0x0a], (List.append_assoc ..).symm, h.sound.step 0x0a, ?_, ?_⟩
      · rw [e]
        exact h.unbroken.enter idle mode [0x0a]
      · rw [e]
        exact h.offsets
    · obtain ⟨outside, apart⟩ := not_or.1 inside
      exact ⟨_, [], List.append_nil _, h.newline (step_newline outside apart)⟩
  · refine ⟨ended, since ++ [b], (List.append_assoc ..).symm, h.sound.step b, h.unbroken.step h.sound newline, ?_⟩
    rw [found_step s newline]
    exact h.offsets

theorem Placed.run : ∀ (bytes : Bytes) {ended since : Bytes} {s : Lexer}, s.Placed ended since →
    ∃ ended' since', ended' ++ since' = ended ++ since ++ bytes ∧ (s.run bytes).Placed ended' since'
  | [], ended, since, _, h => ⟨ended, since, (List.append_nil _).symm, h⟩
  | b :: bytes, _, _, _, h => by
    obtain ⟨ended, since, e, h⟩ := h.step b
    obtain ⟨ended', since', e', h⟩ := Placed.run bytes h
    exact ⟨ended', since', by rw [e', e, List.append_assoc, List.singleton_append], h⟩

end Lexer

/-- **Every directive that is found stands in the file.**  There are offsets, one for each directive and in the order of
the directives, where the content has the directive's operand, delimiters and all, byte for byte; between two of them a
line ends.  The target is a text, not empty, on one line and without its closing delimiter. -/
theorem extract_standsAt (content : Bytes) :
    (∃ offsets : List Nat, List.Forall₂ (StandsAt content) offsets (extract content) ∧
      offsets.Pairwise (OnLaterLine content)) ∧
    ∀ d ∈ extract content, d.Plain := by
  obtain ⟨ended, since, e, placed⟩ := Lexer.placed_start.run content
  obtain ⟨offsets, stands, apart, -⟩ := placed.endLine
  obtain rfl : ended ++ since = content := e
  exact ⟨⟨offsets.reverse, List.rel_reverse stands, List.pairwise_reverse.2 apart⟩, fun d => plain_of_mem_extract⟩

end Directive
end IncludeClosure
