import IncludeClosure.Proofs.Directive.Lexer
/-!
# Proofs.Directive.Splice — lines that are joined

A backslash before the end of a line joins it with the next one.  Where the lexer meets such a splice in code or in a
block comment, it goes on as if the splice were not there, and so it does after a byte that waits for the next one,
unless deleting the splice brings two bytes together that mean something as a pair (`Passes`).  In a line comment, a
literal or a target in angle brackets it ends the line like a newline (`run_splice_ends`).  So a content all of whose
splices are passed over has the directives of the content without them (`extract_unspliced`), but a comment that is cut
off at its splice (`extract_splice_ends`) can hide what the next lines say (`extract_unspliced_ne`).
-/
namespace IncludeClosure
namespace Directive

/-- A backslash and the end of a line, in either spelling. -/
def IsSplice (bytes : Bytes) : Prop :=
  bytes = [0x5c, 0x0a] ∨ bytes = [0x5c, 0x0d, 0x0a]

/-- **The content without its splices.** -/
def unspliced : Bytes → Bytes
  | 0x5c :: 0x0a :: rest => unspliced rest
  | 0x5c :: 0x0d :: 0x0a :: rest => unspliced rest
  | b :: rest => b :: unspliced rest
  | [] => []

/-- **What may follow a splice** that is met in a mode, for the splice to be passed over.  After a byte that waits for
the next one nothing may follow that would make a pair with it.  A line comment, a literal and a target in angle
brackets end where their line ends, splice or not. -/
def Passes : Mode → Bytes → Prop
  | .code, _ | .blockComment, _ => True
  | .slash, after => after.head? ≠ some 0x2a ∧ after.head? ≠ some 0x2f
  | .blockStar, after => after.head? ≠ some 0x2f
  | .backslash, after => after.head? ≠ some 0x0a ∧ after.take 2 ≠ [0x0d, 0x0a]
  | .backslashReturn, after => after.head? ≠ some 0x0a
  | .lineComment, _ | .literal _, _ | .escape _, _ | .target, _ => False

namespace Lexer

variable {s : Lexer}

theorem step_enter_code (s : Lexer) (b : UInt8) : (s.enter .code).step b = s.code b := rfl

/-- The code after a byte that was waiting is the code after that byte. -/
theorem finish_copied {c : UInt8} (settled : s.settle = s.copy c) {after : Bytes}
    (next : ∀ b rest, after = b :: rest → s.step b = (s.copy c).code b) :
    (((s.copy c).enter .code).run after).finish = (s.run after).finish := by
  cases after with
  | nil =>
    unfold finish
    rw [run_nil, run_nil, settled]
    rfl
  | cons b rest => rw [run_cons, run_cons, next b rest rfl, step_enter_code]

theorem run_splice_code (h : s.mode = .code) {splice : Bytes} (hs : IsSplice splice) : s.run splice = s := by
  obtain ⟨mode, line, found⟩ := s
  obtain rfl : mode = .code := h
  rcases hs with rfl | rfl <;> rfl

theorem run_splice_blockComment (h : s.mode = .blockComment) {splice : Bytes} (hs : IsSplice splice) :
    s.run splice = s := by
  obtain ⟨mode, line, found⟩ := s
  obtain rfl : mode = .blockComment := h
  rcases hs with rfl | rfl <;> rfl

theorem run_splice_slash (h : s.mode = .slash) {splice : Bytes} (hs : IsSplice splice) :
    s.run splice = (s.copy 0x2f).enter .code := by
  obtain ⟨mode, line, found⟩ := s
  obtain rfl : mode = .slash := h
  rcases hs with rfl | rfl <;> rfl

theorem run_splice_blockStar (h : s.mode = .blockStar) {splice : Bytes} (hs : IsSplice splice) :
    s.run splice = s.enter .blockComment := by
  obtain ⟨mode, line, found⟩ := s
  obtain rfl : mode = .blockStar := h
  rcases hs with rfl | rfl <;> rfl

theorem run_splice_backslash (h : s.mode = .backslash ∨ s.mode = .backslashReturn) {splice : Bytes}
    (hs : IsSplice splice) : s.run splice = (s.copy 0x5c).enter .code := by
  obtain ⟨mode, line, found⟩ := s
  rcases h with h | h
  · obtain rfl : mode = .backslash := h
    rcases hs with rfl | rfl <;> rfl
  · obtain rfl : mode = .backslashReturn := h
    rcases hs with rfl | rfl <;> rfl

/-- What has been copied at the end of the line may be left out where a delimiter has been opened. -/
theorem endLine_shed (h : s.Sound) (hd : delimited s.mode = true) {x : Bytes} (quote : 0x22 ∉ x)
    (angle : 0x3e ∉ x) (mode : Mode) :
    endLine { s with mode, line := x.reverse ++ s.line } = s.endLine := by
  obtain ⟨m, hm, special⟩ := h.opened hd
  have read := directive?_append (List.mem_reverse.2 hm) special quote angle
  unfold endLine
  simp only [List.reverse_append, List.reverse_reverse, read]

/-- **In a line comment, a literal or a target** a splice is an end of line like any other. -/
theorem run_splice_ends (h : s.Sound) (ends : s.mode = .lineComment ∨ delimited s.mode = true) {splice : Bytes}
    (hs : IsSplice splice) : s.run splice = s.step 0x0a := by
  have shed (x : Bytes) (quote : 0x22 ∉ x) (angle : 0x3e ∉ x) (hd : delimited s.mode = true) (mode : Mode) :
      endLine { s with mode, line := x.reverse ++ s.line } = s.endLine :=
    endLine_shed h hd quote angle mode
  obtain ⟨mode, line, found⟩ := s
  cases mode with
  | lineComment => rcases hs with rfl | rfl <;> rfl
  | target =>
    rcases hs with rfl | rfl
    · exact shed [0x5c] (by decide) (by decide) rfl .target
    · exact shed [0x5c, 0x0d] (by decide) (by decide) rfl .target
  | literal quote =>
    rcases hs with rfl | rfl
    · exact shed [0x5c] (by decide) (by decide) rfl (.escape quote)
    · exact shed [0x5c, 0x0d] (by decide) (by decide) rfl (.literal quote)
  | escape quote =>
    have newline : step { mode := .escape quote, line, found } 0x0a = endLine { mode := .escape quote, line, found } :=
      shed [0x5c] (by decide) (by decide) rfl (.escape quote)
    rw [newline]
    rcases hs with rfl | rfl
    · exact shed [0x5c, 0x5c] (by decide) (by decide) rfl (.literal quote)
    · by_cases closes : 0x0d = quote
      · subst closes
        exact shed [0x5c, 0x5c, 0x0d] (by decide) (by decide) rfl .code
      · have returns : run { mode := .escape quote, line, found } [0x5c, 0x0d, 0x0a] =
            endLine { mode := .literal quote, line := 0x0d :: 0x5c :: 0x5c :: line, found } := by
          simp [run, step, copy, enter, endLine, closes]
        rw [returns]
        exact shed [0x5c, 0x5c, 0x0d] (by decide) (by decide) rfl (.literal quote)
  | code | slash | backslash | backslashReturn | blockComment | blockStar =>
    rcases ends with ends | ends
    · cases ends
    · cases ends

/-- **A splice that is passed over** makes no difference to what is found. -/
theorem finish_run_splice {splice after : Bytes} (hs : IsSplice splice) (passes : Passes s.mode after) :
    ((s.run splice).run after).finish = (s.run after).finish := by
  cases mode : s.mode with
  | code => rw [run_splice_code mode hs]
  | blockComment => rw [run_splice_blockComment mode hs]
  | slash =>
    rw [mode] at passes
    obtain ⟨noStar, noSlash⟩ := passes
    -- the splice copies the slash that waits, as would every next byte that opens no comment
    rw [run_splice_slash mode hs]
    refine finish_copied (by unfold settle; rw [mode]) fun b rest e => ?_
    subst e
    have star : b ≠ 0x2a := fun e => noStar (by rw [e]; rfl)
    have slash : b ≠ 0x2f := fun e => noSlash (by rw [e]; rfl)
    unfold step
    rw [mode]
    simp [star, slash]
  | blockStar =>
    rw [mode] at passes
    rw [run_splice_blockStar mode hs]
    cases after with
    | nil =>
      unfold finish settle
      rw [run_nil, run_nil, mode]
      rfl
    | cons b rest =>
      have slash : b ≠ 0x2f := fun e => passes (by rw [e]; rfl)
      have next : (s.enter .blockComment).step b = s.step b := by
        unfold step
        rw [mode]
        by_cases star : b = 0x2a
        · simp [enter, star, ← mode]
        · simp [enter, star, slash]
      rw [run_cons, run_cons, next]
  | backslash =>
    rw [mode] at passes
    obtain ⟨noNewline, noPair⟩ := passes
    rw [run_splice_backslash (.inl mode) hs]
    cases after with
    | nil =>
      unfold finish settle
      rw [run_nil, run_nil, mode]
      rfl
    | cons b rest =>
      have newline : b ≠ 0x0a := fun e => noNewline (by rw [e]; rfl)
      by_cases returns : b = 0x0d
      · -- the carriage return waits as well, and is dropped when no newline follows
        subst returns
        have waits : s.step 0x0d = s.enter .backslashReturn := by
          unfold step
          rw [mode]
          rfl
        have drops : ((s.copy 0x5c).enter .code).step 0x0d = ((s.enter .backslashReturn).copy 0x5c).enter .code := rfl
        rw [run_cons, run_cons, waits, drops]
        refine finish_copied rfl fun c more e => ?_
        subst e
        have newline : c ≠ 0x0a := fun e => noPair (by rw [e]; rfl)
        simp [step, enter, newline]
      · rw [run_cons, run_cons, step_enter_code]
        have next : s.step b = (s.copy 0x5c).code b := by
          unfold step
          rw [mode]
          simp [newline, returns]
        rw [next]
  | backslashReturn =>
    rw [mode] at passes
    rw [run_splice_backslash (.inr mode) hs]
    refine finish_copied (by unfold settle; rw [mode]) fun b rest e => ?_
    subst e
    have newline : b ≠ 0x0a := fun e => passes (by rw [e]; rfl)
    unfold step
    rw [mode]
    simp [newline]
  | lineComment => rw [mode] at passes; exact passes.elim
  | literal quote => rw [mode] at passes; exact passes.elim
  | escape quote => rw [mode] at passes; exact passes.elim
  | target => rw [mode] at passes; exact passes.elim

/-- Every splice of the content is passed over when it is met. -/
def PassesAll (s : Lexer) (content : Bytes) : Prop :=
  ∀ before splice after, content = before ++ splice ++ after → IsSplice splice →
    Passes (s.run before).mode (unspliced after)

theorem PassesAll.drop {front rest : Bytes} (h : s.PassesAll (front ++ rest)) : (s.run front).PassesAll rest := by
  intro before splice after e hs
  rw [← run_append]
  refine h (front ++ before) splice after ?_ hs
  rw [e]
  simp

theorem finish_joined {splice rest : Bytes} (hs : IsSplice splice) (h : s.PassesAll (splice ++ rest))
    (ih : ((s.run splice).run (unspliced rest)).finish = ((s.run splice).run rest).finish) :
    (s.run (unspliced rest)).finish = (s.run (splice ++ rest)).finish := by
  have passes : Passes s.mode (unspliced rest) := h [] splice rest rfl hs
  rw [run_append, ← ih, finish_run_splice hs passes]

theorem finish_run_unspliced (content : Bytes) {s : Lexer} (h : s.PassesAll content) :
    (s.run (unspliced content)).finish = (s.run content).finish := by
  -- a splice can leave the lexer in another state, so the states agree only in what they come to at the end
  induction content using unspliced.induct generalizing s with
  | case1 rest ih =>
    have h : s.PassesAll ([0x5c, 0x0a] ++ rest) := h
    have joined := finish_joined (.inl rfl) h (ih h.drop)
    rw [unspliced.eq_1]
    exact joined
  | case2 rest ih =>
    have h : s.PassesAll ([0x5c, 0x0d, 0x0a] ++ rest) := h
    have joined := finish_joined (.inr rfl) h (ih h.drop)
    rw [unspliced.eq_2]
    exact joined
  | case3 b rest newline returns ih =>
    have h : s.PassesAll ([b] ++ rest) := h
    rw [unspliced.eq_3 b rest newline returns, run_cons, run_cons]
    exact ih h.drop
  | case4 => rfl

end Lexer

/-- Only the places inside the content have to be looked at. -/
theorem Lexer.passesAll_iff {s : Lexer} {content : Bytes} :
    s.PassesAll content ↔ ∀ n < content.length, ∀ splice ∈ [[0x5c, 0x0a], [0x5c, 0x0d, 0x0a]],
      splice <+: content.drop n →
        Passes (s.run (content.take n)).mode (unspliced (content.drop (n + splice.length))) := by
  constructor
  · intro h n _ splice hs ⟨after, e⟩
    have whole : content = content.take n ++ splice ++ after := by
      rw [List.append_assoc, e, List.take_append_drop]
    have rest : content.drop (n + splice.length) = after := by
      rw [← List.drop_drop, ← e, List.drop_left]
    rw [rest]
    refine h _ splice after whole ?_
    simpa [IsSplice] using hs
  · intro h before splice after e hs
    have filled : 0 < splice.length := by
      rcases hs with rfl | rfl <;> decide
    have taken : content.take before.length = before := by
      rw [e, List.append_assoc, List.take_left]
    have dropped : content.drop before.length = splice ++ after := by
      rw [e, List.append_assoc, List.drop_left]
    have inside : before.length < content.length := by
      rw [e, List.length_append, List.length_append]
      omega
    have passes := h before.length inside splice (by simpa [IsSplice] using hs) ⟨after, dropped.symm⟩
    rwa [taken, ← List.drop_drop, dropped, List.drop_left] at passes

instance (mode : Mode) (after : Bytes) : Decidable (Passes mode after) :=
  match mode with
  | .code | .blockComment => inferInstanceAs (Decidable True)
  | .slash => inferInstanceAs (Decidable (_ ∧ _))
  | .backslash => inferInstanceAs (Decidable (_ ∧ _))
  | .blockStar | .backslashReturn => inferInstanceAs (Decidable (¬ _))
  | .lineComment | .literal _ | .escape _ | .target => inferInstanceAs (Decidable False)

instance (s : Lexer) (content : Bytes) : Decidable (s.PassesAll content) :=
  decidable_of_iff _ Lexer.passesAll_iff.symm

/-- **A content whose splices are all passed over** has the directives of the content without them. -/
theorem extract_unspliced {content : Bytes} (passes : Lexer.start.PassesAll content) :
    extract (unspliced content) = extract content :=
  Lexer.finish_run_unspliced content passes

/-- **A splice in a line comment, a literal or a target in angle brackets** is not joined: a newline in its place gives
the same directives. -/
theorem extract_splice_ends {before splice : Bytes} (hs : IsSplice splice)
    (ends : (Lexer.start.run before).mode = .lineComment ∨ Lexer.delimited (Lexer.start.run before).mode = true)
    (after : Bytes) : extract (before ++ splice ++ after) = extract (before ++ 0x0a :: after) := by
  have ended := Lexer.run_splice_ends (Lexer.Sound.run before Lexer.sound_start) ends hs
  unfold extract
  rw [Lexer.run_append, Lexer.run_append, Lexer.run_append, Lexer.run_cons, ended]

/-- A keyword that goes on in the next line, and a block comment with splices in it. -/
def joinedLines : Bytes :=
  Text.utf8Bytes "#inc\\\nlude \\\x0d\n\"a.h\" /* on\\\n and *\\\n* on */\n#import <b.h>\n"

theorem extract_unspliced_joinedLines :
    Lexer.start.PassesAll joinedLines ∧ extract (unspliced joinedLines) = extract joinedLines ∧
    extract joinedLines = [{ form := .quote, target := "a.h" }, { form := .angle, target := "b.h" }] := by
  have passes : Lexer.start.PassesAll joinedLines := by decide
  exact ⟨passes, extract_unspliced passes, by decide⟩

/-- A comment that ends in a backslash, with a comment marker in the line after it. -/
def commentedLines : Bytes :=
  Text.utf8Bytes "// see \\\n/* here\n#include \"a.h\"\n"

/-- **Deleting the splices can bring directives back:** here the comment was meant to go on in the second line. -/
theorem extract_unspliced_ne :
    extract (unspliced commentedLines) = [{ form := .quote, target := "a.h" }] ∧ extract commentedLines = [] := by
  decide

end Directive
end IncludeClosure
