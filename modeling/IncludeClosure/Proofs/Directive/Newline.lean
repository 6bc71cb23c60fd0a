import IncludeClosure.Proofs.Directive.Lexer
/-!
# Proofs.Directive.Newline — a finished line is read on its own

Unless it stands in a block comment or after a backslash, a newline ends the line just as the end of the file would
(`step_newline`), whatever is left open on the line: a literal, a target, a line comment.  After it the lexer is fresh,
and what a lexer has found already makes no difference to what it goes on to find (`run_after`).  So the directives of a
file are those of the part before such a newline and then those of the part after it (`extract_append_newline`).
-/
namespace IncludeClosure
namespace Directive

/-- **A newline that came next would be joined:** the bytes end in a backslash, also with a carriage return after it. -/
def EndsInBackslash (bytes : Bytes) : Prop :=
  [0x5c] <:+ bytes ∨ [0x5c, 0x0d] <:+ bytes

instance (bytes : Bytes) : Decidable (EndsInBackslash bytes) :=
  inferInstanceAs (Decidable (_ ∨ _))

namespace Lexer

/-- Inside a block comment, also just after a star. -/
def InBlockComment (s : Lexer) : Prop :=
  s.mode = .blockComment ∨ s.mode = .blockStar

instance (s : Lexer) : Decidable s.InBlockComment :=
  inferInstanceAs (Decidable (_ ∨ _))

/-- After a backslash, also with a carriage return after it. -/
def Joins (s : Lexer) : Prop :=
  s.mode = .backslash ∨ s.mode = .backslashReturn

variable {s : Lexer}

/-! ## The end of a line -/

theorem step_joins (s : Lexer) (b : UInt8) :
    ((s.step b).mode = .backslash → b = 0x5c) ∧
      ((s.step b).mode = .backslashReturn → s.mode = .backslash ∧ b = 0x0d) := by
  cases mode : s.mode <;> grind [step, code, copy, enter, endLine]

/-- **A lexer waits after a backslash** only when the bytes it has read end in one. -/
theorem endsInBackslash_of_joins {bytes : Bytes} (h : (Lexer.start.run bytes).Joins) : EndsInBackslash bytes := by
  have backslash {front : Bytes} (waits : (Lexer.start.run front).mode = .backslash) : [0x5c] <:+ front := by
    rcases List.eq_nil_or_concat front with rfl | ⟨before, b, rfl⟩
    · cases waits
    · rw [List.concat_eq_append, run_append] at waits
      rw [List.concat_eq_append, (step_joins _ b).1 waits]
      exact List.suffix_append before [0x5c]
  rcases h with waits | waits
  · exact .inl (backslash waits)
  · rcases List.eq_nil_or_concat bytes with rfl | ⟨front, b, rfl⟩
    · cases waits
    · rw [List.concat_eq_append, run_append] at waits
      obtain ⟨waited, rfl⟩ := (step_joins _ b).2 waits
      obtain ⟨before, rfl⟩ := backslash waited
      refine .inr ⟨before, ?_⟩
      rw [List.concat_eq_append, List.append_assoc]
      rfl

/-- **A newline ends the line as the end of the file does.** -/
theorem step_newline (outside : ¬ s.InBlockComment) (apart : ¬ s.Joins) : s.step 0x0a = s.settle.endLine := by
  obtain ⟨mode, line, found⟩ := s
  cases mode with
  | code | slash | lineComment | literal quote | escape quote | target => rfl
  | blockComment => exact absurd (.inl rfl) outside
  | blockStar => exact absurd (.inr rfl) outside
  | backslash => exact absurd (.inl rfl) apart
  | backslashReturn => exact absurd (.inr rfl) apart

/-! ## What has been found before -/

/-- The lexer, had it found these directives before; the last one comes first. -/
def after (before : List Directive) (s : Lexer) : Lexer :=
  { s with found := s.found ++ before }

variable (before : List Directive)

theorem mode_after (s : Lexer) : (s.after before).mode = s.mode := rfl

theorem line_after (s : Lexer) : (s.after before).line = s.line := rfl

theorem copy_after (s : Lexer) (b : UInt8) : (s.after before).copy b = (s.copy b).after before := rfl

theorem enter_after (s : Lexer) (mode : Mode) : (s.after before).enter mode = (s.enter mode).after before := rfl

theorem endLine_after (s : Lexer) : (s.after before).endLine = s.endLine.after before := by
  unfold endLine after
  dsimp only
  cases directive? s.line.reverse <;> rfl

theorem code_after (s : Lexer) (b : UInt8) : (s.after before).code b = (s.code b).after before := by
  simp only [code, enter_after, copy_after, line_after, endLine_after, apply_ite (after before)]

theorem step_after (s : Lexer) (b : UInt8) : (s.after before).step b = (s.step b).after before := by
  unfold step
  rw [mode_after]
  cases s.mode <;> simp only [enter_after, copy_after, endLine_after, code_after, apply_ite (after before)]

theorem run_after : ∀ (bytes : Bytes) (s : Lexer), (s.after before).run bytes = (s.run bytes).after before
  | [], _ => rfl
  | b :: bytes, s => by rw [run_cons, run_cons, step_after, run_after bytes]

theorem finish_after (s : Lexer) : (s.after before).finish = before.reverse ++ s.finish := by
  have settled : (s.after before).settle = s.settle.after before := by
    unfold settle
    rw [mode_after]
    cases s.mode <;> rfl
  unfold finish
  rw [settled, endLine_after]
  exact List.reverse_append

/-- A lexer between two lines goes on as one that has just started. -/
theorem finish_run_fresh (found : List Directive) (bytes : Bytes) :
    ((fresh found).run bytes).finish = found.reverse ++ extract bytes := by
  have started : fresh found = Lexer.start.after found := rfl
  rw [started, run_after, finish_after]
  rfl

end Lexer

/-- **A finished line is read on its own.**  When the bytes before a newline do not end in a block comment nor in a
backslash, the directives of the whole are those of what stands before the newline, followed by those of what stands
after it. -/
theorem extract_append_newline {before : Bytes} (outside : ¬ (Lexer.start.run before).InBlockComment)
    (apart : ¬ EndsInBackslash before) (after : Bytes) :
    extract (before ++ 0x0a :: after) = extract before ++ extract after := by
  have ended := Lexer.step_newline outside (fun joins => apart (Lexer.endsInBackslash_of_joins joins))
  have between : (Lexer.start.run before).settle.endLine =
      Lexer.fresh (Lexer.start.run before).settle.endLine.found := rfl
  unfold extract
  rw [Lexer.run_append, Lexer.run_cons, ended, between, Lexer.finish_run_fresh]
  rfl

/-- A directive, and a line on which a comment, a literal and a target in angle brackets are never closed. -/
def brokenLines : Bytes :=
  Text.utf8Bytes "/* on */ #import <a.h>\n#include \"b.h /* it's\n# include_next <c.h // \\'"

theorem extract_append_newline_brokenLines :
    ¬ (Lexer.start.run brokenLines).InBlockComment ∧ ¬ EndsInBackslash brokenLines ∧
    extract (brokenLines ++ 0x0a :: Text.utf8Bytes "#include \"d.h\"") =
      [{ form := .angle, target := "a.h" }, { form := .quote, target := "d.h" }] := by
  have outside : ¬ (Lexer.start.run brokenLines).InBlockComment := by decide
  have apart : ¬ EndsInBackslash brokenLines := by decide
  refine ⟨outside, apart, ?_⟩
  rw [extract_append_newline outside apart]
  decide

end Directive
end IncludeClosure
