import IncludeClosure.Proofs.Directive.Newline
import IncludeClosure.Proofs.Directive.Splice
/-!
# Proofs.Directive.LineEnding — a carriage return before a newline makes no difference

Where the bytes so far do not end in a carriage return, a carriage return and a newline leave the lexer in the very state
that the newline alone leaves it in (`run_return_newline`).  In code the carriage return is dropped, after a backslash it
is part of the splice and in a comment it is passed over.  In a literal or a target it is copied, also as what follows a
backslash, but the newline then ends the line and what the line has at its end is not looked at (`endLine_shed`).  So a
file without carriage returns has the same directives when any of its newlines get one (`extract_withReturns`).
-/
namespace IncludeClosure
namespace Directive

/-- **The content with a carriage return before some of its newlines,** chosen by their offsets. -/
def withReturns (chosen : Nat → Bool) (content : Bytes) : Bytes :=
  content.zipIdx.flatMap fun (b, offset) => if b = 0x0a ∧ chosen offset then [0x0d, 0x0a] else [b]

namespace Lexer

variable {s : Lexer}

/-- **A carriage return and a newline** do what the newline does. -/
theorem run_return_newline (h : s.Sound) (apart : s.mode ≠ .backslashReturn) : s.run [0x0d, 0x0a] = s.step 0x0a := by
  have shed (x : Bytes) (quote : 0x22 ∉ x) (angle : 0x3e ∉ x) (hd : delimited s.mode = true) (mode : Mode) :
      endLine { s with mode, line := x.reverse ++ s.line } = s.endLine :=
    endLine_shed h hd quote angle mode
  obtain ⟨mode, line, found⟩ := s
  cases mode with
  | code | slash | backslash | lineComment | blockComment | blockStar => rfl
  | backslashReturn => exact absurd rfl apart
  | literal quote =>
    -- a carriage return that closed the literal would be shed with it
    by_cases closes : 0x0d = quote
    · subst closes
      exact shed [0x0d] (by decide) (by decide) rfl .code
    · have copied : run { mode := .literal quote, line, found } [0x0d, 0x0a] =
          endLine { mode := .literal quote, line := 0x0d :: line, found } := by
        simp [run, step, copy, closes]
      rw [copied]
      exact shed [0x0d] (by decide) (by decide) rfl (.literal quote)
  | escape quote =>
    have newline : step { mode := .escape quote, line, found } 0x0a = endLine { mode := .escape quote, line, found } :=
      shed [0x5c] (by decide) (by decide) rfl (.escape quote)
    rw [newline]
    exact shed [0x5c, 0x0d] (by decide) (by decide) rfl (.literal quote)
  | target => exact shed [0x0d] (by decide) (by decide) rfl .target

/-- From the same state the two contents lead to the same state, whatever the offset at which they begin. -/
theorem run_withReturns (chosen : Nat → Bool) : ∀ (content : Bytes) (offset : Nat) {s : Lexer}, s.Sound →
    s.mode ≠ .backslashReturn → (0x0d : UInt8) ∉ content →
    s.run ((content.zipIdx offset).flatMap fun (b, offset) =>
      if b = 0x0a ∧ chosen offset then [0x0d, 0x0a] else [b]) = s.run content
  | [], _, _, _, _, _ => rfl
  | b :: content, offset, s, sound, apart, noReturn => by
    obtain ⟨first, later⟩ := not_or.1 (mt List.mem_cons.2 noReturn)
    have next : (s.step b).mode ≠ .backslashReturn := fun waits => first ((step_joins s b).2 waits).2.symm
    have rest := run_withReturns chosen content (offset + 1) (sound.step b) next later
    rw [List.zipIdx_cons, List.flatMap_cons, run_append, run_cons, ← rest]
    dsimp only
    split
    · rename_i newline
      obtain ⟨rfl, -⟩ := newline
      rw [run_return_newline sound apart]
    · rfl

end Lexer

/-- **The directives of a file do not depend on its line endings.**  In a content without carriage returns any of the
newlines may get one before it: after a backslash, in a comment, and where a literal or a target is not closed. -/
theorem extract_withReturns {content : Bytes} (noReturn : (0x0d : UInt8) ∉ content) (chosen : Nat → Bool) :
    extract (withReturns chosen content) = extract content := by
  have start : Lexer.start.mode ≠ .backslashReturn := by decide
  unfold extract withReturns
  rw [Lexer.run_withReturns chosen content 0 Lexer.sound_start start noReturn]

/-- A directive that goes on in the next line, comments, two literals that are not closed, one of them with a backslash
at its end, and a target that is not closed. -/
def openLines : Bytes :=
  Text.utf8Bytes "#import\\\n\"a\" //\\\n/*\n*/ 'x\n\"y\\\n#import <z\n#import <b>"

theorem extract_withReturns_openLines :
    0x0d ∉ openLines ∧ (withReturns (fun _ => true) openLines).count 0x0d = 6 ∧
    extract (withReturns (fun _ => true) openLines) =
      [{ form := .quote, target := "a" }, { form := .angle, target := "b" }] := by
  have noReturn : 0x0d ∉ openLines := by decide
  refine ⟨noReturn, by decide, ?_⟩
  rw [extract_withReturns noReturn]
  decide

end Directive
end IncludeClosure
