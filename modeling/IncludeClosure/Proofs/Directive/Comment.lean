import IncludeClosure.Proofs.Directive.Newline
/-!
# Proofs.Directive.Comment — what a comment says does not matter

A comment begins where the lexer reads a slash as code (`ReadsCode`) and its second byte comes next.  Up to its end a
block comment copies nothing, whatever stands in it, and then it leaves one space (`run_blockComment`); a line comment
leaves the line as it is (`run_lineComment`).  So a file has the same directives when a block comment in it is replaced
by a space, or a line comment by nothing (`extract_comment`).
-/
namespace IncludeClosure
namespace Directive
namespace Lexer

/-- **The next byte is read as code,** on its own or as the first of two: the bytes so far do not end inside a comment,
a literal or a target, nor in a slash that makes a pair with the next one. -/
def ReadsCode (s : Lexer) : Prop :=
  (s.step 0x2f).mode = .slash

instance (s : Lexer) : Decidable s.ReadsCode :=
  inferInstanceAs (Decidable (_ = _))

variable {s : Lexer}

theorem ReadsCode.cases (h : s.ReadsCode) : s.mode = .code ∨ s.Joins := by
  obtain ⟨mode, line, found⟩ := s
  cases mode with
  | code => exact .inl rfl
  | backslash => exact .inr (.inl rfl)
  | backslashReturn => exact .inr (.inr rfl)
  | slash | lineComment | blockComment | blockStar | escape quote | target => cases h
  | literal quote =>
    unfold ReadsCode step at h
    dsimp only at h
    repeat' split at h
    all_goals cases h

theorem run_lineComment : ∀ {comment : Bytes} {s : Lexer}, s.mode = .lineComment → (0x0a : UInt8) ∉ comment →
    s.run comment = s
  | [], _, _, _ => rfl
  | b :: comment, s, hs, oneLine => by
    have skipped : s.step b = s := by
      unfold step
      rw [hs]
      exact if_neg fun e => oneLine (by rw [e]; exact List.mem_cons_self)
    rw [run_cons, skipped]
    exact run_lineComment hs fun h => oneLine (List.mem_cons_of_mem _ h)

/-- A byte that does not close a block comment is passed over. -/
theorem step_blockComment (hs : s.InBlockComment) {b : UInt8} (stays : s.mode = .blockStar → b ≠ 0x2f) :
    s.step b = s.enter (if b = 0x2a then .blockStar else .blockComment) := by
  obtain ⟨mode, line, found⟩ := s
  rcases hs with hs | hs
  · obtain rfl : mode = .blockComment := hs
    by_cases star : b = 0x2a <;> simp [step, enter, star]
  · obtain rfl : mode = .blockStar := hs
    by_cases star : b = 0x2a <;> simp [step, enter, star, stays rfl]

/-- **A block comment** leaves one space, and nothing of what stands in it. -/
theorem run_blockComment : ∀ {comment : Bytes} {s : Lexer}, s.InBlockComment → ¬ [0x2a, 0x2f] <:+: comment →
    (s.mode = .blockStar → comment.head? ≠ some 0x2f) →
    s.run (comment ++ [0x2a, 0x2f]) = (s.copy 0x20).enter .code
  | [], s, hs, _, _ => by
    obtain ⟨mode, line, found⟩ := s
    rcases hs with hs | hs
    · obtain rfl : mode = .blockComment := hs
      rfl
    · obtain rfl : mode = .blockStar := hs
      rfl
  | b :: comment, s, hs, unclosed, notSlash => by
    have stays : s.mode = .blockStar → b ≠ 0x2f := fun star e => notSlash star (congrArg some e)
    have later : ¬ [0x2a, 0x2f] <:+: comment := fun h => unclosed (List.infix_cons h)
    rw [List.cons_append, run_cons, step_blockComment hs stays]
    by_cases star : b = 0x2a
    · rw [if_pos star]
      refine run_blockComment (.inr rfl) later fun _ slash => unclosed ?_
      -- the star and a slash after it would close the comment
      obtain ⟨rest, rfl⟩ := List.head?_eq_some_iff.1 slash
      exact ⟨[], rest, by rw [star]; rfl⟩
    · rw [if_neg star]
      exact run_blockComment (.inl rfl) later fun h => by cases h

/-- A block comment after code is read as a space. -/
theorem run_blockComment_of_code (hs : s.ReadsCode) {comment : Bytes} (unclosed : ¬ [0x2a, 0x2f] <:+: comment) :
    s.run ([0x2f, 0x2a] ++ comment ++ [0x2a, 0x2f]) = s.step 0x20 := by
  have opened : (s.step 0x2f).step 0x2a = (s.step 0x2f).enter .blockComment := by
    obtain ⟨mode, line, found⟩ := s
    rcases hs.cases with rfl | rfl | rfl <;> rfl
  have inside : ((s.step 0x2f).enter .blockComment).InBlockComment := .inl rfl
  have closed := run_blockComment inside unclosed fun h => by cases h
  have spaced : (((s.step 0x2f).enter .blockComment).copy 0x20).enter .code = s.step 0x20 := by
    obtain ⟨mode, line, found⟩ := s
    rcases hs.cases with rfl | rfl | rfl <;> rfl
  rw [List.append_assoc, run_append, run_cons, run_cons, run_nil, opened, closed, spaced]

/-- A line comment after code is read as nothing. -/
theorem run_lineComment_of_code (hs : s.mode = .code) {comment : Bytes} (oneLine : (0x0a : UInt8) ∉ comment) :
    s.run ([0x2f, 0x2f] ++ comment ++ [0x0a]) = s.step 0x0a := by
  obtain ⟨mode, line, found⟩ := s
  obtain rfl : mode = .code := hs
  have opened : run { mode := .code, line, found } [0x2f, 0x2f] = { mode := .lineComment, line, found } := rfl
  rw [List.append_assoc, run_append, opened, run_append, run_lineComment rfl oneLine]
  rfl

end Lexer

/-- **A comment can be taken out.**  Where code is read, a block comment may be replaced by a space, and a line comment by
nothing unless the newline would then follow a backslash.  So whatever stands in a comment neither adds a directive nor
hides one. -/
theorem extract_comment {before : Bytes} (reads : (Lexer.start.run before).ReadsCode) (comment after : Bytes) :
    (¬ [0x2a, 0x2f] <:+: comment →
      extract (before ++ ([0x2f, 0x2a] ++ comment ++ [0x2a, 0x2f]) ++ after) = extract (before ++ 0x20 :: after)) ∧
    (0x0a ∉ comment → ¬ EndsInBackslash before →
      extract (before ++ ([0x2f, 0x2f] ++ comment) ++ 0x0a :: after) = extract (before ++ 0x0a :: after)) := by
  constructor
  · intro unclosed
    have space := Lexer.run_blockComment_of_code reads unclosed
    unfold extract
    rw [Lexer.run_append _ _ after, Lexer.run_append, space, Lexer.run_append, Lexer.run_cons]
  · intro oneLine apart
    have code : (Lexer.start.run before).mode = .code :=
      reads.cases.resolve_right fun joins => apart (Lexer.endsInBackslash_of_joins joins)
    have nothing := Lexer.run_lineComment_of_code code oneLine
    have split : before ++ ([0x2f, 0x2f] ++ comment) ++ 0x0a :: after =
        before ++ ([0x2f, 0x2f] ++ comment ++ [0x0a]) ++ after := by simp
    unfold extract
    rw [split, Lexer.run_append _ _ after, Lexer.run_append, nothing, Lexer.run_append, Lexer.run_cons]

/-- The head of a directive, with another one before it. -/
def openLine : Bytes :=
  Text.utf8Bytes "#include <a.h>\n#include "

/-- A block comment with more than enough in it, up to a slash before the star that ends it. -/
def blockRemark : Bytes :=
  Text.utf8Bytes "\"no.h\" /* ' // \n#include <no.h>\n/"

/-- A line comment that ends in a backslash. -/
def lineRemark : Bytes :=
  Text.utf8Bytes "<no.h> /* ' \" \\"

theorem extract_comment_openLine :
    (Lexer.start.run openLine).ReadsCode ∧ ¬ [0x2a, 0x2f] <:+: blockRemark ∧ 0x0a ∉ lineRemark ∧
    ¬ EndsInBackslash openLine ∧
    extract (openLine ++ ([0x2f, 0x2a] ++ blockRemark ++ [0x2a, 0x2f]) ++ Text.utf8Bytes "<b.h>") =
      [{ form := .angle, target := "a.h" }, { form := .angle, target := "b.h" }] ∧
    extract (openLine ++ ([0x2f, 0x2f] ++ lineRemark) ++ 0x0a :: Text.utf8Bytes "#include \"c.h\"") =
      [{ form := .angle, target := "a.h" }, { form := .quote, target := "c.h" }] := by
  have reads : (Lexer.start.run openLine).ReadsCode := by decide
  have unclosed : ¬ [0x2a, 0x2f] <:+: blockRemark := by decide
  have oneLine : 0x0a ∉ lineRemark := by decide
  have apart : ¬ EndsInBackslash openLine := by decide
  refine ⟨reads, unclosed, oneLine, apart, ?_, ?_⟩
  · rw [(extract_comment reads blockRemark (Text.utf8Bytes "<b.h>")).1 unclosed]
    decide
  · rw [(extract_comment reads lineRemark (Text.utf8Bytes "#include \"c.h\"")).2 oneLine apart]
    decide

end Directive
end IncludeClosure
