import IncludeClosure.Proofs.Directive.Lexer
/-!
# Proofs.Directive.Written — directives that are written down are read back

The lexer copies a written line as it stands and ends it where its newline is (`run_writtenAs`, `run_newline`).  A
backslash at the end of a quoted target makes the closing quote look escaped, so that the literal goes on; but nothing
is left on the line, and the line is read up to its first closing quote.  So the directives of a file that was written
are those it was written from, and what was found in any file can be written and found again (`extract_of_isFileOf`).
-/
namespace IncludeClosure
namespace Directive

/-- The file has these lines; the newline of the last one may be missing. -/
def IsFileOf (file : Bytes) (lines : List (Directive × Style)) : Prop :=
  file = fileOf lines ∨ file ++ [0x0a] = fileOf lines

namespace Lexer

/-- The whole line has been copied, whether or not the last literal of it counts as closed. -/
def Copied (found : List Directive) (line : Bytes) (s : Lexer) : Prop :=
  (s.mode = .code ∨ ∃ quote, s.mode = .literal quote) ∧ s.line = line.reverse ∧ s.found = found

variable {d : Directive} {found : List Directive} {s : Lexer}

/-- After the head of a line the delimiter that opens the target is copied and decides how the target is read. -/
theorem step_opening (style : Style) (form : IncludeForm) :
    ((fresh found).run style.head).step form.opening.toUInt8 =
      { mode := match form with
          | .quote => .literal 0x22
          | .angle => .target
        line := form.opening.toUInt8 :: style.head.reverse
        found } := by
  have head : (fresh found).run style.head = { mode := .code, line := style.head.reverse, found } := by
    rw [run_ordinary (s := fresh found) style.head rfl fun b hb => Style.ordinary_of_mem_head hb]
    simp [fresh]
  rw [head]
  cases form with
  | quote => rfl
  | angle =>
    show code { mode := .code, line := style.head.reverse, found } 0x3c =
      { mode := .target, line := 0x3c :: style.head.reverse, found }
    simp [code, copy, enter, awaitsTarget_head]

/-- **A written line is copied as it stands.** -/
theorem run_writtenAs (found : List Directive) (h : d.Plain) (style : Style) :
    Copied found (d.writtenAs style) ((fresh found).run (d.writtenAs style)) := by
  have newline := h.newline_notMem
  have closing := h.closing_notMem
  have whole : (d.writtenAs style).reverse =
      d.form.closing.toUInt8 ::
        ((Text.utf8Bytes d.target).reverse ++ d.form.opening.toUInt8 :: style.head.reverse) := by
    rw [writtenAs_eq, utf8Bytes_display]
    simp
  have run : (fresh found).run (d.writtenAs style) =
      ((((fresh found).run style.head).step d.form.opening.toUInt8).run (Text.utf8Bytes d.target)).step
        d.form.closing.toUInt8 := by
    rw [writtenAs_eq, utf8Bytes_display, run_append, run_cons, run_append]
    rfl
  rw [run, step_opening]
  unfold Copied
  rw [whole]
  cases form : d.form with
  | quote =>
    rw [form] at closing
    let opened : Lexer := { mode := .literal 0x22, line := 0x22 :: style.head.reverse, found }
    have opens : InLiteral 0x22 opened := .inl rfl
    obtain ⟨inside, line, hfound⟩ := run_literal (Text.utf8Bytes d.target) opens newline closing
    obtain ⟨line', found', -, ended⟩ := step_literal (b := 0x22) inside (by decide)
    have mode := ended rfl (by decide)
    have settled : ((opened.run (Text.utf8Bytes d.target)).step 0x22).settle =
        (opened.run (Text.utf8Bytes d.target)).step 0x22 := by
      unfold settle
      rcases mode with e | e <;> rw [e]
    rw [settled, line] at line'
    exact ⟨mode.imp_right fun e => ⟨_, e⟩, line', found'.trans hfound⟩
  | angle =>
    rw [form] at closing
    dsimp only
    rw [run_target (Text.utf8Bytes d.target) rfl newline closing]
    exact ⟨.inl rfl, rfl, rfl⟩

theorem Copied.settle {line : Bytes} (h : Copied found line s) : s.settle = s := by
  unfold Lexer.settle
  rcases h.1 with e | ⟨quote, e⟩ <;> rw [e]

theorem Copied.endLine {line : Bytes} (h : Copied found line s) (read : directive? line = some d) :
    s.endLine = fresh (d :: found) := by
  unfold Lexer.endLine
  rw [h.2.1, List.reverse_reverse, read, h.2.2]
  rfl

theorem Copied.step_newline {line : Bytes} (h : Copied found line s) : s.step 0x0a = s.endLine := by
  unfold step
  rcases h.1 with e | ⟨quote, e⟩
  · rw [e]
    rfl
  · rw [e]
    rfl

/-- **A file of plain directives** leaves the lexer between two lines, with all of them found. -/
theorem run_fileOf : ∀ (lines : List (Directive × Style)) (found : List Directive), (∀ entry ∈ lines, entry.1.Plain) →
    (fresh found).run (fileOf lines) = fresh ((lines.map Prod.fst).reverse ++ found)
  | [], _, _ => rfl
  | (d, style) :: lines, found, plain => by
    have hd : d.Plain := plain _ List.mem_cons_self
    have copied := run_writtenAs found hd style
    have ended := copied.step_newline.trans (copied.endLine (directive?_writtenAs hd style))
    show (fresh found).run (d.writtenAs style ++ 0x0a :: fileOf lines) = _
    rw [run_append, run_cons, ended,
      run_fileOf lines (d :: found) fun entry h => plain entry (List.mem_cons_of_mem _ h)]
    simp

end Lexer

open Lexer (fresh)

theorem extract_fileOf {lines : List (Directive × Style)} (plain : ∀ entry ∈ lines, entry.1.Plain) :
    extract (fileOf lines) = lines.map Prod.fst := by
  have run := Lexer.run_fileOf lines [] plain
  show (Lexer.run (fresh []) (fileOf lines)).finish = _
  rw [run, Lexer.finish_fresh]
  simp

theorem fileOf_append (lines more : List (Directive × Style)) :
    fileOf (lines ++ more) = fileOf lines ++ fileOf more := by
  induction lines with
  | nil => rfl
  | cons entry lines ih =>
    obtain ⟨d, style⟩ := entry
    simp [fileOf, ih]

/-- The last line is read also when its newline is missing. -/
theorem extract_append_writtenAs {lines : List (Directive × Style)} (plain : ∀ entry ∈ lines, entry.1.Plain)
    {d : Directive} (hd : d.Plain) (style : Style) :
    extract (fileOf lines ++ d.writtenAs style) = lines.map Prod.fst ++ [d] := by
  have copied := Lexer.run_writtenAs ((lines.map Prod.fst).reverse ++ []) hd style
  show (Lexer.run (fresh []) (fileOf lines ++ d.writtenAs style)).finish = _
  unfold Lexer.finish
  rw [Lexer.run_append, Lexer.run_fileOf lines [] plain, copied.settle, copied.endLine (directive?_writtenAs hd style)]
  simp [fresh]

theorem extract_isFileOf {lines : List (Directive × Style)} {file : Bytes} (spelled : IsFileOf file lines)
    (plain : ∀ entry ∈ lines, entry.1.Plain) : extract file = lines.map Prod.fst := by
  rcases spelled with rfl | spelled
  · exact extract_fileOf plain
  · -- without its newline the last line is ended by the end of the file
    rcases List.eq_nil_or_concat lines with rfl | ⟨front, ⟨d, style⟩, rfl⟩
    · simp [fileOf] at spelled
    · have split : fileOf (front ++ [(d, style)]) = (fileOf front ++ d.writtenAs style) ++ [0x0a] := by
        rw [fileOf_append]
        simp [fileOf]
      rw [List.concat_eq_append] at spelled plain ⊢
      rw [split] at spelled
      rw [List.append_cancel_right spelled, List.map_append]
      exact extract_append_writtenAs (fun entry h => plain entry (List.mem_append_left _ h))
        (plain (d, style) (List.mem_append_right _ (List.mem_singleton_self _))) style

/-- **Reading undoes writing, and what is read can be written.**  A file of plain directives, each on a line in any
style, is read as these directives, in order.  Every directive that is found in any content is plain, so that what was
found there is found again in every file that it is written to. -/
theorem extract_of_isFileOf :
    (∀ (lines : List (Directive × Style)) (file : Bytes), IsFileOf file lines →
      (∀ entry ∈ lines, entry.1.Plain) → extract file = lines.map Prod.fst) ∧
    (∀ (content : Bytes), ∀ d ∈ extract content, d.Plain) ∧
    ∀ (content : Bytes) (lines : List (Directive × Style)) (file : Bytes), IsFileOf file lines →
      lines.map Prod.fst = extract content → extract file = extract content := by
  refine ⟨fun lines file spelled plain => extract_isFileOf spelled plain, fun content d hd => plain_of_mem_extract hd,
    fun content lines file spelled found => ?_⟩
  have plain (entry : Directive × Style) (h : entry ∈ lines) : entry.1.Plain := by
    have hd : entry.1 ∈ extract content := by
      rw [← found]
      exact List.mem_map_of_mem h
    exact plain_of_mem_extract hd
  rw [extract_isFileOf spelled plain, found]

/-- A quoted target that ends in a backslash, and one in angle brackets with quotes and a comment marker in it. -/
def oddLines : List (Directive × Style) :=
  [({ form := .quote, target := "dir\\" },
    { indent := [0x09], gap := [0x20], keyword := .includesNext, space := [0x0b, 0x0c]
      blank := List.all_eq_true.1 (by decide) }),
   ({ form := .angle, target := "x\"//'/*" },
    { indent := [], gap := [], keyword := .imports, space := []
      blank := List.all_eq_true.1 (by decide) })]

theorem extract_of_isFileOf_oddLines :
    IsFileOf (Text.utf8Bytes "\t# include_next\x0b\x0c\"dir\\\"\n#import<x\"//'/*>") oddLines ∧
    (∀ entry ∈ oddLines, entry.1.Plain) ∧
    extract (Text.utf8Bytes "\t# include_next\x0b\x0c\"dir\\\"\n#import<x\"//'/*>") =
      [{ form := .quote, target := "dir\\" }, { form := .angle, target := "x\"//'/*" }] := by
  have spelled : IsFileOf (Text.utf8Bytes "\t# include_next\x0b\x0c\"dir\\\"\n#import<x\"//'/*>") oddLines :=
    .inr (by decide)
  have plain : ∀ entry ∈ oddLines, entry.1.Plain := by decide
  exact ⟨spelled, plain, extract_of_isFileOf.1 oddLines _ spelled plain⟩

end Directive
end IncludeClosure
