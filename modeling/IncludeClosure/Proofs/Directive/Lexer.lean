import IncludeClosure.Directive.Lexer
import IncludeClosure.Proofs.Directive.Line
/-!
# Proofs.Directive.Lexer — what the lexer copies

A lexer that has just ended a line is **fresh**.  No newline ever gets into the line that a lexer copies, and so the
directives that it finds are plain (`Sound`, `plain_of_mem_extract`).  Bytes that mean nothing special are copied as
they stand: those before a target (`run_ordinary`), those of a literal up to the byte that closes it (`run_literal`) and
those of a target in angle brackets (`run_target`).
-/
namespace IncludeClosure
namespace Directive
namespace Lexer

variable {s : Lexer} {b : UInt8}

/-- A lexer between two lines. -/
def fresh (found : List Directive) : Lexer :=
  { mode := .code, line := [], found }

theorem run_nil (s : Lexer) : s.run [] = s := rfl

theorem run_cons (s : Lexer) (b : UInt8) (bytes : Bytes) : s.run (b :: bytes) = (s.step b).run bytes := rfl

theorem finish_fresh (found : List Directive) : (fresh found).finish = found.reverse := rfl

/-- Whether bytes are copied because of a delimiter that stands before them. -/
def delimited : Mode → Bool
  | .literal _ | .escape _ | .target => true
  | _ => false

/-! ## What every lexer has copied and found -/

/-- **No newline is ever copied,** what is found is plain, and the delimiter that opened a literal or a target is in the
line. -/
structure Sound (s : Lexer) : Prop where
  oneLine : (0x0a : UInt8) ∉ s.line
  plain : ∀ d ∈ s.found, d.Plain
  opened : delimited s.mode = true → ∃ m ∈ s.line, ¬ Ordinary m

theorem Sound.copy (h : s.Sound) (hb : b ≠ 0x0a) : (s.copy b).Sound where
  oneLine hm := by
    rcases List.mem_cons.1 hm with e | hm
    · exact hb e.symm
    · exact h.oneLine hm
  plain := h.plain
  opened hd := by
    obtain ⟨m, hm, special⟩ := h.opened hd
    exact ⟨m, List.mem_cons_of_mem _ hm, special⟩

theorem Sound.enter (h : s.Sound) {mode : Mode} (hm : delimited mode = true → ∃ m ∈ s.line, ¬ Ordinary m) :
    (s.enter mode).Sound where
  oneLine := h.oneLine
  plain := h.plain
  opened := hm

/-- A mode in which no delimiter has been opened may always be entered. -/
theorem Sound.leave (h : s.Sound) {mode : Mode} (hm : delimited mode = false) : (s.enter mode).Sound :=
  h.enter fun hd => by
    rw [hm] at hd
    cases hd

theorem Sound.open (h : s.Sound) {mode : Mode} (hb : b ≠ 0x0a) (special : ¬ Ordinary b) :
    ((s.copy b).enter mode).Sound :=
  (h.copy hb).enter fun _ => ⟨b, List.mem_cons_self, special⟩

theorem Sound.endLine (h : s.Sound) : s.endLine.Sound where
  oneLine := List.not_mem_nil
  plain d hd := by
    unfold Lexer.endLine at hd
    dsimp only at hd
    split at hd
    · rename_i read
      rcases List.mem_cons.1 hd with rfl | hd
      · exact plain_of_directive? read (fun hm => h.oneLine (List.mem_reverse.1 hm))
      · exact h.plain d hd
    · exact h.plain d hd
  opened hd := by cases hd

theorem Sound.code (h : s.Sound) (b : UInt8) : (s.code b).Sound := by
  unfold Lexer.code
  split
  · exact h.leave rfl
  · split
    · exact h.leave rfl
    · split
      · rename_i quotes
        rcases quotes with rfl | rfl
        · exact h.open (by decide) (by decide)
        · exact h.open (by decide) (by decide)
      · split
        · rename_i opens
          obtain ⟨rfl, -⟩ := opens
          exact h.open (by decide) (by decide)
        · split
          · exact h.endLine
          · split
            · exact h.leave rfl
            · exact (h.copy ‹_›).leave rfl

theorem Sound.step (h : s.Sound) (b : UInt8) : (s.step b).Sound := by
  have kept (c : UInt8) (hc : c ≠ 0x0a) : ((s.copy c).code b).Sound := (h.copy hc).code b
  have opened := h.opened
  unfold Lexer.step
  cases mode : s.mode with
  | code => exact h.code b
  | slash =>
    dsimp only
    split
    · exact h.leave rfl
    · split
      · exact h.leave rfl
      · exact kept _ (by decide)
  | backslash =>
    dsimp only
    split
    · exact h.leave rfl
    · split
      · exact h.leave rfl
      · exact kept _ (by decide)
  | backslashReturn =>
    dsimp only
    split
    · exact h.leave rfl
    · exact kept _ (by decide)
  | lineComment =>
    dsimp only
    split
    · exact h.endLine
    · exact h
  | blockComment =>
    dsimp only
    split
    · exact h.leave rfl
    · exact h
  | blockStar =>
    dsimp only
    split
    · exact (h.copy (by decide)).leave rfl
    · split
      · exact h
      · exact h.leave rfl
  | literal quote =>
    rw [mode] at opened
    dsimp only
    split
    · exact h.endLine
    · split
      · exact h.enter fun _ => opened rfl
      · split
        · exact (h.copy ‹_›).leave rfl
        · exact h.copy ‹_›
  | escape quote =>
    rw [mode] at opened
    dsimp only
    split
    · exact (h.copy (by decide)).endLine
    · obtain ⟨m, hm, special⟩ := opened rfl
      refine ((h.copy (by decide)).copy ‹_›).enter fun _ => ⟨m, ?_, special⟩
      exact List.mem_cons_of_mem _ (List.mem_cons_of_mem _ hm)
  | target =>
    dsimp only
    split
    · exact h.endLine
    · split
      · exact (h.copy ‹_›).leave rfl
      · exact h.copy ‹_›

theorem Sound.run : ∀ (bytes : Bytes) {s : Lexer}, s.Sound → (s.run bytes).Sound
  | [], _, h => h
  | b :: bytes, _, h => Sound.run bytes (h.step b)

theorem Sound.settle (h : s.Sound) : s.settle.Sound := by
  unfold Lexer.settle
  split
  · exact h.copy (by decide)
  · exact h.copy (by decide)
  · exact h.copy (by decide)
  · exact h.copy (by decide)
  · exact h

theorem sound_start : Lexer.start.Sound where
  oneLine := List.not_mem_nil
  plain d hd := absurd hd List.not_mem_nil
  opened hd := by cases hd

/-! ## What is copied as it stands -/

theorem step_ordinary (hs : s.mode = .code) (hb : Ordinary b) : s.step b = s.copy b := by
  have backslash : b ≠ 0x5c := hb.ne (by decide)
  have slash : b ≠ 0x2f := hb.ne (by decide)
  have double : b ≠ 0x22 := hb.ne (by decide)
  have single : b ≠ 0x27 := hb.ne (by decide)
  have angle : b ≠ 0x3c := hb.ne (by decide)
  have newline : b ≠ 0x0a := hb.ne (by decide)
  have returns : b ≠ 0x0d := hb.ne (by decide)
  have stays : (s.copy b).enter .code = s.copy b := by
    unfold enter copy
    rw [← hs]
  unfold step
  rw [hs]
  simp [code, backslash, slash, double, single, angle, newline, returns, stays]

theorem run_ordinary : ∀ (bytes : Bytes) {s : Lexer}, s.mode = .code → (∀ b ∈ bytes, Ordinary b) →
    s.run bytes = { s with line := bytes.reverse ++ s.line }
  | [], _, _, _ => rfl
  | b :: bytes, s, hs, hb => by
    rw [run_cons, step_ordinary hs (hb b List.mem_cons_self),
      run_ordinary bytes (s := s.copy b) hs fun c hc => hb c (List.mem_cons_of_mem _ hc)]
    simp [copy]

/-- Inside a literal, also just after a backslash. -/
def InLiteral (quote : UInt8) (s : Lexer) : Prop :=
  s.mode = .literal quote ∨ s.mode = .escape quote

/-- The byte that closes a literal is copied like every other; only after a backslash it does not close. -/
theorem step_literal {quote : UInt8} (hs : InLiteral quote s) (hb : b ≠ 0x0a) :
    (s.step b).settle.line = b :: s.settle.line ∧ (s.step b).found = s.found ∧
      (b ≠ quote → InLiteral quote (s.step b)) ∧
      (b = quote → quote ≠ 0x5c → (s.step b).mode = .code ∨ (s.step b).mode = .literal quote) := by
  obtain ⟨mode, line, found⟩ := s
  rcases hs with hs | hs
  · obtain rfl : mode = .literal quote := hs
    by_cases escapes : b = 0x5c
    · subst escapes
      refine ⟨rfl, rfl, fun _ => .inr rfl, fun e hq => absurd e.symm hq⟩
    · by_cases closes : b = quote
      · subst closes
        simp [step, hb, escapes, settle, copy, enter]
      · simp [step, hb, escapes, closes, settle, copy, InLiteral]
  · obtain rfl : mode = .escape quote := hs
    simp [step, hb, settle, copy, enter, InLiteral]

theorem run_literal {quote : UInt8} : ∀ (bytes : Bytes) {s : Lexer}, InLiteral quote s → (0x0a : UInt8) ∉ bytes →
    quote ∉ bytes → InLiteral quote (s.run bytes) ∧ (s.run bytes).settle.line = bytes.reverse ++ s.settle.line ∧
      (s.run bytes).found = s.found
  | [], _, hs, _, _ => ⟨hs, rfl, rfl⟩
  | b :: bytes, s, hs, hn, hq => by
    have hb : b ≠ 0x0a := fun e => hn (by rw [← e]; exact List.mem_cons_self)
    have hbq : b ≠ quote := fun e => hq (by rw [← e]; exact List.mem_cons_self)
    obtain ⟨line, found, inside, -⟩ := step_literal hs hb
    obtain ⟨inside', line', found'⟩ := run_literal bytes (inside hbq) (fun h => hn (List.mem_cons_of_mem _ h))
      (fun h => hq (List.mem_cons_of_mem _ h))
    rw [run_cons]
    refine ⟨inside', ?_, found'.trans found⟩
    rw [line', line, List.reverse_cons, List.append_assoc]
    rfl

theorem run_target : ∀ (bytes : Bytes) {s : Lexer}, s.mode = .target →
    (0x0a : UInt8) ∉ bytes → (0x3e : UInt8) ∉ bytes → s.run bytes = { s with line := bytes.reverse ++ s.line }
  | [], _, _, _, _ => rfl
  | b :: bytes, s, hs, hn, hc => by
    have hb : b ≠ 0x0a := fun e => hn (by rw [← e]; exact List.mem_cons_self)
    have hbc : b ≠ 0x3e := fun e => hc (by rw [← e]; exact List.mem_cons_self)
    have copied : s.step b = s.copy b := by
      unfold step
      rw [hs]
      simp [hb, hbc]
    rw [run_cons, copied, run_target bytes (s := s.copy b) hs (fun h => hn (List.mem_cons_of_mem _ h))
      (fun h => hc (List.mem_cons_of_mem _ h))]
    simp [copy]

end Lexer

/-- **Every directive of a file is plain.** -/
theorem plain_of_mem_extract {content : Bytes} {d : Directive} (h : d ∈ extract content) : d.Plain := by
  have ended := (Lexer.Sound.run content Lexer.sound_start).settle.endLine
  exact ended.plain d (List.mem_reverse.1 h)

end Directive
end IncludeClosure
