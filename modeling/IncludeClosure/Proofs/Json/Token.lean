import Mathlib.Data.List.Chain
import Mathlib.Tactic.IntervalCases
import IncludeClosure.Json.Spelling
/-!
# Proofs.Json.Token — a text that is laid out from tokens has these tokens

A tokenizer that starts between two tokens reads the spelling of a token and is between two tokens again, with that
token read (`run_token`).  A number is the exception: the tokenizer cannot know that it has ended before it sees what
comes next, so it only **rests** in it (`Rests`).  What comes next is white space or another kind of token as long as no
two scalars follow each other (`Apart`), and either ends the number.  So the tokens of a text are the ones it was laid
out from (`ofText_of_laid`).
-/
namespace IncludeClosure
namespace Json

namespace Element

/-- What a string that is being read becomes with one more element. -/
def addTo (s : Chars) : Element → Chars
  | plain c => s.add c
  | unit n => s.addUnit n

/-- The first half of a pair waits for the other one. -/
theorem addTo_high {n : Nat} (high : Chars.isHigh n = true) {s : Chars} (hh : s.high? = none) :
    addTo s (.unit n) = { s with high? := some n } := by
  simp [addTo, Chars.addUnit, hh, high]

/-- A string with a flaw keeps its first one. -/
theorem close_of_flaw : ∀ (es : List Element) {s : Chars} {flaw : Flaw}, s.flaw? = some flaw →
    (es.foldl addTo s).close = .string (.error flaw)
  | [], s, flaw, h => by
    have kept : s.settle.flaw? = some flaw := by
      unfold Chars.settle Chars.spoil
      split <;> simp [h]
    simp [Chars.close, kept]
  | e :: es, s, flaw, h => by
    refine close_of_flaw es ?_
    cases e with
    | plain c =>
      show s.settle.flaw? = some flaw
      unfold Chars.settle Chars.spoil
      split <;> simp [h]
    | unit n =>
      simp only [addTo, Chars.addUnit, Chars.spoil]
      split
      · split <;> simp [h]
      · split
        · exact h
        · split <;> simp [h]

theorem meaning_high {n : Nat} (high : Chars.isHigh n = true) (rest : List Element) :
    meaning (.unit n :: rest) = match rest with
      | .unit low :: rest =>
        if Chars.isLow low then (meaning rest).map (Chars.paired n low :: ·) else .error .halfPair
      | _ => .error .openPair := by
  rw [meaning.eq_def]
  exact if_pos high

theorem meaning_notHigh {n : Nat} (high : ¬ Chars.isHigh n = true) (rest : List Element) :
    meaning (.unit n :: rest)
      = if Chars.isLow n then .error .halfPair else (meaning rest).map (Char.ofNat n :: ·) := by
  rw [meaning.eq_def]
  exact if_neg high

/-- **A string is what its elements mean,** after what has been read of it. -/
theorem close_eq (es : List Element) : ∀ (s : Chars), s.flaw? = none → s.high? = none →
    (es.foldl addTo s).close
      = .string ((meaning es).map (fun cs => String.ofList (s.chars.reverse ++ cs))) := by
  induction es using meaning.induct with
  | case1 =>
    intro s hf hh
    simp [meaning, Chars.close, Chars.settle, hf, hh, Except.map]
  | case2 c rest ih =>
    intro s hf hh
    have settled : s.settle = s := by simp [Chars.settle, hh]
    rw [List.foldl_cons, ih (addTo s (.plain c)) (by simpa [addTo, Chars.add, settled] using hf)
      (by simpa [addTo, Chars.add, settled] using hh), meaning]
    cases meaning rest <;> simp [Except.map, addTo, Chars.add, settled]
  | case3 n high low rest isLow ih =>
    intro s hf hh
    have both : addTo { s with high? := some n } (.unit low)
        = { s with chars := Chars.paired n low :: s.chars, high? := none } := by
      simp [addTo, Chars.addUnit, isLow]
    rw [List.foldl_cons, List.foldl_cons, addTo_high high hh, both,
      ih { s with chars := Chars.paired n low :: s.chars, high? := none } hf rfl, meaning_high high]
    dsimp only
    rw [if_pos isLow]
    cases meaning rest <;> simp [Except.map]
  | case4 n high low rest notLow =>
    intro s hf hh
    have both : (addTo { s with high? := some n } (.unit low)).flaw? = some .halfPair := by
      simp [addTo, Chars.addUnit, notLow, Chars.spoil, hf]
    rw [List.foldl_cons, List.foldl_cons, addTo_high high hh, close_of_flaw rest both, meaning_high high]
    dsimp only
    rw [if_neg notLow]
    rfl
  | case5 n rest high noUnit =>
    intro s hf hh
    rw [List.foldl_cons, addTo_high high hh, meaning_high high]
    cases rest with
    | nil => simp [Chars.close, Chars.settle, Chars.spoil, hf, Except.map]
    | cons e rest =>
      cases e with
      | unit low => exact absurd rfl (noUnit low rest)
      | plain c =>
        have spoiled : (addTo { s with high? := some n } (.plain c)).flaw? = some .openPair := by
          simp [addTo, Chars.add, Chars.settle, Chars.spoil, hf]
        rw [List.foldl_cons, close_of_flaw rest spoiled]
        rfl
  | case6 n rest notHigh low =>
    intro s hf hh
    have spoiled : (addTo s (.unit n)).flaw? = some .halfPair := by
      simp [addTo, Chars.addUnit, hh, notHigh, low, Chars.spoil, hf]
    rw [List.foldl_cons, close_of_flaw rest spoiled, meaning_notHigh notHigh, if_pos low]
    rfl
  | case7 n rest notHigh notLow ih =>
    intro s hf hh
    have first : addTo s (.unit n) = { s with chars := Char.ofNat n :: s.chars } := by
      simp [addTo, Chars.addUnit, hh, notHigh, notLow]
    rw [List.foldl_cons, first, ih { s with chars := Char.ofNat n :: s.chars } hf hh, meaning_notHigh notHigh, if_neg notLow]
    cases meaning rest <;> simp [Except.map]

end Element

namespace Tokenizer

variable {ts : List Token}

theorem run_blank : ∀ {space : List Char}, Blank space → space.foldl step ⟨.between, ts⟩ = ⟨.between, ts⟩
  | [], _ => rfl
  | c :: space, blank => by
    have first : step ⟨.between, ts⟩ c = ⟨.between, ts⟩ := by
      simp only [step, between, if_pos (blank c List.mem_cons_self), go]
    rw [List.foldl_cons, first]
    exact run_blank fun d hd => blank d (List.mem_cons_of_mem _ hd)

/-! ## Strings -/

theorem step_escape (s : Chars) : step ⟨.string s, ts⟩ '\\' = ⟨.escape s, ts⟩ := rfl

theorem step_hex (s : Chars) {missing front d : Nat} {c : Char} (h : hexDigit? c = some d) :
    step ⟨.hex s (missing + 2) front, ts⟩ c = ⟨.hex s (missing + 1) (16 * front + d), ts⟩ := by
  simp only [step, h, go]
  rw [if_neg (by omega)]
  rfl

theorem step_hex_last (s : Chars) {front d : Nat} {c : Char} (h : hexDigit? c = some d) :
    step ⟨.hex s 1 front, ts⟩ c = ⟨.string (s.addUnit (16 * front + d)), ts⟩ := by
  simp only [step, h, go]
  rw [if_pos (by omega)]

theorem run_element {e : Element} {xs : List Char} (h : e.SpelledAs xs) (s : Chars) :
    xs.foldl step ⟨.string s, ts⟩ = ⟨.string (e.addTo s), ts⟩ := by
  cases h with
  | itself printable noQuote noBackslash =>
    simp only [List.foldl_cons, List.foldl_nil, step, if_neg noQuote, if_neg noBackslash,
      if_neg (Nat.not_lt.2 printable), go]
    rfl
  | @escaped letter c h =>
    have noUnit : letter ≠ 'u' := by
      rintro rfl
      cases h
    rw [List.foldl_cons, step_escape]
    simp only [List.foldl_cons, List.foldl_nil, step, go, if_neg noUnit, h]
    rfl
  | unit ha hb hc hd =>
    have four : step ⟨.escape s, ts⟩ 'u' = ⟨.hex s 4 0, ts⟩ := rfl
    simp only [List.foldl_cons, List.foldl_nil]
    rw [step_escape, four, step_hex s ha, step_hex s hb, step_hex s hc, step_hex_last s hd]
    simp only [Nat.mul_zero, Nat.zero_add]
    rfl

theorem run_elements {es : List Element} {xs : List Char} (h : Element.EachSpelledAs es xs) : ∀ s : Chars,
    xs.foldl step ⟨.string s, ts⟩ = ⟨.string (es.foldl Element.addTo s), ts⟩ := by
  induction h with
  | nil => exact fun s => rfl
  | cons first rest ih =>
    intro s
    rw [List.foldl_append, run_element first, ih]
    rfl

/-! ## Numbers -/

theorem run_whole {first : Char} (lead : first ≠ '0') : ∀ {digits front : List Char} {n : Number},
    (∀ c ∈ digits, isDigit c = true) → n.whole = first :: front →
    digits.foldl step ⟨.whole n, ts⟩ = ⟨.whole { n with whole := first :: (front ++ digits) }, ts⟩
  | [], front, n, _, hn => by simp [← hn]
  | c :: digits, front, n, h, hn => by
    have notZero : first :: front ≠ ['0'] := fun e => lead (List.cons.inj e).1
    have next : step ⟨.whole n, ts⟩ c = ⟨.whole { n with whole := first :: (front ++ [c]) }, ts⟩ := by
      simp only [step, if_pos (h c List.mem_cons_self), hn, if_neg notZero, go, List.cons_append]
    rw [List.foldl_cons, next, run_whole lead (fun d hd => h d (List.mem_cons_of_mem _ hd)) rfl]
    simp

theorem run_fraction : ∀ {digits front : List Char} {n : Number}, (∀ c ∈ digits, isDigit c = true) →
    n.fraction = some front →
    digits.foldl step ⟨.fraction n, ts⟩ = ⟨.fraction { n with fraction := some (front ++ digits) }, ts⟩
  | [], front, n, _, hn => by simp [← hn]
  | c :: digits, front, n, h, hn => by
    have first : step ⟨.fraction n, ts⟩ c = ⟨.fraction { n with fraction := some (front ++ [c]) }, ts⟩ := by
      simp only [step, if_pos (h c List.mem_cons_self), hn, go, Option.map_some]
    rw [List.foldl_cons, first, run_fraction (fun d hd => h d (List.mem_cons_of_mem _ hd)) rfl]
    simp

theorem run_powerDigits : ∀ {digits front : List Char} {negative : Bool} {n : Number},
    (∀ c ∈ digits, isDigit c = true) → n.exponent = some (negative, front) →
    digits.foldl step ⟨.powerDigits n, ts⟩
      = ⟨.powerDigits { n with exponent := some (negative, front ++ digits) }, ts⟩
  | [], front, negative, n, _, hn => by simp [← hn]
  | c :: digits, front, negative, n, h, hn => by
    have first : step ⟨.powerDigits n, ts⟩ c
        = ⟨.powerDigits { n with exponent := some (negative, front ++ [c]) }, ts⟩ := by
      simp only [step, if_pos (h c List.mem_cons_self), hn, go, Option.map_some]
    rw [List.foldl_cons, first, run_powerDigits (fun d hd => h d (List.mem_cons_of_mem _ hd)) rfl]
    simp

theorem mem_of_isDigit {c : Char} (h : isDigit c = true) : c ∈ ['0', '1', '2', '3', '4', '5', '6', '7', '8', '9'] := by
  have range : 48 ≤ c.toNat ∧ c.toNat ≤ 57 := by
    unfold isDigit Text.digit? at h
    split at h
    · rename_i digit
      exact ⟨digit.1, digit.2⟩
    · cases h
  rw [← Char.ofNat_toNat c]
  generalize c.toNat = n at range
  obtain ⟨low, high⟩ := range
  interval_cases n <;> decide

theorem step_digit {c : Char} (h : isDigit c = true) : step ⟨.between, ts⟩ c =
    ⟨.whole { negative := false, whole := [c], fraction := none, exponent := none }, ts⟩ := by
  have mem := mem_of_isDigit h
  simp only [List.mem_cons, List.not_mem_nil, or_false] at mem
  rcases mem with rfl | rfl | rfl | rfl | rfl | rfl | rfl | rfl | rfl | rfl <;> rfl

/-- The tokenizer has read a number that may go on. -/
def Rests (r : Reading) (n : Number) : Prop :=
  r = .whole n ∨ r = .fraction n ∨ r = .powerDigits n

/-- The part of a number before the point. -/
theorem run_integer {n : Number} (digits : Number.Digits n.whole) (lead : n.whole.head? = some '0' → n.whole = ['0']) :
    ((if n.negative then ['-'] else []) ++ n.whole).foldl step ⟨.between, ts⟩
      = ⟨.whole { n with fraction := none, exponent := none }, ts⟩ := by
  obtain ⟨negative, whole, fraction, exponent⟩ := n
  obtain ⟨filled, digits⟩ := digits
  dsimp only at *
  obtain ⟨c, rest, rfl⟩ := List.exists_cons_of_ne_nil filled
  have first : ((if negative then ['-'] else []) ++ [c]).foldl step ⟨.between, ts⟩
      = ⟨.whole { negative, whole := [c], fraction := none, exponent := none }, ts⟩ := by
    have digit := digits c List.mem_cons_self
    cases negative with
    | false => exact step_digit digit
    | true =>
      have minus : step ⟨.between, ts⟩ '-' = ⟨.minus, ts⟩ := rfl
      show step (step ⟨.between, ts⟩ '-') c = _
      rw [minus]
      simp only [step, if_pos digit, go]
  rw [← List.singleton_append, ← List.append_assoc, List.foldl_append, first]
  by_cases zero : c = '0'
  · obtain rfl : rest = [] := (List.cons.inj (lead (by rw [zero]; rfl))).2
    rfl
  · exact run_whole zero (fun d hd => digits d (List.mem_cons_of_mem _ hd)) rfl

/-- The part of a number between the point and the exponent. -/
theorem run_fractionPart (ts : List Token) {n : Number} {text : List Char} (h : Number.FractionSpelledAs n.fraction text) :
    ∃ r, text.foldl step ⟨.whole { n with fraction := none, exponent := none }, ts⟩ = ⟨r, ts⟩ ∧
      (r = .whole { n with exponent := none } ∨ r = .fraction { n with exponent := none }) := by
  obtain ⟨negative, whole, fraction, exponent⟩ := n
  cases fraction with
  | none =>
    obtain rfl : text = [] := h
    exact ⟨_, rfl, .inl rfl⟩
  | some digits =>
    obtain ⟨⟨filled, digits⟩, rfl⟩ := h
    obtain ⟨d, rest, rfl⟩ := List.exists_cons_of_ne_nil filled
    have point (n : Number) : step ⟨.whole n, ts⟩ '.' = ⟨.point n, ts⟩ := by
      have noDigit : isDigit '.' = false := by decide
      simp [step, noDigit, go]
    have first (n : Number) : step ⟨.point n, ts⟩ d = ⟨.fraction { n with fraction := some [d] }, ts⟩ := by
      simp only [step, if_pos (digits d List.mem_cons_self), go]
    refine ⟨_, ?_, .inr rfl⟩
    rw [List.foldl_cons, List.foldl_cons, point, first,
      run_fraction (fun c hc => digits c (List.mem_cons_of_mem _ hc)) rfl]
    rfl

/-- The exponent of a number. -/
theorem run_exponent (ts : List Token) {n : Number} {text : List Char} (h : Number.ExponentSpelledAs n.exponent text) {r : Reading}
    (at' : r = .whole { n with exponent := none } ∨ r = .fraction { n with exponent := none }) :
    ∃ r', text.foldl step ⟨r, ts⟩ = ⟨r', ts⟩ ∧ Rests r' n := by
  obtain ⟨negative, whole, fraction, exponent⟩ := n
  cases exponent with
  | none =>
    obtain rfl : text = [] := h
    exact ⟨r, rfl, at'.imp_right .inl⟩
  | some exponent =>
    obtain ⟨below, digits⟩ := exponent
    obtain ⟨⟨filled, digits⟩, mark, sign, rfl, marked, signed⟩ := h
    obtain ⟨d, rest, rfl⟩ := List.exists_cons_of_ne_nil filled
    dsimp only at at'
    generalize hn : ({ negative, whole, fraction, exponent := none } : Number) = n at at'
    have power : step ⟨r, ts⟩ mark = ⟨.power n, ts⟩ := by
      have noDigit : isDigit 'e' = false ∧ isDigit 'E' = false := by decide
      rcases at' with rfl | rfl
      · rcases marked with rfl | rfl <;> simp [step, noDigit, go, isPower]
      · rcases marked with rfl | rfl <;> simp [step, noDigit, go, isPower]
    have digit := digits d List.mem_cons_self
    have first : (sign ++ [d]).foldl step ⟨.power n, ts⟩
        = ⟨.powerDigits { n with exponent := some (below, [d]) }, ts⟩ := by
      have plus : step ⟨.power n, ts⟩ '+' = ⟨.powerSign n false, ts⟩ := rfl
      have minus : step ⟨.power n, ts⟩ '-' = ⟨.powerSign n true, ts⟩ := rfl
      cases below with
      | true =>
        obtain rfl : sign = ['-'] := signed
        show step (step ⟨.power n, ts⟩ '-') d = _
        rw [minus]
        simp only [step, if_pos digit, go]
      | false =>
        have signed : sign = [] ∨ sign = ['+'] := signed
        rcases signed with rfl | rfl
        · show step ⟨.power n, ts⟩ d = _
          simp only [step, if_pos digit, go]
        · show step (step ⟨.power n, ts⟩ '+') d = _
          rw [plus]
          simp only [step, if_pos digit, go]
    refine ⟨.powerDigits { n with exponent := some (below, d :: rest) }, ?_, .inr (.inr ?_)⟩
    · rw [show mark :: sign ++ d :: rest = [mark] ++ (sign ++ [d]) ++ rest by simp, List.foldl_append,
        List.foldl_append, show [mark].foldl step ⟨r, ts⟩ = _ from power, first,
        run_powerDigits (fun c hc => digits c (List.mem_cons_of_mem _ hc)) rfl]
      rfl
    · rw [← hn]

/-- **A number** is read up to where it may still go on. -/
theorem run_number (ts : List Token) {n : Number} {text : List Char} (h : n.SpelledAs text) :
    ∃ r, text.foldl step ⟨.between, ts⟩ = ⟨r, ts⟩ ∧ Rests r n := by
  obtain ⟨digits, lead, fraction, exponent, hf, he, rfl⟩ := h
  obtain ⟨r, hr, at'⟩ := run_fractionPart ts hf
  obtain ⟨r', hr', rests⟩ := run_exponent ts he at'
  refine ⟨r', ?_, rests⟩
  rw [List.foldl_append, List.foldl_append, run_integer digits lead, hr, hr']

/-! ## Tokens in a row -/

/-- The character cannot be part of a number that has begun. -/
def Ends (c : Char) : Prop :=
  isDigit c = false ∧ c ≠ '.' ∧ isPower c = false

instance (c : Char) : Decidable (Ends c) :=
  inferInstanceAs (Decidable (_ ∧ _ ∧ _))

/-- **A number that rests has been read** as soon as something comes that cannot be part of it. -/
theorem Rests.step_eq {r : Reading} {n : Number} (h : Rests r n) {c : Char} (ends : Ends c) :
    step ⟨r, ts⟩ c = step ⟨.between, .scalar (.number n) :: ts⟩ c := by
  obtain ⟨noDigit, noPoint, noPower⟩ := ends
  rcases h with rfl | rfl | rfl <;> simp [step, noDigit, noPoint, noPower, endNumber, emit]

theorem Rests.finish_eq {r : Reading} {n : Number} (h : Rests r n) :
    (Tokenizer.mk r ts).finish = ⟨.between, .scalar (.number n) :: ts⟩ := by
  rcases h with rfl | rfl | rfl <;> rfl

/-- A token other than a number has been read when its spelling has. -/
theorem run_token {token : Token} {xs : List Char} (h : token.SpelledAs xs)
    (noNumber : ∀ n, token ≠ .scalar (.number n)) : xs.foldl step ⟨.between, ts⟩ = ⟨.between, token :: ts⟩ := by
  cases h with
  | @number n text h => exact absurd rfl (noNumber n)
  | @string es text h =>
    have opened : step ⟨.between, ts⟩ '"' = ⟨.string .empty, ts⟩ := rfl
    have closed (s : Chars) : step ⟨.string s, ts⟩ '"' = ⟨.between, .scalar s.close :: ts⟩ := rfl
    rw [List.cons_append, List.foldl_cons, opened, List.foldl_append, run_elements h]
    rw [List.foldl_cons, List.foldl_nil, closed, Element.close_eq es .empty rfl rfl]
    cases Element.meaning es <;> rfl
  | _ => rfl

end Tokenizer

namespace Token

def isScalar : Token → Bool
  | scalar _ => true
  | _ => false

/-- No two scalars follow each other. -/
def Apart (tokens : List Token) : Prop :=
  tokens.IsChain (fun a b => a.isScalar = true → b.isScalar = false)

theorem apart_append (xs : List Token) {ys : List Token} {between : Token} (sep : between.isScalar = false)
    (hx : Apart xs) (hy : Apart ys) : Apart (xs ++ between :: ys) := by
  refine List.isChain_append.2 ⟨hx, ?_, ?_⟩
  · refine List.isChain_cons.2 ⟨fun y _ h => ?_, hy⟩
    rw [sep] at h
    cases h
  · intro x _ y hy _
    rw [List.head?_cons, Option.mem_some_iff] at hy
    rw [← hy]
    exact sep

/-- Nothing but a scalar goes on with a number. -/
theorem ends_of_spelledAs {token : Token} {xs : List Char} (h : token.SpelledAs xs) (other : token.isScalar = false) :
    ∃ c rest, xs = c :: rest ∧ Tokenizer.Ends c := by
  cases h with
  | openArray => exact ⟨_, _, rfl, by decide⟩
  | closeArray => exact ⟨_, _, rfl, by decide⟩
  | openObject => exact ⟨_, _, rfl, by decide⟩
  | closeObject => exact ⟨_, _, rfl, by decide⟩
  | comma => exact ⟨_, _, rfl, by decide⟩
  | colon => exact ⟨_, _, rfl, by decide⟩
  | _ => cases other

end Token

namespace Laid

theorem ends_of_isSpace {c : Char} (h : Tokenizer.isSpace c = true) : Tokenizer.Ends c := by
  simp only [Tokenizer.isSpace, Bool.or_eq_true, decide_eq_true_eq] at h
  rcases h with ((rfl | rfl) | rfl) | rfl <;> decide

theorem ends_of_mem_head? {tokens : List Token} {text : List Char} (h : Laid tokens text)
    (other : ∀ token ∈ tokens.head?, token.isScalar = false) : ∀ c ∈ text.head?, Tokenizer.Ends c := by
  intro c hc
  cases h with
  | nil blank => exact ends_of_isSpace (blank c (List.mem_of_mem_head? hc))
  | @cons token tokens space xs ys blank first rest =>
    cases space with
    | cons d space =>
      obtain rfl : d = c := Option.some.inj hc
      exact ends_of_isSpace (blank d List.mem_cons_self)
    | nil =>
      obtain ⟨d, more, rfl, ends⟩ := Token.ends_of_spelledAs first (other token rfl)
      obtain rfl : d = c := Option.some.inj hc
      exact ends

end Laid

namespace Tokenizer

theorem Rests.finish_run_eq {r : Reading} {n : Number} (h : Rests r n) {ts : List Token} : ∀ {text : List Char},
    (∀ c ∈ text.head?, Ends c) →
    (text.foldl step ⟨r, ts⟩).finish = (text.foldl step ⟨.between, .scalar (.number n) :: ts⟩).finish
  | [], _ => h.finish_eq
  | c :: text, ends => by rw [List.foldl_cons, List.foldl_cons, h.step_eq (ends c rfl)]

/-- **The tokenizer reads the tokens that a text is laid out from.** -/
theorem finish_run_laid {tokens : List Token} {text : List Char} (h : Laid tokens text) : Token.Apart tokens →
    ∀ ts, (text.foldl step ⟨.between, ts⟩).finish = ⟨.between, tokens.reverse ++ ts⟩ := by
  induction h with
  | nil blank =>
    intro _ ts
    rw [run_blank blank]
    rfl
  | @cons token tokens space xs ys blank first rest ih =>
    intro apart ts
    obtain ⟨next, apart⟩ := List.isChain_cons.1 apart
    rw [List.foldl_append, run_blank blank, List.foldl_append]
    have read : (ys.foldl step (xs.foldl step ⟨.between, ts⟩)).finish
        = (ys.foldl step ⟨.between, token :: ts⟩).finish := by
      by_cases number : ∃ n, token = .scalar (.number n)
      · obtain ⟨n, rfl⟩ := number
        cases first with
        | number spelled =>
          obtain ⟨r, run, rests⟩ := run_number ts spelled
          rw [run]
          exact rests.finish_run_eq (rest.ends_of_mem_head? fun t ht => next t ht rfl)
      · rw [run_token first fun n e => number ⟨n, e⟩]
    rw [read, ih apart]
    simp

end Tokenizer

/-- **A text has the tokens it was laid out from.** -/
theorem Token.ofText_of_laid {tokens : List Token} {text : List Char} (h : Laid tokens text) (apart : Apart tokens) :
    ofText text = tokens := by
  unfold ofText
  rw [show Tokenizer.start = ⟨.between, []⟩ from rfl, Tokenizer.finish_run_laid h apart]
  simp

end Json
end IncludeClosure
