import IncludeClosure.Command.Report
import IncludeClosure.Proofs.Json.Pretty
/-!
# Proofs.Command.Report — what a scan report says

A report says one thing about each action (`Command.Entry`): the request it comes from, and the paths of its inputs or
the text of its error.  The entries are read back from a JSON report (`Command.entries?`), whatever characters stand in
the names and paths; a text report has a line for each of them (`Entry.outputLines`, `Entry.errorLines`), and a command
succeeds exactly when no entry holds an error.  `Command.Reports` puts this together for both formats.
-/
namespace IncludeClosure
namespace Command

/-- **What a report says about one action.** -/
structure Entry where
  request : String
  /-- The paths of the inputs in their order, or the text of the error. -/
  answer : Except String (List String)

namespace Entry

def ofScan (s : ActionScan) : Entry where
  request := s.name
  answer :=
    match s.outcome with
    | .ok inputs => .ok (inputs.map (·.path.text))
    | .error e => .error e.message

/-! ## Reading entries -/

def text? : Json.Value → Option String
  | .string (.ok s) => some s
  | _ => none

def texts? : Json.Value → Option (List String)
  | .array items => items.mapM text?
  | _ => none

/-- The value of the first member with this name. -/
def field? (name : String) (members : List (Json.Value × Json.Value)) : Option Json.Value :=
  (members.find? (fun m => text? m.1 == some name)).map (·.2)

/-- **The entry that an object stands for.**  It has inputs or an error, and not both. -/
def ofValue? : Json.Value → Option Entry
  | .object members => do
    let request ← (field? "request" members).bind text?
    match field? "inputs" members, field? "error" members with
    | some inputs, none => (texts? inputs).map fun paths => { request, answer := .ok paths }
    | none, some error => (text? error).map fun message => { request, answer := .error message }
    | _, _ => none
  | _ => none

end Entry

/-- **The entries of a JSON report,** if the text is one document and that an array of entries. -/
def entries? (report : String) : Option (List Entry) :=
  match Json.Document.whole? report.toList with
  | some (.array items) => items.mapM Entry.ofValue?
  | _ => none

/-! ## Lines -/

/-- Some lines, each of them ended. -/
def unlines (lines : List String) : String :=
  Report.concat (lines.map Report.line)

namespace Entry

/-- The lines for an action on the standard output: its name with the number of its inputs, then the inputs. -/
def outputLines (e : Entry) : List String :=
  match e.answer with
  | .ok paths => ("✓ " ++ e.request ++ " (" ++ countOf paths.length "input" ++ ")") :: paths.map ("  → " ++ ·)
  | .error _ => []

/-- The line for an action on the error output, if it has failed. -/
def errorLines (e : Entry) : List String :=
  match e.answer with
  | .ok _ => []
  | .error message => ["✗ " ++ e.request ++ ": " ++ message]

def failed (e : Entry) : Bool :=
  !e.answer.isOk

end Entry

/-- The line that counts the failed actions, if there are any. -/
def closingLines (entries : List Entry) : List String :=
  if entries.countP (·.failed) = 0 then []
  else ["Error: " ++ toString (entries.countP (·.failed)) ++ " of " ++ toString entries.length ++ " action(s) failed"]

/-- The line that ends a text report. -/
def summaryLine (entries : List Entry) (scanners : Nat) (elapsed : String) : String :=
  "• Scanned " ++ countOf entries.length "action" ++ " with " ++ countOf scanners "scanner" ++ " in " ++ elapsed

/-- **A command has reported some entries** in a format, and nothing else. -/
structure Reports (entries : List Entry) (scanners : Nat) (elapsed : String) (format : Format) (o : Outcome) : Prop where
  json : format = .json → entries? o.stdout = some entries ∧ o.stderr = unlines (closingLines entries)
  text : format = .text →
    o.stdout = unlines (entries.flatMap (·.outputLines) ++ [summaryLine entries scanners elapsed]) ∧
    o.stderr = unlines (entries.flatMap (·.errorLines) ++ closingLines entries)
  status : o.status = 0 ↔ ∀ e ∈ entries, ∃ paths, e.answer = .ok paths

/-! ## A JSON report -/

theorem mapM_map_some {α β γ : Type} {write : α → β} {read : β → Option γ} {meant : α → γ}
    (reads : ∀ x, read (write x) = some (meant x)) (xs : List α) : (xs.map write).mapM read = some (xs.map meant) := by
  induction xs with
  | nil => rfl
  | cons x xs ih =>
    rw [List.map_cons, List.mapM_cons, reads, ih]
    rfl

/-- **The entry of an action is read back** from its value. -/
theorem Entry.ofValue?_toValue (s : ActionScan) : ofValue? s.toValue = some (.ofScan s) := by
  obtain ⟨name, outcome⟩ := s
  cases outcome with
  | ok inputs =>
    have each (a : Artifact) : text? (.text a.path.text) = some a.path.text := rfl
    exact congrArg (Option.map _) (mapM_map_some each inputs)
  | error e => rfl

open Json.Value (spelledAs_pretty_text spelledAs_pretty_array spelledAs_pretty_record)

theorem spelledAs_pretty_toValue {depth : Nat} (s : ActionScan) : s.toValue.SpelledAs (s.toValue.pretty depth) := by
  unfold ActionScan.toValue
  cases s.outcome with
  | ok inputs =>
    refine spelledAs_pretty_record fun m mem => ?_
    simp only [List.mem_cons, List.not_mem_nil, or_false] at mem
    rcases mem with rfl | rfl
    · exact spelledAs_pretty_text _
    · refine spelledAs_pretty_array fun v mem => ?_
      obtain ⟨a, -, rfl⟩ := List.mem_map.1 mem
      exact spelledAs_pretty_text _
  | error e =>
    refine spelledAs_pretty_record fun m mem => ?_
    simp only [List.mem_cons, List.not_mem_nil, or_false] at mem
    rcases mem with rfl | rfl <;> exact spelledAs_pretty_text _

/-- **A document that is shown is read as its value.** -/
theorem whole?_document {v : Json.Value} (h : v.SpelledAs (v.pretty 0)) :
    Json.Document.whole? (Report.document v).toList = some v := by
  have newline : Json.Blank ['\n'] := fun c mem => by
    rw [List.mem_singleton.1 mem]
    decide
  have shown : (Report.document v).toList = v.pretty 0 ++ ['\n'] := by
    unfold Report.document Report.line
    rw [String.toList_append, String.toList_ofList]
    rfl
  rw [shown]
  exact Json.Document.whole?_of_spelledAs (h.append_blank newline)

/-- **The entries of a JSON report are those of its actions,** in their order and with their repetitions. -/
theorem entries?_document (r : ScanReport) : entries? (Report.document r.toValue) = some (r.scans.map .ofScan) := by
  have spelled : r.toValue.SpelledAs (r.toValue.pretty 0) := by
    refine spelledAs_pretty_array fun v mem => ?_
    obtain ⟨s, -, rfl⟩ := List.mem_map.1 mem
    exact spelledAs_pretty_toValue s
  unfold entries?
  rw [whole?_document spelled]
  exact mapM_map_some Entry.ofValue?_toValue r.scans

/-! ## A text report -/

theorem concat_append (xs ys : List String) : Report.concat (xs ++ ys) = Report.concat xs ++ Report.concat ys := by
  induction xs with
  | nil => exact String.empty_append.symm
  | cons x xs ih =>
    show x ++ Report.concat (xs ++ ys) = x ++ Report.concat xs ++ Report.concat ys
    rw [ih, String.append_assoc]

theorem unlines_append (xs ys : List String) : unlines (xs ++ ys) = unlines xs ++ unlines ys := by
  unfold unlines
  rw [List.map_append, concat_append]

theorem unlines_cons (l : String) (ls : List String) : unlines (l :: ls) = Report.line l ++ unlines ls := rfl

theorem unlines_singleton (l : String) : unlines [l] = Report.line l :=
  String.append_empty

/-- Lines that are made for each of some things, all together. -/
theorem concat_map_unlines {α : Type} {shown : α → String} {lines : α → List String}
    (each : ∀ x, shown x = unlines (lines x)) (xs : List α) :
    Report.concat (xs.map shown) = unlines (xs.flatMap lines) := by
  induction xs with
  | nil => rfl
  | cons x xs ih =>
    rw [List.flatMap_cons, unlines_append, ← ih, ← each]
    rfl

theorem successText_eq (s : ActionScan) : s.successText = unlines (Entry.ofScan s).outputLines := by
  obtain ⟨name, outcome⟩ := s
  cases outcome with
  | ok inputs =>
    unfold ActionScan.successText Entry.outputLines Entry.ofScan
    dsimp only
    rw [unlines_cons, List.length_map, List.map_map]
    unfold unlines
    rw [List.map_map]
    rfl
  | error e => rfl

theorem failureText_eq (s : ActionScan) : s.failureText = unlines (Entry.ofScan s).errorLines := by
  obtain ⟨name, outcome⟩ := s
  cases outcome with
  | ok inputs => rfl
  | error e =>
    unfold ActionScan.failureText Entry.errorLines Entry.ofScan
    dsimp only
    rw [unlines_singleton]

/-! ## Both formats -/

theorem failed_ofScan (s : ActionScan) : (Entry.ofScan s).failed = !s.succeeded := by
  obtain ⟨name, outcome⟩ := s
  cases outcome <;> rfl

theorem failed_eq (r : ScanReport) : (r.scans.map Entry.ofScan).countP (·.failed) = r.failed := by
  unfold ScanReport.failed
  rw [List.countP_map]
  exact List.countP_congr fun s _ => by rw [Function.comp, failed_ofScan]

theorem closing_eq (r : ScanReport) :
    (r.failure?.map (·.text)).getD "" = unlines (closingLines (r.scans.map .ofScan)) := by
  unfold ScanReport.failure? closingLines
  rw [failed_eq, List.length_map]
  split
  · rfl
  · have causeless : String.ofList (Failure.causeLines []) = "" := rfl
    rw [unlines_singleton, Option.map_some, Option.getD_some]
    unfold Failure.text Report.line
    dsimp only
    rw [causeless, String.append_empty]
    simp only [String.append_assoc]

/-- **A scan report says what its actions came to,** in either format. -/
theorem ScanReport.reports (r : ScanReport) (format : Format) (elapsed : String) :
    Reports (r.scans.map .ofScan) r.scanners elapsed format (r.outcome format elapsed) where
  json := by
    rintro rfl
    refine ⟨entries?_document r, ?_⟩
    show "" ++ _ = _
    rw [String.empty_append, closing_eq]
  text := by
    rintro rfl
    constructor
    · show Report.concat _ ++ _ = _
      rw [concat_map_unlines successText_eq, unlines_append, List.flatMap_map, unlines_singleton]
      unfold summaryLine ScanReport.summary
      rw [List.length_map]
    · show Report.concat _ ++ _ = _
      rw [concat_map_unlines failureText_eq, unlines_append, List.flatMap_map, closing_eq]
  status := by
    have none_failed : (r.outcome format elapsed).status = 0 ↔ r.failed = 0 := by
      show (if r.failed = 0 then 0 else 1) = 0 ↔ _
      split <;> simp [*]
    rw [none_failed, ← failed_eq, List.countP_eq_zero]
    refine forall₂_congr fun e _ => ?_
    unfold Entry.failed
    cases e.answer <;> simp [Except.isOk, Except.toBool]

end Command
end IncludeClosure
