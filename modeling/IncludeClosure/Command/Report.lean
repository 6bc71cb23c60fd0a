import IncludeClosure.Command.Arguments
import IncludeClosure.Command.Elapsed
import IncludeClosure.Command.Outcome
import IncludeClosure.Json.Printer
import IncludeClosure.Scan.Batch
/-!
# Command.Report — showing results

Text reports have a line for every action or file and an indented line for every input or directive; failed actions
are reported on the error output.  JSON reports are one document.  Paths are text here, so there is none that a document
could not hold.
-/
namespace IncludeClosure

namespace Directive

def toValue (d : Directive) : Json.Value :=
  .record [("form", .text d.form.label), ("target", .text d.target)]

end Directive

namespace Report

def line (text : String) : String :=
  text ++ "\n"

def concat (texts : List String) : String :=
  texts.foldr (· ++ ·) ""

def item (text : String) : String :=
  line ("  → " ++ text)

def document (v : Json.Value) : String :=
  line (String.ofList (v.pretty 0))

end Report

namespace ActionScan

/-- **An action in a JSON report:** its name, and either its inputs or why there are none. -/
def toValue (s : ActionScan) : Json.Value :=
  match s.outcome with
  | .ok inputs => .record [("request", .text s.name), ("inputs", .array (inputs.map (fun a => .text a.path.text)))]
  | .error e => .record [("request", .text s.name), ("error", .text e.message)]

def successText (s : ActionScan) : String :=
  match s.outcome with
  | .ok inputs =>
    Report.line ("✓ " ++ s.name ++ " (" ++ countOf inputs.length "input" ++ ")")
      ++ Report.concat (inputs.map (fun a => Report.item a.path.text))
  | .error _ => ""

def failureText (s : ActionScan) : String :=
  match s.outcome with
  | .ok _ => ""
  | .error e => Report.line ("✗ " ++ s.name ++ ": " ++ e.message)

end ActionScan

namespace Command

/-- The result of `scan`: every action's outcome, and the number of scanners that were in use. -/
structure ScanReport where
  scans : List ActionScan
  scanners : Nat

namespace ScanReport

def failed (r : ScanReport) : Nat :=
  r.scans.countP (fun s => !s.succeeded)

def toValue (r : ScanReport) : Json.Value :=
  .array (r.scans.map (·.toValue))

def summary (r : ScanReport) (elapsed : String) : String :=
  Report.line ("• Scanned " ++ countOf r.scans.length "action" ++ " with " ++ countOf r.scanners "scanner" ++ " in "
    ++ elapsed)

def failure? (r : ScanReport) : Option Failure :=
  if r.failed = 0 then none
  else some { what := toString r.failed ++ " of " ++ toString r.scans.length ++ " action(s) failed", causes := [] }

def stdout (r : ScanReport) (format : Format) (elapsed : String) : String :=
  match format with
  | .json => Report.document r.toValue
  | .text => Report.concat (r.scans.map (·.successText)) ++ r.summary elapsed

def stderr (r : ScanReport) (format : Format) : String :=
  match format with
  | .json => ""
  | .text => Report.concat (r.scans.map (·.failureText))

/-- **What the command leaves behind:** it succeeds when no action has failed. -/
def outcome (r : ScanReport) (format : Format) (elapsed : String) : Outcome :=
  { status := if r.failed = 0 then 0 else 1
    stdout := r.stdout format elapsed
    stderr := r.stderr format ++ (r.failure?.map (·.text)).getD "" }

end ScanReport

/-- The directives of one file. -/
structure FileDirectives where
  file : Path
  directives : List Directive
deriving DecidableEq, Repr

namespace FileDirectives

def toValue (f : FileDirectives) : Json.Value :=
  .record [("file", .text f.file.text), ("directives", .array (f.directives.map (·.toValue)))]

def text (f : FileDirectives) : String :=
  Report.line (f.file.text ++ " (" ++ countOf f.directives.length "directive" ++ ")")
    ++ Report.concat (f.directives.map (fun d => Report.item d.display))

/-- **What `directives` leaves behind.** -/
def outcome (files : List FileDirectives) (format : Format) : Outcome :=
  { status := 0
    stdout := match format with
      | .json => Report.document (.array (files.map (·.toValue)))
      | .text => Report.concat (files.map (·.text))
    stderr := "" }

end FileDirectives
end Command
end IncludeClosure
