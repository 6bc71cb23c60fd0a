import IncludeClosure.Json.Printer
import IncludeClosure.Request.Basic
/-!
# Request.Writer — from a request to a text

Every field is written, also one that has its default; only an execution root that is not given is left out.
-/
namespace IncludeClosure

namespace Path

def toValue (p : Path) : Json.Value :=
  .text p.text

def listToValue (ps : List Path) : Json.Value :=
  .array (ps.map toValue)

end Path

namespace RootDeclaration

def toValue (d : RootDeclaration) : Json.Value :=
  .record [("path", d.path.toValue), ("kind", .text d.kind.label)]

end RootDeclaration

namespace UnitDeclaration

mutual

/-- **A unit in a document.** -/
def toValue : UnitDeclaration → Json.Value
  | ⟨mainSource, sources, quoteDirs, includeDirs, systemDirs, builtinDirs, forcedIncludes, generated, auxiliary⟩ =>
    .record
      [("mainSource", mainSource.toValue),
       ("sources", Path.listToValue sources),
       ("quoteIncludeDirs", Path.listToValue quoteDirs),
       ("includeDirs", Path.listToValue includeDirs),
       ("systemIncludeDirs", Path.listToValue systemDirs),
       ("builtinIncludeDirs", Path.listToValue builtinDirs),
       ("cmdlineIncludes", .array (forcedIncludes.map .text)),
       ("legalGeneratedFiles", .object (generated.entries.map (fun e => (e.1.toValue, e.2.toValue)))),
       ("auxiliary", .array (toValues auxiliary))]

def toValues : List UnitDeclaration → List Json.Value
  | [] => []
  | d :: rest => d.toValue :: toValues rest

end

end UnitDeclaration

namespace Request

/-- **A request in a document.** -/
def toValue (q : Request) : Json.Value :=
  .record
    ([("version", .ofNat q.version)]
      ++ q.execRoot.toList.map (fun p => ("execRoot", p.toValue))
      ++ [("roots", .array (q.roots.map (·.toValue))), ("unit", q.unit.toValue)])

/-- **The text of a request.** -/
def toJson (q : Request) : String :=
  String.ofList q.toValue.compact

end Request
end IncludeClosure
