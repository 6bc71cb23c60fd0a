import IncludeClosure.Json.Document
import IncludeClosure.Request.Basic
/-!
# Request.Reader — from a text to a request

A document is read in the order in which it is written, so of several faults the first counts.  A record may be an
object, whose unknown members are skipped and whose known members may come once each, or an array of its fields in
order.  At most `deepest` containers may be open in what is read; skipped values may be nested at will.  The version is
looked at when everything else has been read.
-/
namespace IncludeClosure
namespace Request
namespace Reader

open Json (Value)

/-- What a reader gives. -/
abbrev Read (α : Type) := Except Fault α

def deepest : Nat := 127

/-- How numbers are shown: positional from 0.00001 up to sixteen digits before the point. -/
def numberLayout : Decimal.Shortest.Layout :=
  { lowest := -5, highest := 16 }

def floatText (negative : Bool) (v : Decimal.Binary) : String :=
  (if negative then "-" else "") ++ (Decimal.Shortest.ofBinary v).text numberLayout

def flawed {α : Type} (flaw : Json.Flaw) : Read α :=
  .error (.flaw flaw)

def wrong {α : Type} (mismatch : Mismatch) : Read α :=
  .error (.mismatch mismatch)

def found : Value → Read Found
  | .null => .ok .null
  | .boolean b => .ok (.boolean b)
  | .number n =>
    match n.magnitude? with
    | none => flawed .hugeNumber
    | some (.natural n) => .ok (.natural n)
    | some (.negative n) => .ok (.negative n)
    | some (.float negative v) => .ok (.float (floatText negative v))
  | .string (.ok s) => .ok (.text s)
  | .string (.error flaw) => flawed flaw
  | .array _ => .ok .sequence
  | .object _ => .ok .map
  | .broken why => flawed why.read

def mistyped {α : Type} (v : Value) (expected : String) : Read α := do
  wrong (.wrongType (← found v) expected)

/-- A text; `expected` is what messages call it. -/
def text (expected : String) : Value → Read String
  | .string (.ok s) => .ok s
  | v => mistyped v expected

def path (v : Value) : Read Path :=
  (text "path string" v).map Path.mk

def optionalPath : Value → Read (Option Path)
  | .null => .ok none
  | v => (path v).map some

def word32 (v : Value) : Read Nat := do
  match ← found v with
  | .natural n => if n < Nat.pow 2 32 then .ok n else wrong (.wrongValue (.natural n) "u32")
  | .negative n => wrong (.wrongValue (.negative n) "u32")
  | other => wrong (.wrongType other "u32")

def items {α : Type} (read : Value → Read α) : List Value → Read (List α)
  | [] => .ok []
  | v :: rest => do
    let a ← read v
    let others ← items read rest
    .ok (a :: others)

/-- **A list;** `room` is the number of containers that may still be opened. -/
def list {α : Type} (room : Nat) (read : Value → Read α) : Value → Read (List α)
  | .array vs => if room = 0 then flawed .tooDeep else items read vs
  | v => mistyped v "a sequence"

/-- Members whose keys are paths.  A later member with an equal key sets the value anew. -/
def pathMembers : DeclaredFiles → List (Value × Value) → Read DeclaredFiles
  | table, [] => .ok table
  | table, (.string key, v) :: rest =>
    match key with
    | .error flaw => flawed flaw
    | .ok key => do
      let written ← path v
      pathMembers (table.set ⟨key⟩ written) rest
  | _, (_, v) :: _ => do
    let _ ← found v
    flawed .keyNoString

def pathTable (room : Nat) : Value → Read DeclaredFiles
  | .object members => if room = 0 then flawed .tooDeep else pathMembers .empty members
  | v => mistyped v "a map"

/-- **How a kind of record is read.**  `read` takes in one field; `room` is the number of containers that may still be
opened inside the record. -/
structure RecordReader (σ : Type) where
  title : String
  fields : List String
  required : List String
  read : (room : Nat) → String → Value → σ → Read σ

namespace RecordReader

variable {σ : Type}

/-- The members of an object: the fields that were seen, and the record. -/
def members (r : RecordReader σ) (room : Nat) : List String → σ → List (Value × Value) → Read (List String × σ)
  | seen, s, [] => .ok (seen, s)
  | seen, s, (.string key, v) :: rest =>
    match key with
    | .error flaw => flawed flaw
    | .ok key =>
      if key ∈ r.fields then
        if key ∈ seen then wrong (.repeatedField key)
        else do
          let s ← r.read room key v s
          members r room (key :: seen) s rest
      else
        match v.skip with
        | .error flaw => flawed flaw
        | .ok () => members r room seen s rest
  | _, _, (_, v) :: _ => do
    let _ ← found v
    flawed .keyNoString

/-- What follows the last field of a record that is written as an array. -/
def excess : Value → Json.Flaw
  | .broken why =>
    match why.read with
    | .endInArray => .endInArray
    | .trailingComma => .trailingComma
    | _ => .trailingText
  | _ => .trailingText

/-- The items of an array: the fields that are left over, and the record. -/
def elements (r : RecordReader σ) (room : Nat) : List String → σ → List Value → Read (List String × σ)
  | left, s, [] => .ok (left, s)
  | [], _, v :: _ => flawed (excess v)
  | field :: left, s, v :: rest => do
    let s ← r.read room field v s
    elements r room left s rest

/-- **A record.** -/
def record (r : RecordReader σ) (room : Nat) (start : σ) : Value → Read σ
  | .object ms =>
    match room with
    | 0 => flawed .tooDeep
    | room + 1 => do
      let (seen, s) ← r.members room [] start ms
      match r.required.find? (· ∉ seen) with
      | some field => wrong (.missingField field)
      | none => .ok s
  | .array vs =>
    match room with
    | 0 => flawed .tooDeep
    | room + 1 => do
      let (left, s) ← r.elements room r.fields start vs
      match r.required.find? (· ∈ left) with
      | some field =>
        wrong (.tooShort (r.fields.idxOf field)
          ("struct " ++ r.title ++ " with " ++ toString r.fields.length ++ " elements"))
      | none => .ok s
  | v => mistyped v ("struct " ++ r.title)

end RecordReader

def kindNames : String := "`source` or `output`"

def kindNamed (v : Value) : Read RootKind := do
  let name ← text "variant identifier" v
  match RootKind.ofLabel? name with
  | some kind => .ok kind
  | none => wrong (.unknownVariant name kindNames)

/-- What follows the one member of a kind that is written as an object. -/
def kindExcess : List (Value × Value) → Read Unit
  | [] => .ok ()
  | (.broken _, .broken why) :: _ => flawed (if why.read = .endInObject then .endInObject else .noValue)
  | _ => flawed .noValue

/-- **The kind of a root:** its name, or an object with the name as its one key and null as the value. -/
def kind (room : Nat) : Value → Read RootKind
  | .string s => kindNamed (.string s)
  | .object ms =>
    if room = 0 then flawed .tooDeep
    else match ms with
      | [] => flawed .keyNoString
      | (.string name, v) :: rest => do
        let kind ← kindNamed (.string name)
        match v with
        | .null => do
          kindExcess rest
          .ok kind
        | v => mistyped v "unit"
      | (_, v) :: _ => do
        let _ ← found v
        flawed .keyNoString
  | .broken why => flawed why.glanced
  | _ => flawed .noValue

def rootReader : RecordReader RootDeclaration where
  title := "RootDecl"
  fields := ["path", "kind"]
  required := ["path"]
  read room field v d :=
    match field with
    | "path" => do .ok { d with path := ← path v }
    | _ => do .ok { d with kind := ← kind room v }

/-- A declared root; it is a source unless its kind is given. -/
def root (room : Nat) (v : Value) : Read RootDeclaration :=
  rootReader.record room { path := ⟨""⟩, kind := .source } v

def unitReader (auxiliary : (room : Nat) → Value → Read (List UnitDeclaration)) : RecordReader UnitDeclaration where
  title := "UnitDecl"
  fields := ["mainSource", "sources", "quoteIncludeDirs", "includeDirs", "systemIncludeDirs", "builtinIncludeDirs",
    "cmdlineIncludes", "legalGeneratedFiles", "auxiliary"]
  required := []
  read room field v d :=
    match field with
    | "mainSource" => do .ok { d with mainSource := ← path v }
    | "sources" => do .ok { d with sources := ← list room path v }
    | "quoteIncludeDirs" => do .ok { d with quoteDirs := ← list room path v }
    | "includeDirs" => do .ok { d with includeDirs := ← list room path v }
    | "systemIncludeDirs" => do .ok { d with systemDirs := ← list room path v }
    | "builtinIncludeDirs" => do .ok { d with builtinDirs := ← list room path v }
    | "cmdlineIncludes" => do .ok { d with forcedIncludes := ← list room (text "a string") v }
    | "legalGeneratedFiles" => do .ok { d with generated := ← pathTable room v }
    | _ => do .ok { d with auxiliary := ← auxiliary room v }

/-- **A unit.**  An auxiliary opens two more containers: the list that holds it, and itself. -/
def unit : Nat → Value → Read UnitDeclaration
  | room + 2, v =>
    (unitReader (fun _ => list (room + 1) (unit room))).record (room + 2) .empty v
  | room, v => (unitReader (fun _ => list 0 (fun _ => flawed .tooDeep))).record room .empty v

def request : RecordReader Request where
  title := "ScanRequest"
  fields := ["version", "execRoot", "roots", "unit"]
  required := ["version", "unit"]
  read room field v q :=
    match field with
    | "version" => do .ok { q with version := ← word32 v }
    | "execRoot" => do .ok { q with execRoot := ← optionalPath v }
    | "roots" => do .ok { q with roots := ← list room (root (room - 1)) v }
    | _ => do .ok { q with unit := ← unit room v }

/-- **The request that a document says.** -/
def document (d : Json.Document) : Read Request := do
  let q ← request.record deepest { version := 0, execRoot := none, roots := [], unit := .empty } d.value
  if d.trailing then flawed .trailingText else .ok q

end Reader

/-- **The request that a text spells,** of whatever version. -/
def ofText (content : String) : Except Fault Request :=
  Reader.document (.ofText content.toList)

/-- **Read a request:** its text has to be right as a whole, and then its version. -/
def ofJson (content : String) : Except Error Request :=
  match ofText content with
  | .error fault => .error (.invalid fault)
  | .ok request =>
    if request.version = currentVersion then .ok request else .error (.unsupportedVersion request.version)

end Request
end IncludeClosure
