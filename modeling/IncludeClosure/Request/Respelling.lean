import Mathlib.Data.List.Duplicate
import IncludeClosure.Json.Spelling
/-!
# Request.Respelling — the ways in which a document says one request

Some values of a request's document can be written in more than one way, and where they stand is a `Place`.  At a place
of a record the order of the members does not count, nor do members of other names, nor a member that is left out and
one that gives the default; the values of all fields in order may stand for the record.  `Respelled` is one such change,
anywhere in a document.  A record that gives a field twice is none (`Repeats`).
-/
namespace IncludeClosure
namespace Request

open Json (Value)

/-- A place in the document of a request. -/
inductive Place where
  | request
  | roots
  | root
  | kind
  | unit
  | auxiliary
deriving DecidableEq, Repr

/-- A field of a record, with what it is when it is left out and the place that its value is. -/
structure Field where
  name : String
  default? : Option Value
  place? : Option Place

namespace Place

/-- **The fields of a record in order;** a place that is no record has none. -/
def fields : Place → List Field
  | request =>
    [⟨"version", none, none⟩, ⟨"execRoot", some .null, none⟩, ⟨"roots", some (.array []), some roots⟩,
      ⟨"unit", none, some unit⟩]
  | root => [⟨"path", none, none⟩, ⟨"kind", some (.text "source"), some kind⟩]
  | unit =>
    [⟨"mainSource", some (.text ""), none⟩, ⟨"sources", some (.array []), none⟩,
      ⟨"quoteIncludeDirs", some (.array []), none⟩, ⟨"includeDirs", some (.array []), none⟩,
      ⟨"systemIncludeDirs", some (.array []), none⟩, ⟨"builtinIncludeDirs", some (.array []), none⟩,
      ⟨"cmdlineIncludes", some (.array []), none⟩, ⟨"legalGeneratedFiles", some (.object []), none⟩,
      ⟨"auxiliary", some (.array []), some auxiliary⟩]
  | roots | kind | auxiliary => []

def IsRecord (p : Place) : Prop :=
  p = request ∨ p = root ∨ p = unit

/-- The place that the items of a list are. -/
def item? : Place → Option Place
  | roots => some root
  | auxiliary => some unit
  | _ => none

/-- The first fields with the given values. -/
def named (p : Place) (vs : List Value) : List (Value × Value) :=
  (p.fields.zip vs).map (fun entry => (.text entry.1.name, entry.2))

end Place

/-- **One change that keeps what a document says.**  As the order does not count, what is done to a member is said of the
first one. -/
inductive Respelled : Place → Value → Value → Prop where
  | permuted {p : Place} {ms ms' : List (Value × Value)} (record : p.IsRecord) (perm : ms.Perm ms') :
      Respelled p (.object ms) (.object ms')
  | added {p : Place} {ms : List (Value × Value)} {name : String} {v : Value} {text : List Char} (record : p.IsRecord)
      (unknown : ∀ f ∈ p.fields, f.name ≠ name) (formed : v.SpelledAs text) :
      Respelled p (.object ms) (.object ((.text name, v) :: ms))
  | removed {p : Place} {ms : List (Value × Value)} {name : String} {v : Value} (record : p.IsRecord)
      (unknown : ∀ f ∈ p.fields, f.name ≠ name) : Respelled p (.object ((.text name, v) :: ms)) (.object ms)
  | omitted {p : Place} {ms : List (Value × Value)} {f : Field} {v : Value} (record : p.IsRecord) (field : f ∈ p.fields)
      (default : f.default? = some v) : Respelled p (.object ((.text f.name, v) :: ms)) (.object ms)
  | supplied {p : Place} {ms : List (Value × Value)} {f : Field} {v : Value} (record : p.IsRecord) (field : f ∈ p.fields)
      (default : f.default? = some v) (absent : Value.text f.name ∉ ms.map Prod.fst) :
      Respelled p (.object ms) (.object ((.text f.name, v) :: ms))
  /-- A record that gives every field in order, and only these, may be written as the list of their values; the changes
  above lead to it from any object of the record. -/
  | listed {p : Place} {vs : List Value} (record : p.IsRecord) (full : vs.length = p.fields.length) :
      Respelled p (.object (p.named vs)) (.array vs)
  | wrapped {name : String} : Respelled .kind (.text name) (.object [(.text name, .null)])
  | unwrapped {name : String} : Respelled .kind (.object [(.text name, .null)]) (.text name)
  | member {p place : Place} {ms : List (Value × Value)} {f : Field} {v v' : Value} (record : p.IsRecord)
      (field : f ∈ p.fields) (inside : f.place? = some place) (change : Respelled place v v') :
      Respelled p (.object ((.text f.name, v) :: ms)) (.object ((.text f.name, v') :: ms))
  | element {p place : Place} {front back : List Value} {f : Field} {v v' : Value} (record : p.IsRecord)
      (field : p.fields[front.length]? = some f) (inside : f.place? = some place) (change : Respelled place v v') :
      Respelled p (.array (front ++ v :: back)) (.array (front ++ v' :: back))
  | item {p place : Place} {front back : List Value} {v v' : Value} (inside : p.item? = some place)
      (change : Respelled place v v') : Respelled p (.array (front ++ v :: back)) (.array (front ++ v' :: back))

/-- **Some record in the document gives one of its fields twice.** -/
inductive Repeats : Place → Value → Prop where
  | here {p : Place} {ms : List (Value × Value)} {f : Field} (record : p.IsRecord) (field : f ∈ p.fields)
      (twice : List.Duplicate (.text f.name) (ms.map Prod.fst)) : Repeats p (.object ms)
  | member {p place : Place} {ms : List (Value × Value)} {f : Field} {v : Value} (record : p.IsRecord)
      (field : f ∈ p.fields) (inside : f.place? = some place) (given : (.text f.name, v) ∈ ms) (h : Repeats place v) :
      Repeats p (.object ms)
  | element {p place : Place} {front back : List Value} {f : Field} {v : Value} (record : p.IsRecord)
      (field : p.fields[front.length]? = some f) (inside : f.place? = some place) (h : Repeats place v) :
      Repeats p (.array (front ++ v :: back))
  | item {p place : Place} {vs : List Value} {v : Value} (inside : p.item? = some place) (mem : v ∈ vs)
      (h : Repeats place v) : Repeats p (.array vs)

end Request
end IncludeClosure
