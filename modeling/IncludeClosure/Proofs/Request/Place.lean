import Mathlib.Data.List.Pairwise
import IncludeClosure.Proofs.Request.Record
import IncludeClosure.Request.Respelling
/-!
# Proofs.Request.Place — how the values at a place are read

Reading a field of a record decodes its value and puts what it says into the record (`Slot`), and what is put in for two
fields does not depend on the order.  With that, the readers of requests, roots and units are one kind of thing, a lawful
reader of the fields of its place (`Place.Lawful`).
-/
namespace IncludeClosure
namespace Request
namespace Reader

open Json (Value)

/-- A field with the reader of its values and the place in the record that they are put into. -/
structure Slot (σ : Type) where
  name : String
  Content : Type
  decode : Value → Read Content
  put : Content → σ → σ

namespace Slot

variable {σ : Type}

def Commute (a b : Slot σ) : Prop :=
  ∀ x y s, a.put x (b.put y s) = b.put y (a.put x s)

instance : Std.Symm (Commute (σ := σ)) where
  symm _ _ h x y s := (h y x s).symm

end Slot

namespace RecordReader

variable {σ : Type} {r : RecordReader σ} {room : Nat} {slots : List (Slot σ)}

/-- The fields of the record are read into these slots. -/
structure ReadsInto (r : RecordReader σ) (room : Nat) (slots : List (Slot σ)) : Prop where
  names : r.fields = slots.map (·.name)
  read : ∀ slot ∈ slots, ∀ v s, r.read room slot.name v s = (slot.decode v).map (slot.put · s)
  commute : slots.Pairwise Slot.Commute

namespace ReadsInto

theorem exists_slot (h : r.ReadsInto room slots) {name : String} (known : name ∈ r.fields) :
    ∃ slot ∈ slots, slot.name = name := by
  rw [h.names] at known
  exact List.mem_map.1 known

theorem read_ok (h : r.ReadsInto room slots) {slot : Slot σ} (mem : slot ∈ slots) {v : Value} {s s' : σ}
    (read : r.read room slot.name v s = .ok s') : ∃ x, slot.decode v = .ok x ∧ slot.put x s = s' := by
  rw [h.read slot mem] at read
  cases decoded : slot.decode v with
  | error fault => rw [decoded] at read; cases read
  | ok x =>
    rw [decoded] at read
    exact ⟨x, rfl, Except.ok.inj read⟩

theorem ok_read (h : r.ReadsInto room slots) {slot : Slot σ} (mem : slot ∈ slots) {v : Value} {x : slot.Content}
    (decoded : slot.decode v = .ok x) (s : σ) : r.read room slot.name v s = .ok (slot.put x s) := by
  rw [h.read slot mem, decoded]
  rfl

/-- **Two fields may be read in either order.** -/
theorem commutes (h : r.ReadsInto room slots) : r.Commutes room := by
  intro a b v w s s₁ s₂ knownA knownB apart readA readB
  obtain ⟨slotA, memA, rfl⟩ := h.exists_slot knownA
  obtain ⟨slotB, memB, rfl⟩ := h.exists_slot knownB
  obtain ⟨x, decodedA, rfl⟩ := h.read_ok memA readA
  obtain ⟨y, decodedB, rfl⟩ := h.read_ok memB readB
  have commute : slotA.Commute slotB :=
    h.commute.forall memA memB fun same => apart (congrArg Slot.name same)
  refine ⟨slotB.put y s, h.ok_read memB decodedB s, ?_⟩
  rw [h.ok_read memA decodedA, commute]

/-- **What holds of a record as long as slots are filled.** -/
theorem invariant (h : r.ReadsInto room slots) {motive : σ → Prop}
    (step : ∀ slot ∈ slots, ∀ v x s, slot.decode v = .ok x → motive s → motive (slot.put x s))
    {ms : List (Value × Value)} {s s' : σ} (fills : Fills r room s ms s') : motive s → motive s' := by
  refine fills.invariant fun {name v s s'} known read holds => ?_
  obtain ⟨slot, mem, rfl⟩ := h.exists_slot known
  obtain ⟨x, decoded, rfl⟩ := h.read_ok mem read
  exact step slot mem v x s decoded holds

end ReadsInto
end RecordReader

/-! ## The slots of each record -/

def rootSlots (room : Nat) : List (Slot RootDeclaration) :=
  [⟨"path", Path, path, fun x d => { d with path := x }⟩, ⟨"kind", RootKind, kind room, fun x d => { d with kind := x }⟩]

def unitSlots (room : Nat) (auxiliary : Value → Read (List UnitDeclaration)) : List (Slot UnitDeclaration) :=
  [⟨"mainSource", Path, path, fun x d => { d with mainSource := x }⟩,
    ⟨"sources", List Path, list room path, fun x d => { d with sources := x }⟩,
    ⟨"quoteIncludeDirs", List Path, list room path, fun x d => { d with quoteDirs := x }⟩,
    ⟨"includeDirs", List Path, list room path, fun x d => { d with includeDirs := x }⟩,
    ⟨"systemIncludeDirs", List Path, list room path, fun x d => { d with systemDirs := x }⟩,
    ⟨"builtinIncludeDirs", List Path, list room path, fun x d => { d with builtinDirs := x }⟩,
    ⟨"cmdlineIncludes", List String, list room (text "a string"), fun x d => { d with forcedIncludes := x }⟩,
    ⟨"legalGeneratedFiles", DeclaredFiles, pathTable room, fun x d => { d with generated := x }⟩,
    ⟨"auxiliary", List UnitDeclaration, auxiliary, fun x d => { d with auxiliary := x }⟩]

def requestSlots (room : Nat) : List (Slot Request) :=
  [⟨"version", Nat, word32, fun x q => { q with version := x }⟩,
    ⟨"execRoot", Option Path, optionalPath, fun x q => { q with execRoot := x }⟩,
    ⟨"roots", List RootDeclaration, list room (root (room - 1)), fun x q => { q with roots := x }⟩,
    ⟨"unit", UnitDeclaration, unit room, fun x q => { q with unit := x }⟩]

theorem rootReader_readsInto (room : Nat) : rootReader.ReadsInto room (rootSlots room) where
  names := rfl
  read := by
    simp only [rootSlots, List.forall_mem_cons]
    exact ⟨fun _ _ => rfl, fun _ _ => rfl, nofun⟩
  commute := by
    simp only [rootSlots, List.pairwise_cons, List.forall_mem_cons]
    exact ⟨⟨fun _ _ _ => rfl, nofun⟩, nofun, .nil⟩

theorem unitReader_readsInto (room : Nat) (auxiliary : Value → Read (List UnitDeclaration)) :
    (unitReader (fun _ => auxiliary)).ReadsInto room (unitSlots room auxiliary) where
  names := rfl
  read := by
    simp only [unitSlots, List.forall_mem_cons]
    exact ⟨fun _ _ => rfl, fun _ _ => rfl, fun _ _ => rfl, fun _ _ => rfl, fun _ _ => rfl, fun _ _ => rfl,
      fun _ _ => rfl, fun _ _ => rfl, fun _ _ => rfl, nofun⟩
  commute := by
    simp only [unitSlots, List.pairwise_cons, List.forall_mem_cons, Slot.Commute]
    simp

theorem request_readsInto (room : Nat) : request.ReadsInto room (requestSlots room) where
  names := rfl
  read := by
    simp only [requestSlots, List.forall_mem_cons]
    exact ⟨fun _ _ => rfl, fun _ _ => rfl, fun _ _ => rfl, fun _ _ => rfl, nofun⟩
  commute := by
    simp only [requestSlots, List.pairwise_cons, List.forall_mem_cons, Slot.Commute]
    simp

variable {α : Type}

theorem items_ok_iff {read : Value → Read α} : ∀ {vs : List Value} {xs : List α},
    items read vs = .ok xs ↔ List.Forall₂ (fun v x => read v = .ok x) vs xs
  | [], xs => by simp [items, eq_comm]
  | v :: vs, xs => by
    rw [items, List.forall₂_cons_left_iff]
    cases first : read v with
    | error fault => simp [bind, Except.bind]
    | ok x =>
      cases rest : items read vs with
      | error fault => simp [bind, Except.bind, ← items_ok_iff, rest]
      | ok others => simp [bind, Except.bind, ← items_ok_iff, rest, eq_comm]

theorem list_array_ok_iff {room : Nat} {read : Value → Read α} {vs : List Value} {xs : List α} :
    list room read (.array vs) = .ok xs ↔ room ≠ 0 ∧ List.Forall₂ (fun v x => read v = .ok x) vs xs := by
  rw [← items_ok_iff, list]
  split
  · rename_i none
    simp [none, flawed]
  · rename_i room
    simp [room]

/-- Only an array is read as a list. -/
theorem exists_array_of_list {room : Nat} {read : Value → Read α} {v : Value} {xs : List α}
    (h : list room read v = .ok xs) : ∃ vs, v = .array vs ∧ List.Forall₂ (fun v x => read v = .ok x) vs xs := by
  cases v with
  | array vs => exact ⟨vs, rfl, (list_array_ok_iff.1 h).2⟩
  | _ => exact absurd h (mistyped_ne_ok _ _ _)

theorem list_array_ok_mem {room : Nat} {read : Value → Read α} {vs : List Value} {xs : List α}
    (h : list room read (.array vs) = .ok xs) {v : Value} (mem : v ∈ vs) : ∃ x, read v = .ok x := by
  obtain ⟨i, bound, rfl⟩ := List.mem_iff_getElem.1 mem
  have each := (list_array_ok_iff.1 h).2
  exact ⟨_, each.get bound (each.length_eq ▸ bound)⟩

theorem list_array_congr {room : Nat} {read : Value → Read α} {v v' : Value}
    (same : ∀ x, read v = .ok x → read v' = .ok x) {front back : List Value} {xs : List α}
    (h : list room read (.array (front ++ v :: back)) = .ok xs) : list room read (.array (front ++ v' :: back)) = .ok xs := by
  obtain ⟨room, each⟩ := list_array_ok_iff.1 h
  refine list_array_ok_iff.2 ⟨room, ?_⟩
  clear h
  induction front generalizing xs with
  | nil =>
    obtain ⟨x, others, first, rest, rfl⟩ := List.forall₂_cons_left_iff.1 each
    exact .cons (same x first) rest
  | cons w front ih =>
    obtain ⟨x, others, first, rest, rfl⟩ := List.forall₂_cons_left_iff.1 each
    exact .cons first (ih rest)

theorem list_nil {room : Nat} (h : room ≠ 0) (read : Value → Read α) : list room read (.array []) = .ok [] :=
  if_neg h

/-- A unit holds its auxiliaries two containers further in. -/
theorem unit_succ (inner : Nat) (v : Value) :
    unit (inner + 1) v = (unitReader (fun _ => list inner (unit (inner - 1)))).record (inner + 1) .empty v := by
  cases inner with
  | succ room => rfl
  | zero =>
    have noRoom : (list 0 (fun _ => flawed .tooDeep) : Value → Read (List UnitDeclaration)) = list 0 (unit (0 - 1)) := by
      funext v
      cases v <;> rfl
    show (unitReader (fun _ => list 0 (fun _ => flawed .tooDeep))).record 1 .empty v = _
    rw [noRoom]

end Reader

namespace Place

open Reader
open Json (Value)

/-- A request of which nothing has been read. -/
def blank : Request :=
  { version := 0, execRoot := none, roots := [], unit := .empty }

/-- What is read at a place. -/
def Result : Place → Type
  | request => Request
  | roots => List RootDeclaration
  | root => RootDeclaration
  | kind => RootKind
  | unit => UnitDeclaration
  | auxiliary => List UnitDeclaration

/-- **How a value is read at a place;** `room` is the number of containers that may still be opened. -/
def read : (p : Place) → (room : Nat) → Value → Read p.Result
  | request, room => Reader.request.record room blank
  | roots, room => list room (Reader.root (room - 1))
  | root, room => Reader.root room
  | kind, room => Reader.kind room
  | unit, room => Reader.unit room
  | auxiliary, room => list room (Reader.unit (room - 1))

/-- As many containers may be opened at a place of a document.  A unit is two further in than the one it belongs to, so
only whether their number is even can be said. -/
def HasRoom : Place → Nat → Prop
  | request, room => room = deepest
  | roots, room => room + 1 = deepest
  | root, room => room + 2 = deepest
  | kind, room => room + 3 = deepest
  | unit, room => room % 2 = 0
  | auxiliary, room => room % 2 = 1

theorem HasRoom.inside {p place : Place} {inner : Nat} (h : p.HasRoom (inner + 1)) {f : Field} (field : f ∈ p.fields)
    (inside : f.place? = some place) : place.HasRoom inner := by
  cases p <;> simp only [fields, List.mem_cons, List.not_mem_nil, or_false] at field
  case request =>
    have h : inner + 1 = deepest := h
    rcases field with rfl | rfl | rfl | rfl <;> cases inside
    · exact h
    · show inner % 2 = 0
      simp only [deepest] at h
      omega
  case root =>
    rcases field with rfl | rfl <;> cases inside
    exact h
  case unit =>
    have h : (inner + 1) % 2 = 0 := h
    rcases field with rfl | rfl | rfl | rfl | rfl | rfl | rfl | rfl | rfl <;> cases inside
    show inner % 2 = 1
    omega

/-- A list may be opened in a record. -/
theorem HasRoom.inner_ne_zero {p : Place} {inner : Nat} (h : p.HasRoom (inner + 1)) (record : p.IsRecord) :
    inner ≠ 0 := by
  rintro rfl
  rcases record with rfl | rfl | rfl
  · exact absurd (show 1 = deepest from h) (by decide)
  · exact absurd (show 3 = deepest from h) (by decide)
  · exact absurd (show 1 % 2 = 0 from h) (by decide)

/-- A reader of the fields of a record's place. -/
structure Lawful (p : Place) (inner : Nat) (r : RecordReader p.Result) (start : p.Result) : Prop where
  names : r.fields = p.fields.map Field.name
  nodup : r.fields.Nodup
  closed : ∀ name ∈ r.required, name ∈ r.fields
  optional : ∀ f ∈ p.fields, f.default? ≠ none → f.name ∉ r.required
  commutes : r.Commutes inner
  default : inner ≠ 0 → ∀ f ∈ p.fields, ∀ v, f.default? = some v → r.read inner f.name v start = .ok start
  inside : ∀ f ∈ p.fields, ∀ place, f.place? = some place → ∃ put : place.Result → p.Result → p.Result,
    ∀ v s, r.read inner f.name v s = (place.read inner v).map (put · s)

theorem lawful_request (inner : Nat) : Lawful request inner Reader.request blank where
  names := rfl
  nodup := by decide
  closed := by decide
  optional := by decide
  commutes := (request_readsInto inner).commutes
  default room := by
    simp only [fields, List.forall_mem_cons]
    refine ⟨nofun, ?_, ?_, nofun, nofun⟩
    · rintro _ ⟨⟩
      rfl
    · rintro _ ⟨⟩
      exact congrArg (Except.map _) (list_nil room _)
  inside := by
    simp only [fields, List.forall_mem_cons]
    refine ⟨nofun, nofun, ?_, ?_, nofun⟩
    · rintro _ ⟨⟩
      exact ⟨fun x q => { q with roots := x }, fun _ _ => rfl⟩
    · rintro _ ⟨⟩
      exact ⟨fun x q => { q with unit := x }, fun _ _ => rfl⟩

theorem lawful_root (inner : Nat) : Lawful root inner rootReader { path := ⟨""⟩, kind := .source } where
  names := rfl
  nodup := by decide
  closed := by decide
  optional := by decide
  commutes := (rootReader_readsInto inner).commutes
  default _ := by
    simp only [fields, List.forall_mem_cons]
    refine ⟨nofun, ?_, nofun⟩
    rintro _ ⟨⟩
    rfl
  inside := by
    simp only [fields, List.forall_mem_cons]
    refine ⟨nofun, ?_, nofun⟩
    rintro _ ⟨⟩
    exact ⟨fun x d => { d with kind := x }, fun _ _ => rfl⟩

theorem lawful_unit (inner : Nat) :
    Lawful unit inner (unitReader (fun _ => list inner (Reader.unit (inner - 1)))) .empty where
  names := rfl
  nodup := show (unit.fields.map Field.name).Nodup by decide
  closed := nofun
  optional _ _ _ := nofun
  commutes := (unitReader_readsInto inner _).commutes
  default room := by
    have none {α : Type} (read : Value → Read α) (put : List α → UnitDeclaration) (same : put [] = .empty) :
        (list inner read (.array [])).map put = .ok .empty := by
      rw [list_nil room, ← same]
      rfl
    simp only [fields, List.forall_mem_cons]
    refine ⟨?_, ?_, ?_, ?_, ?_, ?_, ?_, ?_, ?_, nofun⟩ <;> rintro _ ⟨⟩
    · rfl
    · exact none path (fun x => { UnitDeclaration.empty with sources := x }) rfl
    · exact none path (fun x => { UnitDeclaration.empty with quoteDirs := x }) rfl
    · exact none path (fun x => { UnitDeclaration.empty with includeDirs := x }) rfl
    · exact none path (fun x => { UnitDeclaration.empty with systemDirs := x }) rfl
    · exact none path (fun x => { UnitDeclaration.empty with builtinDirs := x }) rfl
    · exact none _ (fun x => { UnitDeclaration.empty with forcedIncludes := x }) rfl
    · have table : pathTable inner (.object []) = .ok .empty := if_neg room
      exact congrArg (Except.map fun x => { UnitDeclaration.empty with generated := x }) table
    · exact none _ (fun x => { UnitDeclaration.empty with auxiliary := x }) rfl
  inside := by
    simp only [fields, List.forall_mem_cons]
    refine ⟨nofun, nofun, nofun, nofun, nofun, nofun, nofun, nofun, ?_, nofun⟩
    rintro _ ⟨⟩
    exact ⟨fun x d => { d with auxiliary := x }, fun _ _ => rfl⟩

/-- **A record is read by a lawful reader.** -/
theorem IsRecord.exists_reader {p : Place} (h : p.IsRecord) (inner : Nat) : ∃ r start, p.Lawful inner r start ∧
    ∀ v, p.read (inner + 1) v = r.record (inner + 1) start v := by
  rcases h with rfl | rfl | rfl
  · exact ⟨_, _, lawful_request inner, fun _ => rfl⟩
  · exact ⟨_, _, lawful_root inner, fun _ => rfl⟩
  · exact ⟨_, _, lawful_unit inner, unit_succ inner⟩

theorem IsRecord.read_zero_ne_ok {p : Place} (h : p.IsRecord) (v : Value) (x : p.Result) : p.read 0 v ≠ .ok x := by
  rcases h with rfl | rfl | rfl
  · exact Reader.request.record_zero_ne_ok blank v x
  · exact rootReader.record_zero_ne_ok { path := ⟨""⟩, kind := .source } v x
  · exact RecordReader.record_zero_ne_ok .empty v x

/-- **Whatever has been read as a record** has been read by a lawful reader, and takes up a container. -/
theorem IsRecord.exists_lawful {p : Place} (h : p.IsRecord) {room : Nat} {v : Value} {x : p.Result}
    (read : p.read room v = .ok x) : ∃ inner r start, room = inner + 1 ∧ p.Lawful inner r start ∧
      ∀ w, p.read room w = r.record (inner + 1) start w := by
  cases room with
  | zero => exact absurd read (h.read_zero_ne_ok v x)
  | succ inner =>
    obtain ⟨r, start, lawful, reads⟩ := h.exists_reader inner
    exact ⟨inner, r, start, rfl, lawful, reads⟩

theorem HasRoom.item {p place : Place} {room : Nat} (h : p.HasRoom room) (inside : p.item? = some place) :
    place.HasRoom (room - 1) := by
  cases p <;> cases inside
  case roots =>
    have h : room + 1 = deepest := h
    show room - 1 + 2 = deepest
    simp only [deepest] at h ⊢
    omega
  case auxiliary =>
    have h : room % 2 = 1 := h
    show (room - 1) % 2 = 0
    omega

/-- Every item of a list that has been read has been read. -/
theorem exists_read_item {p place : Place} (inside : p.item? = some place) {room : Nat} {vs : List Value} {x : p.Result}
    (read : p.read room (.array vs) = .ok x) {v : Value} (mem : v ∈ vs) : ∃ y, place.read (room - 1) v = .ok y := by
  cases p <;> cases inside
  · exact list_array_ok_mem read mem
  · exact list_array_ok_mem read mem

/-- **An item may be replaced** by one that is read as the same. -/
theorem read_item_congr {p place : Place} (inside : p.item? = some place) {room : Nat} {front back : List Value}
    {v v' : Value} (same : ∀ y, place.read (room - 1) v = .ok y → place.read (room - 1) v' = .ok y) {x : p.Result}
    (read : p.read room (.array (front ++ v :: back)) = .ok x) : p.read room (.array (front ++ v' :: back)) = .ok x := by
  cases p <;> cases inside
  · exact list_array_congr same read
  · exact list_array_congr same read

/-- **A kind** is its name or an object with this name. -/
theorem read_wrapped_kind {room : Nat} (has : kind.HasRoom room) (name : String) :
    kind.read room (.object [(.text name, .null)]) = kind.read room (.text name) := by
  have open' : room ≠ 0 := by
    rintro rfl
    exact absurd (show 3 = deepest from has) (by decide)
  have read : Reader.kind room (.object [(.text name, .null)])
      = (do let kind ← kindNamed (.text name); kindExcess []; .ok kind) := if_neg open'
  show Reader.kind room (.object [(.text name, .null)]) = kindNamed (.text name)
  rw [read]
  cases kindNamed (.text name) <;> rfl

end Place
end Request
end IncludeClosure
