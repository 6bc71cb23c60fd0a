import IncludeClosure.Proofs.Json.Printer
import IncludeClosure.Proofs.Request.Respelling
import IncludeClosure.Request.Writer
/-!
# Proofs.Request.RoundTrip — a written request is read again

Each reader gives back what the writer of the same kind of value was given, as long as enough containers may be opened;
a unit needs as many as its value has (`read_unit`).  A request that has been read has no more than that, since its unit
was read with as many (`nesting_of_read_unit`), so it is always read again.
-/
namespace IncludeClosure
namespace Request

open Json (Value)

/-! ## How many containers a request's value has -/

theorem itemsNesting_map_le {α : Type} {write : α → Value} {n : Nat} (h : ∀ x, (write x).nesting ≤ n) :
    ∀ xs : List α, Value.itemsNesting (xs.map write) ≤ n
  | [] => Nat.zero_le n
  | x :: xs => Nat.max_le.2 ⟨h x, itemsNesting_map_le h xs⟩

theorem membersNesting_entries : ∀ entries : List (Path × Path),
    Value.membersNesting (entries.map (fun e => (e.1.toValue, e.2.toValue))) = 0
  | [] => rfl
  | _ :: entries => Nat.max_eq_zero_iff.2 ⟨rfl, membersNesting_entries entries⟩

theorem nesting_toValue_unit (d : UnitDeclaration) :
    d.toValue.nesting = Value.itemsNesting (UnitDeclaration.toValues d.auxiliary) + 2 := by
  obtain ⟨mainSource, sources, quoteDirs, includeDirs, systemDirs, builtinDirs, forcedIncludes, generated, auxiliary⟩ := d
  have paths (ps : List Path) : Value.itemsNesting (ps.map Path.toValue) = 0 :=
    Nat.le_zero.1 (itemsNesting_map_le (fun _ => Nat.le_refl 0) ps)
  have texts : Value.itemsNesting (forcedIncludes.map Value.text) = 0 :=
    Nat.le_zero.1 (itemsNesting_map_le (fun _ => Nat.le_refl 0) forcedIncludes)
  have table := membersNesting_entries generated.entries
  simp only [UnitDeclaration.toValue, Value.record, List.map_cons, List.map_nil, Value.nesting, Value.membersNesting,
    Path.listToValue, paths, texts, table, show mainSource.toValue.nesting = 0 from rfl, Nat.zero_add, Nat.max_zero,
    Nat.zero_max, Nat.max_eq_right (Nat.le_add_left 1 (Value.itemsNesting (UnitDeclaration.toValues auxiliary)))]

/-- Only its unit can make a request too deep. -/
theorem nesting_toValue_le_iff (q : Request) : q.toValue.nesting ≤ Reader.deepest ↔ q.unit.toValue.nesting ≤ 126 := by
  obtain ⟨version, execRoot, roots, unit⟩ := q
  have rootList : Value.itemsNesting (roots.map (·.toValue)) ≤ 1 :=
    itemsNesting_map_le (fun d => Nat.le_refl 1) roots
  have version : (Value.ofNat version).nesting = 0 := rfl
  have path (p : Path) : p.toValue.nesting = 0 := rfl
  cases execRoot <;>
    simp only [toValue, Value.record, Option.toList, List.map_cons, List.map_nil, List.cons_append, List.nil_append,
      Value.nesting, Value.membersNesting, Reader.deepest, version, path] <;>
    omega

/-! ## Reading what has been written -/

namespace Reader

theorem path_toValue (p : Path) : path p.toValue = .ok p := rfl

theorem list_array_map {α : Type} {read : Value → Read α} (write : α → Value) (h : ∀ x, read (write x) = .ok x)
    {room : Nat} (open' : room ≠ 0) (xs : List α) : list room read (.array (xs.map write)) = .ok xs := by
  refine list_array_ok_iff.2 ⟨open', ?_⟩
  rw [List.forall₂_map_left_iff]
  exact List.forall₂_same.2 fun x _ => h x

/-- **A table is built up again** from its entries in order. -/
theorem pathMembers_entries : ∀ (entries : List (Path × Path)) (table : DeclaredFiles),
    Sorted.Increasing (Sorted.onKey Prod.fst Path.order) (table.entries ++ entries) →
    ∃ all : DeclaredFiles, pathMembers table (entries.map (fun e => (e.1.toValue, e.2.toValue))) = .ok all ∧
      all.entries = table.entries ++ entries
  | [], table, _ => ⟨table, rfl, (List.append_nil _).symm⟩
  | (key, written) :: entries, table, increasing => by
    have below : ∀ e ∈ table.entries, Sorted.onKey Prod.fst Path.order e (key, written) = .lt := fun e mem =>
      (List.pairwise_append.1 increasing).2.2 e mem (key, written) List.mem_cons_self
    have added : (table.set key written).entries = table.entries ++ [(key, written)] := Sorted.insertWith_of_above below
    rw [← List.singleton_append, ← List.append_assoc, ← added] at increasing
    obtain ⟨all, read, same⟩ := pathMembers_entries entries (table.set key written) increasing
    exact ⟨all, read, by rw [same, added]; simp⟩

theorem pathTable_toValue {room : Nat} (open' : room ≠ 0) (table : DeclaredFiles) :
    pathTable room (.object (table.entries.map (fun e => (e.1.toValue, e.2.toValue)))) = .ok table := by
  obtain ⟨⟨entries, increasing⟩, read, same⟩ := pathMembers_entries table.entries .empty table.increasing
  obtain rfl : entries = table.entries := same
  rw [pathTable, if_neg open', read]

theorem root_toValue {room : Nat} (open' : room ≠ 0) (d : RootDeclaration) : root room d.toValue = .ok d := by
  obtain ⟨inner, rfl⟩ := Nat.exists_eq_succ_of_ne_zero open'
  refine RecordReader.record_of_foldlM (by decide) (by simp [rootReader]) (by simp) (by simp [rootReader]) ?_
  obtain ⟨p, k⟩ := d
  cases k <;> rfl

mutual

/-- **A unit is read again** where it can be opened. -/
theorem read_unit : ∀ (d : UnitDeclaration) {room : Nat}, d.toValue.nesting ≤ room → unit room d.toValue = .ok d
  | ⟨mainSource, sources, quoteDirs, includeDirs, systemDirs, builtinDirs, forcedIncludes, generated, auxiliary⟩,
      room, fits => by
    rw [nesting_toValue_unit] at fits
    dsimp only at fits
    obtain ⟨inner, rfl⟩ : ∃ inner, room = inner + 1 := ⟨room - 1, by omega⟩
    have open' : inner ≠ 0 := by omega
    have auxiliaries : list inner (unit (inner - 1)) (.array (UnitDeclaration.toValues auxiliary)) = .ok auxiliary :=
      list_array_ok_iff.2 ⟨open', read_units auxiliary (by omega)⟩
    have paths (ps : List Path) : list inner path (Path.listToValue ps) = .ok ps := list_array_map _ path_toValue open' ps
    have texts : list inner (text "a string") (.array (forcedIncludes.map .text)) = .ok forcedIncludes :=
      list_array_map .text (fun _ => rfl) open' forcedIncludes
    rw [unit_succ]
    refine RecordReader.record_of_foldlM (by simp [unitReader]) (by simp [unitReader]) (by simp) (by simp [unitReader]) ?_
    simp only [List.foldlM_cons, List.foldlM_nil, unitReader, paths, path_toValue, texts, auxiliaries, bind, Except.bind,
      pathTable_toValue open']
    rfl

theorem read_units : ∀ (ds : List UnitDeclaration) {room : Nat}, Value.itemsNesting (UnitDeclaration.toValues ds) ≤ room →
    List.Forall₂ (fun v d => unit room v = .ok d) (UnitDeclaration.toValues ds) ds
  | [], _, _ => .nil
  | d :: ds, room, fits => by
    rw [UnitDeclaration.toValues, Value.itemsNesting, Nat.max_le] at fits
    exact .cons (read_unit d fits.1) (read_units ds fits.2)

end

/-- **A request is read again** where its value can be opened. -/
theorem read_request (q : Request) (current : q.version = currentVersion) (fits : q.toValue.nesting ≤ deepest) :
    Place.request.read deepest q.toValue = .ok q := by
  have unitRead := read_unit q.unit ((nesting_toValue_le_iff q).1 fits)
  obtain ⟨version, execRoot, roots, unit⟩ := q
  obtain rfl : version = currentVersion := current
  have rootList : list 126 (root 125) (.array (roots.map (·.toValue))) = .ok roots :=
    list_array_map _ (root_toValue (by decide)) (by decide) roots
  have number : word32 (.ofNat currentVersion) = .ok currentVersion := by rfl
  have path (p : Path) : optionalPath p.toValue = .ok (some p) := rfl
  show request.record (126 + 1) Place.blank (.record _) = _
  cases execRoot <;>
    refine RecordReader.record_of_foldlM (by decide) (by simp [request]) (by simp) (by simp [request]) ?_ <;>
    simp only [Option.toList, List.map_cons, List.map_nil, List.cons_append, List.nil_append, List.foldlM_cons,
      List.foldlM_nil, request, number, path, rootList, unitRead, bind, Except.bind] <;>
    rfl

/-- **A unit that has been read needs no more containers** than could be opened.  An auxiliary opens two more, so this is
said of an even number of them. -/
theorem nesting_of_read_unit : ∀ (n : Nat) {v : Value} {d : UnitDeclaration}, unit (2 * n) v = .ok d →
    d.toValue.nesting ≤ 2 * n
  | 0, v, d, read => absurd read (RecordReader.record_zero_ne_ok .empty v d)
  | n + 1, v, d, read => by
    have units {vs : List Value} {ds : List UnitDeclaration} (each : List.Forall₂ (fun v d => unit (2 * n) v = .ok d) vs ds) :
        Value.itemsNesting (UnitDeclaration.toValues ds) ≤ 2 * n := by
      induction each with
      | nil => exact Nat.zero_le _
      | cons first _ ih => exact Nat.max_le.2 ⟨nesting_of_read_unit n first, ih⟩
    have lawful := Place.lawful_unit (2 * n + 1)
    have into := unitReader_readsInto (2 * n + 1) (list (2 * n + 1) (unit (2 * n)))
    rw [show 2 * (n + 1) = 2 * n + 1 + 1 by omega, unit_succ] at read
    obtain ⟨ms, fills⟩ := RecordReader.exists_fills lawful.closed lawful.nodup read
    have auxiliaries : Value.itemsNesting (UnitDeclaration.toValues d.auxiliary) ≤ 2 * n := by
      refine into.invariant (motive := fun d => Value.itemsNesting (UnitDeclaration.toValues d.auxiliary) ≤ 2 * n)
        (fun slot mem v x s decoded holds => ?_) fills (Nat.zero_le _)
      simp only [unitSlots, List.mem_cons, List.not_mem_nil, or_false] at mem
      rcases mem with rfl | rfl | rfl | rfl | rfl | rfl | rfl | rfl | rfl
      case inr.inr.inr.inr.inr.inr.inr.inr =>
        obtain ⟨vs, _, each⟩ := exists_array_of_list decoded
        exact units each
      all_goals exact holds
    rw [nesting_toValue_unit]
    omega

/-- **A request that has been read can be opened again.** -/
theorem nesting_of_read {v : Value} {q : Request} (read : Place.request.read deepest v = .ok q) :
    q.toValue.nesting ≤ deepest := by
  rw [nesting_toValue_le_iff]
  have lawful := Place.lawful_request 126
  obtain ⟨ms, fills⟩ := RecordReader.exists_fills lawful.closed lawful.nodup read
  refine (request_readsInto 126).invariant (motive := fun q => q.unit.toValue.nesting ≤ 126)
    (fun slot mem v x s decoded holds => ?_) fills (by decide)
  simp only [requestSlots, List.mem_cons, List.not_mem_nil, or_false] at mem
  rcases mem with rfl | rfl | rfl | rfl
  case inr.inr.inr => exact nesting_of_read_unit 63 decoded
  all_goals exact holds

end Reader

/-! ## Texts -/

open Json.Value (spelledAs_compact_text spelledAs_compact_array spelledAs_compact_object spelledAs_compact_record)

theorem spelledAs_compact_map {α : Type} (write : α → Value) (h : ∀ x, (write x).SpelledAs (write x).compact)
    (xs : List α) :
    (Value.array (xs.map write)).SpelledAs (Value.array (xs.map write)).compact := by
  refine spelledAs_compact_array fun v mem => ?_
  obtain ⟨x, _, rfl⟩ := List.mem_map.1 mem
  exact h x

mutual

/-- **A unit is written as a spelling of its value.** -/
theorem spelledAs_compact_unit : ∀ d : UnitDeclaration, d.toValue.SpelledAs d.toValue.compact
  | ⟨mainSource, sources, quoteDirs, includeDirs, systemDirs, builtinDirs, forcedIncludes, generated, auxiliary⟩ => by
    have paths := spelledAs_compact_map Path.toValue fun p => spelledAs_compact_text p.text
    refine spelledAs_compact_record ?_
    simp only [List.forall_mem_cons]
    refine ⟨spelledAs_compact_text _, paths sources, paths quoteDirs, paths includeDirs, paths systemDirs,
      paths builtinDirs, spelledAs_compact_map _ (fun s => spelledAs_compact_text s) forcedIncludes, ?_,
      spelledAs_compact_array (spelledAs_compact_units auxiliary), nofun⟩
    refine spelledAs_compact_object fun m mem => ?_
    obtain ⟨e, _, rfl⟩ := List.mem_map.1 mem
    exact ⟨⟨e.1.text, rfl⟩, spelledAs_compact_text e.2.text⟩

theorem spelledAs_compact_units : ∀ (ds : List UnitDeclaration), ∀ v ∈ UnitDeclaration.toValues ds, v.SpelledAs v.compact
  | [], _, mem => absurd mem List.not_mem_nil
  | d :: ds, v, mem => by
    rcases List.mem_cons.1 mem with rfl | mem
    · exact spelledAs_compact_unit d
    · exact spelledAs_compact_units ds v mem

end

/-- **A request is written as a spelling of its value.** -/
theorem spelledAs_compact (q : Request) (current : q.version = currentVersion) :
    q.toValue.SpelledAs q.toValue.compact := by
  have root (d : RootDeclaration) : d.toValue.SpelledAs d.toValue.compact := by
    refine spelledAs_compact_record ?_
    simp only [List.forall_mem_cons]
    exact ⟨spelledAs_compact_text _, spelledAs_compact_text _, nofun⟩
  refine spelledAs_compact_record ?_
  simp only [List.forall_mem_append, List.forall_mem_cons, List.forall_mem_map, current]
  exact ⟨⟨⟨spelledAs_compact_currentVersion, nofun⟩, fun p _ => spelledAs_compact_text p.text⟩,
    spelledAs_compact_map _ root q.roots, spelledAs_compact_unit q.unit, nofun⟩

/-- **A request that is written is read again,** if it has the current version and is not nested too deep, and so is
every request that has been read. -/
theorem ofJson_toJson :
    (∀ q : Request, q.version = currentVersion → q.toValue.nesting ≤ Reader.deepest → ofJson q.toJson = .ok q) ∧
    ∀ (content : String) (q : Request), ofJson content = .ok q → ofJson q.toJson = .ok q := by
  have again (q : Request) (current : q.version = currentVersion) (fits : q.toValue.nesting ≤ Reader.deepest) :
      ofJson q.toJson = .ok q := by
    have document := Json.Document.ofText_of_spelledAs (spelledAs_compact q current)
    rw [ofJson_ok_iff, toJson, String.toList_ofList, document]
    exact ⟨Reader.read_request q current fits, rfl, current⟩
  refine ⟨again, fun content q read => ?_⟩
  obtain ⟨read, _, current⟩ := ofJson_ok_iff.1 read
  exact again q current (Reader.nesting_of_read read)

namespace Sample

/-- Three units inside each other, with characters that have to be escaped and two generated files. -/
def nested : Request where
  version := 1
  execRoot := some ⟨"/w"⟩
  roots := [⟨⟨"/w/out"⟩, .output⟩]
  unit :=
    { UnitDeclaration.empty with
      mainSource := ⟨"a\"\\\x01é.cc"⟩
      generated := (SortedTable.empty.set ⟨"/w/out/h.h"⟩ ⟨"/s/h.h"⟩).set ⟨"/w/out//g.h"⟩ ⟨"/s/g.h"⟩
      auxiliary :=
        [{ UnitDeclaration.empty with
            forcedIncludes := ["\n"]
            auxiliary := [.empty] }] }

end Sample

theorem ofJson_toJson_nested :
    (Sample.nested.version = currentVersion ∧ Sample.nested.toValue.nesting ≤ Reader.deepest ∧
      ofJson Sample.nested.toJson = .ok Sample.nested) ∧
    ofJson (String.ofList (' ' :: Sample.document.compact)) = .ok Sample.said ∧
      ofJson Sample.said.toJson = .ok Sample.said := by
  have fits : Sample.nested.toValue.nesting ≤ Reader.deepest := by decide
  exact ⟨⟨rfl, fits, ofJson_toJson.1 Sample.nested rfl fits⟩, Sample.ofJson_document,
    ofJson_toJson.2 _ Sample.said Sample.ofJson_document⟩

end Request
end IncludeClosure
