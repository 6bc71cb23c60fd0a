import Mathlib.Logic.Relation
import IncludeClosure.Proofs.Json.Printer
import IncludeClosure.Proofs.Request.Place
/-!
# Proofs.Request.Respelling — documents that say one request are read as one

What a change does to a record is said of the members of its object (`Lawful.object_perm` and the lemmas after it).  A
change further in leaves what is read at its place, and so what is read around it (`Respelled.read_eq`); the induction is
on where the change is.
-/
namespace IncludeClosure
namespace Request

open Json (Value)
open Reader

namespace Place
namespace Lawful

variable {p : Place} {inner : Nat} {r : RecordReader p.Result} {start x : p.Result}

theorem mem_fields (h : p.Lawful inner r start) {f : Field} (field : f ∈ p.fields) : f.name ∈ r.fields := by
  rw [h.names]
  exact List.mem_map_of_mem field

theorem not_mem_fields (h : p.Lawful inner r start) {name : String} (unknown : ∀ f ∈ p.fields, f.name ≠ name) :
    name ∉ r.fields := by
  rw [h.names, List.mem_map]
  rintro ⟨f, field, same⟩
  exact unknown f field same

/-- **The order of the members does not count.** -/
theorem object_perm (h : p.Lawful inner r start) {ms ms' : List (Value × Value)} (perm : ms.Perm ms')
    (read : r.record (inner + 1) start (.object ms) = .ok x) : r.record (inner + 1) start (.object ms') = .ok x := by
  obtain ⟨fills, given⟩ := (RecordReader.record_object_ok_iff h.closed).1 read
  exact (RecordReader.record_object_ok_iff h.closed).2
    ⟨fills.perm h.commutes perm, fun name required => (perm.map Prod.fst).mem_iff.1 (given name required)⟩

/-- **A member of another name** may be there or not. -/
theorem object_unknown (h : p.Lawful inner r start) {name : String} (unknown : name ∉ r.fields) {v : Value}
    (skip : v.skip = .ok ()) {ms : List (Value × Value)} (read : r.record (inner + 1) start (.object ms) = .ok x) :
    r.record (inner + 1) start (.object ((.text name, v) :: ms)) = .ok x := by
  obtain ⟨fills, given⟩ := (RecordReader.record_object_ok_iff h.closed).1 read
  exact (RecordReader.record_object_ok_iff h.closed).2
    ⟨.other unknown skip fills, fun name required => List.mem_cons_of_mem _ (given name required)⟩

theorem object_of_unknown (h : p.Lawful inner r start) {name : String} (unknown : name ∉ r.fields) {v : Value}
    {ms : List (Value × Value)} (read : r.record (inner + 1) start (.object ((.text name, v) :: ms)) = .ok x) :
    r.record (inner + 1) start (.object ms) = .ok x := by
  obtain ⟨fills, given⟩ := (RecordReader.record_object_ok_iff h.closed).1 read
  refine (RecordReader.record_object_ok_iff h.closed).2 ⟨?_, fun other required => ?_⟩
  · cases fills with
    | field known _ _ _ => exact absurd known unknown
    | other _ _ fills => exact fills
  · have apart : other ≠ name := fun same => unknown (same ▸ h.closed other required)
    simpa [Value.text, apart] using given other required

/-- **A member that gives the default** may be there or not. -/
theorem object_default (h : p.Lawful inner r start) (room : inner ≠ 0) {f : Field} (field : f ∈ p.fields) {v : Value}
    (default : f.default? = some v) {ms : List (Value × Value)} (absent : Value.text f.name ∉ ms.map Prod.fst)
    (read : r.record (inner + 1) start (.object ms) = .ok x) :
    r.record (inner + 1) start (.object ((.text f.name, v) :: ms)) = .ok x := by
  obtain ⟨fills, given⟩ := (RecordReader.record_object_ok_iff h.closed).1 read
  exact (RecordReader.record_object_ok_iff h.closed).2
    ⟨.field (h.mem_fields field) absent (h.default room f field v default) fills,
      fun name required => List.mem_cons_of_mem _ (given name required)⟩

theorem object_of_default (h : p.Lawful inner r start) (room : inner ≠ 0) {f : Field} (field : f ∈ p.fields) {v : Value}
    (default : f.default? = some v) {ms : List (Value × Value)}
    (read : r.record (inner + 1) start (.object ((.text f.name, v) :: ms)) = .ok x) :
    r.record (inner + 1) start (.object ms) = .ok x := by
  obtain ⟨fills, given⟩ := (RecordReader.record_object_ok_iff h.closed).1 read
  refine (RecordReader.record_object_ok_iff h.closed).2 ⟨?_, fun name required => ?_⟩
  · cases fills with
    | field _ _ read fills =>
      rw [h.default room f field v default] at read
      exact Except.ok.inj read ▸ fills
    | other unknown _ _ => exact absurd (h.mem_fields field) unknown
  · have optional := h.optional f field (by rw [default]; exact Option.some_ne_none v)
    have apart : name ≠ f.name := fun same => optional (same ▸ required)
    simpa [Value.text, apart] using given name required

/-- **A member may be replaced** by one that is read as the same. -/
theorem object_member (h : p.Lawful inner r start) {f : Field} (field : f ∈ p.fields) {v v' : Value}
    (same : ∀ s s', r.read inner f.name v s = .ok s' → r.read inner f.name v' s = .ok s') {ms : List (Value × Value)}
    (read : r.record (inner + 1) start (.object ((.text f.name, v) :: ms)) = .ok x) :
    r.record (inner + 1) start (.object ((.text f.name, v') :: ms)) = .ok x := by
  obtain ⟨fills, given⟩ := (RecordReader.record_object_ok_iff h.closed).1 read
  refine (RecordReader.record_object_ok_iff h.closed).2 ⟨?_, given⟩
  cases fills with
  | field known once read fills => exact .field known once (same _ _ read) fills
  | other unknown _ _ => exact absurd (h.mem_fields field) unknown

/-- A change at the place that a field's value is leaves what is read of the field. -/
theorem read_congr (h : p.Lawful inner r start) {f : Field} (field : f ∈ p.fields) {place : Place}
    (inside : f.place? = some place) {v v' : Value} (same : ∀ y, place.read inner v = .ok y → place.read inner v' = .ok y)
    (s s' : p.Result) (read : r.read inner f.name v s = .ok s') : r.read inner f.name v' s = .ok s' := by
  obtain ⟨put, reads⟩ := h.inside f field place inside
  rw [reads] at read ⊢
  cases first : place.read inner v with
  | error fault => rw [first] at read; cases read
  | ok y => rwa [same y first, ← first]

/-- The members that a list of values stands for, with one of them in front. -/
theorem named_perm (h : p.Lawful inner r start) {front : List Value} (back : List Value) {f : Field}
    (field : p.fields[front.length]? = some f) : ∃ others, ∀ v,
      (RecordReader.named r.fields (front ++ v :: back)).Perm ((.text f.name, v) :: others) := by
  obtain ⟨bound, at'⟩ := List.getElem?_eq_some_iff.1 field
  have split := List.take_append_drop front.length r.fields
  have next : r.fields.drop front.length = f.name :: r.fields.drop (front.length + 1) := by
    rw [h.names, ← List.map_drop, ← List.map_drop, ← List.getElem_cons_drop bound, at']
    rfl
  refine ⟨RecordReader.named (r.fields.take front.length) front ++
    RecordReader.named (r.fields.drop (front.length + 1)) back, fun v => ?_⟩
  have middle : RecordReader.named r.fields (front ++ v :: back)
      = RecordReader.named (r.fields.take front.length) front
        ++ (.text f.name, v) :: RecordReader.named (r.fields.drop (front.length + 1)) back := by
    have length : (r.fields.take front.length).length = front.length := by
      rw [List.length_take, h.names, List.length_map]
      omega
    conv_lhs => rw [RecordReader.named, ← split, next, List.zip_append length, List.map_append]
    rfl
  rw [middle]
  exact List.perm_middle

/-- **An element of a list may be replaced** by one that is read as the same field. -/
theorem array_element (h : p.Lawful inner r start) {front back : List Value} {f : Field}
    (field : p.fields[front.length]? = some f) {v v' : Value}
    (same : ∀ s s', r.read inner f.name v s = .ok s' → r.read inner f.name v' s = .ok s')
    (read : r.record (inner + 1) start (.array (front ++ v :: back)) = .ok x) :
    r.record (inner + 1) start (.array (front ++ v' :: back)) = .ok x := by
  obtain ⟨others, perm⟩ := h.named_perm back field
  obtain ⟨fits, read⟩ := (RecordReader.record_array_ok_iff h.closed h.nodup).1 read
  refine (RecordReader.record_array_ok_iff h.closed h.nodup).2 ⟨by simpa using fits, ?_⟩
  have moved := h.object_member (List.mem_of_getElem? field) same (h.object_perm (perm v) read)
  exact h.object_perm (perm v').symm moved

/-- **A record that gives every field in order** may be written as the list of their values. -/
theorem array_of_named (h : p.Lawful inner r start) {vs : List Value} (full : vs.length = p.fields.length)
    (read : r.record (inner + 1) start (.object (p.named vs)) = .ok x) :
    r.record (inner + 1) start (.array vs) = .ok x := by
  have fits : vs.length ≤ r.fields.length := by rw [h.names, List.length_map, full]
  have same : RecordReader.named r.fields vs = p.named vs := by
    rw [RecordReader.named, Place.named, h.names, List.zip_map_left, List.map_map]
    rfl
  exact (RecordReader.record_array_ok_iff h.closed h.nodup).2 ⟨fits, same ▸ read⟩

end Lawful
end Place

/-- **A change keeps what is read.** -/
theorem Respelled.read_eq {p : Place} {v v' : Value} (h : Respelled p v v') : ∀ {room : Nat} {x : p.Result},
    p.HasRoom room → p.read room v = .ok x → p.read room v' = .ok x := by
  -- A record is read by a lawful reader, so what is said of those is said of records.
  have ofLawful {p : Place} (record : p.IsRecord) {v v' : Value}
      (same : ∀ {inner : Nat} {r : RecordReader p.Result} {start x : p.Result}, p.Lawful inner r start →
        p.HasRoom (inner + 1) → r.record (inner + 1) start v = .ok x → r.record (inner + 1) start v' = .ok x)
      {room : Nat} {x : p.Result} (has : p.HasRoom room) (read : p.read room v = .ok x) : p.read room v' = .ok x := by
    obtain ⟨inner, r, start, rfl, lawful, reads⟩ := record.exists_lawful read
    rw [reads] at read ⊢
    exact same lawful has read
  induction h with
  | permuted record perm => exact ofLawful record fun lawful _ read => lawful.object_perm perm read
  | added record unknown formed =>
    exact ofLawful record fun lawful _ read => lawful.object_unknown (lawful.not_mem_fields unknown) formed.skip read
  | removed record unknown =>
    exact ofLawful record fun lawful _ read => lawful.object_of_unknown (lawful.not_mem_fields unknown) read
  | omitted record field default =>
    exact ofLawful record fun lawful has read => lawful.object_of_default (has.inner_ne_zero record) field default read
  | supplied record field default absent =>
    exact ofLawful record fun lawful has read =>
      lawful.object_default (has.inner_ne_zero record) field default absent read
  | listed record full => exact ofLawful record fun lawful _ read => lawful.array_of_named full read
  | @wrapped name => exact fun has read => (Place.read_wrapped_kind has name).trans read
  | @unwrapped name => exact fun has read => (Place.read_wrapped_kind has name).symm.trans read
  | member record field inside _ ih =>
    exact ofLawful record fun lawful has read =>
      lawful.object_member field (lawful.read_congr field inside fun y => ih (has.inside field inside)) read
  | element record field inside _ ih =>
    exact ofLawful record fun lawful has read =>
      lawful.array_element field (lawful.read_congr (List.mem_of_getElem? field) inside
        fun y => ih (has.inside (List.mem_of_getElem? field) inside)) read
  | item inside _ ih => exact fun has read => Place.read_item_congr inside (fun y => ih (has.item inside)) read

theorem Respelled.read_eq_of_changes {p : Place} {v v' : Value} (changes : Relation.ReflTransGen (Respelled p) v v')
    {room : Nat} {x : p.Result} (has : p.HasRoom room) (read : p.read room v = .ok x) : p.read room v' = .ok x := by
  induction changes with
  | refl => exact read
  | tail _ change ih => exact change.read_eq has ih

/-- **A field that is given twice** makes a record unreadable. -/
theorem Repeats.read_ne_ok {p : Place} {v : Value} (h : Repeats p v) : ∀ (room : Nat) (x : p.Result),
    p.read room v ≠ .ok x := by
  have ofLawful {p : Place} (record : p.IsRecord) {v : Value}
      (never : ∀ {inner : Nat} {r : RecordReader p.Result} {start x : p.Result}, p.Lawful inner r start →
        r.record (inner + 1) start v ≠ .ok x) (room : Nat) (x : p.Result) : p.read room v ≠ .ok x := by
    intro read
    obtain ⟨inner, r, start, rfl, lawful, reads⟩ := record.exists_lawful read
    rw [reads] at read
    exact never lawful read
  have notRead {p place : Place} {inner : Nat} {r : RecordReader p.Result} {start x : p.Result}
      (lawful : p.Lawful inner r start) {f : Field} (field : f ∈ p.fields) (inside : f.place? = some place) {v : Value}
      (never : ∀ y, place.read inner v ≠ .ok y) {ms : List (Value × Value)} (given : (.text f.name, v) ∈ ms) :
      r.record (inner + 1) start (.object ms) ≠ .ok x := by
    intro read
    obtain ⟨fills, _⟩ := (RecordReader.record_object_ok_iff lawful.closed).1 read
    obtain ⟨s, s', read⟩ := fills.exists_read (lawful.mem_fields field) given
    obtain ⟨put, reads⟩ := lawful.inside f field place inside
    rw [reads] at read
    cases first : place.read inner v with
    | error fault => rw [first] at read; cases read
    | ok y => exact never y first
  induction h with
  | here record field twice =>
    refine ofLawful record fun lawful read => ?_
    obtain ⟨fills, _⟩ := (RecordReader.record_object_ok_iff lawful.closed).1 read
    exact fills.noDuplicate (lawful.mem_fields field) twice
  | member record field inside given _ ih =>
    exact ofLawful record fun lawful => notRead lawful field inside (ih _) given
  | element record field inside _ ih =>
    refine ofLawful record fun lawful read => ?_
    obtain ⟨others, perm⟩ := lawful.named_perm _ field
    obtain ⟨_, read⟩ := (RecordReader.record_array_ok_iff lawful.closed lawful.nodup).1 read
    exact notRead lawful (List.mem_of_getElem? field) inside (ih _) ((perm _).mem_iff.2 List.mem_cons_self) read
  | item inside mem _ ih =>
    intro room x read
    obtain ⟨y, read⟩ := Place.exists_read_item inside read mem
    exact ih _ y read

/-! ## Texts -/

/-- **What a text has to be for a request.** -/
theorem ofJson_ok_iff {t : String} {q : Request} : ofJson t = .ok q ↔
    Place.request.read deepest (Json.Document.ofText t.toList).value = .ok q ∧
      (Json.Document.ofText t.toList).trailing = false ∧ q.version = currentVersion := by
  have text : ofText t = (Place.request.read deepest (Json.Document.ofText t.toList).value).bind
      (fun q => if (Json.Document.ofText t.toList).trailing then flawed .trailingText else .ok q) := rfl
  rw [ofJson, text]
  cases Place.request.read deepest (Json.Document.ofText t.toList).value with
  | error fault => simp [Except.bind]
  | ok q' =>
    cases (Json.Document.ofText t.toList).trailing with
    | true => simp [Except.bind, flawed]
    | false =>
      simp only [Except.bind, Bool.false_eq_true, if_false, true_and]
      constructor
      · intro h
        split at h
        · rename_i version
          obtain rfl := Except.ok.inj h
          exact ⟨rfl, version⟩
        · cases h
      · rintro ⟨same, version⟩
        obtain rfl := Except.ok.inj same
        exact if_pos version

/-- **A document says the same request however it is spelled,** and none if a record in it gives a field twice. -/
theorem ofJson_respelled :
    (∀ (t t' : String) (q : Request) (v' : Value), ofJson t = .ok q →
      Relation.ReflTransGen (Respelled .request) (Json.Document.ofText t.toList).value v' → v'.SpelledAs t'.toList →
      ofJson t' = .ok q) ∧
    ∀ t : String, Repeats .request (Json.Document.ofText t.toList).value → ∃ error, ofJson t = .error error := by
  refine ⟨fun t t' q v' accepted changes spelled => ?_, fun t repeats => ?_⟩
  · obtain ⟨read, _, version⟩ := ofJson_ok_iff.1 accepted
    have kept := Respelled.read_eq_of_changes changes rfl read
    have document := Json.Document.ofText_of_spelledAs spelled
    exact ofJson_ok_iff.2 (by rw [document]; exact ⟨kept, rfl, version⟩)
  · cases result : ofJson t with
    | error error => exact ⟨error, rfl⟩
    | ok q => exact absurd (ofJson_ok_iff.1 result).1 (repeats.read_ne_ok deepest q)

open Json.Value (spelledAs_compact_text spelledAs_compact_array spelledAs_compact_record)

theorem spelledAs_compact_currentVersion :
    (Value.ofNat currentVersion).SpelledAs (Value.ofNat currentVersion).compact :=
  .single (.number ⟨⟨by decide, List.forall_mem_singleton.2 rfl⟩, by decide, [], [], rfl, rfl, rfl⟩)

namespace Sample

/-- A document that leaves most fields out, gives others in another order and has a member of its own. -/
def document : Value :=
  .record
    [("unit", .record [("auxiliary", .array [.record []]), ("mainSource", .text "a\tb")]), ("x", .array [.null]),
      ("version", .ofNat 1)]

/-- What the document says. -/
def said : Request where
  version := 1
  execRoot := none
  roots := []
  unit := { UnitDeclaration.empty with mainSource := ⟨"a\tb"⟩, auxiliary := [.empty] }

theorem spelledAs_document : document.SpelledAs (' ' :: document.compact) := by
  have blank : Json.Blank [' '] := by
    intro c mem
    obtain rfl := List.mem_singleton.1 mem
    rfl
  refine Json.Laid.blank_append blank (spelledAs_compact_record ?_)
  simp only [List.forall_mem_cons]
  refine ⟨spelledAs_compact_record ?_, spelledAs_compact_array ?_, spelledAs_compact_currentVersion, nofun⟩
  · simp only [List.forall_mem_cons]
    refine ⟨spelledAs_compact_array ?_, spelledAs_compact_text _, nofun⟩
    simp only [List.forall_mem_cons]
    exact ⟨spelledAs_compact_record nofun, nofun⟩
  · simp only [List.forall_mem_cons]
    exact ⟨.single .null, nofun⟩

theorem ofJson_document : ofJson (String.ofList (' ' :: document.compact)) = .ok said := by
  rw [ofJson_ok_iff, String.toList_ofList, Json.Document.ofText_of_spelledAs spelledAs_document]
  exact ⟨rfl, rfl, rfl⟩

/-- The same as a list of all fields, with a member of its own in the auxiliary. -/
def relisted : Value :=
  .array
    [.ofNat 1, .null, .array [],
      .record [("auxiliary", .array [.record [("y", .record [])]]), ("mainSource", .text "a\tb")]]

theorem spelledAs_relisted : relisted.SpelledAs relisted.compact := by
  refine spelledAs_compact_array ?_
  simp only [List.forall_mem_cons]
  refine ⟨spelledAs_compact_currentVersion, .single .null, spelledAs_compact_array nofun, spelledAs_compact_record ?_, nofun⟩
  simp only [List.forall_mem_cons]
  refine ⟨spelledAs_compact_array ?_, spelledAs_compact_text _, nofun⟩
  simp only [List.forall_mem_cons]
  refine ⟨spelledAs_compact_record ?_, nofun⟩
  simp only [List.forall_mem_cons]
  exact ⟨spelledAs_compact_record nofun, nofun⟩

/-- The member of its own goes, the two fields that are left out come in, and then the list takes the object's place. -/
theorem document_respelled : Relation.ReflTransGen (Respelled .request) document relisted := by
  let unit : Value := .record [("auxiliary", .array [.record []]), ("mainSource", .text "a\tb")]
  let unit' : Value :=
    .record [("auxiliary", .array [.record [("y", .record [])]]), ("mainSource", .text "a\tb")]
  have front : Respelled .request document
      (.record [("x", .array [.null]), ("unit", unit), ("version", .ofNat 1)]) :=
    .permuted (.inl rfl) (.swap _ _ _)
  have known : Respelled .request (.record [("x", .array [.null]), ("unit", unit), ("version", .ofNat 1)])
      (.record [("unit", unit), ("version", .ofNat 1)]) :=
    .removed (.inl rfl) (by decide)
  have roots : Respelled .request (.record [("unit", unit), ("version", .ofNat 1)])
      (.record [("roots", .array []), ("unit", unit), ("version", .ofNat 1)]) :=
    .supplied (f := ⟨"roots", some (.array []), some .roots⟩) (.inl rfl) (by simp [Place.fields]) rfl (by simp [Value.text])
  have execRoot : Respelled .request (.record [("roots", .array []), ("unit", unit), ("version", .ofNat 1)])
      (.record [("execRoot", .null), ("roots", .array []), ("unit", unit), ("version", .ofNat 1)]) :=
    .supplied (f := ⟨"execRoot", some .null, none⟩) (.inl rfl) (by simp [Place.fields]) rfl (by simp [Value.text])
  have inOrder : Respelled .request
      (.record [("execRoot", .null), ("roots", .array []), ("unit", unit), ("version", .ofNat 1)])
      (.object (Place.request.named [.ofNat 1, .null, .array [], unit])) :=
    .permuted (.inl rfl) (@List.perm_append_comm _ [_, _, _] [_])
  have listed : Respelled .request (.object (Place.request.named [.ofNat 1, .null, .array [], unit]))
      (.array [.ofNat 1, .null, .array [], unit]) :=
    .listed (.inl rfl) rfl
  have auxiliary : Respelled .unit (.record []) (.record [("y", .record [])]) :=
    .added (.inr (.inr rfl)) (by decide) (spelledAs_compact_record (List.forall_mem_nil _))
  have more : Respelled .unit unit unit' :=
    .member (f := ⟨"auxiliary", some (.array []), some .auxiliary⟩) (.inr (.inr rfl)) (by simp [Place.fields]) rfl
      (@Respelled.item _ _ [] [] _ _ rfl auxiliary)
  have inside : Respelled .request (.array [.ofNat 1, .null, .array [], unit]) relisted :=
    @Respelled.element _ _ [.ofNat 1, .null, .array []] [] _ _ _ (.inl rfl) rfl rfl more
  exact .head front (.head known (.head roots (.head execRoot (.head inOrder (.head listed (.single inside))))))

/-- A document that gives the version twice. -/
def twice : Value :=
  .record [("version", .ofNat 1), ("unit", .record []), ("version", .ofNat 1)]

theorem spelledAs_twice : twice.SpelledAs twice.compact := by
  refine spelledAs_compact_record ?_
  simp only [List.forall_mem_cons]
  exact ⟨spelledAs_compact_currentVersion, spelledAs_compact_record nofun, spelledAs_compact_currentVersion, nofun⟩

theorem repeats_twice : Repeats .request twice :=
  .here (f := ⟨"version", none, none⟩) (.inl rfl) List.mem_cons_self
    (List.Mem.duplicate_cons_self (List.mem_cons_of_mem _ List.mem_cons_self))

end Sample

theorem ofJson_respelled_document :
    (ofJson (String.ofList (' ' :: Sample.document.compact)) = .ok Sample.said ∧
      Relation.ReflTransGen (Respelled .request)
        (Json.Document.ofText (String.ofList (' ' :: Sample.document.compact)).toList).value Sample.relisted ∧
      Sample.relisted.SpelledAs (String.ofList Sample.relisted.compact).toList ∧
      ofJson (String.ofList Sample.relisted.compact) = .ok Sample.said) ∧
    Repeats .request (Json.Document.ofText (String.ofList Sample.twice.compact).toList).value ∧
      ∃ error, ofJson (String.ofList Sample.twice.compact) = .error error := by
  have changes : Relation.ReflTransGen (Respelled .request)
      (Json.Document.ofText (String.ofList (' ' :: Sample.document.compact)).toList).value Sample.relisted := by
    rw [String.toList_ofList, Json.Document.ofText_of_spelledAs Sample.spelledAs_document]
    exact Sample.document_respelled
  have spelled : Sample.relisted.SpelledAs (String.ofList Sample.relisted.compact).toList := by
    rw [String.toList_ofList]
    exact Sample.spelledAs_relisted
  have repeats : Repeats .request (Json.Document.ofText (String.ofList Sample.twice.compact).toList).value := by
    rw [String.toList_ofList, Json.Document.ofText_of_spelledAs Sample.spelledAs_twice]
    exact Sample.repeats_twice
  exact ⟨⟨Sample.ofJson_document, changes, spelled,
    ofJson_respelled.1 _ _ Sample.said Sample.relisted Sample.ofJson_document changes spelled⟩,
    repeats, ofJson_respelled.2 _ repeats⟩

end Request
end IncludeClosure
