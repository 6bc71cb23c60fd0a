import Mathlib.Data.List.Duplicate
import Mathlib.Data.List.Nodup
import IncludeClosure.Request.Reader
/-!
# Proofs.Request.Record — what a record's members have to be

A reader of records goes through the members once and keeps which fields it has seen.  What an object has to be for it
to give a record is said without that (`Fills`): every known member can be read and is there once, every other one can
be skipped, and the required fields are given (`record_object_ok_iff`).  A list of values does as the object that names
them in order does (`record_array_ok_iff`).
-/
namespace IncludeClosure
namespace Request
namespace Reader

open Json (Value)

theorem mistyped_ne_ok {α : Type} (v : Value) (expected : String) (x : α) : mistyped v expected ≠ .ok x := by
  unfold mistyped
  cases found v with
  | error fault => exact nofun
  | ok f => exact nofun

namespace RecordReader

variable {σ : Type} {r : RecordReader σ} {room : Nat}

/-- **The members of an object fill a record,** one after another. -/
inductive Fills (r : RecordReader σ) (room : Nat) : σ → List (Value × Value) → σ → Prop where
  | nil {s : σ} : Fills r room s [] s
  | field {s s₁ s₂ : σ} {name : String} {v : Value} {rest : List (Value × Value)} (known : name ∈ r.fields)
      (once : Value.text name ∉ rest.map Prod.fst) (read : r.read room name v s = .ok s₁)
      (others : Fills r room s₁ rest s₂) : Fills r room s ((.text name, v) :: rest) s₂
  | other {s s₁ : σ} {name : String} {v : Value} {rest : List (Value × Value)} (unknown : name ∉ r.fields)
      (skip : v.skip = .ok ()) (others : Fills r room s rest s₁) : Fills r room s ((.text name, v) :: rest) s₁

/-- **One member:** a field that is read for the first time, or a value under another name that is skipped. -/
theorem members_cons_ok_iff {seen : List String} {s : σ} {k v : Value} {rest : List (Value × Value)}
    {out : List String × σ} : r.members room seen s ((k, v) :: rest) = .ok out ↔ ∃ name, k = .text name ∧
      ((name ∈ r.fields ∧ name ∉ seen ∧
          ∃ s₁, r.read room name v s = .ok s₁ ∧ r.members room (name :: seen) s₁ rest = .ok out) ∨
        (name ∉ r.fields ∧ v.skip = .ok () ∧ r.members room seen s rest = .ok out)) := by
  rcases isText : k with _ | _ | _ | (flaw | name) | _ | _ | _
  case string.ok =>
    simp only [members, Value.text, Value.string.injEq, Except.ok.injEq, exists_eq_left']
    by_cases known : name ∈ r.fields
    · rw [if_pos known]
      by_cases once : name ∈ seen
      · simp [once, known, wrong]
      · rw [if_neg once]
        cases read : r.read room name v s with
        | error fault => simp [bind, Except.bind, known]
        | ok s₁ => simp [bind, Except.bind, known, once]
    · rw [if_neg known]
      cases skip : v.skip with
      | error flaw => simp [flawed, known]
      | ok _ => simp [known]
  case string.error => simp [members, Value.text, flawed]
  all_goals
    simp only [members, Value.text, reduceCtorEq, false_and, exists_false, iff_false]
    cases found v <;> exact nofun

/-- **What has been read of the members of an object:** they fill the record, no field that was seen before is among
them, and what has been seen then are these fields and the known ones of the object. -/
theorem fills_of_members : ∀ {ms : List (Value × Value)} {seen seen' : List String} {s s' : σ},
    r.members room seen s ms = .ok (seen', s') →
    Fills r room s ms s' ∧ (∀ name ∈ seen, name ∈ r.fields → Value.text name ∉ ms.map Prod.fst) ∧
      ∀ name ∈ r.fields, (name ∈ seen' ↔ name ∈ seen ∨ Value.text name ∈ ms.map Prod.fst)
  | [], seen, seen', s, s', h => by
    obtain ⟨rfl, rfl⟩ := Prod.mk.inj (Except.ok.inj h)
    exact ⟨.nil, fun _ _ _ => List.not_mem_nil, by simp⟩
  | (k, v) :: rest, seen, seen', s, s', h => by
    obtain ⟨name, rfl, ⟨known, once, s₁, read, h⟩ | ⟨unknown, skip, h⟩⟩ := members_cons_ok_iff.1 h
    · obtain ⟨others, fresh, given⟩ := fills_of_members h
      refine ⟨.field known (fresh name List.mem_cons_self known) read others, fun other ho field => ?_, fun other field => ?_⟩
      · have apart : other ≠ name := fun e => once (e ▸ ho)
        simpa [Value.text, apart] using fresh other (List.mem_cons_of_mem _ ho) field
      · rw [given other field]
        simp [Value.text, or_assoc, or_left_comm]
    · obtain ⟨others, fresh, given⟩ := fills_of_members h
      refine ⟨.other unknown skip others, fun other ho field => ?_, fun other field => ?_⟩
      · have apart : other ≠ name := fun e => unknown (e ▸ field)
        simpa [Value.text, apart] using fresh other ho field
      · have apart : other ≠ name := fun e => unknown (e ▸ field)
        rw [given other field]
        simp [Value.text, apart]

/-- **Members that fill a record are read,** whatever other fields have been seen. -/
theorem Fills.exists_members {ms : List (Value × Value)} {s s' : σ} (h : Fills r room s ms s') :
    ∀ seen : List String, (∀ name ∈ seen, Value.text name ∉ ms.map Prod.fst) →
      ∃ seen', r.members room seen s ms = .ok (seen', s') := by
  induction h with
  | nil => exact fun seen _ => ⟨seen, rfl⟩
  | @field s s₁ s₂ name v rest known once read others ih =>
    intro seen fresh
    have fresh' : ∀ other ∈ name :: seen, Value.text other ∉ rest.map Prod.fst := by
      intro other ho
      rcases List.mem_cons.1 ho with rfl | ho
      · exact once
      · exact fun mem => fresh other ho (List.mem_cons_of_mem _ mem)
    obtain ⟨seen', more⟩ := ih (name :: seen) fresh'
    exact ⟨seen', members_cons_ok_iff.2 ⟨name, rfl, .inl ⟨known, fun hs => fresh name hs List.mem_cons_self, s₁, read, more⟩⟩⟩
  | @other s s₁ name v rest unknown skip others ih =>
    intro seen fresh
    obtain ⟨seen', more⟩ := ih seen fun other ho mem => fresh other ho (List.mem_cons_of_mem _ mem)
    exact ⟨seen', members_cons_ok_iff.2 ⟨name, rfl, .inr ⟨unknown, skip, more⟩⟩⟩

/-- **What an object has to be for a record.** -/
theorem record_object_ok_iff (closed : ∀ name ∈ r.required, name ∈ r.fields) {start s : σ} {ms : List (Value × Value)} :
    r.record (room + 1) start (.object ms) = .ok s ↔
      Fills r room start ms s ∧ ∀ name ∈ r.required, Value.text name ∈ ms.map Prod.fst := by
  constructor
  · intro h
    rw [record] at h
    cases read : r.members room [] start ms with
    | error fault => rw [read] at h; cases h
    | ok out =>
      obtain ⟨seen, s₁⟩ := out
      rw [read] at h
      simp only [bind, Except.bind] at h
      cases missing : r.required.find? (· ∉ seen) with
      | some name => rw [missing] at h; cases h
      | none =>
        rw [missing] at h
        obtain rfl := Except.ok.inj h
        obtain ⟨fills, _, given⟩ := fills_of_members read
        refine ⟨fills, fun name required => ?_⟩
        have seen := List.find?_eq_none.1 missing name required
        simpa using (given name (closed name required)).1 (by simpa using seen)
  · rintro ⟨fills, given⟩
    obtain ⟨seen, read⟩ := fills.exists_members [] fun _ h => absurd h List.not_mem_nil
    have missing : r.required.find? (· ∉ seen) = none := by
      refine List.find?_eq_none.2 fun name required => ?_
      simpa using ((fills_of_members read).2.2 name (closed name required)).2 (.inr (given name required))
    rw [record, read]
    simp only [bind, Except.bind, missing]

/-- **What holds of a record as long as fields are read into it.** -/
theorem Fills.invariant {motive : σ → Prop} (step : ∀ {name v s s'}, name ∈ r.fields → r.read room name v s = .ok s' →
    motive s → motive s') {ms : List (Value × Value)} {s s' : σ} (h : Fills r room s ms s') : motive s → motive s' := by
  induction h with
  | nil => exact id
  | field known _ read _ ih => exact fun holds => ih (step known read holds)
  | other _ _ _ ih => exact ih

/-- The reading of one field does not depend on whether another one has been read. -/
def Commutes (r : RecordReader σ) (room : Nat) : Prop :=
  ∀ {a b : String} {v w : Value} {s s₁ s₂ : σ}, a ∈ r.fields → b ∈ r.fields → a ≠ b → r.read room a v s = .ok s₁ →
    r.read room b w s₁ = .ok s₂ → ∃ s₃, r.read room b w s = .ok s₃ ∧ r.read room a v s₃ = .ok s₂

/-- **The order of the members does not count.** -/
theorem Fills.perm (commutes : r.Commutes room) {ms ms' : List (Value × Value)} (perm : ms.Perm ms') :
    ∀ {s s' : σ}, Fills r room s ms s' → Fills r room s ms' s' := by
  induction perm with
  | nil => exact id
  | cons m perm ih =>
    have keys := perm.map Prod.fst
    intro s s' h
    cases h with
    | field known once read others => exact .field known (fun mem => once (keys.mem_iff.2 mem)) read (ih others)
    | other unknown skip others => exact .other unknown skip (ih others)
  | swap m n ms =>
    intro s s' h
    cases h with
    | @field _ _ _ a _ _ knownA onceA readA others =>
      cases others with
      | @field _ _ _ b _ _ knownB onceB readB others =>
        have apart : a ≠ b := by
          rintro rfl
          exact onceA List.mem_cons_self
        obtain ⟨s₃, readB, readA⟩ := commutes knownA knownB apart readA readB
        refine .field knownB ?_ readB (.field knownA (fun mem => onceA (List.mem_cons_of_mem _ mem)) readA others)
        simpa [Value.text, apart.symm] using onceB
      | other unknown skip others =>
        exact .other unknown skip (.field knownA (fun mem => onceA (List.mem_cons_of_mem _ mem)) readA others)
    | @other _ _ a _ _ unknownA skipA others =>
      cases others with
      | @field _ _ _ b _ _ knownB onceB readB others =>
        have apart : b ≠ a := by
          rintro rfl
          exact unknownA knownB
        refine .field knownB ?_ readB (.other unknownA skipA others)
        simpa [Value.text, apart] using onceB
      | other unknownB skipB others => exact .other unknownB skipB (.other unknownA skipA others)
  | trans _ _ ih ih' => exact fun h => ih' (ih h)

/-- No field is given twice. -/
theorem Fills.noDuplicate {ms : List (Value × Value)} {s s' : σ} (h : Fills r room s ms s') {name : String}
    (known : name ∈ r.fields) : ¬ List.Duplicate (.text name) (ms.map Prod.fst) := by
  induction h with
  | nil => exact List.not_duplicate_nil _
  | @field s s₁ s₂ other v rest knownOther once read others ih =>
    intro twice
    rcases List.duplicate_cons_iff.1 twice with ⟨same, mem⟩ | twice
    · exact once ((show Value.text other = _ from same) ▸ mem)
    · exact ih twice
  | @other s s₁ other v rest unknown skip others ih =>
    intro twice
    rcases List.duplicate_cons_iff.1 twice with ⟨same, mem⟩ | twice
    · have same : other = name := by simpa [Value.text] using same
      exact unknown (same ▸ known)
    · exact ih twice

/-- A field that is given has been read. -/
theorem Fills.exists_read {ms : List (Value × Value)} {s s' : σ} (h : Fills r room s ms s') {name : String} {v : Value}
    (known : name ∈ r.fields) (given : (.text name, v) ∈ ms) : ∃ s₁ s₂, r.read room name v s₁ = .ok s₂ := by
  induction h with
  | nil => exact absurd given List.not_mem_nil
  | field _ _ read _ ih =>
    rcases List.mem_cons.1 given with same | given
    · obtain ⟨rfl, rfl⟩ : name = _ ∧ v = _ := by simpa [Value.text] using same
      exact ⟨_, _, read⟩
    · exact ih given
  | other unknown _ _ ih =>
    rcases List.mem_cons.1 given with same | given
    · obtain ⟨rfl, rfl⟩ : name = _ ∧ v = _ := by simpa [Value.text] using same
      exact absurd known unknown
    · exact ih given

/-! ## Records that are written as lists -/

/-- The first fields with the given values. -/
def named (left : List String) (vs : List Value) : List (Value × Value) :=
  (left.zip vs).map (fun entry => (.text entry.1, entry.2))

theorem keys_named : ∀ (left : List String) (vs : List Value),
    (named left vs).map Prod.fst = (left.take vs.length).map Value.text
  | [], _ => by simp [named]
  | _ :: _, [] => rfl
  | name :: left, v :: vs => congrArg (Value.text name :: ·) (keys_named left vs)

theorem text_mem_keys_named {name : String} {left : List String} {vs : List Value} :
    Value.text name ∈ (named left vs).map Prod.fst ↔ name ∈ left.take vs.length := by
  rw [keys_named, List.mem_map]
  refine ⟨fun ⟨other, mem, same⟩ => ?_, fun mem => ⟨name, mem, rfl⟩⟩
  obtain rfl : other = name := by simpa [Value.text] using same
  exact mem

/-- **What has been read of a list:** its values fill the record as the fields in order, and the others are left. -/
theorem elements_ok_iff : ∀ (vs : List Value) {left : List String} (left' : List String) (s s' : σ),
    (∀ name ∈ left, name ∈ r.fields) → left.Nodup → (r.elements room left s vs = .ok (left', s') ↔
      vs.length ≤ left.length ∧ left' = left.drop vs.length ∧ Fills r room s (named left vs) s')
  | [], left, left', s, s', _, _ => by
    rw [elements.eq_def, show named left [] = [] by simp [named]]
    constructor
    · intro h
      obtain ⟨rfl, rfl⟩ := Prod.mk.inj (Except.ok.inj h)
      exact ⟨Nat.zero_le _, rfl, .nil⟩
    · rintro ⟨_, rfl, fills⟩
      cases fills
      rfl
  | v :: vs, [], left', s, s', _, _ => by simp [elements, flawed]
  | v :: vs, name :: left, left', s, s', known, nodup => by
    obtain ⟨fresh, nodup⟩ := List.nodup_cons.1 nodup
    have rest (s₁ : σ) := elements_ok_iff vs left' s₁ s'
      (fun other mem => known other (List.mem_cons_of_mem _ mem)) nodup
    have first := known name List.mem_cons_self
    have once : Value.text name ∉ (named left vs).map Prod.fst := fun mem =>
      fresh (List.mem_of_mem_take (text_mem_keys_named.1 mem))
    rw [elements, show named (name :: left) (v :: vs) = (.text name, v) :: named left vs from rfl]
    cases read : r.read room name v s with
    | error fault =>
      refine ⟨nofun, fun ⟨_, _, fills⟩ => ?_⟩
      cases fills with
      | field _ _ read' _ => rw [read] at read'; cases read'
      | other unknown _ _ => exact absurd first unknown
    | ok s₁ =>
      refine (rest s₁).trans ⟨fun ⟨fits, drop, fills⟩ => ⟨Nat.succ_le_succ fits, drop, .field first once read fills⟩,
        fun ⟨fits, drop, fills⟩ => ⟨Nat.le_of_succ_le_succ fits, drop, ?_⟩⟩
      cases fills with
      | field _ _ read' fills =>
        rw [read] at read'
        exact Except.ok.inj read' ▸ fills
      | other unknown _ _ => exact absurd first unknown

/-- **A list of values is a record where the object that names them in order is.** -/
theorem record_array_ok_iff (closed : ∀ name ∈ r.required, name ∈ r.fields) (nodup : r.fields.Nodup) {start s : σ}
    {vs : List Value} : r.record (room + 1) start (.array vs) = .ok s ↔
      vs.length ≤ r.fields.length ∧ r.record (room + 1) start (.object (named r.fields vs)) = .ok s := by
  have elements {left : List String} {s₁ : σ} : r.elements room r.fields start vs = .ok (left, s₁) ↔ _ :=
    elements_ok_iff vs left start s₁ (fun _ h => h) nodup
  have split (name : String) (required : name ∈ r.required) :
      name ∉ r.fields.drop vs.length ↔ Value.text name ∈ (named r.fields vs).map Prod.fst := by
    have all := closed name required
    rw [text_mem_keys_named]
    rw [← List.take_append_drop vs.length r.fields] at all nodup
    have disjoint := List.disjoint_of_nodup_append nodup
    refine ⟨fun notDropped => (List.mem_append.1 all).resolve_right notDropped, fun taken dropped => disjoint taken dropped⟩
  rw [record_object_ok_iff closed]
  constructor
  · intro h
    rw [record] at h
    cases read : r.elements room r.fields start vs with
    | error fault => rw [read] at h; cases h
    | ok out =>
      obtain ⟨left, s₁⟩ := out
      rw [read] at h
      simp only [bind, Except.bind] at h
      cases missing : r.required.find? (· ∈ left) with
      | some name => rw [missing] at h; cases h
      | none =>
        rw [missing] at h
        obtain rfl := Except.ok.inj h
        obtain ⟨fits, rfl, fills⟩ := elements.1 read
        refine ⟨fits, fills, fun name required => (split name required).1 ?_⟩
        simpa using List.find?_eq_none.1 missing name required
  · rintro ⟨fits, fills, given⟩
    have read := elements.2 ⟨fits, rfl, fills⟩
    have missing : r.required.find? (· ∈ r.fields.drop vs.length) = none := by
      refine List.find?_eq_none.2 fun name required => ?_
      simpa using (split name required).2 (given name required)
    rw [record, read]
    simp only [bind, Except.bind, missing]

/-- A record takes up one container. -/
theorem record_zero_ne_ok (start : σ) (v : Value) (s : σ) : r.record 0 start v ≠ .ok s := by
  unfold record
  split
  · exact nofun
  · exact nofun
  · exact mistyped_ne_ok _ _ _

/-- **What a record says has been read field by field,** however it is written. -/
theorem exists_fills (closed : ∀ name ∈ r.required, name ∈ r.fields) (nodup : r.fields.Nodup) {start s : σ} {v : Value}
    (h : r.record (room + 1) start v = .ok s) : ∃ ms, Fills r room start ms s := by
  cases v with
  | object ms => exact ⟨ms, ((record_object_ok_iff closed).1 h).1⟩
  | array vs => exact ⟨_, ((record_object_ok_iff closed).1 ((record_array_ok_iff closed nodup).1 h).2).1⟩
  | _ => exact absurd h (mistyped_ne_ok _ _ _)

/-- **A record of different fields** is what its fields give one after another. -/
theorem fills_of_foldlM : ∀ {members : List (String × Value)} {s s' : σ}, (∀ m ∈ members, m.1 ∈ r.fields) →
    (members.map Prod.fst).Nodup → members.foldlM (fun s m => r.read room m.1 m.2 s) s = .ok s' →
    Fills r room s (members.map fun m => (.text m.1, m.2)) s'
  | [], s, s', _, _, h => by
    obtain rfl : s = s' := Except.ok.inj h
    exact .nil
  | (name, v) :: rest, s, s', known, nodup, h => by
    obtain ⟨fresh, nodup⟩ := List.nodup_cons.1 nodup
    have once : Value.text name ∉ (rest.map fun m => (Value.text m.1, m.2)).map Prod.fst := by
      rw [List.map_map, List.mem_map]
      rintro ⟨m, mem, same⟩
      have same : m.1 = name := by simpa [Value.text] using same
      exact fresh (List.mem_map.2 ⟨m, mem, same⟩)
    rw [List.foldlM_cons] at h
    cases read : r.read room name v s with
    | error fault => rw [read] at h; cases h
    | ok s₁ =>
      rw [read] at h
      have others := fills_of_foldlM (fun m mem => known m (List.mem_cons_of_mem _ mem)) nodup h
      exact .field (known (name, v) List.mem_cons_self) once read others

theorem record_of_foldlM (closed : ∀ name ∈ r.required, name ∈ r.fields) {members : List (String × Value)} {start s : σ}
    (known : ∀ m ∈ members, m.1 ∈ r.fields) (nodup : (members.map Prod.fst).Nodup)
    (given : ∀ name ∈ r.required, name ∈ members.map Prod.fst)
    (h : members.foldlM (fun s m => r.read room m.1 m.2 s) start = .ok s) :
    r.record (room + 1) start (.record members) = .ok s := by
  refine (record_object_ok_iff closed).2 ⟨fills_of_foldlM known nodup h, fun name required => ?_⟩
  obtain ⟨m, mem, rfl⟩ := List.mem_map.1 (given name required)
  exact List.mem_map.2 ⟨_, List.mem_map_of_mem mem, rfl⟩

end RecordReader
end Reader
end Request
end IncludeClosure
