import IncludeClosure.Json.Flaw
import IncludeClosure.Json.Number
/-!
# Json.Value — documents, also broken ones

The value of a document keeps members in order and repeated keys apart.  Where the text stops being a document, the
value says so: `broken` stands in the place of the first thing that is missing or wrong, and nothing follows it.  A
reader that goes through a value in order therefore meets what is wrong with the text and what is wrong with the data in
the order in which they are written.
-/
namespace IncludeClosure
namespace Json

/-- The value of a document, or of a text that is one only up to a point. -/
inductive Value where
  | null
  | boolean (value : Bool)
  | number (value : Number)
  | string (text : Except Flaw String)
  | array (items : List Value)
  /-- Keys and values.  The value of a key that is no string is broken. -/
  | object (members : List (Value × Value))
  | broken (why : Break)

namespace Value

def text (s : String) : Value :=
  string (.ok s)

def ofNat (n : Nat) : Value :=
  number (.ofNat n)

def record (members : List (String × Value)) : Value :=
  object (members.map (fun m => (text m.1, m.2)))

mutual

/-- **Skip a value:** nothing is looked at but whether the text is a document up to its end. -/
def skip : Value → Except Flaw Unit
  | array items => skipItems items
  | object members => skipMembers members
  | broken why => .error why.skipped
  | _ => .ok ()

def skipItems : List Value → Except Flaw Unit
  | [] => .ok ()
  | v :: rest =>
    match v.skip with
    | .error flaw => .error flaw
    | .ok () => skipItems rest

def skipMembers : List (Value × Value) → Except Flaw Unit
  | [] => .ok ()
  | (_, v) :: rest =>
    match v.skip with
    | .error flaw => .error flaw
    | .ok () => skipMembers rest

end

mutual

/-- **How many containers are open** in the value where most are. -/
def nesting : Value → Nat
  | array items => itemsNesting items + 1
  | object members => membersNesting members + 1
  | _ => 0

def itemsNesting : List Value → Nat
  | [] => 0
  | v :: rest => max v.nesting (itemsNesting rest)

def membersNesting : List (Value × Value) → Nat
  | [] => 0
  | (_, v) :: rest => max v.nesting (membersNesting rest)

end

end Value
end Json
end IncludeClosure
