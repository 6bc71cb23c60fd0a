import IncludeClosure.Text.Blank
import IncludeClosure.Text.Digits
/-!
# Settings — how batches are run
-/
namespace IncludeClosure

/-- The settings of a batch. -/
structure Settings where
  /-- How many actions may run at once; by default as many as there are processors. -/
  parallelism : Option Nat
  taskName : String
deriving DecidableEq, Repr

namespace Settings

def parallelismVariable : String := "INCSCAN_PARALLELISM"

def default : Settings :=
  { parallelism := none, taskName := "include scanning" }

/-- **The settings under an environment:** the variable counts when it holds a positive number, with white space around
it or not. -/
def ofEnvironment (value : Option String) : Settings :=
  match value.bind (fun text => Text.word? (Text.trim text.toList)) with
  | some (n + 1) => { default with parallelism := some (n + 1) }
  | _ => default

end Settings
end IncludeClosure
