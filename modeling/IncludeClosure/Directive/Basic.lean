/-!
# Directive — what a source file asks to be included

A directive is a target and the form it is written in.  The form decides where the target is looked up: a quoted name
also beside the file that holds the directive, an angle-bracketed one in the angle roots alone.
-/
namespace IncludeClosure

inductive IncludeForm where
  | quote
  | angle
deriving DecidableEq, Repr, Inhabited

namespace IncludeForm

def opening : IncludeForm → Char
  | quote => '"'
  | angle => '<'

def closing : IncludeForm → Char
  | quote => '"'
  | angle => '>'

def label : IncludeForm → String
  | quote => "quote"
  | angle => "angle"

end IncludeForm

structure Directive where
  form : IncludeForm
  target : String
deriving DecidableEq, Repr, Inhabited

namespace Directive

/-- **The directive's operand as it is written in a file:** the target between its delimiters. -/
def display (d : Directive) : String :=
  String.singleton d.form.opening ++ d.target ++ String.singleton d.form.closing

end Directive
end IncludeClosure
