import IncludeClosure.Directive.Line
/-!
# Directive.Written — directives as lines of a file

A directive can be written in many ways: blanks may stand around the `#` and after the keyword, and there are three
keywords.  What is written is read back when the target is **plain**: not empty, on one line, and without the delimiter
that closes it.
-/
namespace IncludeClosure
namespace Directive

def Plain (d : Directive) : Prop :=
  d.target ≠ "" ∧ '\n' ∉ d.target.toList ∧ d.form.closing ∉ d.target.toList

instance (d : Directive) : Decidable d.Plain :=
  inferInstanceAs (Decidable (_ ∧ _ ∧ _))

structure Style where
  indent : Bytes
  gap : Bytes
  keyword : Keyword
  space : Bytes
  blank : ∀ b ∈ indent ++ gap ++ space, isBlank b

/-- **The line of a directive,** without its end. -/
def writtenAs (d : Directive) (style : Style) : Bytes :=
  style.indent ++ 0x23 :: style.gap ++ Text.utf8Bytes style.keyword.spelling ++ style.space
    ++ Text.utf8Bytes d.display

/-- **A file of directives,** one a line. -/
def fileOf : List (Directive × Style) → Bytes
  | [] => []
  | (d, style) :: rest => d.writtenAs style ++ 0x0a :: fileOf rest

end Directive
end IncludeClosure
