/-!
# FileTree.OsError — why the system refuses a file

Each cause has the number and the text that the system gives it; two causes are found before the system is asked and
have no number.
-/
namespace IncludeClosure

/-- Why a file cannot be looked at or read. -/
inductive OsError where
  | notFound
  | notDirectory
  | isDirectory
  | nameTooLong
  | tooManyLinks
  | embeddedNul
  | notText
  | other (number : Nat) (words : String)
deriving DecidableEq, Repr

namespace OsError

def numbered (words : String) (number : Nat) : String :=
  words ++ " (os error " ++ toString number ++ ")"

/-- **The cause in words.** -/
def message : OsError → String
  | notFound => numbered "No such file or directory" 2
  | notDirectory => numbered "Not a directory" 20
  | isDirectory => numbered "Is a directory" 21
  | nameTooLong => numbered "File name too long" 36
  | tooManyLinks => numbered "Too many levels of symbolic links" 40
  | embeddedNul => "file name contained an unexpected NUL byte"
  | notText => "stream did not contain valid UTF-8"
  | other number words => numbered words number

end OsError
end IncludeClosure
