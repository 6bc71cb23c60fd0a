/-!
# Program — computations that ask their surroundings

A program either is done or asks one question and goes on with the answer.  One program can therefore be run on a
tree held in memory, on the real file system, or step by step among other programs; what it does between two questions
is a plain function.  `run` answers every question at once, and running a sequence is running its parts
(`run_bind`).
-/
namespace IncludeClosure

/-- A program that asks questions of type `Q`, answered as `Answer` says. -/
inductive Program {Q : Type} (Answer : Q → Type) (α : Type) : Type where
  | done (result : α)
  | ask (question : Q) (resume : Answer question → Program Answer α)

namespace Program

variable {Q : Type} {Answer : Q → Type} {α β γ : Type}

def bind : Program Answer α → (α → Program Answer β) → Program Answer β
  | done a, f => f a
  | ask q resume, f => ask q (fun answer => (resume answer).bind f)

instance : Monad (Program Answer) where
  pure := done
  bind := bind

def query (q : Q) : Program Answer (Answer q) :=
  ask q done

/-- **Run a program,** every question being answered by `answer`. -/
def run (answer : (q : Q) → Answer q) : Program Answer α → α
  | done a => a
  | ask q resume => (resume (answer q)).run answer

@[simp] theorem pure_eq (a : α) : (pure a : Program Answer α) = done a := rfl

@[simp] theorem done_bind (a : α) (f : α → Program Answer β) : (done a >>= f) = f a := rfl

@[simp] theorem ask_bind (q : Q) (resume : Answer q → Program Answer α) (f : α → Program Answer β) :
    (ask q resume >>= f) = ask q (fun answer => resume answer >>= f) := rfl

@[simp] theorem bind_done : ∀ p : Program Answer α, (p >>= done) = p
  | done _ => rfl
  | ask q resume => by
    rw [ask_bind]; exact congrArg (ask q) (funext fun answer => bind_done (resume answer))

theorem bind_assoc : ∀ (p : Program Answer α) (f : α → Program Answer β) (g : β → Program Answer γ),
    (p >>= f >>= g) = (p >>= fun a => f a >>= g)
  | done _, _, _ => rfl
  | ask q resume, f, g => by
    simp only [ask_bind]
    exact congrArg (ask q) (funext fun answer => bind_assoc (resume answer) f g)

@[simp] theorem run_done (answer : (q : Q) → Answer q) (a : α) : (done a : Program Answer α).run answer = a := rfl

@[simp] theorem run_query (answer : (q : Q) → Answer q) (q : Q) :
    (query q : Program Answer (Answer q)).run answer = answer q := rfl

/-- **Running a sequence is running its parts.** -/
@[simp] theorem run_bind (answer : (q : Q) → Answer q) : ∀ (p : Program Answer α) (f : α → Program Answer β),
    (p >>= f).run answer = (f (p.run answer)).run answer
  | done _, _ => rfl
  | ask q resume, f => run_bind answer (resume (answer q)) f

end Program
end IncludeClosure
