import ChainScript.Chain.Call

/-! # Programs that ask a chain

A program is a result, or a call and what to do with the reply. It says which calls are made in
which order without saying which chain answers them: `Program.run` takes the answers from a state,
and the laws of `Program` hold whatever the answers are.
-/

namespace ChainScript
set_option autoImplicit false

inductive Program (α : Type) where
  | done (result : α)
  | ask (call : Call) (next : call.Reply → Program α)

namespace Program

variable {α β γ σ : Type}

/-- The second program takes over the result of the first. -/
def bind : Program α → (α → Program β) → Program β
  | .done a, f => f a
  | .ask call next, f => .ask call fun reply => (next reply).bind f

instance : Monad Program where
  pure := .done
  bind := bind

@[simp] theorem pure_eq (a : α) : (pure a : Program α) = .done a := rfl

@[simp] theorem done_bind (a : α) (f : α → Program β) : (.done a : Program α) >>= f = f a := rfl

@[simp] theorem ask_bind (call : Call) (next : call.Reply → Program α) (f : α → Program β) :
    (.ask call next : Program α) >>= f = .ask call fun reply => next reply >>= f := rfl

theorem bind_done (p : Program α) : p >>= Program.done = p := by
  induction p with
  | done a => rfl
  | ask call next ih => simp [ih]

theorem bind_bind (p : Program α) (f : α → Program β) (g : β → Program γ) :
    p >>= f >>= g = p >>= fun a => f a >>= g := by
  induction p with
  | done a => rfl
  | ask call next ih => simp [ih]

instance : LawfulMonad Program :=
  LawfulMonad.mk' Program bind_done (fun _ _ => rfl) bind_bind

/-- Make one call. -/
def call (c : Call) : Program c.Reply := .ask c .done

/-- How a chain in a state answers a call. -/
abbrev Answers (σ : Type) : Type := σ → (c : Call) → c.Reply × σ

/-- Run a program against a chain. -/
def run (answers : Answers σ) : Program α → σ → α × σ
  | .done a, s => (a, s)
  | .ask c next, s => (next (answers s c).1).run answers (answers s c).2

@[simp] theorem run_done (answers : Answers σ) (a : α) (s : σ) :
    (Program.done a).run answers s = (a, s) := rfl

theorem run_bind (answers : Answers σ) (p : Program α) (f : α → Program β) (s : σ) :
    (p >>= f).run answers s = (f (p.run answers s).1).run answers (p.run answers s).2 := by
  induction p generalizing s with
  | done a => rfl
  | ask c next ih => simp [run, ih]

end Program

end ChainScript
