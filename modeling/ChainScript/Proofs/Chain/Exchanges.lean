import ChainScript.Chain.Memory

/-! # What a program asks

The exchanges of a run are its calls and their replies, in order. Programs that look something up
have one shape: reads, each of which ends the program when it fails, and then a last part.

* `Program.exchanges`: the exchanges of a run.
* `Program.ReadsThen`: the shape. `Program.Query` is the case of a last part without calls.
* `Program.eval`: the result of a program when each call has a fixed reply, as the reads of a chain
  in memory have.
* `Program.bind_congr_of_run`: what follows a program matters only for results that can come about.
-/

namespace ChainScript
set_option autoImplicit false

structure Exchange where
  call : Call
  reply : call.Reply

/-- The account on whose behalf a call changes the chain. -/
def Call.actor? : Call → Option Address
  | .read _ _ _ => none
  | .send _ _ _ actor => some actor
  | .deploy _ _ actor => some actor

/-- The outcome of a transaction or a deployment. -/
def Exchange.outcome? : Exchange → Option (Except TransportError Receipt)
  | ⟨.read _ _ _, _⟩ => none
  | ⟨.send _ _ _ _, reply⟩ => some reply
  | ⟨.deploy _ _ _, reply⟩ => some reply

theorem Exchange.outcome?_of_read {y : Exchange} (h : y.call.actor? = none) : y.outcome? = none := by
  obtain ⟨call, reply⟩ := y
  cases call with
  | read target method args => rfl
  | send target method args actor => cases h
  | deploy artifact args actor => cases h

namespace Program

variable {α β σ : Type}

/-! ## Exchanges -/

def exchanges (answers : Answers σ) : Program α → σ → List Exchange
  | .done _, _ => []
  | .ask c next, s =>
    ⟨c, (answers s c).1⟩ :: (next (answers s c).1).exchanges answers (answers s c).2

@[simp] theorem exchanges_done (answers : Answers σ) (a : α) (s : σ) :
    (Program.done a).exchanges answers s = [] := rfl

@[simp] theorem exchanges_ask (answers : Answers σ) (c : Call) (next : c.Reply → Program α)
    (s : σ) :
    (Program.ask c next).exchanges answers s =
      ⟨c, (answers s c).1⟩ :: (next (answers s c).1).exchanges answers (answers s c).2 := rfl

theorem run_ask (answers : Answers σ) (c : Call) (next : c.Reply → Program α) (s : σ) :
    (Program.ask c next).run answers s =
      (next (answers s c).1).run answers (answers s c).2 := rfl

theorem exchanges_bind (answers : Answers σ) (p : Program α) (f : α → Program β) (s : σ) :
    (p >>= f).exchanges answers s =
      p.exchanges answers s ++
        (f (p.run answers s).1).exchanges answers (p.run answers s).2 := by
  induction p generalizing s with
  | done a => rfl
  | ask c next ih => simp [run_ask, ih]

/-! ## Reads, then a last part -/

/-- A program that makes reads and then goes on as a program with the property `last`. A read that
fails ends it at once with what `fail` makes of the cause. -/
inductive ReadsThen (fail : TransportError → α) (last : Program α → Prop) : Program α → Prop where
  | last {p : Program α} (h : last p) : ReadsThen fail last p
  | read {target : Address} {method : String} {args : List Value}
      {next : (Call.read target method args).Reply → Program α}
      (failed : ∀ cause, next (Except.error cause) = .done (fail cause))
      (answered : ∀ raw, ReadsThen fail last (next (Except.ok raw))) :
      ReadsThen fail last (.ask (.read target method args) next)

def Ends (p : Program α) : Prop := ∃ a, p = .done a

/-- A program all of whose calls are reads, ended by the first of them that fails. -/
abbrev Query (fail : TransportError → α) : Program α → Prop := ReadsThen fail Ends

theorem Query.done (fail : TransportError → α) (a : α) : Query fail (.done a) :=
  .last ⟨a, rfl⟩

variable {fail : TransportError → α} {fail' : TransportError → β}
  {last : Program α → Prop} {last' : Program β → Prop}

theorem Query.bind {p : Program α} {f : α → Program β} (hp : Query fail p)
    (hfail : ∀ cause, f (fail cause) = .done (fail' cause))
    (hf : ∀ a, ReadsThen fail' last' (f a)) : ReadsThen fail' last' (p >>= f) := by
  induction hp with
  | last hl =>
    obtain ⟨a, rfl⟩ := hl
    exact hf a
  | read failed _ ih =>
    refine .read (fun cause => ?_) ih
    rw [failed]
    exact hfail cause

/-- Where the last part makes no read, a failed read is the last exchange and gives the result. -/
theorem ReadsThen.failed_read {p : Program α} (hp : ReadsThen fail last p) (answers : Answers σ)
    (hlast : ∀ q, last q → ∀ s, ∀ x ∈ q.exchanges answers s, x.call.actor? ≠ none) (s : σ)
    {earlier later : List Exchange} {target : Address} {method : String} {args : List Value}
    {cause : TransportError}
    (he : p.exchanges answers s =
      earlier ++ ⟨.read target method args, Except.error cause⟩ :: later) :
    later = [] ∧ (p.run answers s).1 = fail cause := by
  induction hp generalizing s earlier with
  | last hl =>
    have hmem := hlast _ hl s ⟨.read target method args, Except.error cause⟩ (by rw [he]; simp)
    exact absurd rfl hmem
  | @read t m as next failed _ ih =>
    rw [exchanges_ask] at he
    rw [run_ask]
    generalize answers s (.read t m as) = reply at he ⊢
    obtain ⟨reply, s'⟩ := reply
    cases reply with
    | error found =>
      rw [failed] at he ⊢
      cases earlier with
      | nil =>
        simp only [List.nil_append, List.cons.injEq, exchanges_done] at he
        obtain ⟨hx, hl⟩ := he
        cases hx
        exact ⟨hl.symm, rfl⟩
      | cons x earlier => simp at he
    | ok raw =>
      cases earlier with
      | nil => simp at he
      | cons x earlier =>
        simp only [List.cons_append, List.cons.injEq] at he
        exact ih raw s' he.2

/-- A chain whose reads leave its state as it is. -/
def ReadsKeep (answers : Answers σ) : Prop :=
  ∀ s target method args, (answers s (.read target method args)).2 = s

/-- A run is some reads followed by a run of the last part, unless a read failed. On a chain whose
reads leave its state as it is, the last part starts in the state of the start. -/
theorem ReadsThen.split {p : Program α} (hp : ReadsThen fail last p) (answers : Answers σ) (s : σ) :
    ∃ reads q s', (∀ x ∈ reads, x.call.actor? = none) ∧
      p.exchanges answers s = reads ++ q.exchanges answers s' ∧
      p.run answers s = q.run answers s' ∧
      ((∃ cause, q = .done (fail cause)) ∨ last q) ∧ (ReadsKeep answers → s' = s) := by
  induction hp generalizing s with
  | @last q hl => exact ⟨[], q, s, by simp, rfl, rfl, .inr hl, fun _ => rfl⟩
  | @read target method args next failed _ ih =>
    have hkeep : ReadsKeep answers → (answers s (.read target method args)).2 = s :=
      fun h => h s target method args
    rw [exchanges_ask, run_ask]
    generalize answers s (.read target method args) = reply at hkeep ⊢
    obtain ⟨reply, s₁⟩ := reply
    cases reply with
    | error cause =>
      rw [failed]
      exact ⟨[⟨.read target method args, Except.error cause⟩], .done (fail cause), s₁,
        by simp [Call.actor?], rfl, rfl, .inl ⟨cause, rfl⟩, hkeep⟩
    | ok raw =>
      obtain ⟨reads, q, s', hreads, hex, hrun, hq, hs⟩ := ih raw s₁
      refine ⟨⟨.read target method args, Except.ok raw⟩ :: reads, q, s', ?_, ?_, hrun, hq,
        fun h => ?_⟩
      · intro x hx
        rcases List.mem_cons.mp hx with rfl | hx
        · rfl
        · exact hreads x hx
      · simp [hex]
      · exact (hs h).trans (hkeep h)

theorem Query.reads {p : Program α} (hp : Query fail p) (answers : Answers σ) (s : σ) :
    ∀ x ∈ p.exchanges answers s, x.call.actor? = none := by
  obtain ⟨reads, q, s', hreads, hex, -, hq, -⟩ := hp.split answers s
  have hend : q.exchanges answers s' = [] := by
    rcases hq with ⟨cause, rfl⟩ | ⟨a, rfl⟩ <;> rfl
  rw [hex, hend, List.append_nil]
  exact hreads

/-! ## Fixed replies -/

/-- A chain without a state, on which each call has a fixed reply. -/
def fixed (reply : (c : Call) → c.Reply) : Answers Unit := fun _ c => (reply c, ())

/-- The result of a program when each call has a fixed reply. -/
def eval (reply : (c : Call) → c.Reply) (p : Program α) : α := (p.run (fixed reply) ()).1

theorem run_fixed {reply : (c : Call) → c.Reply} {p : Program α} {a : α} :
    p.run (fixed reply) () = (a, ()) ↔ p.eval reply = a := by
  constructor
  · intro h
    rw [eval, h]
  · rintro rfl
    rfl

@[simp] theorem eval_done (reply : (c : Call) → c.Reply) (a : α) :
    (Program.done a).eval reply = a := rfl

@[simp] theorem eval_ask (reply : (c : Call) → c.Reply) (c : Call) (next : c.Reply → Program α) :
    (Program.ask c next).eval reply = (next (reply c)).eval reply := rfl

/-- Where reads leave the state as it is, a query gives what it gives for the replies of that state,
and the state stays. -/
theorem Query.run_eq {p : Program α} (hp : Query fail p) {answers : Answers σ}
    (hkeep : ReadsKeep answers) (s : σ) :
    p.run answers s = (p.eval fun c => (answers s c).1, s) := by
  induction hp with
  | last hl =>
    obtain ⟨a, rfl⟩ := hl
    rfl
  | @read target method args next failed _ ih =>
    rw [run_ask, hkeep, eval_ask]
    cases hreply : (answers s (.read target method args)).1 with
    | error cause => rw [failed]; rfl
    | ok raw => exact ih raw

theorem Query.run_iff {p : Program α} (hp : Query fail p) {answers : Answers σ}
    (hkeep : ReadsKeep answers) {s s' : σ} {a : α} :
    p.run answers s = (a, s') ↔ (p.eval fun c => (answers s c).1) = a ∧ s' = s := by
  rw [hp.run_eq hkeep, Prod.mk.injEq, eq_comm (b := s)]

/-! ## Results that can come about -/

/-- A chain that gives one reply to its first call and goes on as another chain. -/
noncomputable def Answers.behind (c : Call) (reply : c.Reply) (answers : Answers σ) (s : σ) :
    Answers (Option σ)
  | some t, c' => ((answers t c').1, some (answers t c').2)
  | none, c' => open scoped Classical in
    if h : c' = c then (h ▸ reply, some s) else ((answers s c').1, none)

theorem run_behind (answers : Answers σ) (c : Call) (reply : c.Reply) (s t : σ) (p : Program α) :
    p.run (answers.behind c reply s) (some t) = ((p.run answers t).1, some (p.run answers t).2) := by
  induction p generalizing t with
  | done a => rfl
  | ask c' next ih => exact ih (answers t c').1 (answers t c').2

theorem run_ask_behind (answers : Answers σ) (c : Call) (reply : c.Reply) (s : σ)
    (next : c.Reply → Program α) :
    (Program.ask c next).run (answers.behind c reply s) none =
      (((next reply).run answers s).1, some ((next reply).run answers s).2) := by
  rw [run_ask, ← run_behind answers c reply s s (next reply)]
  simp [Answers.behind]

/-- Two ways to go on from a program are the same if they agree on every result that some chain
brings about. The induction is on the program: behind a call, the chain that gives its reply first
brings about what the rest of the program does. -/
theorem bind_congr_of_run {p : Program α} {f g : α → Program β}
    (h : ∀ (σ : Type) (answers : Answers σ) (s s' : σ) (a : α),
      p.run answers s = (a, s') → f a = g a) : p >>= f = p >>= g := by
  induction p with
  | done a => exact h MemoryChain MemoryChain.answer (.new 0 0) (.new 0 0) a rfl
  | ask c next ih =>
    rw [ask_bind, ask_bind]
    congr 1
    funext reply
    refine ih reply fun σ answers s s' a hrun => ?_
    refine h (Option σ) (answers.behind c reply s) none (some s') a ?_
    rw [run_ask_behind, hrun]

/-! ## Computations that may fail -/

theorem run_exceptBind {ω : Type} (answers : Answers σ) (x : ExceptT ω Program α)
    (f : α → ExceptT ω Program β) (s : σ) :
    (x >>= f).run.run answers s =
      match x.run.run answers s with
      | (.ok a, s') => (f a).run.run answers s'
      | (.error e, s') => (.error e, s') := by
  rw [ExceptT.run_bind, run_bind]
  rcases x.run.run answers s with ⟨e | a, s'⟩ <;> rfl

theorem exchanges_exceptBind {ω : Type} (answers : Answers σ) (x : ExceptT ω Program α)
    (f : α → ExceptT ω Program β) (s : σ) :
    (x >>= f).run.exchanges answers s = x.run.exchanges answers s ++
      match x.run.run answers s with
      | (.ok a, s') => (f a).run.exchanges answers s'
      | (.error _, _) => [] := by
  rw [ExceptT.run_bind, exchanges_bind]
  congr 1
  rcases x.run.run answers s with ⟨e | a, s'⟩ <;> rfl

/-- A computation in two parts succeeds when the first does, and the second from there. -/
theorem run_exceptBind_eq_ok {ω : Type} {answers : Answers σ} {x : ExceptT ω Program α}
    {f : α → ExceptT ω Program β} {s s' : σ} {b : β} :
    (x >>= f).run.run answers s = (.ok b, s') ↔
      ∃ a s₁, x.run.run answers s = (.ok a, s₁) ∧ (f a).run.run answers s₁ = (.ok b, s') := by
  rw [run_exceptBind]
  rcases x.run.run answers s with ⟨e | a, s₁⟩
  · simp
  · constructor
    · intro h
      exact ⟨a, s₁, rfl, h⟩
    · rintro ⟨a', s₂, hx, h⟩
      cases hx
      exact h

/-- It fails when the first part does, or the second from there. -/
theorem run_exceptBind_eq_error {ω : Type} {answers : Answers σ} {x : ExceptT ω Program α}
    {f : α → ExceptT ω Program β} {s s' : σ} {e : ω} :
    (x >>= f).run.run answers s = (.error e, s') ↔
      x.run.run answers s = (.error e, s') ∨
        ∃ a s₁, x.run.run answers s = (.ok a, s₁) ∧ (f a).run.run answers s₁ = (.error e, s') := by
  rw [run_exceptBind]
  rcases x.run.run answers s with ⟨found | a, s₁⟩
  · simp
  · constructor
    · intro h
      exact .inr ⟨a, s₁, rfl, h⟩
    · rintro (hx | ⟨a', s₂, hx, h⟩)
      · cases hx
      · cases hx
        exact h

theorem exceptBind_congr_of_run {ω : Type} {x : ExceptT ω Program α}
    {f g : α → ExceptT ω Program β}
    (h : ∀ (σ : Type) (answers : Answers σ) (s s' : σ) (a : α),
      x.run.run answers s = (.ok a, s') → f a = g a) : x >>= f = x >>= g := by
  apply ExceptT.ext
  rw [ExceptT.run_bind, ExceptT.run_bind]
  refine bind_congr_of_run fun σ answers s s' r hrun => ?_
  cases r with
  | ok a => exact congrArg ExceptT.run (h σ answers s s' a hrun)
  | error e => rfl

end Program

theorem MemoryChain.readsKeep : Program.ReadsKeep MemoryChain.answer := fun _ _ _ _ => rfl

end ChainScript
