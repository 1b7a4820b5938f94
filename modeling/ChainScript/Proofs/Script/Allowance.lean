import ChainScript.Proofs.Command.Finish
import ChainScript.Proofs.Script.Turns

/-! # One allowance, one failure

A line that allows a failure sets the allowance, and the next line that records an invocation takes
it back, whether the invocation failed or not. So the lines executed so far tell whether a failure
is allowed now, and between two failures that were recorded there is a line that allowed the second.

* `Taken`: what becomes of the reply to a transaction or a deployment.
* `Turn.Ending`, `Turn.ending`: how a line ends and what it has invoked.
* `Allowed`: the lines executed since the last invocation, or the world before them, allow a failure.
* `Executes.allowed`: so does the world after them, and only then.
* `Script.run_allowance`: whole runs.
-/

namespace ChainScript
set_option autoImplicit false

open Program

variable {σ : Type}

/-! ## Outcomes of invocations -/

/-- An outcome was taken up in a world: it was recorded and the allowance taken back, or the line
failed. A failure is recorded where it was allowed, and otherwise it is the error of the line. -/
inductive Taken (w : World) (outcome : Except TransportError Receipt) :
    Except Error World → Prop where
  | recorded {next : World} (target method : String)
      (invocation : next.lastInvocation = some ⟨target, method, outcome⟩)
      (spent : next.allowFailures = false)
      (allowed : ∀ cause, outcome = .error cause → w.allowFailures = true) :
      Taken w outcome (.ok next)
  | refused {err : Error}
      (forbidden : ∀ cause, outcome = .error cause →
        w.allowFailures = false ∧ err = .transport cause) :
      Taken w outcome (.error err)

theorem World.settle_taken (w : World) (target method : String)
    (outcome : Except TransportError Receipt) :
    Taken w outcome (w.settle ⟨target, method, outcome⟩) := by
  cases outcome with
  | ok receipt => exact .recorded target method rfl rfl nofun
  | error cause =>
    change Taken w (.error cause) (if w.allowFailures then
      .ok (w.withInvocation ⟨target, method, .error cause⟩) else .error (.transport cause))
    split
    · rename_i hallowed
      exact .recorded target method rfl rfl fun _ _ => hallowed
    · rename_i hforbidden
      refine .refused fun other hother => ?_
      cases hother
      exact ⟨Bool.eq_false_iff.mpr hforbidden, rfl⟩

theorem World.deployed_taken (w : World) (name artifact : String)
    (outcome : Except TransportError Receipt) :
    Taken w outcome (w.deployed name artifact outcome) := by
  cases outcome with
  | error cause => exact w.settle_taken name "deploy" (.error cause)
  | ok receipt =>
    rw [deployed]
    cases receipt.contractAddress with
    | none => exact .refused nofun
    | some address => exact .recorded name "deploy" rfl rfl nofun

/-! ## Lines -/

namespace Turn

variable (answers : Answers σ) (x : Turn σ)

/-- A transaction or a deployment of the line came to this. -/
def Invokes (outcome : Except TransportError Receipt) : Prop :=
  ∃ y ∈ x.exchanges answers, y.outcome? = some outcome

def FailsRead (cause : TransportError) : Prop :=
  ∃ target method args, ⟨.read target method args, Except.error cause⟩ ∈ x.exchanges answers

/-- The line is executed, and its invocation is the last one from then on. -/
def Records (outcome : Except TransportError Receipt) : Prop :=
  x.Succeeds answers ∧ x.Invokes answers outcome ∧
    ∃ target method, (x.next answers).lastInvocation = some ⟨target, method, outcome⟩

/-- Inside all changes of the actor the line allows the next failure. -/
def Allows : Prop :=
  (x.world.innermostEvent answers x.line.event x.chain).allowsFailures = true

/-- How a line ends: with an error or a world, and with an invocation or without. -/
inductive Ending : Except Error World → Prop where
  | failed (silent : ∀ o, ¬ x.Invokes answers o) (err : Error) : Ending (.error err)
  | allowed (silent : ∀ o, ¬ x.Invokes answers o) (allows : x.Allows answers) :
      Ending (.ok (x.world.withAllowFailures true))
  | quiet {next : World} (silent : ∀ o, ¬ x.Invokes answers o) (plain : ¬ x.Allows answers)
      (change : Quiet x.world next) : Ending (.ok next)
  | invoked {outcome : Except TransportError Receipt} {result : Except Error World}
      (made : ∀ o, x.Invokes answers o ↔ o = outcome) (plain : ¬ x.Allows answers)
      (taken : Taken x.world outcome result) : Ending result

variable {answers x}

theorem exchanges_eq (x : Turn σ) :
    x.exchanges answers =
      (x.world.perform x.line.event x.world.defaultFrom).run.exchanges answers x.chain := by
  rw [exchanges, program, World.executeAs, exchanges_bind]
  rcases ((x.world.perform x.line.event x.world.defaultFrom).run.run answers x.chain).1 with
    err | next
  · exact List.append_nil _
  · exact List.append_nil _

/-- Reads are no invocations. -/
theorem invokes_iff {reads last : List Exchange} {outcome : Except TransportError Receipt}
    (h : x.exchanges answers = reads ++ last) (hreads : ∀ y ∈ reads, y.call.actor? = none) :
    x.Invokes answers outcome ↔ ∃ y ∈ last, y.outcome? = some outcome := by
  rw [Invokes, h]
  constructor
  · rintro ⟨y, hy, houtcome⟩
    rcases List.mem_append.mp hy with hy | hy
    · rw [Exchange.outcome?_of_read (hreads y hy)] at houtcome
      cases houtcome
    · exact ⟨y, hy, houtcome⟩
  · rintro ⟨y, hy, houtcome⟩
    exact ⟨y, List.mem_append_right _ hy, houtcome⟩

/-- The step of a run: a line ends in one of these ways. -/
theorem ending (answers : Answers σ) (x : Turn σ) :
    ∃ result s, Ending answers x result ∧ x.outcome answers =
      match result with
      | .ok next => ((.ok (), next), s)
      | .error err => ((.error err, x.world), s) := by
  obtain ⟨q, s, ⟨⟨reads, hreads, hexchanges⟩, hrun, -⟩, hfinish⟩ :=
    World.perform_finishes answers x.chain x.world x.line.event x.world.defaultFrom
  rw [← exchanges_eq] at hexchanges
  have hmade : ∀ o, x.Invokes answers o ↔ ∃ y ∈ q.exchanges answers s, y.outcome? = some o :=
    fun o => invokes_iff hexchanges hreads
  refine ⟨(q.run answers s).1, (q.run answers s).2, ?_, ?_⟩
  · cases hfinish with
    | failed err => exact .failed (by simp [hmade]) err
    | allowed h => exact .allowed (by simp [hmade]) h
    | quiet h change => exact .quiet (by simp [hmade]) (by simp [Allows, h]) change
    | @send i h known actor method args =>
      refine .invoked (fun o => ?_) (by simp [Allows, h]) (x.world.settle_taken i.name method _)
      rw [hmade]
      simp [sendTransaction, Exchange.outcome?, eq_comm]
    | deploy h actor name artifact args =>
      refine .invoked (fun o => ?_) (by simp [Allows, h]) (x.world.deployed_taken name artifact _)
      rw [hmade]
      simp [deployContract, Exchange.outcome?, eq_comm]
  · rw [outcome, program, World.run_executeAs, hrun]
    rcases q.run answers s with ⟨err | next, s'⟩ <;> rfl

theorem ending_of_succeeds (h : x.Succeeds answers) : Ending answers x (.ok (x.next answers)) := by
  obtain ⟨result, s, hending, houtcome⟩ := ending answers x
  rw [Succeeds, houtcome] at h
  rw [next, houtcome]
  cases result with
  | ok next => exact hending
  | error err => cases h

/-- After a line a failure is allowed when the line allows it, or when it was allowed before and the
line records no invocation. -/
theorem allowFailures_next (h : x.Succeeds answers) :
    (x.next answers).allowFailures = true ↔
      x.Allows answers ∨ (x.world.allowFailures = true ∧ ∀ o, ¬ x.Records answers o) := by
  have hending := ending_of_succeeds h
  generalize hnext : x.next answers = next at hending ⊢
  cases hending with
  | allowed silent allows => exact ⟨fun _ => .inl allows, fun _ => rfl⟩
  | quiet silent plain change =>
    have hrecords : ∀ o, ¬ x.Records answers o := fun o hrecords => silent o hrecords.2.1
    rw [change.allowFailures_eq]
    constructor
    · intro hflag
      exact .inr ⟨hflag, hrecords⟩
    · rintro (hallows | ⟨hflag, -⟩)
      · exact absurd hallows plain
      · exact hflag
  | @invoked outcome _ made plain taken =>
    cases taken with
    | recorded target method invocation spent allowed =>
      have hrecords : x.Records answers outcome :=
        ⟨h, (made outcome).mpr rfl, target, method, hnext ▸ invocation⟩
      rw [spent]
      constructor
      · intro hflag
        cases hflag
      · rintro (hallows | ⟨-, hnone⟩)
        · exact absurd hallows plain
        · exact absurd hrecords (hnone outcome)

/-- What is recorded of the invocations of a line that is executed. -/
structure Accounted (answers : Answers σ) (x : Turn σ) : Prop where
  recorded : ∀ o, x.Invokes answers o → x.Records answers o
  unrecorded : (∀ o, ¬ x.Records answers o) →
    (x.next answers).lastInvocation = x.world.lastInvocation
  spent : ∀ cause, x.Records answers (.error cause) →
    x.world.allowFailures = true ∧ (x.next answers).allowFailures = false

theorem Succeeds.accounted (h : x.Succeeds answers) : x.Accounted answers := by
  have hending := ending_of_succeeds h
  generalize hnext : x.next answers = next at hending
  cases hending with
  | allowed silent allows =>
    exact ⟨fun o ho => absurd ho (silent o), fun _ => by rw [hnext]; rfl,
      fun cause hrecords => absurd hrecords.2.1 (silent _)⟩
  | quiet silent plain change =>
    exact ⟨fun o ho => absurd ho (silent o), fun _ => by rw [hnext, change.lastInvocation_eq],
      fun cause hrecords => absurd hrecords.2.1 (silent _)⟩
  | @invoked outcome _ made plain taken =>
    cases taken with
    | recorded target method invocation spent allowed =>
      have hrecords : x.Records answers outcome :=
        ⟨h, (made outcome).mpr rfl, target, method, hnext ▸ invocation⟩
      refine ⟨fun o ho => ?_, fun hnone => absurd hrecords (hnone outcome), fun cause hcause => ?_⟩
      · rw [(made o).mp ho]
        exact hrecords
      · rw [hnext]
        exact ⟨allowed cause ((made _).mp hcause.2.1).symm, spent⟩

/-- A failure that is not allowed is the error of the line. -/
theorem halts_of_failed_invocation {cause : TransportError} (h : x.Invokes answers (.error cause))
    (hflag : x.world.allowFailures = false) :
    (x.outcome answers).1.1 = .error (.transport cause) := by
  obtain ⟨result, s, hending, houtcome⟩ := ending answers x
  rw [houtcome]
  cases hending with
  | failed silent err => exact absurd h (silent _)
  | allowed silent allows => exact absurd h (silent _)
  | quiet silent plain change => exact absurd h (silent _)
  | invoked made plain taken =>
    have hreply := (made _).mp h
    cases taken with
    | recorded target method invocation spent allowed =>
      rw [allowed cause hreply.symm] at hflag
      cases hflag
    | refused forbidden => rw [(forbidden cause hreply.symm).2]

/-- A read that fails is the error of the line. -/
theorem halts_of_failed_read {cause : TransportError} (h : x.FailsRead answers cause) :
    (x.outcome answers).1.1 = .error (.transport cause) := by
  obtain ⟨target, method, args, hmem⟩ := h
  obtain ⟨earlier, later, hsplit⟩ := List.append_of_mem hmem
  rw [exchanges_eq] at hsplit
  have hread := (x.world.perform_course x.line.event x.world.defaultFrom).failed_read answers
    (fun q ⟨_, hq⟩ => hq.acts answers) x.chain hsplit
  rw [outcome, program, World.run_executeAs]
  generalize (x.world.perform x.line.event x.world.defaultFrom).run.run answers x.chain = r
    at hread ⊢
  obtain ⟨result, s⟩ := r
  cases hread.2
  rfl

end Turn

/-! ## Lines in a row -/

/-- After these lines a failure is allowed: a line allows it and none behind that one records an
invocation, or it was allowed before them and none of them does. -/
def Allowed (answers : Answers σ) (flag : Bool) (xs : List (Turn σ)) : Prop :=
  (∃ front x back, xs = front ++ x :: back ∧ x.Allows answers ∧
    ∀ y ∈ back, ∀ o, ¬ y.Records answers o) ∨
  (flag = true ∧ ∀ y ∈ xs, ∀ o, ¬ y.Records answers o)

theorem allowed_nil (answers : Answers σ) (flag : Bool) :
    Allowed answers flag [] ↔ flag = true := by
  simp [Allowed]

theorem allowed_cons {answers : Answers σ} {flag next : Bool} {x : Turn σ} {xs : List (Turn σ)}
    (hnext : next = true ↔
      x.Allows answers ∨ (flag = true ∧ ∀ o, ¬ x.Records answers o)) :
    Allowed answers flag (x :: xs) ↔ Allowed answers next xs := by
  constructor
  · rintro (⟨front, y, back, hsplit, hallows, hback⟩ | ⟨hflag, hnone⟩)
    · cases front with
      | nil =>
        cases hsplit
        exact .inr ⟨hnext.mpr (.inl hallows), hback⟩
      | cons z front =>
        cases hsplit
        exact .inl ⟨front, y, back, rfl, hallows, hback⟩
    · obtain ⟨hfirst, hrest⟩ := List.forall_mem_cons.mp hnone
      exact .inr ⟨hnext.mpr (.inr ⟨hflag, hfirst⟩), hrest⟩
  · rintro (⟨front, y, back, rfl, hallows, hback⟩ | ⟨hflag, hnone⟩)
    · exact .inl ⟨x :: front, y, back, rfl, hallows, hback⟩
    · rcases hnext.mp hflag with hallows | ⟨hflag, hfirst⟩
      · exact .inl ⟨[], x, xs, rfl, hallows, hnone⟩
      · exact .inr ⟨hflag, List.forall_mem_cons.mpr ⟨hfirst, hnone⟩⟩

namespace Executes

variable {answers : Answers σ} {w last : World} {t u : σ}

/-- The run of `Turn.allowFailures_next`. -/
theorem allowed {xs : List (Turn σ)} (h : Executes answers w t xs last u) :
    last.allowFailures = true ↔ Allowed answers w.allowFailures xs := by
  induction h with
  | nil w t => exact (allowed_nil answers _).symm
  | @cons x xs next last t u done rest ih =>
    have hdone : x.Succeeds answers := by rw [Turn.Succeeds, done]
    have hstep := Turn.allowFailures_next hdone
    rw [Turn.next, done] at hstep
    rw [ih]
    exact (allowed_cons hstep).symm

/-- Two failures that were recorded have a line between them that allows one: the first has spent the
allowance that the second one needs. -/
theorem allows_between {front between back : List (Turn σ)} {x y : Turn σ}
    {cause cause' : TransportError}
    (h : Executes answers w t (front ++ x :: (between ++ y :: back)) last u)
    (hx : x.Records answers (.error cause)) (hy : y.Records answers (.error cause')) :
    ∃ z ∈ between, z.Allows answers := by
  obtain ⟨-, next, v, hdone, hrest⟩ := h.split
  obtain ⟨hbetween, -⟩ := hrest.split
  have hspent := (hx.1.accounted.spent cause hx).2
  rw [Turn.next, hdone] at hspent
  have hallowed := hbetween.allowed.mp (hy.1.accounted.spent cause' hy).1
  rw [hspent] at hallowed
  rcases hallowed with ⟨before, z, after, rfl, hallows, -⟩ | ⟨hflag, -⟩
  · exact ⟨z, List.mem_append_right _ (List.mem_cons_self ..), hallows⟩
  · cases hflag

end Executes

/-! ## Runs -/

/-- How failures are allowed along lines that are executed from a world that allows one or does not,
and how the line tried behind them stops the run. -/
structure Allowance (answers : Answers σ) (flag : Bool) (done : List (Turn σ))
    (tried : Option (Turn σ)) (failure : Option LineFailure) : Prop where
  accounted : ∀ x ∈ done, x.Accounted answers
  allowed : ∀ front x back, done = front ++ x :: back →
    ((x.next answers).allowFailures = true ↔ Allowed answers flag (front ++ [x]))
  between : ∀ front x middle y back cause cause', done = front ++ x :: (middle ++ y :: back) →
    x.Records answers (.error cause) → y.Records answers (.error cause') →
    ∃ z ∈ middle, z.Allows answers
  halted : ∀ x ∈ done ++ tried.toList, ∀ cause,
    (x.Invokes answers (.error cause) ∧ x.world.allowFailures = false) ∨
      x.FailsRead answers cause →
    tried = some x ∧ failure = some ⟨x.line.number, x.line.event.display, .transport cause⟩

theorem Turn.halts {answers : Answers σ} {x : Turn σ} {cause : TransportError}
    (h : (x.Invokes answers (.error cause) ∧ x.world.allowFailures = false) ∨
      x.FailsRead answers cause) : (x.outcome answers).1.1 = .error (.transport cause) := by
  rcases h with ⟨hinvokes, hflag⟩ | hread
  · exact halts_of_failed_invocation hinvokes hflag
  · exact halts_of_failed_read hread

namespace Script

/-- The lines that a run executes lead to its world, and a line that it tries behind them stops it.
Along them failures are allowed, recorded and refused by the rules of `Allowance`. -/
theorem run_allowance (answers : Answers σ) (w : World) (t u : σ) (source : String)
    (outcome : RunOutcome) (hrun : (run w source).run answers t = (outcome, u)) :
    ∃ done tried v, turns answers w t source = done ++ Option.toList tried ∧
      done.length = outcome.executed ∧ Executes answers w t done outcome.world v ∧
      (run w source).exchanges answers t =
        (turns answers w t source).flatMap (Turn.exchanges answers) ∧
      Allowance answers w.allowFailures done tried outcome.failure := by
  obtain ⟨done, tried, v, hturns, hlength, hexecutes, htried⟩ := run_turns hrun
  have hsucceeds : ∀ x ∈ done, x.Succeeds answers := by
    intro x hx
    obtain ⟨front, back, rfl⟩ := List.append_of_mem hx
    obtain ⟨-, next, s, hdone, -⟩ := hexecutes.split
    rw [Turn.Succeeds, hdone]
  refine ⟨done, tried, v, hturns, hlength, hexecutes, exchanges_run answers w t source, ?_⟩
  constructor
  · intro x hx
    exact (hsucceeds x hx).accounted
  · rintro front x back rfl
    obtain ⟨hfront, next, s, hdone, -⟩ := hexecutes.split
    rw [Turn.next, hdone]
    exact (hfront.snoc hdone).allowed
  · rintro front x middle y back cause cause' rfl hx hy
    exact hexecutes.allows_between hx hy
  · intro x hx cause h
    have hfails := Turn.halts h
    rcases List.mem_append.mp hx with hx | hx
    · have hdone := hsucceeds x hx
      rw [Turn.Succeeds, hfails] at hdone
      cases hdone
    · have htried' := Option.mem_toList.mp hx
      obtain ⟨err, s, houtcome, hfailure⟩ := htried x htried'
      rw [houtcome] at hfails
      cases hfails
      exact ⟨htried', hfailure⟩

/-- A line that allows a failure, inside a change of the actor. -/
def allowing : Turn Unit :=
  ⟨⟨1, Text.trim "From Token AllowFailures",
    .seq [.token "From", .token "Token", .token "AllowFailures"]⟩, World.ofToken, ()⟩

/-- A line that mints the token, in a world. -/
def minting (number : Nat) (w : World) : Turn Unit :=
  ⟨⟨number, Text.trim "Token mint", .seq [.token "Token", .token "mint"]⟩, w, ()⟩

def mintFailed : World :=
  World.ofToken.withInvocation ⟨"Token", "mint", .error (.revert "paused")⟩

/-- Of two mints that fail, the first one is allowed to and the second one stops the run. -/
theorem run_allowance_minting :
    (run World.ofToken "From Token AllowFailures\nToken mint\nToken mint").run reverting () =
      (⟨mintFailed, 2, some ⟨3, "(Token mint)", .transport (.revert "paused")⟩⟩, ()) ∧
    turns reverting World.ofToken () "From Token AllowFailures\nToken mint\nToken mint" =
      [allowing, minting 2 (World.ofToken.withAllowFailures true), minting 3 mintFailed] ∧
    Allowance reverting false [allowing, minting 2 (World.ofToken.withAllowFailures true)]
      (some (minting 3 mintFailed))
      (some ⟨3, "(Token mint)", .transport (.revert "paused")⟩) ∧
    (minting 2 (World.ofToken.withAllowFailures true)).Records reverting
      (.error (.revert "paused")) := by
  have hlines : Text.lines "From Token AllowFailures\nToken mint\nToken mint" =
      ["From Token AllowFailures", "Token mint", "Token mint"] := by
    decide +kernel
  have hfrom : Event.parseLine "From Token AllowFailures" 1 = .ok (some allowing.line.event) := by
    with_unfolding_all rfl
  have hmint : ∀ n w, Event.parseLine "Token mint" n = .ok (some (minting n w).line.event) := by
    intro n w
    with_unfolding_all rfl
  have hallow : allowing.outcome reverting =
      ((.ok (), World.ofToken.withAllowFailures true), ()) := by
    with_unfolding_all rfl
  have hfails : (minting 2 (World.ofToken.withAllowFailures true)).outcome reverting =
      ((.ok (), mintFailed), ()) := by
    with_unfolding_all rfl
  have hhalts : (minting 3 mintFailed).outcome reverting =
      ((.error (.transport (.revert "paused")), mintFailed), ()) := by
    with_unfolding_all rfl
  have hturns : turns reverting World.ofToken ()
      "From Token AllowFailures\nToken mint\nToken mint" =
        [allowing, minting 2 (World.ofToken.withAllowFailures true)] ++ [minting 3 mintFailed] := by
    have hread : ScriptLine.readable 1 ["From Token AllowFailures", "Token mint", "Token mint"] =
        ([allowing.line, (minting 2 (World.ofToken.withAllowFailures true)).line,
          (minting 3 mintFailed).line], none) := by
      simp only [ScriptLine.readable, hfrom, hmint _ mintFailed]
      rfl
    rw [turns, hlines, hread]
    exact turnsOf_halted (.cons hallow (.cons hfails (.nil _ _))) hhalts []
  have hrun : (run World.ofToken "From Token AllowFailures\nToken mint\nToken mint").run
      reverting () =
        (⟨mintFailed, 2, some ⟨3, "(Token mint)", .transport (.revert "paused")⟩⟩, ()) := by
    have hdisplay : (minting 3 mintFailed).line.event.display = "(Token mint)" := by
      decide +kernel
    rw [run, hlines, ← hdisplay]
    refine (runLines_done hfrom hallow 0 _).trans ?_
    refine (runLines_done (hmint 2 _) hfails 1 _).trans ?_
    exact runLines_failed (hmint 3 _) hhalts 2 _
  obtain ⟨done, tried, v, hsplit, hlength, -, -, hallowance⟩ :=
    run_allowance reverting World.ofToken () () _ _ hrun
  rw [hturns] at hsplit
  obtain ⟨rfl, htried⟩ := List.append_inj hsplit hlength.symm
  obtain rfl : tried = some (minting 3 mintFailed) := by
    cases tried <;> simp_all
  refine ⟨hrun, hturns, hallowance, ?_⟩
  refine (hallowance.accounted _ (by simp)).recorded _ ?_
  refine ⟨⟨.send Address.zero "mint" [] Address.zero, .error (.revert "paused")⟩, ?_, rfl⟩
  with_unfolding_all exact List.mem_singleton.mpr rfl

end Script

end ChainScript
