import ChainScript.Proofs.Script.Atomic

/-! # The turns of a run

A run reads the next line only when the one before it was executed. It comes to the same as reading
the script first: the lines up to the first that cannot be read are executed in turn, each in the
world and the chain that the one before it left.

* `Turn`: a line about to be executed, with the world and the chain it finds.
* `Executes`: lines executed in a row.
* `ScriptLine.readable`: the lines to execute, and the failure of the line behind them.
* `Script.runLines_ran`: what a run comes to, by its lines.
* `Script.run_keeps`: what every line keeps, a run keeps.
* `Script.turns`, `Script.run_turns`, `Script.exchanges_run`: the turns of a run, what it comes to and
  what it asks.
-/

namespace ChainScript
set_option autoImplicit false

open Program

variable {σ : Type}

/-! ## Turns -/

structure Turn (σ : Type) where
  line : ScriptLine
  world : World
  chain : σ

namespace Turn

def program (x : Turn σ) : Program (Except Error Unit × World) :=
  x.world.executeAs x.line.event x.world.defaultFrom

/-- What the line comes to, the world that stands after it, and the chain after it. -/
def outcome (answers : Answers σ) (x : Turn σ) : (Except Error Unit × World) × σ :=
  x.program.run answers x.chain

def exchanges (answers : Answers σ) (x : Turn σ) : List Exchange :=
  x.program.exchanges answers x.chain

def Succeeds (answers : Answers σ) (x : Turn σ) : Prop := (x.outcome answers).1.1 = .ok ()

/-- The world that stands after the line. -/
def next (answers : Answers σ) (x : Turn σ) : World := (x.outcome answers).1.2

end Turn

/-- Lines executed in a row, from a world and a state of the chain to a world and a state. -/
inductive Executes (answers : Answers σ) : World → σ → List (Turn σ) → World → σ → Prop where
  | nil (w : World) (t : σ) : Executes answers w t [] w t
  | cons {x : Turn σ} {xs : List (Turn σ)} {next last : World} {t u : σ}
      (done : x.outcome answers = ((.ok (), next), t))
      (rest : Executes answers next t xs last u) :
      Executes answers x.world x.chain (x :: xs) last u

/-- The lines that are tried when lines are executed in turn: the first that fails is the last. -/
def turnsOf (answers : Answers σ) (w : World) (t : σ) : List ScriptLine → List (Turn σ)
  | [] => []
  | line :: rest =>
    ⟨line, w, t⟩ ::
      match (⟨line, w, t⟩ : Turn σ).outcome answers with
      | ((.ok (), next), u) => turnsOf answers next u rest
      | ((.error _, _), _) => []

namespace Executes

variable {answers : Answers σ} {w last : World} {t u : σ} {xs : List (Turn σ)}

theorem turnsOf_append (h : Executes answers w t xs last u) (lines : List ScriptLine) :
    turnsOf answers w t (xs.map Turn.line ++ lines) = xs ++ turnsOf answers last u lines := by
  induction h with
  | nil w t => rfl
  | @cons x xs next last t u done rest ih =>
    rw [List.map_cons, List.cons_append, turnsOf]
    change x :: (match x.outcome answers with
      | ((.ok (), next), u) => turnsOf answers next u (xs.map Turn.line ++ lines)
      | ((.error _, _), _) => []) = _
    rw [done]
    dsimp only
    rw [ih, List.cons_append]

theorem turnsOf_eq (h : Executes answers w t xs last u) :
    turnsOf answers w t (xs.map Turn.line) = xs := by
  have happend := h.turnsOf_append []
  rwa [List.append_nil, turnsOf, List.append_nil] at happend

/-- An execution up to one of its lines and from there on. -/
theorem split {front back : List (Turn σ)} {x : Turn σ}
    (h : Executes answers w t (front ++ x :: back) last u) :
    Executes answers w t front x.world x.chain ∧
      ∃ next v, x.outcome answers = ((.ok (), next), v) ∧ Executes answers next v back last u := by
  induction front generalizing w t with
  | nil =>
    cases h with
    | cons done rest => exact ⟨.nil _ _, _, _, done, rest⟩
  | cons y front ih =>
    cases h with
    | cons done rest =>
      obtain ⟨hfront, hback⟩ := ih rest
      exact ⟨.cons done hfront, hback⟩

/-- What the lines keep, their execution keeps. -/
theorem keeps {P : World → σ → Prop} (h : Executes answers w t xs last u)
    (hstep : ∀ (x : Turn σ) next v, P x.world x.chain →
      x.outcome answers = ((.ok (), next), v) → P next v) (hw : P w t) : P last u := by
  induction h with
  | nil => exact hw
  | @cons x _ next _ v _ done _ ih => exact ih (hstep x next v hw done)

theorem snoc {x : Turn σ} {next : World} {v : σ} (h : Executes answers w t xs x.world x.chain)
    (hx : x.outcome answers = ((.ok (), next), v)) : Executes answers w t (xs ++ [x]) next v := by
  generalize hworld : x.world = w', hchain : x.chain = t' at h
  induction h with
  | nil w t =>
    subst hworld hchain
    exact .cons hx (.nil next v)
  | cons done _ ih => exact .cons done (ih hworld hchain)

end Executes

theorem turnsOf_halted {answers : Answers σ} {w : World} {t u : σ} {x : Turn σ}
    {xs : List (Turn σ)} {err : Error} (h : Executes answers w t xs x.world x.chain)
    (hx : x.outcome answers = ((.error err, x.world), u)) (rest : List ScriptLine) :
    turnsOf answers w t (xs.map Turn.line ++ x.line :: rest) = xs ++ [x] := by
  have hlast : turnsOf answers x.world x.chain (x.line :: rest) = [x] := by
    rw [turnsOf]
    change x :: (match x.outcome answers with
      | ((.ok (), next), u) => turnsOf answers next u rest
      | ((.error _, _), _) => []) = _
    rw [hx]
  rw [h.turnsOf_append, hlast]

/-! ## Lines to execute -/

/-- The lines that hold an event, up to the first that cannot be read, and the failure of that. -/
def ScriptLine.readable (number : Nat) : List String → List ScriptLine × Option LineFailure
  | [] => ([], none)
  | text :: rest =>
    match Event.parseLine text number with
    | .error cause => ([], some ⟨number, Text.trim text, .parse cause⟩)
    | .ok none => readable (number + 1) rest
    | .ok (some e) =>
      (⟨number, Text.trim text, e⟩ :: (readable (number + 1) rest).1,
        (readable (number + 1) rest).2)

namespace Script

section Line

variable {answers : Answers σ} {w : World} {t u : σ} {number : Nat} {text : String}

theorem runLines_blank (hread : Event.parseLine text number = .ok none) (executed : Nat)
    (rest : List String) :
    runLines w number executed (text :: rest) = runLines w (number + 1) executed rest := by
  rw [runLines, hread]

theorem runLines_done {e : Event} {next : World}
    (hread : Event.parseLine text number = .ok (some e))
    (hline : (w.executeAs e w.defaultFrom).run answers t = ((.ok (), next), u)) (executed : Nat)
    (rest : List String) :
    (runLines w number executed (text :: rest)).run answers t =
      (runLines next (number + 1) (executed + 1) rest).run answers u := by
  rw [runLines, hread]
  dsimp only
  rw [run_bind, hline]

theorem runLines_failed {e : Event} {err : Error}
    (hread : Event.parseLine text number = .ok (some e))
    (hline : (w.executeAs e w.defaultFrom).run answers t = ((.error err, w), u)) (executed : Nat)
    (rest : List String) :
    (runLines w number executed (text :: rest)).run answers t =
      (⟨w, executed, some ⟨number, e.display, err⟩⟩, u) := by
  rw [runLines, hread]
  dsimp only
  rw [run_bind, hline]
  rfl

end Line

/-- What a run comes to that has these lines to execute and this failure behind them, when so many
lines were executed before: all lines are executed, or one of them fails. -/
inductive Ran (answers : Answers σ) (w : World) (t : σ) (executed : Nat) (lines : List ScriptLine)
    (stop : Option LineFailure) : RunOutcome × σ → Prop where
  | through {xs : List (Turn σ)} {last : World} {count : Nat} {u : σ}
      (execution : Executes answers w t xs last u) (all : xs.map Turn.line = lines)
      (counted : count = executed + xs.length) :
      Ran answers w t executed lines stop (⟨last, count, stop⟩, u)
  | halted {xs : List (Turn σ)} {x : Turn σ} {rest : List ScriptLine} {count : Nat} {err : Error}
      {u : σ} (execution : Executes answers w t xs x.world x.chain)
      (failed : x.outcome answers = ((.error err, x.world), u))
      (reached : lines = xs.map Turn.line ++ x.line :: rest)
      (counted : count = executed + xs.length) :
      Ran answers w t executed lines stop
        (⟨x.world, count, some ⟨x.line.number, x.line.event.display, err⟩⟩, u)

theorem Ran.behind {answers : Answers σ} {x : Turn σ} {next : World} {t : σ} {executed : Nat}
    {lines : List ScriptLine} {stop : Option LineFailure} {r : RunOutcome × σ}
    (done : x.outcome answers = ((.ok (), next), t))
    (h : Ran answers next t (executed + 1) lines stop r) :
    Ran answers x.world x.chain executed (x.line :: lines) stop r := by
  cases h with
  | through execution all counted =>
    refine .through (.cons done execution) (by rw [List.map_cons, all]) ?_
    rw [counted, List.length_cons]
    omega
  | halted execution failed reached counted =>
    refine .halted (.cons done execution) failed (by rw [reached]; rfl) ?_
    rw [counted, List.length_cons]
    omega

/-- A run executes the lines that can be read, in turn. -/
theorem runLines_ran (answers : Answers σ) (w : World) (t : σ) (number executed : Nat)
    (texts : List String) :
    Ran answers w t executed (ScriptLine.readable number texts).1
      (ScriptLine.readable number texts).2 ((runLines w number executed texts).run answers t) := by
  induction texts generalizing w t number executed with
  | nil => exact .through (.nil w t) rfl rfl
  | cons text rest ih =>
    cases hread : Event.parseLine text number with
    | error cause =>
      rw [runLines, ScriptLine.readable, hread]
      exact .through (.nil w t) rfl rfl
    | ok found =>
      cases found with
      | none =>
        rw [runLines_blank hread, ScriptLine.readable, hread]
        exact ih w t (number + 1) executed
      | some e =>
        have hlines : ScriptLine.readable number (text :: rest) =
            (⟨number, Text.trim text, e⟩ :: (ScriptLine.readable (number + 1) rest).1,
              (ScriptLine.readable (number + 1) rest).2) := by
          rw [ScriptLine.readable, hread]
        rw [hlines]
        rcases hline : (w.executeAs e w.defaultFrom).run answers t with ⟨⟨err | _, next⟩, u⟩
        · obtain rfl := World.executeAs_error hline
          rw [runLines_failed hread hline]
          exact .halted (x := ⟨⟨number, Text.trim text, e⟩, next, t⟩) (.nil _ _) hline rfl rfl
        · rw [runLines_done hread hline]
          exact .behind (x := ⟨⟨number, Text.trim text, e⟩, w, t⟩) hline
            (ih next u (number + 1) (executed + 1))

/-- What every line keeps, whether it fails or not, a run keeps. -/
theorem run_keeps {answers : Answers σ} {P : World → σ → Prop}
    (hstep : ∀ (x : Turn σ) r next v, P x.world x.chain →
      x.outcome answers = ((r, next), v) → P next v)
    {w : World} {t u : σ} {source : String} {outcome : RunOutcome} (hw : P w t)
    (hrun : (run w source).run answers t = (outcome, u)) : P outcome.world u := by
  have hexecutes : ∀ {xs : List (Turn σ)} {last : World} {v : σ},
      Executes answers w t xs last v → P last v := fun h =>
    h.keeps (fun x next v hx hdone => hstep x (.ok ()) next v hx hdone) hw
  have hran : Ran answers w t 0 _ _ ((run w source).run answers t) :=
    runLines_ran answers w t 1 0 (Text.lines source)
  rw [hrun] at hran
  cases hran with
  | through execution => exact hexecutes execution
  | @halted xs x _ _ err _ execution failed =>
    exact hstep x (.error err) x.world u (hexecutes execution) failed

/-! ## The turns of a script -/

/-- The turns of a run. -/
def turns (answers : Answers σ) (w : World) (t : σ) (source : String) : List (Turn σ) :=
  turnsOf answers w t (ScriptLine.readable 1 (Text.lines source)).1

/-- The turns of a run are the lines it executes, which lead to its world, and at most one line
behind them, which fails. -/
theorem run_turns {answers : Answers σ} {w : World} {t u : σ} {source : String}
    {outcome : RunOutcome} (hrun : (run w source).run answers t = (outcome, u)) :
    ∃ done tried v, turns answers w t source = done ++ Option.toList tried ∧
      done.length = outcome.executed ∧ Executes answers w t done outcome.world v ∧
      ∀ x, tried = some x → ∃ err s, x.outcome answers = ((.error err, x.world), s) ∧
        outcome.failure = some ⟨x.line.number, x.line.event.display, err⟩ := by
  have hran : Ran answers w t 0 _ _ ((run w source).run answers t) :=
    runLines_ran answers w t 1 0 (Text.lines source)
  rw [hrun] at hran
  rw [turns]
  cases hran with
  | @through xs _ _ _ execution all counted =>
    rw [Nat.zero_add] at counted
    refine ⟨xs, none, u, ?_, counted.symm, execution, nofun⟩
    rw [← all, execution.turnsOf_eq, Option.toList_none, List.append_nil]
  | @halted xs x rest _ err _ execution failed reached counted =>
    rw [Nat.zero_add] at counted
    refine ⟨xs, some x, x.chain, ?_, counted.symm, execution, ?_⟩
    · rw [reached, turnsOf_halted execution failed, Option.toList_some]
    · intro y hy
      cases hy
      exact ⟨err, u, failed, rfl⟩

theorem exchanges_runLines (answers : Answers σ) (w : World) (t : σ) (number executed : Nat)
    (texts : List String) :
    (runLines w number executed texts).exchanges answers t =
      (turnsOf answers w t (ScriptLine.readable number texts).1).flatMap
        (Turn.exchanges answers) := by
  induction texts generalizing w t number executed with
  | nil => rfl
  | cons text rest ih =>
    rw [runLines, ScriptLine.readable]
    cases hread : Event.parseLine text number with
    | error cause => rfl
    | ok found =>
      cases found with
      | none => exact ih w t (number + 1) executed
      | some e =>
        dsimp only
        rw [exchanges_bind, turnsOf, List.flatMap_cons]
        change Turn.exchanges answers ⟨⟨number, Text.trim text, e⟩, w, t⟩ ++ _ = _
        congr 1
        rw [Turn.outcome, Turn.program]
        rcases (w.executeAs e w.defaultFrom).run answers t with ⟨⟨err | _, next⟩, u⟩
        · rfl
        · exact ih next u (number + 1) (executed + 1)

/-- A run makes the calls of its turns. -/
theorem exchanges_run (answers : Answers σ) (w : World) (t : σ) (source : String) :
    (run w source).exchanges answers t =
      (turns answers w t source).flatMap (Turn.exchanges answers) :=
  exchanges_runLines answers w t 1 0 (Text.lines source)

end Script

end ChainScript
