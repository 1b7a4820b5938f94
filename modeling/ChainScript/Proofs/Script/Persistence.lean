import ChainScript.Proofs.Command.Frame
import ChainScript.Proofs.Script.Turns

/-! # What a script has defined persists

A line changes what its command owns. So over the lines of a run nothing that was defined disappears,
what was printed stays where it is, and each line executed prints at most one line more.

* `World.executeAs_ok`: a line that is executed was performed.
* `Executes.persists`: the lines executed in a row.
* `World.changes_owned`: one line, and whole runs.
-/

namespace ChainScript
set_option autoImplicit false

open Program

variable {σ : Type} {answers : Answers σ} {w next last : World} {s s' t u : σ}

theorem World.executeAs_ok {e : Event} {actor : Address}
    (h : (w.executeAs e actor).run answers s = ((.ok (), next), s')) :
    (w.perform e actor).run.run answers s = (.ok next, s') := by
  rw [run_executeAs] at h
  split at h
  · rename_i hperform
    cases h
    exact hperform
  · cases h

/-- The run of `Effect.Changes.persists`, with the lines that are printed counted. -/
theorem Executes.persists {xs : List (Turn σ)} (h : Executes answers w t xs last u) :
    w.Persists last ∧ last.output.length ≤ w.output.length + xs.length := by
  induction h with
  | nil w t => exact ⟨.refl w, Nat.le_refl _⟩
  | @cons x xs next last t u done rest ih =>
    obtain ⟨effect, -, hchanges⟩ := World.perform_changes (World.executeAs_ok done)
    obtain ⟨hrest, hlength⟩ := ih
    refine ⟨hchanges.persists.trans hrest, ?_⟩
    have hline : next.output.length ≤ x.world.output.length + 1 := by
      rcases hchanges.output with hsame | ⟨line, hprinted⟩
      · simp [hsame]
      · simp [hprinted]
    rw [List.length_cons]
    omega

/-- A line that is performed keeps what lines keep, prints at most one line, and changes only what the
command inside all changes of the actor owns. A run keeps the same, and prints at most one line for
each line that it executes. -/
theorem World.changes_owned (answers : Answers σ) (w : World) :
    (∀ e actor s next s', (w.perform e actor).run.run answers s = (.ok next, s') →
      w.Persists next ∧
      (next.output = w.output ∨ ∃ line, next.output = w.output ++ [line]) ∧
      ∃ effect, w.innermostCommand answers e s = some effect ∧ effect.Changes w next) ∧
    ∀ source t outcome u, (Script.run w source).run answers t = (outcome, u) →
      w.Persists outcome.world ∧
      outcome.world.output.length ≤ w.output.length + outcome.executed := by
  constructor
  · intro e actor s next s' hline
    obtain ⟨effect, hcommand, hchanges⟩ := perform_changes hline
    exact ⟨hchanges.persists, hchanges.output, effect, hcommand, hchanges⟩
  · intro source t outcome u hrun
    obtain ⟨done, tried, v, -, hlength, hexecutes, -⟩ := Script.run_turns hrun
    rw [← hlength]
    exact hexecutes.persists

/-- A world that knows the token and allows the next failure. -/
def World.lenient : World := World.ofToken.withAllowFailures true

/-- A deployment inside a change of the actor. -/
def Event.vaultDeployment : Event :=
  .seq [.token "From", .token "Token", .seq [.token "Deploy", .token "Vault"]]

theorem World.changes_owned_vault :
    (lenient.perform .vaultDeployment Address.zero).run.run reverting () =
      (.ok (ofToken.withInvocation ⟨"Vault", "deploy", .error (.revert "paused")⟩), ()) ∧
    Effect.deploy.Changes lenient
      (ofToken.withInvocation ⟨"Vault", "deploy", .error (.revert "paused")⟩) ∧
    ∃ outcome, (Script.run lenient "Set x 4\nPrint (Var x)").run reverting () = (outcome, ()) ∧
      "Token" ∈ outcome.world.contracts.names := by
  have hline : (lenient.perform .vaultDeployment Address.zero).run.run reverting () =
      (.ok (ofToken.withInvocation ⟨"Vault", "deploy", .error (.revert "paused")⟩), ()) := by
    with_unfolding_all rfl
  have hdeploy : lenient.innermostCommand reverting .vaultDeployment () = some .deploy := by
    with_unfolding_all rfl
  obtain ⟨hlines, hruns⟩ := changes_owned reverting lenient
  obtain ⟨-, -, effect, hcommand, hchanges⟩ := hlines _ _ _ _ _ hline
  rw [hdeploy] at hcommand
  cases hcommand
  have hrun := hruns "Set x 4\nPrint (Var x)" () _ _ rfl
  exact ⟨hline, hchanges, _, rfl, hrun.1.contracts "Token" (List.mem_singleton.mpr rfl)⟩

end ChainScript
