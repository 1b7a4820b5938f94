import ChainScript.Proofs.Command.Errors
import ChainScript.Proofs.Script.Turns
import ChainScript.Proofs.Text.Lines

/-! # Scripts in two parts

A script may be cut before any of its lines. Running it is running the first part and, unless that
stops, the second part from where the first one ended, with the lines and the count of the first part
added: `Script.run_append`. A run that stops has done what the lines before the stop do on their own.

The second part is run under other line numbers than on its own. Numbers reach an outcome as the
line of a failure and in errors of reading, and no error of an event is one of these.
-/

namespace ChainScript
set_option autoImplicit false

open Program

variable {σ : Type}

/-! ## Outcomes behind other lines -/

/-- The error of a line that has so many more lines before it. -/
def Error.behind (lines : Nat) : Error → Error
  | .parse cause => .parse { cause with line := lines + cause.line }
  | err => err

def LineFailure.behind (lines : Nat) (f : LineFailure) : LineFailure :=
  ⟨lines + f.line, f.event, f.error.behind lines⟩

/-- The outcome behind a script of so many lines, so many of which were executed. -/
def RunOutcome.behind (lines executed : Nat) (o : RunOutcome) : RunOutcome :=
  ⟨o.world, executed + o.executed, o.failure.map (LineFailure.behind lines)⟩

theorem Error.behind_eq {err : Error} (h : ∀ cause, err ≠ .parse cause) (lines : Nat) :
    err.behind lines = err := by
  cases err with
  | parse cause => exact absurd rfl (h cause)
  | _ => rfl

theorem Event.parseLine_behind (text : String) (lines number : Nat) :
    parseLine text (lines + number) =
      match parseLine text number with
      | .ok found => .ok found
      | .error cause => .error { cause with line := lines + cause.line } := by
  unfold parseLine
  dsimp only
  split <;> rfl

theorem World.executeAs_unparsed {answers : Answers σ} {w last : World} {e : Event}
    {actor : Address} {t u : σ} {err : Error}
    (h : (w.executeAs e actor).run answers t = ((.error err, last), u)) (cause : ParseError) :
    err ≠ .parse cause := by
  have hperform := w.perform_unparsed e actor σ answers t cause
  rw [run_executeAs] at h
  rintro rfl
  split at h
  · cases h
  · rename_i hrun
    cases h
    rw [hrun] at hperform
    exact hperform rfl

namespace Script

/-! ## Lines in two parts -/

theorem runLines_behind (w : World) (lines count number executed : Nat) (texts : List String) :
    runLines w (lines + number) (count + executed) texts =
      runLines w number executed texts >>= fun o => .done (o.behind lines count) := by
  induction texts generalizing w number executed with
  | nil => rfl
  | cons text rest ih =>
    rw [runLines, runLines, Event.parseLine_behind]
    cases Event.parseLine text number with
    | error cause => rfl
    | ok found =>
      cases found with
      | none => exact ih w (number + 1) executed
      | some e =>
        dsimp only
        rw [bind_assoc]
        refine bind_congr_of_run fun σ answers t u r hrun => ?_
        obtain ⟨err | _, next⟩ := r
        · have herr : err.behind lines = err :=
            Error.behind_eq (World.executeAs_unparsed hrun) lines
          simp [RunOutcome.behind, LineFailure.behind, herr]
        · exact ih next (number + 1) (executed + 1)

theorem runLines_append (w : World) (number executed : Nat) (front back : List String) :
    runLines w number executed (front ++ back) =
      runLines w number executed front >>= fun o =>
        if o.failure.isSome then .done o
        else runLines o.world (number + front.length) o.executed back := by
  induction front generalizing w number executed with
  | nil => rfl
  | cons text front ih =>
    have hlength : number + (text :: front).length = number + 1 + front.length := by
      rw [List.length_cons]
      omega
    rw [List.cons_append, runLines, runLines, hlength]
    cases Event.parseLine text number with
    | error cause => rfl
    | ok found =>
      cases found with
      | none => exact ih w (number + 1) executed
      | some e =>
        dsimp only
        rw [bind_assoc]
        congr 1
        funext r
        obtain ⟨err | _, next⟩ := r
        · rfl
        · exact ih next (number + 1) (executed + 1)

/-- A run that stops at a line has come as far as the lines before it come on their own. -/
theorem runLines_before {answers : Answers σ} {w : World} {t u : σ} {number executed : Nat}
    {texts : List String} {o : RunOutcome} {f : LineFailure}
    (hrun : (runLines w number executed texts).run answers t = (o, u)) (hf : o.failure = some f) :
    ∃ k t₀, k < texts.length ∧ f.line = number + k ∧
      (runLines w number executed (texts.take k)).run answers t =
        (⟨o.world, o.executed, none⟩, t₀) := by
  induction texts generalizing w t number executed with
  | nil =>
    cases hrun
    cases hf
  | cons text rest ih =>
    cases hread : Event.parseLine text number with
    | error cause =>
      rw [runLines, hread] at hrun
      cases hrun
      cases hf
      exact ⟨0, _, Nat.succ_pos _, rfl, rfl⟩
    | ok found =>
      cases found with
      | none =>
        rw [runLines_blank hread] at hrun
        obtain ⟨k, t₀, hk, hnumber, hbefore⟩ := ih hrun
        refine ⟨k + 1, t₀, Nat.succ_lt_succ hk, by omega, ?_⟩
        rw [List.take_succ_cons, runLines_blank hread, hbefore]
      | some e =>
        rcases hline : (w.executeAs e w.defaultFrom).run answers t with ⟨⟨err | _, next⟩, t₁⟩
        · obtain rfl := World.executeAs_error hline
          rw [runLines_failed hread hline] at hrun
          cases hrun
          cases hf
          exact ⟨0, _, Nat.succ_pos _, rfl, rfl⟩
        · rw [runLines_done hread hline] at hrun
          obtain ⟨k, t₀, hk, hnumber, hbefore⟩ := ih hrun
          refine ⟨k + 1, t₀, Nat.succ_lt_succ hk, by omega, ?_⟩
          rw [List.take_succ_cons, runLines_done hread hline, hbefore]

/-! ## Scripts in two parts -/

/-- Where the first part of a script stops, so does the script, in the same way: it has come as far as
the lines before the stop come on their own. Otherwise the script goes on with the second part, in
the world and on the chain that the first part left, and its outcome is the one of the second part
behind the lines of the first. -/
theorem run_append (answers : Answers σ) (w : World) (t t₁ : σ) (front back : String)
    (first : RunOutcome) (hfront : Text.WholeLines front)
    (hfirst : (run w front).run answers t = (first, t₁)) :
    (∀ f, first.failure = some f →
      (run w (front ++ back)).run answers t = (first, t₁) ∧
      ∃ before after t₀, front = before ++ after ∧ Text.WholeLines before ∧
        (Text.lines before).length + 1 = f.line ∧
        (run w before).run answers t = (⟨first.world, first.executed, none⟩, t₀)) ∧
    (first.failure = none → ∀ second t₂,
      (run first.world back).run answers t₁ = (second, t₂) →
      (run w (front ++ back)).run answers t =
        (second.behind (Text.lines front).length first.executed, t₂)) := by
  have hwhole : (run w (front ++ back)).run answers t =
      (if first.failure.isSome then .done first
        else runLines first.world (1 + (Text.lines front).length) first.executed
          (Text.lines back)).run answers t₁ := by
    rw [run, Text.lines_append hfront, runLines_append, run_bind]
    rw [run] at hfirst
    rw [hfirst]
  constructor
  · intro f hf
    refine ⟨by rw [hwhole, hf]; rfl, ?_⟩
    obtain ⟨k, t₀, hk, hline, hbefore⟩ := runLines_before hfirst hf
    obtain ⟨before, after, hcut, hlines, htake⟩ := Text.exists_cut hk
    refine ⟨before, after, t₀, hcut, hlines, ?_, ?_⟩
    · rw [htake, List.length_take, Nat.min_eq_left (Nat.le_of_lt hk), hline, Nat.add_comm]
    · rw [run, htake]
      exact hbefore
  · intro hnone second t₂ hsecond
    have hbehind := runLines_behind first.world (Text.lines front).length first.executed 1 0
      (Text.lines back)
    rw [hwhole, hnone, Nat.add_comm 1]
    change (runLines first.world ((Text.lines front).length + 1) (first.executed + 0)
      (Text.lines back)).run answers t₁ = _
    rw [run] at hsecond
    rw [hbehind, run_bind, hsecond]
    rfl

theorem run_append_unread :
    (run World.blank ("Print a\r\n\r\n# note\n" ++ "(Print b\n")).run reverting () =
      (⟨World.blank.withOutput "a", 1,
        some ⟨4, "(Print b", .parse ⟨.unclosed, 4, 1⟩⟩⟩, ()) ∧
    ((run World.blank ("Print a\nAssert False True\n" ++ "Print b")).run reverting () =
        (⟨World.blank.withOutput "a", 1, some ⟨2, "(Assert False True)",
          .assertion (.untruth (.bool true) false)⟩⟩, ()) ∧
      ∃ before after t₀, "Print a\nAssert False True\n" = before ++ after ∧
        Text.WholeLines before ∧ (Text.lines before).length + 1 = 2 ∧
        (run World.blank before).run reverting () =
          (⟨World.blank.withOutput "a", 1, none⟩, t₀)) := by
  have hprint : Event.parseLine "Print a" 1 = .ok (some (.seq [.token "Print", .token "a"])) := by
    with_unfolding_all rfl
  have hprinted : (World.blank.executeAs (.seq [.token "Print", .token "a"])
      World.blank.defaultFrom).run reverting () = ((.ok (), World.blank.withOutput "a"), ()) := by
    with_unfolding_all rfl
  have hlines : Text.lines "Print a\r\n\r\n# note\n" = ["Print a", "", "# note"] := by
    decide +kernel
  constructor
  · have hfront : (run World.blank "Print a\r\n\r\n# note\n").run reverting () =
        (⟨World.blank.withOutput "a", 1, none⟩, ()) := by
      rw [run, hlines, runLines_done hprint hprinted, runLines_blank (by with_unfolding_all rfl),
        runLines_blank (by with_unfolding_all rfl)]
      rfl
    have hback : (run (World.blank.withOutput "a") "(Print b\n").run reverting () =
        (⟨World.blank.withOutput "a", 0, some ⟨1, "(Print b", .parse ⟨.unclosed, 1, 1⟩⟩⟩, ()) := by
      with_unfolding_all rfl
    have hwhole := (run_append reverting World.blank () () _ _ _ (by decide) hfront).2 rfl _ _ hback
    rw [hwhole, hlines]
    rfl
  · have hassert : Event.parseLine "Assert False True" 2 =
        .ok (some (.seq [.token "Assert", .token "False", .token "True"])) := by
      with_unfolding_all rfl
    have hfailed : ((World.blank.withOutput "a").executeAs
        (.seq [.token "Assert", .token "False", .token "True"])
        (World.blank.withOutput "a").defaultFrom).run reverting () =
          ((.error (.assertion (.untruth (.bool true) false)), World.blank.withOutput "a"), ()) := by
      with_unfolding_all rfl
    have hfront : (run World.blank "Print a\nAssert False True\n").run reverting () =
        (⟨World.blank.withOutput "a", 1, some ⟨2, "(Assert False True)",
          .assertion (.untruth (.bool true) false)⟩⟩, ()) := by
      have htwo : Text.lines "Print a\nAssert False True\n" = ["Print a", "Assert False True"] := by
        decide +kernel
      have hdisplay : (Event.seq [.token "Assert", .token "False", .token "True"]).display =
          "(Assert False True)" := by
        decide +kernel
      rw [run, htwo, runLines_done hprint hprinted, runLines_failed hassert hfailed, hdisplay]
    exact (run_append reverting World.blank () () _ _ _ (by decide) hfront).1 _ rfl

end Script

end ChainScript
