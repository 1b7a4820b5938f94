import ChainScript.Prompt
import ChainScript.Proofs.Script.Persistence

/-! # The prompt shows the output once

A command at the prompt answers with the lines that it has printed, cut off the output behind those
that were there before it. Every other line, and every line that fails, leaves the world as it was,
also when a command was tried first. So over a session the replies hold the output that came about in
it, each line once and in order.

* `Prompt.Answered`, `Prompt.evalLine_answered`: what one line comes to.
* `Prompt.feed`, `Prompt.feed_output`: lines one after the other.
* `Prompt.answerLines_eq_feed`: what a session writes.
-/

namespace ChainScript.Prompt
set_option autoImplicit false

open Program

variable {σ : Type}

/-! ## One line -/

/-- What a line comes to: it shows what it has printed behind the output so far, or it leaves the
world as it was. -/
inductive Answered (w : World) : Except Error Reply × World → Prop where
  | applied {next : World} {lines : List String} (printed : next.output = w.output ++ lines) :
      Answered w (.ok (.applied lines), next)
  | kept {reply : Except Error Reply} (silent : ∀ lines, reply ≠ .ok (.applied lines)) :
      Answered w (reply, w)

variable (answers : Answers σ) (s : σ) (w : World)

theorem resolved_answered (e : Event) : Answered w ((resolved w e).run answers s).1 := by
  rw [resolved, run_bind]
  rcases (w.resolve e).run.run answers s with ⟨err | v, s'⟩
  · exact .kept nofun
  · exact .kept nofun

theorem performed_answered (e : Event) : Answered w ((performed w e).run answers s).1 := by
  rw [performed, run_bind]
  rcases hline : (w.executeAs e w.defaultFrom).run answers s with ⟨⟨err | _, next⟩, s'⟩
  · obtain rfl : next = w := World.executeAs_error hline
    cases err with
    | noMatch kind event attempted => exact resolved_answered answers s' next e
    | _ => exact .kept nofun
  · obtain ⟨effect, -, hchanges⟩ := World.perform_changes (World.executeAs_ok hline)
    have hgrown : w.output ++ next.output.drop w.output.length = next.output :=
      List.prefix_iff_eq_append.mp hchanges.persists.output
    exact .applied hgrown.symm

theorem evalEvent_answered (e : Event) : Answered w ((evalEvent w e).run answers s).1 := by
  rw [evalEvent]
  split
  · rw [run_bind]
    rcases (w.resolve e).run.run answers s with ⟨err | v, s'⟩
    · cases err with
      | noMatch kind event attempted => exact performed_answered answers s' w e
      | _ => exact .kept nofun
    · exact .kept nofun
  · exact performed_answered answers s w e

theorem evalLine_answered (line : String) : Answered w ((evalLine w line).run answers s).1 := by
  unfold evalLine
  dsimp only
  split
  · exact .kept nofun
  · split
    · split
      · exact resolved_answered answers s w _
      · exact .kept nofun
      · exact .kept nofun
    · split
      · exact evalEvent_answered answers s w _
      · exact .kept nofun
      · exact .kept nofun

/-- A line that is neither a word of the prompt nor blank is the event that it holds. -/
theorem evalLine_eq {line : String} {e : Event} (hhelp : Text.trim line ≠ helpWord)
    (heval : evalRest? (Text.trim line).toList = none)
    (hread : Event.parseLine line 1 = .ok (some e)) : evalLine w line = evalEvent w e := by
  simp [evalLine, hhelp, heval, hread]

/-! ## Lines one after the other -/

/-- The replies to lines, each of which finds the world that the one before it left, and the world at
the end. -/
def feed (w : World) : List String → Program (List (Except Error Reply) × World)
  | [] => return ([], w)
  | line :: rest => do
    let (reply, next) ← evalLine w line
    let (replies, last) ← feed next rest
    return (reply :: replies, last)

/-- The lines of the output that a reply shows. -/
def printed : Except Error Reply → List String
  | .ok (.applied lines) => lines
  | _ => []

variable {answers s w}

theorem Answered.output {reply : Except Error Reply} {next : World} (h : Answered w (reply, next)) :
    next.output = w.output ++ printed reply := by
  cases h with
  | applied hprinted => exact hprinted
  | kept silent =>
    have hnone : printed reply = [] := by
      unfold printed
      split
      · exact absurd rfl (silent _)
      · rfl
    rw [hnone, List.append_nil]

/-- Lines are answered when the first one is, and the others from the world that it leaves. -/
theorem feed_cons {line : String} {rest : List String} {all : List (Except Error Reply)}
    {last : World} {s' : σ} :
    (feed w (line :: rest)).run answers s = ((all, last), s') ↔
      ∃ reply next s₁ replies, (evalLine w line).run answers s = ((reply, next), s₁) ∧
        (feed next rest).run answers s₁ = ((replies, last), s') ∧ all = reply :: replies := by
  rw [feed, run_bind]
  constructor
  · intro h
    rcases hline : (evalLine w line).run answers s with ⟨⟨reply, next⟩, s₁⟩
    rcases hrest : (feed next rest).run answers s₁ with ⟨⟨replies, final⟩, s₂⟩
    rw [hline] at h
    dsimp only at h
    rw [run_bind, hrest] at h
    cases h
    exact ⟨reply, next, s₁, replies, rfl, hrest, rfl⟩
  · rintro ⟨reply, next, s₁, replies, hline, hrest, rfl⟩
    rw [hline]
    dsimp only
    rw [run_bind, hrest]
    rfl

/-- The run of `Answered.output`. -/
theorem feed_output {lines : List String} {replies : List (Except Error Reply)} {last : World}
    {s' : σ} (h : (feed w lines).run answers s = ((replies, last), s')) :
    last.output = w.output ++ replies.flatMap printed := by
  induction lines generalizing w s replies with
  | nil =>
    cases h
    simp
  | cons line rest ih =>
    obtain ⟨reply, next, s₁, others, hline, hrest, rfl⟩ := feed_cons.mp h
    have hanswered := evalLine_answered answers s w line
    rw [hline] at hanswered
    have hfirst : next.output = w.output ++ printed reply := hanswered.output
    have hothers : last.output = next.output ++ others.flatMap printed := ih hrest
    rw [hothers, hfirst, List.append_assoc, List.flatMap_cons]

/-- What is written for a reply, the next prompt included. -/
def written (reply : Except Error Reply) : String := textOfLines (shown reply) ++ mark

/-- A session writes the replies to its lines, up to the line that ends it. -/
theorem answerLines_eq_feed (w : World) (lines : List String) :
    answerLines w lines = feed w (lines.takeWhile fun line => !isQuit line) >>= fun r =>
      .done (String.join (r.1.map written), r.2) := by
  induction lines generalizing w with
  | nil => rfl
  | cons line rest ih =>
    rw [answerLines]
    by_cases hquit : isQuit line = true
    · simp [hquit, feed]
    · have hkept : (line :: rest).takeWhile (fun line => !isQuit line) =
          line :: rest.takeWhile fun line => !isQuit line := by
        simp [hquit]
      rw [if_neg hquit, hkept, feed, turn, bind_assoc, bind_assoc]
      congr 1
      funext answer
      obtain ⟨reply, next⟩ := answer
      simp only [Program.pure_eq, Program.done_bind, bind_assoc, ih next]
      congr 1
      funext r
      simp [written]

/-- At the prompt, over every chain: a command shows what lies behind the old length of the output,
which is never beyond its end, and any other reply or an error leaves the world as it was. Over lines
one after the other the output at the end is that at the start followed by what the replies show, and
a session writes these replies. -/
theorem output_shown_once (answers : Answers σ) (s : σ) (w : World) :
    (∀ line reply next s', (evalLine w line).run answers s = ((reply, next), s') →
      (∀ lines, reply = .ok (.applied lines) →
        w.output.length ≤ next.output.length ∧ lines = next.output.drop w.output.length) ∧
      ((∀ lines, reply ≠ .ok (.applied lines)) → next = w)) ∧
    (∀ lines replies last s', (feed w lines).run answers s = ((replies, last), s') →
      last.output = w.output ++ replies.flatMap printed) ∧
    ∀ lines, answerLines w lines =
      feed w (lines.takeWhile fun line => !isQuit line) >>= fun r =>
        .done (String.join (r.1.map written), r.2) := by
  refine ⟨fun line reply next s' hline => ?_, fun _ _ _ _ hfeed => feed_output hfeed,
    answerLines_eq_feed w⟩
  have hanswered := evalLine_answered answers s w line
  rw [hline] at hanswered
  cases hanswered with
  | applied hprinted =>
    refine ⟨fun lines hreply => ?_, fun hsilent => absurd rfl (hsilent _)⟩
    cases hreply
    rw [hprinted, List.length_append, List.drop_left]
    exact ⟨Nat.le_add_right _ _, rfl⟩
  | kept silent => exact ⟨fun lines hreply => absurd hreply (silent lines), fun _ => rfl⟩

/-- A command and a view that fails, one after the other. -/
def greeting : List String := ["Print hi", "Token supply"]

theorem output_shown_once_greeting :
    (feed World.ofToken greeting).run reverting () =
      (([.ok (.applied ["hi"]), .error (.transport (.revert "paused"))],
        World.ofToken.withOutput "hi"), ()) ∧
    (World.ofToken.withOutput "hi").output = World.ofToken.output ++ ["hi"] ∧
    (∃ next s, (evalLine World.ofToken "Print hi").run reverting () =
      ((.ok (.applied ["hi"]), next), s) ∧ World.ofToken.output.length ≤ next.output.length) ∧
    ∃ reply next s, (evalLine World.ofToken "Token supply").run reverting () =
      ((.error reply, next), s) ∧ next = World.ofToken := by
  have hprint : ∀ w, evalLine w "Print hi" = evalEvent w (.seq [.token "Print", .token "hi"]) :=
    fun w => evalLine_eq w (by decide +kernel) (by decide +kernel) (by with_unfolding_all rfl)
  have hsupply : ∀ w, evalLine w "Token supply" =
      evalEvent w (.seq [.token "Token", .token "supply"]) :=
    fun w => evalLine_eq w (by decide +kernel) (by decide +kernel) (by with_unfolding_all rfl)
  have happlied : (evalLine World.ofToken "Print hi").run reverting () =
      ((.ok (.applied ["hi"]), World.ofToken.withOutput "hi"), ()) := by
    rw [hprint]
    with_unfolding_all rfl
  have hviews : ∀ w, w = World.ofToken ∨ w = World.ofToken.withOutput "hi" →
      (evalLine w "Token supply").run reverting () =
        ((.error (.transport (.revert "paused")), w), ()) := by
    rintro w (rfl | rfl)
    · rw [hsupply]
      with_unfolding_all rfl
    · rw [hsupply]
      with_unfolding_all rfl
  have hfeed : (feed World.ofToken greeting).run reverting () =
      (([.ok (.applied ["hi"]), .error (.transport (.revert "paused"))],
        World.ofToken.withOutput "hi"), ()) :=
    feed_cons.mpr ⟨_, _, _, _, happlied,
      feed_cons.mpr ⟨_, _, _, _, hviews _ (.inr rfl), rfl, rfl⟩, rfl⟩
  obtain ⟨hlines, houtput, -⟩ := output_shown_once reverting () World.ofToken
  refine ⟨hfeed, houtput _ _ _ _ hfeed, ⟨_, _, happlied, ?_⟩, ⟨_, _, _, hviews _ (.inl rfl), ?_⟩⟩
  · exact ((hlines _ _ _ _ happlied).1 _ rfl).1
  · refine (hlines _ _ _ _ (hviews _ (.inl rfl))).2 fun lines hreply => ?_
    cases hreply

end ChainScript.Prompt
