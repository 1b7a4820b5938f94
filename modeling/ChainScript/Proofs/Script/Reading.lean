import ChainScript.Proofs.Script.Composition

/-! # Reading a script before running it

A script can be read as a whole, which fails at its first line that cannot be read, or line by line
while it is run. `Script.run_parsed`: the lines executed, their numbers and the error of reading are
the same either way.
-/

namespace ChainScript
set_option autoImplicit false

open Program

variable {σ : Type}

/-! ## Lines that hold an event -/

theorem Event.parseLine_number {text : String} {number : Nat} {cause : ParseError}
    (h : parseLine text number = .error cause) : cause.line = number := by
  unfold parseLine at h
  dsimp only at h
  split at h
  · cases h
  · cases h
    rfl

namespace ScriptLine

variable {number : Nat} {texts : List String}

theorem readable_of_ok {lines : List ScriptLine} (h : ofLines number texts = .ok lines) :
    readable number texts = (lines, none) := by
  fun_induction ofLines number texts generalizing lines with
  | case1 => cases h; rfl
  | case2 => cases h
  | case3 number text rest hread ih =>
    rw [readable, hread]
    exact ih h
  | case4 => cases h
  | case5 number text rest e hread lines' hrest ih =>
    cases h
    rw [readable, hread]
    dsimp only
    rw [ih hrest]

/-- The first line that cannot be read: the lines before it are those to execute, and its failure
stands behind them. -/
theorem readable_of_error {cause : ParseError} (h : ofLines number texts = .error cause) :
    ∃ k text, texts[k]? = some text ∧ cause.line = number + k ∧
      ofLines number (texts.take k) = .ok (readable number texts).1 ∧
      (readable number texts).2 = some ⟨cause.line, Text.trim text, .parse cause⟩ := by
  fun_induction ofLines number texts with
  | case1 => cases h
  | case2 number text rest found hread =>
    cases h
    have hline := Event.parseLine_number hread
    exact ⟨0, text, rfl, hline, by rw [readable, hread]; rfl, by rw [readable, hread, hline]⟩
  | case3 number text rest hread ih =>
    obtain ⟨k, wrong, hk, hline, hbefore, hstop⟩ := ih h
    refine ⟨k + 1, wrong, hk, by omega, ?_, by rw [readable, hread]; exact hstop⟩
    rw [List.take_succ_cons, ofLines, readable, hread]
    exact hbefore
  | case4 number text rest e hread found hrest ih =>
    cases h
    obtain ⟨k, wrong, hk, hline, hbefore, hstop⟩ := ih hrest
    refine ⟨k + 1, wrong, hk, by omega, ?_, by rw [readable, hread]; exact hstop⟩
    rw [List.take_succ_cons, ofLines, readable, hread]
    dsimp only
    rw [hbefore]
  | case5 => cases h

theorem number_lt {lines : List ScriptLine} (h : ofLines number texts = .ok lines) :
    ∀ line ∈ lines, line.number < number + texts.length := by
  fun_induction ofLines number texts generalizing lines with
  | case1 => cases h; simp
  | case2 => cases h
  | case3 number text rest hread ih =>
    intro line hline
    have := ih h line hline
    rw [List.length_cons]
    omega
  | case4 => cases h
  | case5 number text rest e hread lines' hrest ih =>
    cases h
    intro line hline
    rw [List.length_cons]
    rcases List.mem_cons.mp hline with rfl | hline
    · dsimp only
      omega
    · have := ih hrest line hline
      omega

end ScriptLine

/-! ## Runs -/

namespace Script

/-- The failure of a run is the one behind the lines, or that of one of the lines, and then it is no
error of reading. -/
theorem Ran.failure_cases {answers : Answers σ} {w : World} {t : σ} {executed : Nat}
    {lines : List ScriptLine} {stop : Option LineFailure} {r : RunOutcome × σ}
    (h : Ran answers w t executed lines stop r) :
    r.1.failure = stop ∨ ∃ f, r.1.failure = some f ∧ (∃ line ∈ lines, f.line = line.number) ∧
      ∀ cause, f.error ≠ .parse cause := by
  cases h with
  | through execution all counted => exact .inl rfl
  | halted execution failed reached counted =>
    refine .inr ⟨_, rfl, ⟨_, ?_, rfl⟩, World.executeAs_unparsed failed⟩
    rw [reached]
    exact List.mem_append_right _ (List.mem_cons_self ..)

/-- A script that can be read as a whole is run by executing its lines in turn, and no error of
reading comes up. Otherwise the lines before the error of reading can be read as a whole and are
executed in turn: one of them fails, or the run stops at the line behind them with that error. -/
theorem run_parsed (answers : Answers σ) (w : World) (t : σ) (source : String) :
    match ScriptLine.parseScript source with
    | .ok lines =>
      Ran answers w t 0 lines none ((run w source).run answers t) ∧
        ∀ f cause, ((run w source).run answers t).1.failure = some f → f.error ≠ .parse cause
    | .error cause =>
      ∃ front back text lines, source = front ++ back ∧ Text.WholeLines front ∧
        (Text.lines front).length + 1 = cause.line ∧ (Text.lines back).head? = some text ∧
        ScriptLine.parseScript front = .ok lines ∧
        Ran answers w t 0 lines (some ⟨cause.line, Text.trim text, .parse cause⟩)
          ((run w source).run answers t) ∧
        ∀ f, ((run w source).run answers t).1.failure = some f →
          (f.line < cause.line ∧ ∀ other, f.error ≠ .parse other) ∨
            f = ⟨cause.line, Text.trim text, .parse cause⟩ := by
  have hran : Ran answers w t 0 _ _ ((run w source).run answers t) :=
    runLines_ran answers w t 1 0 (Text.lines source)
  rw [ScriptLine.parseScript]
  cases hread : ScriptLine.ofLines 1 (Text.lines source) with
  | ok lines =>
    rw [ScriptLine.readable_of_ok hread] at hran
    refine ⟨hran, fun f cause hf => ?_⟩
    rcases hran.failure_cases with hnone | ⟨f', hf', -, hother⟩
    · rw [hf] at hnone
      cases hnone
    · rw [hf] at hf'
      cases hf'
      exact hother cause
  | error cause =>
    obtain ⟨k, text, hk, hline, hbefore, hstop⟩ := ScriptLine.readable_of_error hread
    obtain ⟨hlt, -⟩ := List.getElem?_eq_some_iff.mp hk
    obtain ⟨front, back, hcut, hfront, htake⟩ := Text.exists_cut hlt
    have hlength : (Text.lines front).length = k := by
      rw [htake, List.length_take, Nat.min_eq_left (Nat.le_of_lt hlt)]
    have hhead : (Text.lines back).head? = some text := by
      rw [hcut, Text.lines_append hfront, List.getElem?_append_right (by omega), hlength,
        Nat.sub_self] at hk
      rw [List.head?_eq_getElem?, hk]
    rw [hstop] at hran
    refine ⟨front, back, text, _, hcut, hfront, by omega, hhead, ?_, hran, fun f hf => ?_⟩
    · rw [ScriptLine.parseScript, htake]
      exact hbefore
    · rcases hran.failure_cases with hsame | ⟨f', hf', ⟨line, hmem, hnumber⟩, hother⟩
      · rw [hf] at hsame
        exact .inr (Option.some.inj hsame)
      · rw [hf] at hf'
        cases hf'
        have hbound := ScriptLine.number_lt hbefore line hmem
        rw [List.length_take, Nat.min_eq_left (Nat.le_of_lt hlt)] at hbound
        exact .inl ⟨by omega, hother⟩

end Script

end ChainScript
