import ChainScript.Proofs.Expr.Arithmetic
import ChainScript.Proofs.Expr.Literals

/-! # Scaled numbers

The fetchers for fixed-point numbers and percentages scale what they read. The factor belongs to the
reading of a text as it is written. A nested expression is taken as it is resolved, so a number that
comes from one is left as it is: only a literal, or zero, is multiplied by the factor.

* `Scale`: the two scales. `Scale.ofRead`: what a scale makes of an event read as a number.
* `World.Standard.read_scale`: a scaled reading against the plain one.
* `World.Built.scales_literals`: the values of scaled expressions.
-/

namespace ChainScript
set_option autoImplicit false

open Program Handler

inductive Scale where
  | exp
  | percent

namespace Scale

def name : Scale → String
  | .exp => "Exp"
  | .percent => "Percent"

def reading : Scale → Reading
  | .exp => .exp
  | .percent => .percent

def factor : Scale → Rat
  | .exp => 10 ^ 18
  | .percent => 10 ^ 16

/-- The number scaled. -/
def apply (n : Number) : Scale → Number
  | .exp => n.exp
  | .percent => n.percent

theorem apply_value (scale : Scale) (n : Number) :
    (scale.apply n).value = n.value * scale.factor := by
  cases scale with
  | exp => exact Decimal.shift_eq n.value (by decide)
  | percent => exact Decimal.shift_eq n.value (by decide)

theorem factor_ne_one (scale : Scale) : scale.factor ≠ 1 := by
  cases scale with
  | exp | percent => decide +kernel

/-- What a scale makes of an event that is read as the number `n`. -/
def ofRead (scale : Scale) (n : Number) : Event → Number
  | .token _ => scale.apply n
  | .seq _ => n

theorem written (scale : Scale) {text : String} {n : Number}
    (h : Number.parse? text = some n) :
    ∃ literal, scale.reading.written? = some literal ∧
      literal text = .ok (.number (scale.apply n)) := by
  have hn : Literal.number text = .ok n := by rw [Literal.number, h]
  cases scale with
  | exp => exact ⟨_, rfl, congrArg (Except.map fun n => Value.number n.exp) hn⟩
  | percent =>
    refine ⟨_, rfl, ?_⟩
    rw [Number.dropPercent_of_parse? h, hn]
    rfl

/-- The fetcher of a scale is the only one of the core with its name. -/
theorem core_named (scale : Scale) (head : Spelling scale.name) (rest : List Event) :
    ∃ description, Fetcher.core.filter
        (fun h => h.signature.isNamedIn (.token head.text :: rest)) =
      [Fetcher.computed scale.name (["amount"].map fun param => .one param scale.reading) .amount
        description] := by
  cases scale with
  | exp => exact ⟨_, Fetcher.core_named_exp head rest⟩
  | percent => exact ⟨_, Fetcher.core_named_percent head rest⟩

end Scale

/-! ## Readings -/

theorem Literal.parse_of_number {text : String} {n : Number} (h : number text = .ok n) :
    Number.parse? text = some n := by
  unfold number at h
  split at h
  · rename_i m hm
    cases h
    exact hm
  · cases h

namespace World

variable {σ : Type} {w : World} {answers : Answers σ} {s s' : σ} {e : Event} {n m : Number}

namespace Standard

/-- A token is read as a number only if it is a numeral. -/
theorem numeral_of_read (hw : w.Standard) {text : String}
    (h : (w.read .number (.token text)).run.run answers s = (.ok (.number n), s')) :
    Number.parse? text = some n ∧ s' = s := by
  rw [hw.read_written rfl] at h
  cases hn : Literal.number text with
  | ok found =>
    rw [hn] at h
    cases h
    exact ⟨Literal.parse_of_number hn, rfl⟩
  | error fault =>
    rw [hn] at h
    cases h

/-- Where an event is read as a number, the scaled reading gives the number scaled if it is a
literal, and the number itself otherwise. -/
theorem read_scale (hw : w.Standard) (scale : Scale)
    (h : (w.read .number e).run.run answers s = (.ok (.number n), s')) :
    (w.read scale.reading e).run.run answers s = (.ok (.number (scale.ofRead n e)), s') := by
  cases e with
  | token text =>
    obtain ⟨hn, rfl⟩ := hw.numeral_of_read h
    obtain ⟨literal, hwritten, hliteral⟩ := scale.written hn
    rw [hw.read_written hwritten, hliteral]
    rfl
  | seq items =>
    have hread : ((w.binder w.resolve).resolve .number (.seq items)).run.run answers s =
        (.ok (.number n), s') := h
    have hresolved := binder_seq_ok hread nofun
    cases scale with
    | exp | percent =>
      rw [World.read, Scale.reading, Reading.read]
      exact Reading.typed_seq_ok.mpr ⟨hresolved, rfl⟩

/-! ## Resolution -/

theorem resolve_scale (hw : w.Standard) (scale : Scale) (head : Spelling scale.name)
    (h : (w.read scale.reading e).run.run answers s = (.ok (.number m), s')) :
    (w.resolve (.seq [.token head.text, e])).run.run answers s = (.ok (.number m), s') := by
  obtain ⟨description, hcore⟩ := scale.core_named head [e]
  have hvalues : (w.binder w.resolve).ResolvesEach answers scale.reading [e] s [.number m] s' :=
    .cons h (.nil s')
  let fetcher := Fetcher.computed scale.name (["amount"].map fun param => .one param scale.reading)
    .amount description
  have hbound : (fetcher.attempt (w.binder w.resolve) [.token head.text, e]).run.run answers s =
      (.ok ⟨fetcher.signature, .compute .amount,
        BoundArgs.insertAll {} ["amount"] [.number m]⟩, s') :=
    (attempt_named_ones ["amount"]).mpr ⟨_, hvalues, rfl, rfl⟩
  have hselect : (select (w.binder w.resolve) coreKind w.registry
      (.seq [.token head.text, e])).run.run answers s = _ :=
    select_first (hw.candidates_of_core hcore) hbound
  rw [resolve_seq_eq_carryOut hw.registry_eq, carryOut]
  exact run_exceptBind_eq_ok.mpr ⟨_, s', hselect, rfl⟩

end Standard

/-- In every built world, behind either scale an event that is read as a number is resolved to a
number. A literal is multiplied by the factor of the scale, and the number of a nested expression is
left as it is. So the value is the scaled one exactly for literals and for zero. -/
theorem Built.scales_literals (hw : w.Built) (scale : Scale) (head : Spelling scale.name)
    (hread : (w.read .number e).run.run answers s = (.ok (.number n), s')) :
    ∃ m : Number,
      (w.resolve (.seq [.token head.text, e])).run.run answers s = (.ok (.number m), s') ∧
      (∀ text, e = .token text → m.value = n.value * scale.factor) ∧
      (∀ items, e = .seq items → m = n) ∧
      (m.value = n.value * scale.factor ↔ (∃ text, e = .token text) ∨ n.value = 0) := by
  have hscaled := hw.standard.read_scale scale hread
  refine ⟨_, hw.standard.resolve_scale scale head hscaled, ?_⟩
  cases e with
  | token text =>
    have hvalue : (scale.ofRead n (.token text)).value = n.value * scale.factor :=
      scale.apply_value n
    exact ⟨fun _ _ => hvalue, nofun, fun _ => .inl ⟨text, rfl⟩, fun _ => hvalue⟩
  | seq items =>
    refine ⟨nofun, fun _ _ => rfl, fun heq => .inr ?_, ?_⟩
    · have hsame : n.value = n.value * scale.factor := heq
      have hproduct : n.value * (scale.factor - 1) = 0 := by grind
      rcases Rat.mul_eq_zero.mp hproduct with hzero | hone
      · exact hzero
      · have hne := scale.factor_ne_one
        grind
    · rintro (⟨text, htext⟩ | hzero)
      · cases htext
      · change n.value = n.value * scale.factor
        rw [hzero, Rat.zero_mul]

/-- The expression `(Add 1 2)`. -/
def sumOfTwo : Event := .seq [.token "Add", .token "1", .token "2"]

theorem scales_literals_blank :
    blank.Built ∧
    (blank.read .number (.token "1.5")).run.run reverting () = (.ok (.number ⟨3 / 2, .plain⟩), ()) ∧
    (∃ m : Number, (blank.resolve (.seq [.token "exp", .token "1.5"])).run.run reverting () =
      (.ok (.number m), ()) ∧ m.value = 3 / 2 * 10 ^ 18) ∧
    (blank.read .number sumOfTwo).run.run reverting () = (.ok (.number ⟨3, .plain⟩), ()) ∧
    ∃ m : Number, (blank.resolve (.seq [.token "Percent", sumOfTwo])).run.run reverting () =
      (.ok (.number m), ()) ∧ m = ⟨3, .plain⟩ := by
  have hbuilt : blank.Built := .new new_blank
  have hliteral : (blank.read .number (.token "1.5")).run.run reverting () =
      (.ok (.number ⟨3 / 2, .plain⟩), ()) := by
    with_unfolding_all rfl
  have hsum : (blank.read .number sumOfTwo).run.run reverting () =
      (.ok (.number ⟨3, .plain⟩), ()) := by
    with_unfolding_all rfl
  obtain ⟨m, hm, hvalue, -⟩ := hbuilt.scales_literals .exp ⟨"exp", by decide +kernel⟩ hliteral
  obtain ⟨k, hk, -, hsame, -⟩ :=
    hbuilt.scales_literals .percent ⟨"Percent", by decide +kernel⟩ hsum
  exact ⟨hbuilt, hliteral, ⟨m, hm, hvalue _ rfl⟩, hsum, ⟨k, hk, hsame _ rfl⟩⟩

/-- A sum behind either scale is left as it is, though the sum is read as a number and no chain is
asked. -/
theorem sum_left_unscaled :
    World.new [] { aliases := [] } = .ok blank ∧
    (blank.read .number sumOfTwo).run = .done (.ok (.number ⟨3, .plain⟩)) ∧
    (blank.resolve (.seq [.token "Exp", sumOfTwo])).run = .done (.ok (.number ⟨3, .plain⟩)) ∧
    (blank.resolve (.seq [.token "Percent", sumOfTwo])).run =
      .done (.ok (.number ⟨3, .plain⟩)) ∧
    (3 : Rat) ≠ 3 * 10 ^ 18 ∧ (3 : Rat) ≠ 3 * 10 ^ 16 := by
  refine ⟨?_, ?_, ?_, ?_, by decide +kernel, by decide +kernel⟩
  all_goals with_unfolding_all rfl

end World

end ChainScript
