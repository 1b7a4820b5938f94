import ChainScript.Proofs.Contract.Addressable
import ChainScript.Proofs.Expr.Settling
import ChainScript.Proofs.Number.Numerals

/-! # Arithmetic is exact

Trees of numerals, sums, differences, products and quotients are expressions of the language, and each
has a rational value unless it divides by zero. Resolution gives that value exactly and asks the chain
nothing, in every built world: a contract with the name of an operator is tried behind it, and one with
the name of a numeral leaves the numeral to the catch-all. A division by zero at the root is an invalid
value. One further inside leaves the operator above it without an operand, and so without a match.

* `Arith`, `Arith.event`, `Arith.value`, `Arith.Defined`: trees, how they are written, what they mean.
* `Arith.Outcome`: what a tree may come to.
* `Arith.comes`: by induction over the tree, it comes to that.
* `World.Built.arithmetic_exact`: what follows for values and errors.
-/

namespace ChainScript
set_option autoImplicit false

open Program Handler

/-! ## Trees -/

/-- A text that is read as a number. -/
structure Numeral where
  text : String
  number : Number
  reads : Number.parse? text = some number

/-- A spelling of a name, letter case aside. -/
structure Spelling (name : String) where
  text : String
  same : Text.sameLetters name text = true

namespace Arithmetic

def name : Arithmetic → String
  | .add => "Add"
  | .sub => "Sub"
  | .mul => "Mul"
  | .div => "Div"

/-- The operation on rational numbers. -/
def onRats (a b : Rat) : Arithmetic → Rat
  | .add => a + b
  | .sub => a - b
  | .mul => a * b
  | .div => a / b

end Arithmetic

/-- An arithmetic expression. -/
inductive Arith where
  | literal (t : Numeral)
  | exp (head : Spelling "Exp") (t : Numeral)
  | percent (head : Spelling "Percent") (t : Numeral)
  | exactly (head : Spelling "Exactly") (x : Arith)
  | binary (op : Arithmetic) (head : Spelling op.name) (x y : Arith)

namespace Arith

def event : Arith → Event
  | .literal t => .token t.text
  | .exp head t => .seq [.token head.text, .token t.text]
  | .percent head t => .seq [.token head.text, .token t.text]
  | .exactly head x => .seq [.token head.text, x.event]
  | .binary _ head x y => .seq [.token head.text, x.event, y.event]

def value : Arith → Rat
  | .literal t => t.number.value
  | .exp _ t => t.number.value * 10 ^ 18
  | .percent _ t => t.number.value * 10 ^ 16
  | .exactly _ x => x.value
  | .binary op _ x y => op.onRats x.value y.value

/-- No quotient in the tree has a divisor of value zero. -/
def Defined : Arith → Prop
  | .literal _ => True
  | .exp _ _ => True
  | .percent _ _ => True
  | .exactly _ x => x.Defined
  | .binary op _ x y => x.Defined ∧ y.Defined ∧ (op = .div → y.value ≠ 0)

/-- The trees right below the root. -/
def operands : Arith → List Arith
  | .literal _ => []
  | .exp _ _ => []
  | .percent _ _ => []
  | .exactly _ x => [x]
  | .binary _ _ x y => [x, y]

theorem Defined.operands {t : Arith} (h : t.Defined) : ∀ x ∈ t.operands, x.Defined := by
  cases t with
  | literal | exp | percent => nofun
  | exactly head x =>
    intro y hy
    rw [List.mem_singleton.mp hy]
    exact h
  | binary op head x y =>
    intro z hz
    simp only [Arith.operands, List.mem_cons, List.not_mem_nil, or_false] at hz
    rcases hz with rfl | rfl
    · exact h.1
    · exact h.2.1

theorem event_seq_of_undefined {t : Arith} (h : ¬ t.Defined) : ∃ items, t.event = .seq items := by
  cases t with
  | literal => exact absurd trivial h
  | exp | percent | exactly | binary => exact ⟨_, rfl⟩

/-- What a tree comes to: its value, a division by zero at the root, or no match since an operand has
no value. -/
inductive Outcome (t : Arith) : Except Error Value → Prop where
  | exact {n : Number} (defined : t.Defined) (value : n.value = t.value) :
      Outcome t (.ok (.number n))
  | divided {head : Spelling Arithmetic.div.name} {x y : Arith} {dividend : Number}
      (root : t = .binary .div head x y) (left : x.Defined) (right : y.Defined)
      (zero : y.value = 0) (value : dividend.value = x.value) :
      Outcome t (.error (.invalid (.divisionByZero dividend)))
  | unmatched {x : Arith} {attempted : List Attempt} (operand : x ∈ t.operands)
      (undefined : ¬ x.Defined) : Outcome t (.error (.noMatch World.coreKind t.event attempted))

namespace Outcome

variable {t : Arith} {err : Error}

theorem undefined (h : Outcome t (.error err)) : ¬ t.Defined := by
  intro hdefined
  cases h with
  | divided root _ _ zero _ =>
    subst root
    exact hdefined.2.2 rfl zero
  | unmatched operand undefined => exact undefined (hdefined.operands _ operand)

theorem not_fatal (h : Outcome t (.error err)) : err.isFatal = false := by
  cases h with
  | divided => rfl
  | unmatched => rfl

end Outcome

/-- A tree comes to one of its outcomes in a world, without a call. -/
def Comes (t : Arith) (w : World) : Prop :=
  ∃ r, (w.resolve t.event).run = .done r ∧ t.Outcome r

theorem Comes.passes {t : Arith} {w : World} (h : t.Comes w) : Passes (w.resolve t.event) := by
  obtain ⟨r, hrun, houtcome⟩ := h
  refine ⟨r, hrun, fun err herr => ?_⟩
  subst herr
  exact houtcome.not_fatal

end Arith

/-! ## Literals -/

/-- Whether a name holds no digit. -/
def Text.isWord (name : String) : Bool :=
  name.toList.all fun c => !isDigit (lowerChar c)

/-- A text with a digit is no name in a table of words. -/
theorem FreeIn.of_digit {ρ ε : Type} {table : List (Handler ρ ε)}
    (hwords : (table.all fun h => h.signature.name.all Text.isWord) = true) {text : String}
    {c : Char} (hc : c ∈ text.toList) (hdigit : Text.isDigit c = true) : FreeIn table text := by
  intro h hh own hown
  rw [← Bool.not_eq_true]
  intro hsame
  have hlower : Text.lowerChar c = c := by
    have hbound : c ≤ '9' := by
      simp only [Text.isDigit, Bool.and_eq_true, decide_eq_true_eq] at hdigit
      exact hdigit.2
    rw [Text.lowerChar, if_neg]
    intro hupper
    exact absurd (Char.le_trans hupper.1 hbound) (by decide)
  have hletters : own.toList.map Text.lowerChar = text.toList.map Text.lowerChar := eq_of_beq hsame
  have hmem : c ∈ own.toList.map Text.lowerChar := by
    rw [hletters, ← hlower]
    exact List.mem_map_of_mem hc
  obtain ⟨d, hd, hcd⟩ := List.mem_map.mp hmem
  have hword : Text.isWord own = true := by
    have hname := List.all_eq_true.mp hwords h hh
    rwa [Option.mem_def.mp hown] at hname
  have hletter := List.all_eq_true.mp hword d hd
  rw [hcd, hdigit] at hletter
  cases hletter

theorem Fetcher.core_words : (core.all fun h => h.signature.name.all Text.isWord) = true := by
  decide +kernel

theorem Numeral.literal (t : Numeral) : Literal.number t.text = .ok t.number := by
  rw [Literal.number, t.reads]

theorem Numeral.free (t : Numeral) : FreeIn Fetcher.core t.text := by
  obtain ⟨-, c, hc, hdigit⟩ := Number.chars_of_parse? t.reads
  exact .of_digit Fetcher.core_words hc hdigit

/-- Handlers that are given up at once leave the search to those behind them. -/
theorem tryAll_behind {ρ ε : Type} {b : Binder ρ} {elements : List Event}
    {hs : List (Handler ρ ε)} (ks : List (Handler ρ ε))
    (hhs : ∀ h ∈ hs, ∃ reason, (h.attempt b elements).run = .done (.error (.failed reason))) :
    ∃ attempted, tryAll b (hs ++ ks) elements =
      tryAll b ks elements >>= fun t => .done (t.after attempted) := by
  induction hs with
  | nil =>
    refine ⟨[], ?_⟩
    simp only [Trial.after_nil, List.nil_append]
    exact (Program.bind_done _).symm
  | cons h hs ih =>
    obtain ⟨reason, hgivenUp⟩ := hhs h (List.mem_cons_self ..)
    obtain ⟨attempted, hrest⟩ := ih fun k hk => hhs k (List.mem_cons_of_mem h hk)
    refine ⟨⟨h.label, reason.message⟩ :: attempted, ?_⟩
    rw [List.cons_append, tryAll_cons, hgivenUp, Program.done_bind]
    dsimp only
    rw [hrest, bind_assoc]
    simp only [Program.done_bind, Trial.after_after, List.singleton_append]

namespace World.Standard

variable {w : World}

/-- A token that names no fetcher of the core is a literal, whatever contracts it names. -/
theorem resolve_literal (hw : w.Standard) {text : String} (hfree : FreeIn Fetcher.core text) :
    (w.resolve (.token text)).run = .done (.ok (Literal.ofToken w text)) := by
  have hcontracts : ∀ h ∈ (w.contracts.answering text).map Fetcher.ofContract, ∃ reason,
      (h.attempt (w.binder w.resolve) [.token text]).run = .done (.error (.failed reason)) := by
    intro h hh
    obtain ⟨i, -, rfl⟩ := List.mem_map.mp hh
    refine ⟨.missingRest i.name, ?_⟩
    rw [Fetcher.ofContract, namespaced, attempt_group]
    rfl
  obtain ⟨attempted, hsearch⟩ := tryAll_behind [Fetcher.literal] hcontracts
  rw [resolve_eq_resolveStep hw.registry_eq, resolveStep, hw.registry_eq, fetchValue,
    ExceptT.run_mk, select_run, Event.elements, Fetcher.candidates_of_free hfree, hsearch,
    tryAll_cons, Fetcher.literal, catchAll, attempt_leaf]
  rfl

theorem resolve_numeral (hw : w.Standard) (t : Numeral) :
    (w.resolve (.token t.text)).run = .done (.ok (.number t.number)) := by
  rw [hw.resolve_literal t.free, Literal.ofToken, t.reads]

end World.Standard

/-! ## Operators -/

theorem Formula.amount_value (w : World) (n : Number) :
    amount.value w (BoundArgs.insertAll {} ["amount"] [.number n]) = .ok (.number n) := rfl

theorem Formula.arithmetic_value (w : World) (op : Arithmetic) (a b : Number) :
    (arithmetic op).value w (BoundArgs.insertAll {} ["a", "b"] [.number a, .number b]) =
      (op.apply a b).map Value.number := by
  change (op.apply a b >>= fun n => Except.ok (Value.number n)) = _
  cases op.apply a b <;> rfl

theorem Arithmetic.apply_value {op : Arithmetic} {a b : Number} (h : op = .div → b.value ≠ 0) :
    ∃ n, op.apply a b = .ok n ∧ n.value = op.onRats a.value b.value := by
  cases op with
  | add | sub | mul => exact ⟨_, rfl, rfl⟩
  | div =>
    have hne : b.value ≠ 0 := h rfl
    refine ⟨⟨a.value / b.value, .plain⟩, ?_, rfl⟩
    simp [apply, Number.div?, hne]

theorem Arithmetic.apply_div_zero {a b : Number} (h : b.value = 0) :
    div.apply a b = .error (.invalid (.divisionByZero a)) := by
  simp [apply, Number.div?, h]

namespace Fetcher

theorem core_named_exp (head : Spelling "Exp") (rest : List Event) :
    core.filter (fun h => h.signature.isNamedIn (.token head.text :: rest)) =
      [computed "Exp" (["amount"].map fun param => .one param .exp) .amount
        "A number scaled by 1e18, e.g. `(Exp 1.5)`"] := by
  rw [filter_named_congr head.same]
  rfl

theorem core_named_percent (head : Spelling "Percent") (rest : List Event) :
    core.filter (fun h => h.signature.isNamedIn (.token head.text :: rest)) =
      [computed "Percent" (["amount"].map fun param => .one param .percent) .amount
        "A percentage as a 1e18 mantissa, e.g. `(Percent 5)`"] := by
  rw [filter_named_congr head.same]
  rfl

theorem core_named_exactly (head : Spelling "Exactly") (rest : List Event) :
    core.filter (fun h => h.signature.isNamedIn (.token head.text :: rest)) =
      [computed "Exactly" (["amount"].map fun param => .one param .number) .amount
        "A number taken as written, e.g. `(Exactly 1e18)`"] := by
  rw [filter_named_congr head.same]
  rfl

theorem core_named_arithmetic (op : Arithmetic) (head : Spelling op.name) (rest : List Event) :
    ∃ description, core.filter (fun h => h.signature.isNamedIn (.token head.text :: rest)) =
      [computed op.name (["a", "b"].map fun param => .one param .number) (.arithmetic op)
        description] := by
  rw [filter_named_congr head.same]
  cases op with
  | add | sub | mul | div => exact ⟨_, rfl⟩

end Fetcher

namespace World.Standard

variable {w : World} {head name description : String} {names : List String} {formula : Formula}

/-- A tree with a value is read as a number. -/
theorem read_number {x : Arith} (h : x.Comes w) (hdefined : x.Defined) :
    ∃ n : Number, ((w.binder w.resolve).resolve .number x.event).run.eval Call.anyReply =
      .ok (.number n) ∧ n.value = x.value := by
  have hseq : ∀ items, x.event = .seq items →
      ∃ n : Number, ((w.binder w.resolve).resolve .number x.event).run.eval Call.anyReply =
        .ok (.number n) ∧ n.value = x.value := by
    intro items hitems
    obtain ⟨r, hrun, houtcome⟩ := h
    cases r with
    | error err => exact absurd hdefined houtcome.undefined
    | ok v =>
      cases houtcome with
      | @exact n _ value =>
        refine ⟨n, ?_, value⟩
        rw [hitems] at hrun ⊢
        rw [binder_resolve, Reading.read, Reading.typed, ExceptT.run_bind, hrun]
        rfl
  cases x with
  | literal t =>
    refine ⟨t.number, ?_, rfl⟩
    have hread : Reading.read w.resolve w (.token t.text) .number = pure (.number t.number) := by
      rw [Reading.read]
      apply Reading.typed_literal
      rw [t.literal]
      rfl
    rw [binder_resolve, Arith.event, hread]
    rfl
  | exp | percent | exactly | binary => exact hseq _ rfl

theorem read_numbers {xs : List Arith} (hxs : ∀ x ∈ xs, x.Comes w)
    (hdefined : ∀ x ∈ xs, x.Defined) :
    ∃ ns : List Number, ns.map Number.value = xs.map Arith.value ∧
      (w.binder w.resolve).ResolvesEach (fixed Call.anyReply) .number (xs.map Arith.event) ()
        (ns.map .number) () := by
  induction xs with
  | nil => exact ⟨[], rfl, .nil ()⟩
  | cons x xs ih =>
    obtain ⟨n, hn, hvalue⟩ := read_number (hxs x (List.mem_cons_self ..))
      (hdefined x (List.mem_cons_self ..))
    obtain ⟨ns, hvalues, hns⟩ := ih (fun y hy => hxs y (List.mem_cons_of_mem x hy))
      fun y hy => hdefined y (List.mem_cons_of_mem x hy)
    refine ⟨n :: ns, ?_, .cons (run_fixed.mpr hn) hns⟩
    rw [List.map_cons, List.map_cons, hvalue, hvalues]

/-- An operator over trees with values computes its formula on these. -/
theorem resolve_operator (hw : w.Standard) {xs : List Arith}
    (hcore : Fetcher.core.filter
      (fun h => h.signature.isNamedIn (.token head :: xs.map Arith.event)) =
      [Fetcher.computed name (names.map fun param => .one param .number) formula description])
    (hlength : xs.length = names.length) (hxs : ∀ x ∈ xs, x.Comes w)
    (hdefined : ∀ x ∈ xs, x.Defined) :
    ∃ ns : List Number, ns.map Number.value = xs.map Arith.value ∧
      (w.resolve (.seq (.token head :: xs.map Arith.event))).run =
        .done (formula.value w (BoundArgs.insertAll {} names (ns.map .number))) := by
  obtain ⟨ns, hvalues, hns⟩ := read_numbers hxs hdefined
  refine ⟨ns, hvalues, hw.resolve_applied hcore ?_ ?_ hns⟩
  · intro e he
    obtain ⟨x, hx, rfl⟩ := List.mem_map.mp he
    exact (hxs x hx).passes
  · rw [List.length_map, hlength]

/-- An operator over a tree without a value has no match. -/
theorem resolve_operator_undefined (hw : w.Standard) {xs : List Arith}
    (hcore : Fetcher.core.filter
      (fun h => h.signature.isNamedIn (.token head :: xs.map Arith.event)) =
      [Fetcher.computed name (names.map fun param => .one param .number) formula description])
    (hxs : ∀ x ∈ xs, x.Comes w) {x : Arith} (hx : x ∈ xs) (hundefined : ¬ x.Defined) :
    ∃ attempted, (w.resolve (.seq (.token head :: xs.map Arith.event))).run =
      .done (.error (.noMatch coreKind (.seq (.token head :: xs.map Arith.event)) attempted)) := by
  obtain ⟨items, hitems⟩ := Arith.event_seq_of_undefined hundefined
  obtain ⟨r, hrun, houtcome⟩ := hxs x hx
  rw [hitems] at hrun
  have hmem : .seq items ∈ xs.map Arith.event := hitems ▸ List.mem_map_of_mem hx
  cases r with
  | ok v =>
    cases houtcome with
    | exact defined _ => exact absurd defined hundefined
  | error err =>
    refine hw.resolve_unmatched hcore (fun e he => ?_) hmem hrun
    obtain ⟨y, hy, rfl⟩ := List.mem_map.mp he
    exact (hxs y hy).passes

/-- A numeral behind the name of a scale is scaled. -/
theorem resolve_scaled (hw : w.Standard) {reading : Reading} {text : String} {n : Number}
    (hcore : Fetcher.core.filter (fun h => h.signature.isNamedIn [.token head, .token text]) =
      [Fetcher.computed name (["amount"].map fun param => .one param reading) .amount description])
    (hread : reading.read w.resolve w (.token text) = pure (.number n)) :
    (w.resolve (.seq [.token head, .token text])).run = .done (.ok (.number n)) := by
  have hoperands : ∀ x ∈ [Event.token text], Passes (w.resolve x) := by
    intro x hx
    rw [List.mem_singleton.mp hx]
    exact hw.token_passes text
  have hvalue : ((w.binder w.resolve).resolve reading (.token text)).run.eval Call.anyReply =
      .ok (.number n) := by
    rw [binder_resolve, hread]
    rfl
  rw [hw.resolve_applied hcore hoperands rfl (Binder.resolvesEach_fixed_one.mpr ⟨_, hvalue, rfl⟩),
    Formula.amount_value]

end World.Standard

/-! ## Resolution -/

namespace Arith

variable {w : World}

theorem literal_comes (hw : w.Standard) (t : Numeral) : (literal t).Comes w :=
  ⟨_, hw.resolve_numeral t, .exact trivial rfl⟩

theorem exp_comes (hw : w.Standard) (head : Spelling "Exp") (t : Numeral) :
    (exp head t).Comes w := by
  refine ⟨.ok (.number t.number.exp), ?_, .exact trivial ?_⟩
  · refine hw.resolve_scaled (Fetcher.core_named_exp head _) ?_
    rw [Reading.read]
    apply Reading.typed_literal
    rw [t.literal]
    rfl
  · exact Decimal.shift_eq t.number.value (by decide)

theorem percent_comes (hw : w.Standard) (head : Spelling "Percent") (t : Numeral) :
    (percent head t).Comes w := by
  refine ⟨.ok (.number t.number.percent), ?_, .exact trivial ?_⟩
  · refine hw.resolve_scaled (Fetcher.core_named_percent head _) ?_
    rw [Reading.read]
    apply Reading.typed_literal
    rw [Number.dropPercent_of_parse? t.reads, t.literal]
    rfl
  · exact Decimal.shift_eq t.number.value (by decide)

theorem exactly_comes (hw : w.Standard) (head : Spelling "Exactly") {x : Arith} (hx : x.Comes w) :
    (exactly head x).Comes w := by
  have hcore := Fetcher.core_named_exactly head ([x].map event)
  have hxs : ∀ z ∈ [x], z.Comes w := by simpa using hx
  by_cases hdefined : x.Defined
  · obtain ⟨ns, hvalues, hrun⟩ := hw.resolve_operator hcore rfl hxs (by simpa using hdefined)
    obtain ⟨n, rest, rfl, hvalue, hrest⟩ := List.map_eq_cons_iff.mp hvalues
    obtain rfl := List.map_eq_nil_iff.mp hrest
    simp only [List.map_cons, List.map_nil] at hrun
    rw [Formula.amount_value] at hrun
    exact ⟨_, hrun, .exact hdefined hvalue⟩
  · have hmem : x ∈ [x] := List.mem_singleton.mpr rfl
    obtain ⟨attempted, hrun⟩ := hw.resolve_operator_undefined hcore hxs hmem hdefined
    exact ⟨_, hrun, .unmatched hmem hdefined⟩

theorem binary_comes (hw : w.Standard) (op : Arithmetic) (head : Spelling op.name) {x y : Arith}
    (hx : x.Comes w) (hy : y.Comes w) : (binary op head x y).Comes w := by
  obtain ⟨description, hcore⟩ := Fetcher.core_named_arithmetic op head ([x, y].map event)
  have hxs : ∀ z ∈ [x, y], z.Comes w := by simpa using ⟨hx, hy⟩
  by_cases hinside : ∃ z ∈ [x, y], ¬ z.Defined
  · obtain ⟨z, hz, hundefined⟩ := hinside
    obtain ⟨attempted, hrun⟩ := hw.resolve_operator_undefined hcore hxs hz hundefined
    exact ⟨_, hrun, .unmatched hz hundefined⟩
  · have hdefined : ∀ z ∈ [x, y], z.Defined :=
      fun z hz => Classical.byContradiction fun hnot => hinside ⟨z, hz, hnot⟩
    have hleft : x.Defined := hdefined x (by simp)
    have hright : y.Defined := hdefined y (by simp)
    obtain ⟨ns, hvalues, hrun⟩ := hw.resolve_operator hcore rfl hxs hdefined
    obtain ⟨a, rest, rfl, ha, hrest⟩ := List.map_eq_cons_iff.mp hvalues
    obtain ⟨b, rest, rfl, hb, hrest⟩ := List.map_eq_cons_iff.mp hrest
    obtain rfl := List.map_eq_nil_iff.mp hrest
    simp only [List.map_cons, List.map_nil] at hrun
    rw [Formula.arithmetic_value] at hrun
    by_cases hzero : op = .div ∧ y.value = 0
    · obtain ⟨rfl, hzero⟩ := hzero
      rw [Arithmetic.apply_div_zero (hb.trans hzero)] at hrun
      exact ⟨_, hrun, .divided rfl hleft hright hzero ha⟩
    · have hdivisor : op = .div → y.value ≠ 0 := fun hop hy => hzero ⟨hop, hy⟩
      obtain ⟨n, happly, hvalue⟩ := Arithmetic.apply_value (a := a) (hb ▸ hdivisor)
      rw [happly] at hrun
      rw [ha, hb] at hvalue
      exact ⟨_, hrun, .exact ⟨hleft, hright, hdivisor⟩ hvalue⟩

/-- A tree comes to one of its outcomes, by induction over the tree. -/
theorem comes (hw : w.Standard) (t : Arith) : t.Comes w := by
  induction t with
  | literal t => exact literal_comes hw t
  | exp head t => exact exp_comes hw head t
  | percent head t => exact percent_comes hw head t
  | exactly head x ih => exact exactly_comes hw head ih
  | binary op head x y ihx ihy => exact binary_comes hw op head ihx ihy

end Arith

/-- In every built world, over every chain and with no call: an arithmetic expression has its exact
rational value unless it divides by zero, and otherwise fails. A zero divisor at the root, between
operands that have values, is an invalid value; an operand without a value leaves no match. -/
theorem World.Built.arithmetic_exact (w : World) (hw : w.Built) (t : Arith) :
    (t.Defined → ∃ n : Number, (w.resolve t.event).run = .done (.ok (.number n)) ∧
      n.value = t.value) ∧
    (¬ t.Defined → ∃ err, (w.resolve t.event).run = .done (.error err)) ∧
    (∀ head x y, t = .binary .div head x y → x.Defined → y.Defined → y.value = 0 →
      ∃ dividend : Number, dividend.value = x.value ∧
        (w.resolve t.event).run = .done (.error (.invalid (.divisionByZero dividend)))) ∧
    ∀ x ∈ t.operands, ¬ x.Defined → ∃ attempted,
      (w.resolve t.event).run = .done (.error (.noMatch coreKind t.event attempted)) := by
  obtain ⟨r, hrun, houtcome⟩ := t.comes hw.standard
  cases houtcome with
  | @exact n defined value =>
    refine ⟨fun _ => ⟨n, hrun, value⟩, fun hnot => absurd defined hnot, ?_, ?_⟩
    · rintro head x y rfl - - hzero
      exact absurd hzero (defined.2.2 rfl)
    · intro x hx hundefined
      exact absurd (defined.operands x hx) hundefined
  | @divided head x y dividend root left right zero value =>
    subst root
    refine ⟨fun hdefined => absurd zero (hdefined.2.2 rfl), fun _ => ⟨_, hrun⟩, ?_, ?_⟩
    · rintro head' x' y' ⟨⟩ - - -
      exact ⟨dividend, value, hrun⟩
    · intro z hz hundefined
      simp only [Arith.operands, List.mem_cons, List.not_mem_nil, or_false] at hz
      rcases hz with rfl | rfl
      · exact absurd left hundefined
      · exact absurd right hundefined
  | @unmatched x attempted operand undefined =>
    refine ⟨fun hdefined => absurd (hdefined.operands x operand) undefined, fun _ => ⟨_, hrun⟩, ?_,
      fun _ _ _ => ⟨attempted, hrun⟩⟩
    rintro head x' y' rfl hleft hright -
    simp only [Arith.operands, List.mem_cons, List.not_mem_nil, or_false] at operand
    rcases operand with rfl | rfl
    · exact absurd hleft undefined
    · exact absurd hright undefined

/-- Contracts with the names of an operator and of a numeral. -/
def World.operatorNames : World :=
  (World.blank.withContract "Add" "Erc20" Address.zero).withContract "2" "Erc20" Address.zero

namespace Arith

def two : Arith := .literal ⟨"2", ⟨2, .plain⟩, by decide +kernel⟩

def seven : Arith := .literal ⟨" 0.7E+1", ⟨7, .plain⟩, by decide +kernel⟩

/-- The tree `(Div 0.7E+1 2)`. -/
def half : Arith := .binary .div ⟨"Div", by decide +kernel⟩ seven two

/-- The tree `(aDD (Div 0.7E+1 2) (Exactly (Percent 50)))`. -/
def mixed : Arith :=
  .binary .add ⟨"aDD", by decide +kernel⟩ half
    (.exactly ⟨"Exactly", by decide +kernel⟩
      (.percent ⟨"Percent", by decide +kernel⟩ ⟨"50", ⟨50, .plain⟩, by decide +kernel⟩))

/-- The tree `(Div 0.7E+1 (Sub 2 2))`. -/
def byZero : Arith :=
  .binary .div ⟨"Div", by decide +kernel⟩ seven
    (.binary .sub ⟨"Sub", by decide +kernel⟩ two two)

/-- The tree `(Add 2 (Div 0.7E+1 (Sub 2 2)))`. -/
def inside : Arith := .binary .add ⟨"Add", by decide +kernel⟩ two byZero

end Arith

theorem World.Built.arithmetic_exact_operatorNames :
    operatorNames.Built ∧
    (∃ n : Number, (operatorNames.resolve Arith.mixed.event).run = .done (.ok (.number n)) ∧
      n.value = 500000000000000003 + 1 / 2) ∧
    (∃ dividend : Number, dividend.value = 7 ∧ (operatorNames.resolve Arith.byZero.event).run =
      .done (.error (.invalid (.divisionByZero dividend)))) ∧
    ∃ attempted, (operatorNames.resolve Arith.inside.event).run =
      .done (.error (.noMatch coreKind Arith.inside.event attempted)) := by
  have hbuilt : operatorNames.Built :=
    ((Built.new new_blank).withContract "Add" "Erc20" _).withContract "2" "Erc20" _
  have hhalf : Arith.half.Defined := ⟨trivial, trivial, fun _ => by decide +kernel⟩
  have hmixed : Arith.mixed.Defined := ⟨hhalf, trivial, nofun⟩
  have hvalue : Arith.mixed.value = 500000000000000003 + 1 / 2 := by decide +kernel
  have hzero : ¬ Arith.byZero.Defined := fun h => h.2.2 rfl (by decide +kernel)
  obtain ⟨n, hrun, hexact⟩ := (arithmetic_exact _ hbuilt Arith.mixed).1 hmixed
  have hdivided := (arithmetic_exact _ hbuilt Arith.byZero).2.2.1 _ _ _ rfl trivial
    ⟨trivial, trivial, nofun⟩ (by decide +kernel)
  have hinside := (arithmetic_exact _ hbuilt Arith.inside).2.2.2 Arith.byZero
    (List.mem_cons_of_mem _ (List.mem_singleton.mpr rfl)) hzero
  exact ⟨hbuilt, ⟨n, hrun, hexact.trans hvalue⟩, hdivided, hinside⟩

end ChainScript
