import Mathlib.Algebra.Order.Field.Rat
import ChainScript.Proofs.Contract.Index
import ChainScript.Proofs.Expr.Words

/-! # Tokens are read alike in every world

Strings, booleans, numbers, scaled numbers and percentages are taken from a token as it is written.
Where the text does not spell one, the token has no value of that kind in any world either: names
stand for addresses, and the only words for a boolean are its own spellings. So the text alone says
what is read, whatever accounts, aliases, variables and contracts there are, and a failure is always
that of the literal.

* `Reading.written?`: what the readings of a text as it is written make of it.
* `World.Standard.read_written`: such a reading of a token.
* `World.Built.tokens_read_alike`: the value of a token, alone in a sequence or not, and its readings.
-/

namespace ChainScript
set_option autoImplicit false

open Program

/-- What a reading makes of a text as it is written, if it looks at nothing else. -/
def Reading.written? : Reading → Option (String → Except Fault Value)
  | .string => some fun text => .ok (.string text)
  | .bool => some Literal.bool
  | .number => some fun text => (Literal.number text).map .number
  | .exp => some fun text => (Literal.number text).map fun n => .number n.exp
  | .percent =>
    some fun text => (Literal.number (Literal.dropPercent text)).map fun n => .number n.percent
  | .core | .address | .event | .literal => none

/-! ## Kinds of the values of tokens -/

theorem Text.lower_congr {s t : String} (h : sameLetters s t = true) : lower t = lower s := by
  rw [lower, lower, sameLetters_iff.mp h]

theorem Literal.ofToken_kind (w : World) (text : String) :
    ((ofToken w text).kind = .number ∧ ∃ n, Number.parse? text = some n) ∨
      (ofToken w text).kind = .address ∨ (ofToken w text).kind = .string := by
  unfold ofToken
  split
  · rename_i n hn
    exact .inl ⟨rfl, n, hn⟩
  · split
    · rename_i a ha
      exact .inr (.inl (address_kind ha))
    · exact .inr (.inr rfl)

namespace World

variable {w : World} {text : String} {v : Value}

/-- No word stands for a number, and two of them for a boolean. -/
theorem word_kind {word : String × Except Error Value} (hmem : word ∈ w.words)
    (h : word.2 = .ok v) :
    v.kind ≠ .number ∧ (v.kind = .bool → word.1 = "True" ∨ word.1 = "False") := by
  simp only [words, List.mem_cons, List.not_mem_nil, or_false] at hmem
  rcases hmem with rfl | rfl | rfl | rfl | rfl | rfl | rfl
  iterate 6
    cases h
    decide
  have hlast : ∃ a, w.lastContract = some a ∧ v = .address a := by
    rw [Formula.value] at h
    cases hlast : w.lastContract with
    | some a =>
      rw [hlast] at h
      cases h
      exact ⟨a, rfl, rfl⟩
    | none =>
      rw [hlast] at h
      cases h
  obtain ⟨a, -, rfl⟩ := hlast
  constructor
  · intro hkind
    cases hkind
  · intro hkind
    cases hkind

/-- A token whose value is a number spells one, with no percent sign to drop. -/
theorem numeral_of_tokenValue (h : w.tokenValue text = .ok v) (hkind : v.kind = .number) :
    ∃ n, Literal.number text = .ok n ∧ Literal.dropPercent text = text := by
  rcases tokenValue_ok h with ⟨word, hmem, -, hword⟩ | rfl
  · exact absurd hkind (word_kind hmem hword).1
  · rcases Literal.ofToken_kind w text with ⟨-, n, hn⟩ | hother | hother
    · exact ⟨n, by rw [Literal.number, hn], Number.dropPercent_of_parse? hn⟩
    all_goals
      rw [hother] at hkind
      cases hkind

theorem boolean_of_tokenValue (h : w.tokenValue text = .ok v) (hkind : v.kind = .bool) :
    ∃ b, Literal.bool text = .ok b := by
  rcases tokenValue_ok h with ⟨word, hmem, hletters, hword⟩ | rfl
  · have hlower : Text.lower text = "true" ∨ Text.lower text = "false" := by
      rw [Text.lower_congr hletters]
      rcases (word_kind hmem hword).2 hkind with hname | hname
      · rw [hname]
        decide +kernel
      · rw [hname]
        decide +kernel
    rcases hlower with hlower | hlower
    · exact ⟨.bool true, by simp [Literal.bool, hlower]⟩
    · exact ⟨.bool false, by simp [Literal.bool, hlower]⟩
  · rcases Literal.ofToken_kind w text with ⟨hother, -⟩ | hother | hother
    all_goals
      rw [hother] at hkind
      cases hkind

end World

/-! ## Readings of a token -/

/-- A text that a reading takes as it is written spells every value of the kind that the reading
asks for. -/
theorem Reading.written_typed {reading : Reading} {literal : String → Except Fault Value}
    (h : reading.written? = some literal) :
    ∃ expected, (∀ resolve w e, reading.read resolve w e = typed resolve literal expected e) ∧
      ∀ (w : World) text v, w.tokenValue text = .ok v → v.kind = expected →
        ∃ u, literal text = .ok u := by
  cases reading with
  | core | address | event | literal => cases h
  | string =>
    obtain rfl := Option.some.inj h
    exact ⟨.string, fun _ _ _ => rfl, fun _ text _ _ _ => ⟨.string text, rfl⟩⟩
  | bool =>
    obtain rfl := Option.some.inj h
    exact ⟨.bool, fun _ _ _ => rfl, fun _ _ _ => World.boolean_of_tokenValue⟩
  | number =>
    obtain rfl := Option.some.inj h
    refine ⟨.number, fun _ _ _ => rfl, fun w text v hvalue hkind => ?_⟩
    obtain ⟨n, hn, -⟩ := World.numeral_of_tokenValue hvalue hkind
    exact ⟨.number n, congrArg (Except.map Value.number) hn⟩
  | exp =>
    obtain rfl := Option.some.inj h
    refine ⟨.number, fun _ _ _ => rfl, fun w text v hvalue hkind => ?_⟩
    obtain ⟨n, hn, -⟩ := World.numeral_of_tokenValue hvalue hkind
    exact ⟨.number n.exp, congrArg (Except.map fun n => Value.number n.exp) hn⟩
  | percent =>
    obtain rfl := Option.some.inj h
    refine ⟨.number, fun _ _ _ => rfl, fun w text v hvalue hkind => ?_⟩
    obtain ⟨n, hn, hwhole⟩ := World.numeral_of_tokenValue hvalue hkind
    dsimp only
    rw [hwhole, hn]
    exact ⟨.number n.percent, rfl⟩

namespace World

variable {w : World}

theorem Standard.read_written (hw : w.Standard) {reading : Reading}
    {literal : String → Except Fault Value} (hwritten : reading.written? = some literal)
    (text : String) :
    w.read reading (.token text) = Action.ofExcept ((literal text).mapError Error.invalid) := by
  obtain ⟨expected, htyped, hspells⟩ := Reading.written_typed hwritten
  rw [World.read, htyped]
  exact hw.typed_token (hspells w text)

/-- In every built world a token has the same value alone in a sequence, with no call. Only the name
of the last contract has none, before the first deployment, and its error is not fatal. The readings
that take a text as it is written depend on nothing else. -/
theorem Built.tokens_read_alike (hw : w.Built) (text : String) :
    (w.resolve (.seq [.token text])).run = (w.resolve (.token text)).run ∧
    (Text.sameLetters "LastContract" text = true → w.contracts.names = [] →
      ∃ err, (w.resolve (.token text)).run = .done (.error err) ∧
        err = .invalid .nothingDeployed ∧ err.isFatal = false) ∧
    (¬ (Text.sameLetters "LastContract" text = true ∧ w.contracts.names = []) →
      ∃ v, (w.resolve (.token text)).run = .done (.ok v)) ∧
    ∀ reading literal, reading.written? = some literal →
      w.read reading (.token text) =
        Action.ofExcept ((literal text).mapError Error.invalid) := by
  have hs := hw.standard
  rw [hs.resolve_alone (e := .seq [.token text]) rfl, hs.resolve_token_eq]
  refine ⟨rfl, ?_, ?_, fun reading literal hwritten => hs.read_written hwritten text⟩
  · intro hword hnames
    have hlast := hw.lastContract_eq_none_iff.mpr hnames
    have herror := hs.tokenValue_eq_error_iff.mpr ⟨hword, hlast, rfl⟩
    exact ⟨_, congrArg Program.done herror, rfl, rfl⟩
  · intro hnot
    cases hvalue : w.tokenValue text with
    | ok v => exact ⟨v, rfl⟩
    | error err =>
      obtain ⟨hword, hlast, -⟩ := hs.tokenValue_eq_error_iff.mp hvalue
      exact absurd ⟨hword, hw.lastContract_eq_none_iff.mp hlast⟩ hnot

/-- A world with an alias for a numeral and a contract for a boolean. -/
def oddNames : World :=
  (blank.withAlias "12" Address.zero).withContract "trUE" "Erc20" Address.zero

theorem tokens_read_alike_oddNames :
    (blank.Built ∧ oddNames.Built) ∧
    (∃ err, (blank.resolve (.token "lastcontract")).run = .done (.error err) ∧
      err = .invalid .nothingDeployed ∧ err.isFatal = false) ∧
    (∃ v, (oddNames.resolve (.token "lastcontract")).run = .done (.ok v)) ∧
    oddNames.read .exp (.token "12") = pure (.number ⟨12 * 10 ^ 18, .exp⟩) ∧
    oddNames.read .bool (.token "trUE") = pure (.bool true) ∧
    oddNames.read .percent (.token "Nobody%") = throw (.invalid (.notANumber "Nobody")) := by
  have hblank : blank.Built := .new new_blank
  have hodd : oddNames.Built := (hblank.withAlias "12" _).withContract "trUE" "Erc20" _
  have hnames : ¬ (Text.sameLetters "LastContract" "lastcontract" = true ∧
      oddNames.contracts.names = []) := nofun
  obtain ⟨-, hfails, -, -⟩ := hblank.tokens_read_alike "lastcontract"
  obtain ⟨-, -, hvalue, -⟩ := hodd.tokens_read_alike "lastcontract"
  obtain ⟨-, -, -, hnumeral⟩ := hodd.tokens_read_alike "12"
  obtain ⟨-, -, -, hboolean⟩ := hodd.tokens_read_alike "trUE"
  obtain ⟨-, -, -, hpercent⟩ := hodd.tokens_read_alike "Nobody%"
  refine ⟨⟨hblank, hodd⟩, hfails (by decide +kernel) rfl, hvalue hnames, ?_, ?_, ?_⟩
  · rw [hnumeral .exp _ rfl]
    with_unfolding_all rfl
  · rw [hboolean .bool _ rfl]
    with_unfolding_all rfl
  · rw [hpercent .percent _ rfl]
    with_unfolding_all rfl

end World

end ChainScript
