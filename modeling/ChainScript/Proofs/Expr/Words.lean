import ChainScript.Proofs.Expr.Arithmetic

/-! # The value of a bare token

A few words of the core stand for a value on their own; every other token is a literal, whatever
fetchers and contracts it names. A sequence of one token is tried against the same handlers, and so
comes to the same value. Where no contract was deployed no word is an address, so a token is read as
an address exactly when it is one in digits or a known name.

* `World.tokenValue`: the value of a token.
* `World.Standard.resolve_alone`: resolution gives it, without a call, in parentheses or not.
* `World.Standard.typed_token`: a token that has no value of a kind is read literally or not at all.
* `World.Standard.read_address_token`: a token read as an address.
-/

namespace ChainScript
set_option autoImplicit false

open Program Handler

namespace World

variable {w : World}

/-- The words that stand for a value on their own. -/
def words (w : World) : List (String × Except Error Value) :=
  [("True", .ok (.bool true)),
   ("False", .ok (.bool false)),
   ("Anything", .ok .anything),
   ("Nothing", .ok .nothing),
   ("List", .ok (.list [])),
   ("Array", .ok (.array [])),
   ("LastContract", Formula.lastContract.value w {})]

/-- The value of a bare token: that of the word it is, letter case aside, or else a literal. -/
def tokenValue (w : World) (text : String) : Except Error Value :=
  match w.words.find? fun word => Text.sameLetters word.1 text with
  | some word => word.2
  | none => .ok (Literal.ofToken w text)

/-- The value of a token is that of a word of the same letters, or the literal. -/
theorem tokenValue_ok {text : String} {v : Value} (h : w.tokenValue text = .ok v) :
    (∃ word ∈ w.words, Text.sameLetters word.1 text = true ∧ word.2 = .ok v) ∨
      v = Literal.ofToken w text := by
  unfold tokenValue at h
  split at h
  · rename_i word hfound
    have hword := List.find?_some hfound
    exact .inl ⟨word, List.mem_of_find?_eq_some hfound, hword, h⟩
  · cases h
    exact .inr rfl

namespace Standard

/-! ## Words -/

theorem resolve_word (hw : w.Standard) {word name description : String}
    {ps : List (Param Reading)} {formula : Formula} (args : BoundArgs)
    (hcore : Fetcher.core.filter (fun h => h.signature.isNamedIn [.token word]) =
      [named name ps (.compute formula) description])
    (hps : ((w.binder w.resolve).params ps {} []).run = .done (.ok (args, [])))
    {e : Event} {text : String} (halone : e.elements = [.token text])
    (hword : Text.sameLetters word text = true) :
    (w.resolve e).run = .done (formula.value w args) := by
  rw [← filter_named_congr hword] at hcore
  let fetcher : Fetcher := named name ps (.compute formula) description
  have hattempt : (fetcher.attempt (w.binder w.resolve) [.token text]).run =
      .done (.ok ⟨fetcher.signature, .compute formula, args⟩) := by
    dsimp only [fetcher]
    rw [named, attempt_leaf, ExceptT.run_bind]
    change ((w.binder w.resolve).params ps {} []).run >>= _ = _
    rw [hps]
    rfl
  rw [resolve_eq_resolveStep hw.registry_eq, resolveStep, fetchValue, ExceptT.run_mk, select_run,
    halone, hw.candidates_of_core hcore, tryAll_cons, hattempt]
  rfl

theorem resolve_words (hw : w.Standard) {word : String × Except Error Value} (hmem : word ∈ w.words)
    {e : Event} {text : String} (halone : e.elements = [.token text])
    (hword : Text.sameLetters word.1 text = true) :
    (w.resolve e).run = .done word.2 := by
  simp only [words, List.mem_cons, List.not_mem_nil, or_false] at hmem
  rcases hmem with rfl | rfl | rfl | rfl | rfl | rfl | rfl
  · exact hw.resolve_word {} rfl rfl halone hword
  · exact hw.resolve_word {} rfl rfl halone hword
  · exact hw.resolve_word {} rfl rfl halone hword
  · exact hw.resolve_word {} rfl rfl halone hword
  · exact hw.resolve_word ⟨[("items", .array [])]⟩ rfl rfl halone hword
  · exact hw.resolve_word ⟨[("items", .array [])]⟩ rfl rfl halone hword
  · have hcore : Fetcher.core.filter (fun h => h.signature.isNamedIn [.token "LastContract"]) =
        [named "LastContract" [] (.compute .lastContract)
          "Address of the most recently deployed contract"] := rfl
    exact hw.resolve_word {} hcore rfl halone hword

/-! ## Literals -/

/-- A fetcher of the core that is named by a token which is no word lacks an element. -/
theorem core_gives_up {text : String}
    (hnone : ∀ word ∈ w.words, Text.sameLetters word.1 text ≠ true) {h : Fetcher}
    (hh : h ∈ Fetcher.core) (hnamed : h.signature.isNamedIn [.token text] = true) :
    ∃ reason, (h.attempt (w.binder w.resolve) [.token text]).run =
      .done (.error (.failed reason)) := by
  have hmissing : ∀ (name param description : String) (reading : Reading)
      (ps : List (Param Reading)) (effect : Fetch), ∃ reason,
      ((named name (.one param reading :: ps) effect description : Fetcher).attempt
        (w.binder w.resolve) [.token text]).run = .done (.error (.failed reason)) := by
    intro name param description reading ps effect
    exact ⟨.missing param, by rw [named, attempt_leaf]; rfl⟩
  simp only [words, List.forall_mem_cons] at hnone
  obtain ⟨htrue, hfalse, hanything, hnothing, hlist, harray, hlast, -⟩ := hnone
  simp only [Fetcher.core, List.mem_cons, List.not_mem_nil, or_false] at hh
  rcases hh with rfl | rfl | rfl | rfl | rfl | rfl | rfl | rfl | rfl | rfl | rfl | rfl | rfl | rfl |
    rfl | rfl | rfl | rfl | rfl | rfl | rfl | rfl
  · exact absurd hnamed htrue
  · exact absurd hnamed hfalse
  · exact absurd hnamed hanything
  · exact absurd hnamed hnothing
  iterate 10 exact hmissing ..
  · exact absurd hnamed hlist
  · exact absurd hnamed harray
  iterate 2 exact hmissing ..
  · exact absurd hnamed hlast
  iterate 2 exact hmissing ..
  · cases hnamed

theorem resolve_no_word (hw : w.Standard) {e : Event} {text : String}
    (halone : e.elements = [.token text])
    (hnone : ∀ word ∈ w.words, Text.sameLetters word.1 text ≠ true) :
    (w.resolve e).run = .done (.ok (Literal.ofToken w text)) := by
  have hgiveUp : ∀ h ∈ Fetcher.core.filter (fun h => h.signature.isNamedIn [.token text]) ++
      contractCandidates Fetcher.ofContract w.contracts [.token text],
      ∃ reason, (h.attempt (w.binder w.resolve) [.token text]).run =
        .done (.error (.failed reason)) := by
    intro h hh
    rcases List.mem_append.mp hh with hh | hh
    · obtain ⟨hcore, hnamed⟩ := List.mem_filter.mp hh
      exact core_gives_up hnone hcore hnamed
    · obtain ⟨i, -, rfl⟩ := mem_contractCandidates hh
      refine ⟨.missingRest i.name, ?_⟩
      rw [Fetcher.ofContract, namespaced, attempt_group]
      rfl
  obtain ⟨attempted, hsearch⟩ := tryAll_behind [Fetcher.literal] hgiveUp
  rw [resolve_eq_resolveStep hw.registry_eq, resolveStep, hw.registry_eq, fetchValue,
    ExceptT.run_mk, select_run, halone, Fetcher.candidates_registry, ← List.append_assoc,
    hsearch, tryAll_cons, Fetcher.literal, catchAll, attempt_leaf]
  rfl

/-- A token has its value with parentheses around it and without. -/
theorem resolve_alone (hw : w.Standard) {e : Event} {text : String}
    (halone : e.elements = [.token text]) : (w.resolve e).run = .done (w.tokenValue text) := by
  unfold tokenValue
  split
  · rename_i word hfound
    have hword := List.find?_some hfound
    exact hw.resolve_words (List.mem_of_find?_eq_some hfound) halone hword
  · rename_i hnone
    exact hw.resolve_no_word halone (List.find?_eq_none.mp hnone)

theorem resolve_token_eq (hw : w.Standard) (text : String) :
    (w.resolve (.token text)).run = .done (w.tokenValue text) :=
  hw.resolve_alone rfl

/-! ## Failures -/

theorem tokenValue_word (hw : w.Standard) {word : String × Except Error Value}
    (hmem : word ∈ w.words) {text : String} (hword : Text.sameLetters word.1 text = true) :
    w.tokenValue text = word.2 := by
  have hvalue := hw.resolve_words (e := .token text) hmem rfl hword
  rw [hw.resolve_token_eq] at hvalue
  exact Program.done.inj hvalue

/-- Only the name of the last contract has no value, and only where there is none. -/
theorem tokenValue_eq_error_iff (hw : w.Standard) {text : String} {err : Error} :
    w.tokenValue text = .error err ↔ Text.sameLetters "LastContract" text = true ∧
      w.lastContract = none ∧ err = .invalid .nothingDeployed := by
  constructor
  · intro hvalue
    obtain ⟨r, hrun, hresult⟩ := hw.resolve_token text
    rw [hw.resolve_token_eq, hvalue] at hrun
    obtain ⟨rfl, hlast, hword⟩ := hresult err (Program.done.inj hrun).symm
    exact ⟨hword, hlast, rfl⟩
  · rintro ⟨hword, hlast, rfl⟩
    have hmem : ("LastContract", Formula.lastContract.value w {}) ∈ w.words := by simp [words]
    rw [hw.tokenValue_word hmem hword, Formula.value, hlast]

/-! ## Typed readings -/

/-- Where a token has a value of the kind that is asked for only if it is read literally, it is read
literally or fails with the literal error. -/
theorem typed_token (hw : w.Standard) {text : String} {literal : String → Except Fault Value}
    {expected : Kind} (hliteral : ∀ v, w.tokenValue text = .ok v → v.kind = expected →
      ∃ u, literal text = .ok u) :
    Reading.typed w.resolve literal expected (.token text) =
      Action.ofExcept ((literal text).mapError Error.invalid) := by
  rw [Reading.typed]
  cases hread : literal text with
  | ok v => rfl
  | error fault =>
    dsimp only
    rw [hw.resolve_token_eq, Program.done_bind]
    cases hvalue : w.tokenValue text with
    | ok v =>
      have hkind : v.kind ≠ expected := by
        intro hkind
        obtain ⟨u, hu⟩ := hliteral v hvalue hkind
        rw [hread] at hu
        cases hu
      dsimp only
      rw [if_neg hkind]
      rfl
    | error err =>
      obtain ⟨-, -, rfl⟩ := hw.tokenValue_eq_error_iff.mp hvalue
      rfl

/-! ## Addresses -/

/-- Before the first deployment a token is read as an address exactly when it is one in digits or a
known name. -/
theorem read_address_token (hw : w.Standard) (hlast : w.lastContract = none) (text : String) :
    w.read .address (.token text) =
      Action.ofExcept ((Literal.address w text).mapError Error.invalid) := by
  refine hw.typed_token fun v hvalue hkind => ?_
  rcases tokenValue_ok hvalue with ⟨word, hmem, -, hword⟩ | rfl
  · simp only [words, List.mem_cons, List.not_mem_nil, or_false] at hmem
    rcases hmem with rfl | rfl | rfl | rfl | rfl | rfl | rfl
    iterate 6
      cases hword
      cases hkind
    rw [Formula.value, hlast] at hword
    cases hword
  · unfold Literal.ofToken at hkind
    split at hkind
    · cases hkind
    · split at hkind
      · rename_i a ha
        exact ⟨a, ha⟩
      · cases hkind

end Standard

end World

end ChainScript
