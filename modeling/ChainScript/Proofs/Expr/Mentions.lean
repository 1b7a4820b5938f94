import Mathlib.Data.List.Sort
import ChainScript.Proofs.Event.Tokens
import ChainScript.Proofs.Expr.Recursion
import ChainScript.Proofs.World.Remembering

/-! # What an expression mentions

The value of an event looks at the accounts, at the aliases, at the contracts that answer to its
tokens, and at the variables and the last contract where a token asks for them. Two worlds that agree
on these resolve the event alike: they make the same calls and come to the same value or error.

* `World.AgreeOn`: two worlds agree on what an event mentions.
* `World.AgreeOn.candidates_eq`: they have the same fetchers to try.
* `World.AgreeOn.resolveStep_eq`: one level of resolution does the same in both.
-/

namespace ChainScript
set_option autoImplicit false

open Program Handler

/-! ## Tokens of the parts of an event -/

namespace Event

variable {e x : Event} {text : String}

theorem mem_tokens_of_elements (hx : x ∈ e.elements) (ht : text ∈ x.tokens) : text ∈ e.tokens := by
  cases e with
  | token own =>
    obtain rfl := List.mem_singleton.mp hx
    exact ht
  | seq items => exact mem_tokensAll.mpr ⟨x, hx, ht⟩

theorem mem_tokens_of_first {rest : List Event} (h : e.elements = .token text :: rest) :
    text ∈ e.tokens := by
  have hmem : .token text ∈ e.elements := h ▸ List.mem_cons_self ..
  exact mem_tokens_of_elements hmem (List.mem_singleton_self text)

theorem mem_elements_of_parts (hx : x ∈ e.parts) : x ∈ e.elements := by
  cases e with
  | token own => cases hx
  | seq items => exact hx

end Event

/-! ## Contracts of a name -/

/-- What is known of a contract, but for the order of deployment. -/
def ContractInstance.facts (i : ContractInstance) : String × String × Address :=
  (i.name, i.artifact, i.address)

def NamedBefore (a b : String × String × Address) : Prop := a.1 < b.1

instance : Std.Irrefl NamedBefore := ⟨fun a => String.lt_irrefl a.1⟩

instance : Std.Antisymm NamedBefore := ⟨fun _ _ hab hba => absurd hba (String.lt_asymm hab)⟩

/-- The fetchers of a contract do not tell when it was deployed. -/
def Fetcher.ofFacts (facts : String × String × Address) : Fetcher :=
  ofContract ⟨facts.1, facts.2.1, facts.2.2, 0⟩

namespace ContractIndex

/-- The same contracts are registered under the names with the letters of a text. -/
def AgreeAt (text : String) (index index' : ContractIndex) : Prop :=
  ∀ name, Text.sameLetters name text = true →
    (index.get? name).map ContractInstance.facts = (index'.get? name).map ContractInstance.facts

variable {index index' : ContractIndex} {text : String}

theorem AgreeAt.symm (h : AgreeAt text index index') : AgreeAt text index' index :=
  fun name hname => (h name hname).symm

/-- A contract registered under other letters. -/
theorem AgreeAt.insert {name : String} (h : Text.sameLetters name text = false)
    (artifact : String) (address : Address) :
    AgreeAt text index (index.insert name artifact address) := by
  intro other hother
  have hne : other ≠ name := by
    rintro rfl
    rw [h] at hother
    cases hother
  rw [get?, get?, ContractIndex.insert, Dict.find?_insert_of_ne hne]

theorem AgreeAt.answering_subset (h : AgreeAt text index index') (hindex : index.Ordered)
    (hindex' : index'.Ordered) : (index.answering text).map ContractInstance.facts ⊆
      (index'.answering text).map ContractInstance.facts := by
  intro facts hmem
  obtain ⟨i, hi, rfl⟩ := List.mem_map.mp hmem
  obtain ⟨hget, hletters⟩ := hindex.mem_answering.mp hi
  have hsame := h i.name hletters
  rw [hget, Option.map_some] at hsame
  obtain ⟨j, hj, hfacts⟩ := Option.map_eq_some_iff.mp hsame.symm
  have hname : j.name = i.name := congrArg Prod.fst hfacts
  refine List.mem_map.mpr ⟨j, hindex'.mem_answering.mpr ⟨?_, ?_⟩, hfacts⟩
  · rw [hname, hj]
  · rw [hname, hletters]

/-- Contracts that answer to a name stand in the order of their own names, so they are the same ones
in the same order. -/
theorem AgreeAt.answering_eq (h : AgreeAt text index index') (hindex : index.Ordered)
    (hindex' : index'.Ordered) : (index.answering text).map ContractInstance.facts =
      (index'.answering text).map ContractInstance.facts := by
  have hsorted : ∀ index : ContractIndex, index.Ordered →
      ((index.answering text).map ContractInstance.facts).Pairwise NamedBefore :=
    fun index h => List.pairwise_map.mpr (h.known_sorted.filter _)
  exact List.Subset.antisymm_of_pairwise (hsorted index hindex) (hsorted index' hindex')
    (h.answering_subset hindex hindex') (h.symm.answering_subset hindex' hindex)

theorem AgreeAt.fetchers_eq (h : AgreeAt text index index') (hindex : index.Ordered)
    (hindex' : index'.Ordered) : (index.answering text).map Fetcher.ofContract =
      (index'.answering text).map Fetcher.ofContract := by
  have hfactor : Fetcher.ofContract = Fetcher.ofFacts ∘ ContractInstance.facts := rfl
  rw [hfactor, ← List.map_map, ← List.map_map, h.answering_eq hindex hindex']

end ContractIndex

/-! ## Fetchers that look at the world -/

namespace Fetcher

theorem core_explicit : ∀ p ∈ parametersOf core, p.isImplicit = false := by
  decide

theorem ofContract_explicit (i : ContractInstance) :
    ∀ p ∈ (ofContract i).parameters, p.isImplicit = false := by
  have hparameters : (ofContract i).parameters =
      [.one "method" .string, .each "args" .core] := rfl
  rw [hparameters]
  simp [Param.one, Param.each, Param.isImplicit]

def var : Fetcher := computed "Var" [.one "key" .string] .stored "A value stored with `Set`"

theorem eq_var_of_effect {contracts : ContractIndex} {h : Fetcher}
    (hh : h ∈ core ++ contracts.known.map ofContract) (he : .compute .stored ∈ h.effects) :
    h = var := by
  have hcore : core = core.take 19 ++ var :: core.drop 20 := rfl
  refine eq_of_registry_effect hcore ?_ ?_ (fun i => ?_) hh he
  · simp [core, effectsOf, effects, computed, constant, arithmetic, named]
  · simp [core, effectsOf, effects, catchAll, named]
  · simp [effects_ofContract]

def lastContract : Fetcher :=
  computed "LastContract" [] .lastContract "Address of the most recently deployed contract"

theorem eq_lastContract_of_effect {contracts : ContractIndex} {h : Fetcher}
    (hh : h ∈ core ++ contracts.known.map ofContract) (he : .compute .lastContract ∈ h.effects) :
    h = lastContract := by
  have hcore : core = core.take 18 ++ lastContract :: core.drop 19 := rfl
  refine eq_of_registry_effect hcore ?_ ?_ (fun i => ?_) hh he
  · simp [core, effectsOf, effects, computed, constant, arithmetic, named]
  · simp [core, effectsOf, effects, computed, catchAll, named]
  · simp [effects_ofContract]

end Fetcher

/-! ## Worlds that agree -/

namespace World

/-- Two worlds agree on what an event mentions: on the accounts and aliases, on every contract whose
name is one of the tokens, letter case aside, and on the variables and the last contract unless no
token asks for them. -/
structure AgreeOn (e : Event) (w w' : World) : Prop where
  accounts : w.accounts = w'.accounts
  aliases : w.aliases = w'.aliases
  contracts : ∀ text ∈ e.tokens, w.contracts.AgreeAt text w'.contracts
  vars : w.vars = w'.vars ∨ ∀ text ∈ e.tokens, Text.sameLetters "Var" text = false
  lastContract : w.lastContract = w'.lastContract ∨
    ∀ text ∈ e.tokens, Text.sameLetters "LastContract" text = false

/-- The standard synthesizer is in use, no registry out of date is remembered, and the names of the
contracts stand in order. -/
structure Regular (w : World) : Prop extends UpToDate w where
  ordered : w.contracts.Ordered

theorem UpToDate.registry_known {w : World} (h : w.UpToDate) :
    w.registry = Fetcher.core ++ w.contracts.known.map Fetcher.ofContract := by
  rw [h.registry_eq, currentRegistry, Fetcher.registry, w.contracts.flatMap_names]

theorem Built.regular {w : World} (h : w.Built) : w.Regular := by
  refine ⟨⟨h.standard.synthesizer, fun r hr => ?_⟩, h.ordered⟩
  have hregistry := h.standard.remembered
  rw [registry, hr, Option.getD_some] at hregistry
  rw [hregistry, builtRegistry_eq_current h.standard.synthesizer]

namespace AgreeOn

variable {e x : Event} {w w' : World} {text : String} {f : Event → Action Value}

theorem mono (h : AgreeOn e w w') (hx : x ∈ e.elements) : AgreeOn x w w' where
  accounts := h.accounts
  aliases := h.aliases
  contracts text ht := h.contracts text (Event.mem_tokens_of_elements hx ht)
  vars := h.vars.imp_right fun hvar text ht => hvar text (Event.mem_tokens_of_elements hx ht)
  lastContract :=
    h.lastContract.imp_right fun hlast text ht => hlast text (Event.mem_tokens_of_elements hx ht)

/-! ## Readings -/

theorem lookupAddress_eq (h : AgreeOn e w w') (ht : text ∈ e.tokens) :
    w.lookupAddress text = w'.lookupAddress text := by
  have hfacts := h.contracts text ht text (Text.sameLetters_self text)
  have haddress := congrArg (Option.map fun facts => facts.2.2) hfacts
  rw [Option.map_map, Option.map_map] at haddress
  rw [lookupAddress, lookupAddress, h.aliases, h.accounts]
  exact congrArg _ (congrArg _ haddress)

theorem read_eq (h : AgreeOn e w w') (f : Event → Action Value) (reading : Reading) :
    reading.read f w e = reading.read f w' e := by
  have hliteral : ∀ text ∈ e.tokens, Literal.address w text = Literal.address w' text := by
    intro text ht
    rw [Literal.address, Literal.address, h.lookupAddress_eq ht]
  cases e with
  | seq items => cases reading <;> rfl
  | token text =>
    have hown := hliteral text (List.mem_singleton_self text)
    cases reading with
    | address => rw [Reading.read, Reading.read, Reading.typed, Reading.typed, hown]
    | literal => rw [Reading.read, Reading.read, Literal.ofToken, Literal.ofToken, hown]
    | core | string | bool | number | exp | percent | event => rfl

/-! ## Fetchers to try -/

theorem contractCandidates_eq (h : AgreeOn e w w') (hw : w.Regular) (hw' : w'.Regular) :
    contractCandidates Fetcher.ofContract w.contracts e.elements =
      contractCandidates Fetcher.ofContract w'.contracts e.elements := by
  by_cases hfirst : ∃ text rest, e.elements = .token text :: rest
  · obtain ⟨text, rest, helements⟩ := hfirst
    have hagree := h.contracts text (Event.mem_tokens_of_first helements)
    rw [helements, ChainScript.contractCandidates_eq (fun _ => rfl) (fun _ => rfl),
      ChainScript.contractCandidates_eq (fun _ => rfl) (fun _ => rfl),
      hagree.fetchers_eq hw.ordered hw'.ordered]
  · have hnone : ∀ index, contractCandidates Fetcher.ofContract index e.elements = [] := by
      intro index
      refine List.filter_eq_nil_iff.mpr fun k hk hnamed => hfirst ?_
      obtain ⟨i, -, rfl⟩ := List.mem_map.mp hk
      obtain ⟨text, rest, helements, -⟩ := (Signature.isNamedIn_front rfl rfl).mp hnamed
      exact ⟨text, rest, helements⟩
    rw [hnone, hnone]

theorem candidates_eq (h : AgreeOn e w w') (hw : w.Regular) (hw' : w'.Regular) :
    candidates w.registry e.elements = candidates w'.registry e.elements := by
  rw [hw.registry_known, hw'.registry_known, Fetcher.candidates_registry,
    Fetcher.candidates_registry, h.contractCandidates_eq hw hw']

theorem attempt_eq (h : AgreeOn e w w') (hw : w.Regular) {k : Fetcher} (hk : k ∈ w.registry) :
    k.attempt (w.binder f) e.elements = k.attempt (w'.binder f) e.elements := by
  have hparameters : ∀ p ∈ k.parameters,
      (p.variadic = true → p.mapped = true) ∧ p.isImplicit = false := by
    intro p hp
    rw [hw.registry_known] at hk
    rcases List.mem_append.mp hk with hk | hk
    · have hcore := parameters_subset hk hp
      exact ⟨Fetcher.core_oneByOne p hcore, Fetcher.core_explicit p hcore⟩
    · obtain ⟨i, -, rfl⟩ := List.mem_map.mp hk
      exact ⟨Fetcher.ofContract_oneByOne i p hp, Fetcher.ofContract_explicit i p hp⟩
  refine Handler.attempt_congr k fun p hp => ?_
  obtain ⟨hone, hexplicit⟩ := hparameters p hp
  refine ⟨hone, fun name hsource => ?_, fun reading _ x hx => ?_⟩
  · rw [Param.isImplicit, hsource] at hexplicit
    cases hexplicit
  · exact (h.mono (Signature.mem_of_mem_remaining hx)).read_eq f reading

theorem select_eq (h : AgreeOn e w w') (hw : w.Regular) (hw' : w'.Regular) :
    select (w.binder f) coreKind w.registry e = select (w'.binder f) coreKind w'.registry e := by
  have hattempts : ∀ k ∈ candidates w.registry e.elements,
      k.attempt (w.binder f) e.elements = k.attempt (w'.binder f) e.elements :=
    fun k hk => h.attempt_eq hw (mem_of_mem_candidates hk)
  apply ExceptT.ext
  rw [select_run, select_run, tryAll_congr hattempts, h.candidates_eq hw hw']

/-! ## One level of resolution -/

section Selected

variable {σ : Type} {answers : Answers σ} {s s' : σ} {selection : Selection Reading Fetch}

/-- A fetcher that alone has an effect is named by a token. -/
theorem mem_tokens_of_effect (hw : w.Regular) {k : Fetcher} {name : String} {effect : Fetch}
    (honly : ∀ h ∈ Fetcher.core ++ w.contracts.known.map Fetcher.ofContract,
      effect ∈ h.effects → h = k)
    (hname : k.signature.name = some name) (hpos : k.signature.namePosition = 0)
    (hrun : (select (w.binder f) coreKind w.registry e).run.run answers s = (.ok selection, s'))
    (heffect : selection.effect = effect) :
    ∃ text ∈ e.tokens, Text.sameLetters name text = true := by
  rw [hw.registry_known] at hrun
  obtain ⟨text, rest, -, helements, htext, -⟩ := bound_of_effect honly hname hpos hrun heffect
  exact ⟨text, Event.mem_tokens_of_first helements, htext⟩

theorem eq_of_named {α : Type} {a b : α} {name : String}
    (h : a = b ∨ ∀ text ∈ e.tokens, Text.sameLetters name text = false)
    (hnamed : ∃ text ∈ e.tokens, Text.sameLetters name text = true) : a = b := by
  obtain ⟨text, ht, htext⟩ := hnamed
  refine h.resolve_right fun hnot => ?_
  rw [hnot text ht] at htext
  cases htext

theorem effect_run_eq (h : AgreeOn e w w') (hw : w.Regular)
    (hrun : (select (w.binder f) coreKind w.registry e).run.run answers s = (.ok selection, s')) :
    selection.effect.run f w selection.args = selection.effect.run f w' selection.args := by
  cases heffect : selection.effect with
  | firstOf | call | view target => rfl
  | compute formula =>
    cases formula with
    | stored =>
      have hnamed := mem_tokens_of_effect hw (fun k => Fetcher.eq_var_of_effect) rfl rfl hrun heffect
      have hvars : w.vars = w'.vars := eq_of_named h.vars hnamed
      simp only [Fetch.run, Formula.value, hvars]
    | lastContract =>
      have hnamed := mem_tokens_of_effect hw (fun k => Fetcher.eq_lastContract_of_effect) rfl rfl
        hrun heffect
      have hlast : w.lastContract = w'.lastContract := eq_of_named h.lastContract hnamed
      simp only [Fetch.run, Formula.value, hlast]
    | account => simp only [Fetch.run, Formula.value, h.accounts]
    | _ => rfl

end Selected

theorem resolveStep_eq (h : AgreeOn e w w') (hw : w.Regular) (hw' : w'.Regular)
    (f : Event → Action Value) : w.resolveStep f e = w'.resolveStep f e := by
  rw [resolveStep, resolveStep, fetchValue, fetchValue, ← h.select_eq hw hw']
  congr 1
  refine bind_congr_of_run fun σ answers s s' r hrun => ?_
  rcases r with err | selection
  · cases err <;> cases e <;> rfl
  · exact congrArg ExceptT.run (h.effect_run_eq hw hrun)

end AgreeOn

/-- Two worlds that agree on what an event mentions resolve it alike: with the same calls, and to the
same value or the same error, whatever the chain answers and whatever else they differ in. -/
theorem resolve_of_agreeOn {w w' : World} (hw : w.Regular) (hw' : w'.Regular) (e : Event)
    (h : AgreeOn e w w') : w.resolve e = w'.resolve e := by
  rw [resolve, resolve]
  refine (resolveStep_congr hw.registry_known fun x hx => ?_).trans (h.resolveStep_eq hw hw' _)
  have hsize := Event.size_lt_of_mem_parts hx
  rw [if_pos hsize, if_pos hsize]
  exact resolve_of_agreeOn hw hw' x (h.mono (Event.mem_elements_of_parts hx))
termination_by e.size

end World

/-- The world of the token later on: another contract, a variable, a slot, a line printed, and the
next failure allowed. -/
def World.crowded : World :=
  let more := (ofToken.withContract "Other" "Erc20" (.uniform 0x11)).withVar "x" .nothing
  ((more.withSlot "Token" .anything).withOutput "done").withAllowFailures true

/-- A balance of the token, in a list with a bare word. -/
def Event.balances : Event :=
  .seq [.token "List", .seq [.token "TOKEN", .token "balanceOf", .token "Token"], .token "x"]

theorem World.resolve_of_agreeOn_crowded :
    (ofToken.Regular ∧ crowded.Regular ∧ AgreeOn .balances ofToken crowded) ∧
    ofToken.vars ≠ crowded.vars ∧ ofToken.lastContract ≠ crowded.lastContract ∧
    ofToken.resolve .balances = crowded.resolve .balances := by
  have htoken : ofToken.Built := (Built.new new_blank).withContract "Token" "Erc20" _
  have hcrowded : crowded.Built :=
    ((((htoken.withContract "Other" "Erc20" _).withVar "x" _).withSlot "Token" _).withOutput
      "done").withAllowFailures true
  have hother : ∀ text ∈ Event.balances.tokens, Text.sameLetters "Other" text = false := by decide
  have hagree : AgreeOn .balances ofToken crowded := by
    refine ⟨rfl, rfl, fun text ht => ?_, .inr (by decide), .inr (by decide)⟩
    exact .insert (hother text ht) "Erc20" (.uniform 0x11)
  exact ⟨⟨htoken.regular, hcrowded.regular, hagree⟩, nofun, by decide,
    resolve_of_agreeOn htoken.regular hcrowded.regular .balances hagree⟩

end ChainScript
