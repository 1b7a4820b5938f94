import ChainScript.Proofs.Command.Course
import ChainScript.Proofs.Contract.Index
import ChainScript.Proofs.Expr.Application

/-! # Which contract a name addresses

Contracts are registered under names as they are spelled, and events name handlers whatever the case
of the letters. So several contracts may answer to one name. They are tried in the order of their
names, and the first of them has the value: a name is sure to address the contract registered under
it only where no other registered name has the same letters.

* `ContractIndex.answering`: the contracts that answer to a name, in the order of trial.
* `World.Standard.resolve_member`: the first of them has the value.
* `World.sends_to_answering`: a command is bound by one of them.
-/

namespace ChainScript
set_option autoImplicit false

open Program Handler

/-! ## Contracts that answer to a name -/

/-- A contract is registered, and its name is the given one, letter case aside. -/
def ContractIndex.AnswersTo (index : ContractIndex) (i : ContractInstance) (name : String) : Prop :=
  index.get? i.name = some i ∧ Text.sameLetters i.name name = true

/-- The contracts that answer to a name, in the order of their own names. -/
def ContractIndex.answering (index : ContractIndex) (name : String) : List ContractInstance :=
  index.known.filter fun i => Text.sameLetters i.name name

namespace ContractIndex.Ordered

variable {index : ContractIndex} {i : ContractInstance} {name : String}

theorem mem_answering (h : index.Ordered) : i ∈ index.answering name ↔ index.AnswersTo i name := by
  rw [answering, List.mem_filter, h.mem_known, AnswersTo]

theorem answersTo_own (h : index.Ordered) (hi : index.get? name = some i) :
    index.AnswersTo i name := by
  rw [AnswersTo, h.name_of_get? hi]
  exact ⟨hi, Text.sameLetters_self name⟩

/-- The contracts that answer to a name stand in the order of all known contracts. -/
theorem first_answering (h : index.Ordered) (hi : index.get? name = some i) :
    ∃ j rest, index.answering name = j :: rest ∧ index.AnswersTo j name ∧
      ∀ k, index.AnswersTo k name → j.name ≤ k.name := by
  have hmem := h.mem_answering.mpr (h.answersTo_own hi)
  obtain ⟨j, rest, hfirst⟩ := List.exists_cons_of_ne_nil (List.ne_nil_of_mem hmem)
  have hsorted : (index.answering name).Pairwise fun a b => a.name < b.name :=
    h.known_sorted.filter _
  rw [hfirst] at hsorted
  refine ⟨j, rest, hfirst, h.mem_answering.mp (by rw [hfirst]; exact List.mem_cons_self ..), ?_⟩
  intro k hk
  have hkmem := h.mem_answering.mpr hk
  rw [hfirst] at hkmem
  rcases List.mem_cons.mp hkmem with rfl | hkmem
  · exact String.not_lt.mp (String.lt_irrefl _)
  · have hlt := List.rel_of_pairwise_cons hsorted hkmem
    rcases String.le_total j.name k.name with hle | hle
    · exact hle
    · exact absurd hlt (String.not_lt.mpr hle)

end ContractIndex.Ordered

/-! ## Candidates -/

/-- A name that no handler of a table has, letter case aside. -/
def FreeIn {ρ ε : Type} (table : List (Handler ρ ε)) (name : String) : Prop :=
  ∀ h ∈ table, ∀ own ∈ h.signature.name, Text.sameLetters own name = false

instance {ρ ε : Type} (table : List (Handler ρ ε)) (name : String) :
    Decidable (FreeIn table name) :=
  inferInstanceAs (Decidable (∀ h ∈ table, ∀ own ∈ h.signature.name,
    Text.sameLetters own name = false))

theorem FreeIn.filter_named {ρ ε : Type} {table : List (Handler ρ ε)} {name : String}
    (hfree : FreeIn table name) (hfront : ∀ h ∈ table, h.signature.namePosition = 0)
    (rest : List Event) :
    table.filter (fun h => h.signature.isNamedIn (.token name :: rest)) = [] := by
  rw [List.filter_eq_nil_iff]
  intro h hh hnamed
  unfold Signature.isNamedIn at hnamed
  rw [hfront h hh] at hnamed
  cases hown : h.signature.name with
  | none => simp [hown] at hnamed
  | some own => simp [hown, hfree h hh own hown] at hnamed

theorem contractCandidates_eq {ρ ε : Type} {ofContract : ContractInstance → Handler ρ ε}
    (hname : ∀ i, (ofContract i).signature.name = some i.name)
    (hfront : ∀ i, (ofContract i).signature.namePosition = 0) (contracts : ContractIndex)
    (name : String) (rest : List Event) :
    contractCandidates ofContract contracts (.token name :: rest) =
      (contracts.answering name).map ofContract := by
  rw [contractCandidates, ContractIndex.answering, List.filter_map]
  congr 1
  refine List.filter_congr fun i _ => ?_
  simp [Signature.isNamedIn, hname, hfront]

namespace Command

theorem candidates_of_free {name : String} (hfree : FreeIn core name) (contracts : ContractIndex)
    (rest : List Event) :
    candidates (registry contracts) (.token name :: rest) =
      (contracts.answering name).map ofContract := by
  rw [candidates_registry, hfree.filter_named (by decide), List.nil_append,
    contractCandidates_eq (fun _ => rfl) (fun _ => rfl)]

end Command

namespace Fetcher

theorem candidates_of_free {name : String} (hfree : FreeIn core name) (contracts : ContractIndex)
    (rest : List Event) :
    candidates (core ++ contracts.known.map ofContract) (.token name :: rest) =
      (contracts.answering name).map ofContract ++ [literal] := by
  rw [candidates_registry, hfree.filter_named (by decide), List.nil_append,
    contractCandidates_eq (fun _ => rfl) (fun _ => rfl)]

/-- The fetchers behind the name of a contract. -/
def members (i : ContractInstance) : List Fetcher := (ofContract i).members?.getD []

theorem ofContract_constant (b : Binder Reading) (i : ContractInstance) (text : String)
    {name description : String} {value : Value} {others : List Fetcher}
    (hfirst : candidates (members i) [.token name] = constant name value description :: others) :
    ((ofContract i).attempt b [.token text, .token name]).run =
      .done (.ok ⟨(constant name value description).signature,
        .compute (.constant value), {}⟩) := by
  have hmember : ((constant name value description).attempt b [.token name]).run =
      .done (.ok ⟨(constant name value description).signature,
        .compute (.constant value), {}⟩) := by
    rw [constant, computed, named, attempt_leaf]
    exact rfl
  have hselect : (select b i.name (members i) (.seq [.token name])).run =
      .done (.ok ⟨(constant name value description).signature, .compute (.constant value), {}⟩) :=
    select_done hfirst hmember
  rw [ofContract, namespaced, attempt_group]
  change (select b i.name (members i) (.seq [.token name])).run >>= _ = _
  rw [hselect]
  exact rfl

end Fetcher

/-! ## Values -/

namespace World.Standard

variable {w : World} {name : String} {j : ContractInstance} {rest : List ContractInstance}

/-- A constant behind a free name is that of the first contract to answer. -/
theorem resolve_member (hw : w.Standard) (hfree : FreeIn Fetcher.core name)
    (hfirst : w.contracts.answering name = j :: rest) {member description : String} {value : Value}
    {others : List Fetcher} (hmember : candidates (Fetcher.members j) [.token member] =
      Fetcher.constant member value description :: others) :
    (w.resolve (.seq [.token name, .token member])).run = .done (.ok value) := by
  have hc : candidates w.registry [.token name, .token member] = Fetcher.ofContract j ::
      (rest.map Fetcher.ofContract ++ [Fetcher.literal]) := by
    rw [hw.registry_eq, Fetcher.candidates_of_free hfree, hfirst, List.map_cons, List.cons_append]
  have hbound := Fetcher.ofContract_constant
    (w.binder (w.resolveBelow (.seq [.token name, .token member]))) j name hmember
  rw [resolve_seq, carryOut, ExceptT.run_bind, select_done hc hbound]
  exact rfl

end World.Standard

/-! ## Transactions -/

theorem Value.kind_eq_string {v : Value} (h : v.kind = .string) : ∃ text, v = .string text := by
  cases v with
  | string text => exact ⟨text, rfl⟩
  | _ => cases h

namespace Command

variable {σ : Type} {answers : Answers σ} {s s' : σ} {text : String} {rest : List Event}
  {selection : Selection Reading Effect}

def send (i : ContractInstance) : Command :=
  catchAll "Send" [.one "method" .string, .each "args" .core] (.send i.name i.address)
    "Send a transaction, e.g. `(Token transfer Geoff 10)`"

def sendArgs (method : Value) (args : List Value) : BoundArgs :=
  ⟨[("method", method), ("args", .array args)]⟩

theorem send_attempt_ok {b : Binder Reading} (i : ContractInstance) {elements : List Event} :
    ((send i).attempt b elements).run.run answers s = (.ok selection, s') ↔
      ∃ method es v vs s₁, elements = method :: es ∧
        (b.resolve .string method).run.run answers s = (.ok v, s₁) ∧
        b.ResolvesEach answers .core es s₁ vs s' ∧
        selection = ⟨(send i).signature, .send i.name i.address, sendArgs v vs⟩ :=
  catchAll_method_ok

/-- A contract behind its name is bound as its transaction is to the elements behind the name. -/
theorem ofContract_attempt_ok {b : Binder Reading} (i : ContractInstance) :
    ((ofContract i).attempt b (.token text :: rest)).run.run answers s = (.ok selection, s') ↔
      ((send i).attempt b rest).run.run answers s = (.ok selection, s') := by
  have hmembers : ∀ elements, candidates [send i] elements = [send i] := fun _ => rfl
  refine attempt_group_ok.trans ?_
  constructor
  · rintro ⟨args, left, s₁, inner, hp, -, hsel, rfl⟩
    obtain ⟨hp, rfl⟩ := Binder.params_nil.mp hp
    cases hp
    rcases select_ok_cons (hmembers rest) hsel with hbound | ⟨k, hk, -⟩
    · exact hbound
    · cases hk
  · intro hbound
    have hne : rest ≠ [] := by
      obtain ⟨method, es, v, vs, s₁, rfl, -⟩ := (send_attempt_ok i).mp hbound
      exact List.cons_ne_nil _ _
    refine ⟨{}, rest, s, selection, Binder.params_nil.mpr ⟨rfl, rfl⟩, hne, ?_, rfl⟩
    exact select_first (hmembers rest) hbound

theorem ofContract_attempt_other {b : Binder Reading} {i : ContractInstance}
    (h : ((ofContract i).attempt b (.token text :: rest)).run.run answers s = (.ok selection, s'))
    (j : ContractInstance) :
    ∃ other, ((ofContract j).attempt b (.token text :: rest)).run.run answers s =
      (.ok other, s') := by
  obtain ⟨method, es, v, vs, s₁, rfl, hv, hvs, -⟩ :=
    (send_attempt_ok i).mp ((ofContract_attempt_ok i).mp h)
  have hsend := (send_attempt_ok j).mpr ⟨method, es, v, vs, s₁, rfl, hv, hvs, rfl⟩
  exact ⟨_, (ofContract_attempt_ok j).mpr hsend⟩

end Command

namespace World

variable {σ : Type} {w : World} {answers : Answers σ} {s s' : σ} {name : String}
  {rest : List Event} {selection : Selection Reading Effect} {i : ContractInstance}

/-- The one call of a contract's command that is no read is a transaction of its actor with the
contract. -/
theorem exchanges_of_sends
    (hrun : (select (w.binder w.resolve) commandKind (Command.registry w.contracts)
      (.seq (.token name :: rest))).run.run answers s = (.ok selection, s'))
    {s₀ : σ} (hbound : ((Command.ofContract i).attempt (w.binder w.resolve)
      (.token name :: rest)).run.run answers s₀ = (.ok selection, s')) (actor : Address) :
    ∃ reads method args reply, (∀ x ∈ reads, x.call.actor? = none) ∧
      (w.perform (.seq (.token name :: rest)) actor).run.exchanges answers s =
        reads ++ [⟨.send i.address method args actor, reply⟩] := by
  obtain ⟨method, es, v, vs, s₁, rfl, hv, hvs, rfl⟩ :=
    (Command.send_attempt_ok i).mp ((Command.ofContract_attempt_ok i).mp hbound)
  have hliteral : ∀ (text : String) (u : Value),
      (.ok (.string text) : Except Fault Value) = .ok u → u.kind = .string := by
    intro text u h
    cases h
    rfl
  have hkind : v.kind = .string := Reading.typed_kind hliteral hv
  obtain ⟨text, rfl⟩ := Value.kind_eq_string hkind
  have hreads := (w.command_select_inquires (.seq (.token name :: method :: es))).reads answers s
  refine ⟨_, text, vs, (answers s' (.send i.address text vs actor)).1, hreads, ?_⟩
  rw [perform, performStep, carryOut, exchanges_exceptBind, hrun]
  rfl

/-- A command behind a free name is bound by a contract that answers to it: by the first of them, if
reading leaves the chain as it is. -/
theorem sends_to_answering (hw : w.Built) (hfree : FreeIn Command.core name)
    {j : ContractInstance} {others : List ContractInstance}
    (hfirst : w.contracts.answering name = j :: others)
    (hrun : (select (w.binder w.resolve) commandKind (Command.registry w.contracts)
      (.seq (.token name :: rest))).run.run answers s = (.ok selection, s')) :
    ∃ k, w.contracts.AnswersTo k name ∧ (ReadsKeep answers → k = j) ∧
      ∃ s₀, ((Command.ofContract k).attempt (w.binder w.resolve)
        (.token name :: rest)).run.run answers s₀ = (.ok selection, s') := by
  have hc : candidates (Command.registry w.contracts) (.token name :: rest) =
      (w.contracts.answering name).map Command.ofContract :=
    Command.candidates_of_free hfree w.contracts rest
  by_cases hkeep : ReadsKeep answers
  · have hreadings : ∀ reading e,
        Inquires Error.transport ((w.binder w.resolve).resolve reading e) :=
      fun reading e => Reading.read_inquires w.resolve_inquires w e reading
    obtain ⟨heval, rfl⟩ := ((w.command_select_inquires _).run_iff hkeep).mp hrun
    have hfixed := (select_eq_first (e := .seq (.token name :: rest)) (hfirst ▸ hc)
      fun k hk other hother => ?_).mp (run_fixed.mpr heval)
    · refine ⟨j, ?_, fun _ => rfl, s', ?_⟩
      · exact hw.ordered.mem_answering.mp (hfirst ▸ List.mem_cons_self ..)
      · exact ((attempt_inquires hreadings _ _).run_iff hkeep).mpr ⟨run_fixed.mp hfixed, rfl⟩
    · obtain ⟨i, -, rfl⟩ := List.mem_map.mp hk
      exact Command.ofContract_attempt_other hother j
  · obtain ⟨h, hh, s₀, hbound⟩ := select_ok hrun
    rw [Event.elements, hc] at hh
    obtain ⟨k, hk, rfl⟩ := List.mem_map.mp hh
    exact ⟨k, hw.ordered.mem_answering.mp hk, fun h => absurd h hkeep, s₀, hbound⟩

/-- In a built world a registered name that is free in both tables addresses the first contract that
answers to it. A command behind the name, once bound, reads and then makes one transaction, with a
contract that answers to the name: with the first one, if reading leaves the chain as it is. Where no
other registered name has the same letters, the contract is the one registered under the name. -/
theorem Built.contract_addressed (hw : w.Built) (hi : w.contracts.get? name = some i)
    (hfetchers : FreeIn Fetcher.core name) (hcommands : FreeIn Command.core name) :
    ∃ j, (w.contracts.AnswersTo j name ∧ ∀ k, w.contracts.AnswersTo k name → j.name ≤ k.name) ∧
      (w.resolve (.seq [.token name, .token "Address"])).run = .done (.ok (.address j.address)) ∧
      (w.resolve (.seq [.token name, .token "Artifact"])).run = .done (.ok (.string j.artifact)) ∧
      (∀ (σ : Type) (answers : Answers σ) (s s' : σ) rest selection actor,
        (select (w.binder w.resolve) commandKind (Command.registry w.contracts)
          (.seq (.token name :: rest))).run.run answers s = (.ok selection, s') →
        ∃ k reads method args reply, w.contracts.AnswersTo k name ∧
          (ReadsKeep answers → k = j) ∧ (∀ x ∈ reads, x.call.actor? = none) ∧
          (w.perform (.seq (.token name :: rest)) actor).run.exchanges answers s =
            reads ++ [⟨.send k.address method args actor, reply⟩]) ∧
      ((∀ k, w.contracts.AnswersTo k name → k.name = name) →
        ∀ k, w.contracts.AnswersTo k name → k = i) := by
  obtain ⟨j, others, hfirst, hj, hleast⟩ := hw.ordered.first_answering hi
  refine ⟨j, ⟨hj, hleast⟩, ?_, ?_, ?_, ?_⟩
  · exact hw.standard.resolve_member hfetchers hfirst rfl
  · exact hw.standard.resolve_member hfetchers hfirst rfl
  · intro σ answers s s' rest selection actor hrun
    obtain ⟨k, hk, hkeep, s₀, hbound⟩ := sends_to_answering hw hcommands hfirst hrun
    obtain ⟨reads, method, args, reply, hreads, hex⟩ := exchanges_of_sends hrun hbound actor
    exact ⟨k, reads, method, args, reply, hk, hkeep, hreads, hex⟩
  · intro halone k hk
    have hget := hk.1
    rw [halone k hk, hi] at hget
    cases hget
    rfl

end World

/-- The address all of whose bytes are the same. -/
def Address.uniform (byte : UInt8) : Address := ofFn fun _ => byte

namespace World

/-- Two contracts whose names differ in the case of a letter, and a third. -/
def twoSpellings : World :=
  let both := (blank.withContract "Foo" "A" (.uniform 0x11)).withContract "foo" "B" (.uniform 0x22)
  both.withContract "Bar" "C" (.uniform 0x33)

def bar : ContractInstance := ⟨"Bar", "C", .uniform 0x33, 2⟩

theorem twoSpellings_built : twoSpellings.Built :=
  (((Built.new new_blank).withContract "Foo" "A" _).withContract "foo" "B" _).withContract "Bar"
    "C" _

theorem contract_addressed_bar :
    (twoSpellings.Built ∧ FreeIn Fetcher.core "Bar" ∧ FreeIn Command.core "Bar") ∧
    (twoSpellings.resolve (.seq [.token "Bar", .token "Address"])).run =
      .done (.ok (.address (.uniform 0x33))) ∧
    (twoSpellings.resolve (.seq [.token "Bar", .token "Artifact"])).run =
      .done (.ok (.string "C")) ∧
    ∃ reads method args reply, (∀ x ∈ reads, x.call.actor? = none) ∧
      (twoSpellings.perform (.seq [.token "Bar", .token "mint"]) Address.zero).run.exchanges
        MemoryChain.answer (.new 0 0) =
          reads ++ [⟨.send (.uniform 0x33) method args Address.zero, reply⟩] := by
  have hfetchers : FreeIn Fetcher.core "Bar" := by decide +kernel
  have hcommands : FreeIn Command.core "Bar" := by decide +kernel
  have hget : twoSpellings.contracts.get? "Bar" = some bar := by with_unfolding_all rfl
  have hanswering : twoSpellings.contracts.answering "Bar" = [bar] := by with_unfolding_all rfl
  have hbound : (select (twoSpellings.binder twoSpellings.resolve) commandKind
      (Command.registry twoSpellings.contracts) (.seq [.token "Bar", .token "mint"])).run.run
        MemoryChain.answer (.new 0 0) = (.ok ⟨(Command.send bar).signature,
          .send "Bar" (.uniform 0x33), Command.sendArgs (.string "mint") []⟩, .new 0 0) := by
    with_unfolding_all rfl
  obtain ⟨j, ⟨hj, -⟩, haddress, hartifact, hsends, halone⟩ :=
    twoSpellings_built.contract_addressed hget hfetchers hcommands
  have heq : ∀ k, twoSpellings.contracts.AnswersTo k "Bar" → k = bar := by
    refine halone fun k hk => ?_
    have hmem := twoSpellings_built.ordered.mem_answering.mpr hk
    rw [hanswering, List.mem_singleton] at hmem
    exact congrArg ContractInstance.name hmem
  obtain rfl := heq j hj
  obtain ⟨k, reads, method, args, reply, hk, -, hreads, hex⟩ :=
    hsends _ MemoryChain.answer _ _ _ _ Address.zero hbound
  obtain rfl := heq k hk
  exact ⟨⟨twoSpellings_built, hfetchers, hcommands⟩, haddress, hartifact,
    reads, method, args, reply, hreads, hex⟩

/-- A registered contract that its own name does not address: the other spelling comes first. -/
theorem name_shadowed_by_spelling :
    (twoSpellings.Built ∧ FreeIn Fetcher.core "foo" ∧ FreeIn Command.core "foo") ∧
    ∃ i, twoSpellings.contracts.get? "foo" = some i ∧
      i.address = .uniform 0x22 ∧ i.artifact = "B" ∧
      (twoSpellings.resolve (.seq [.token "foo", .token "Address"])).run =
        .done (.ok (.address (.uniform 0x11))) ∧
      (twoSpellings.resolve (.seq [.token "foo", .token "Artifact"])).run =
        .done (.ok (.string "A")) ∧
      (twoSpellings.perform (.seq [.token "foo", .token "mint"]) Address.zero).run.exchanges
        reverting () =
          [⟨.send (.uniform 0x11) "mint" [] Address.zero, .error (.revert "paused")⟩] ∧
      Address.uniform 0x11 ≠ Address.uniform 0x22 := by
  refine ⟨⟨twoSpellings_built, by decide +kernel, by decide +kernel⟩,
    ⟨"foo", "B", .uniform 0x22, 1⟩, ?_, rfl, rfl, ?_, ?_, ?_, by decide⟩
  all_goals with_unfolding_all rfl

end World

end ChainScript
