import ChainScript.Proofs.Command.Errors
import ChainScript.Proofs.Contract.Addressable
import ChainScript.Proofs.Expr.Recursion
import ChainScript.Proofs.Prompt.Output

/-! # Lines headed by a contract only read

At the prompt a line headed by the name of a contract is resolved, and performed only when that comes
to no match. The view of a contract takes the elements that its transaction takes. So where a
transaction could be bound, the search for a fetcher has a branch that stops: it finds a fetcher or
ends with a fatal error. What the fetcher found does is no failure to match either, not even that of
the one with a fallback, whose second expression is an argument of the transaction.

* `Fetcher.branch_of_sends`: the branch that stops.
* `World.Standard.resolve_matched`: an event that could be sent has a match when it is resolved.
* `Prompt.evalEvent_keeps`, `Prompt.contract_line_keeps`: such a line leaves everything as it was.
-/

namespace ChainScript
set_option autoImplicit false

open Program Handler

/-! ## The view and the transaction of a contract -/

namespace Fetcher

def view (i : ContractInstance) : Fetcher :=
  catchAll "View" [.one "method" .string, .each "args" .core] (.view i.address)
    "Read a view method, e.g. `(Token balanceOf Geoff)`"

variable {b : Binder Reading} {reply : (c : Call) → c.Reply} {i : ContractInstance} {text : String}
  {rest : List Event} {sent : Selection Reading Effect}

theorem view_bound (h : ((Command.send i).attempt b rest).run.run (fixed reply) () = (.ok sent, ())) :
    ∃ viewed, ((view i).attempt b rest).run.run (fixed reply) () = (.ok viewed, ()) := by
  obtain ⟨method, es, v, vs, s, hrest, hv, hvs, -⟩ := (Command.send_attempt_ok i).mp h
  exact ⟨_, catchAll_method_ok.mpr ⟨method, es, v, vs, s, hrest, hv, hvs, rfl⟩⟩

/-- Where a contract could be sent a transaction, a branch below its fetchers stops. -/
theorem branch_of_sends
    (h : ((Command.ofContract i).attempt b (.token text :: rest)).run.run (fixed reply) () =
      (.ok sent, ())) :
    ∃ x ∈ ((ofContract i).branches b (fixed reply) (.token text :: rest) ()).1,
      x.ending.stops = true := by
  have hsend := (Command.ofContract_attempt_ok i).mp h
  obtain ⟨viewed, hviewed⟩ := view_bound hsend
  obtain ⟨x, hx, hstops⟩ := branch_of_bound hviewed
  have hmember : view i ∈ candidates (members i) rest := by
    refine List.mem_append_right _ (List.mem_filter.mpr ⟨?_, rfl⟩)
    exact List.mem_cons_of_mem _ (List.mem_cons_of_mem _ (List.mem_cons_self ..))
  have hsearch := mem_searchBranches hmember hx
  obtain ⟨method, es, v, vs, s, rfl, -⟩ := (Command.send_attempt_ok i).mp hsend
  refine ⟨x.within {}, ?_, ?_⟩
  · rw [ofContract, namespaced, branches_group]
    exact List.mem_map_of_mem hsearch
  · rw [Branch.within, Ending.stops_within]
    exact hstops

end Fetcher

/-! ## Resolving what could be sent -/

/-- A result that is no failure to match an event. -/
def Matched {α : Type} (r : Except Error α) : Prop :=
  ∀ kind e attempted, r ≠ .error (.noMatch kind e attempted)

theorem Matched.ok {α : Type} (a : α) : Matched (.ok a : Except Error α) := by
  intro kind e attempted hr
  cases hr

theorem Matched.of_fatal {α : Type} {err : Error} (h : err.isFatal = true) :
    Matched (.error err : Except Error α) := by
  intro kind e attempted hr
  cases hr
  cases h

/-- An expression with a fallback that has a value is matched. -/
theorem Fetch.resolveFirst_matched {resolve : Event → Action Value} {reply : (c : Call) → c.Reply}
    {x y : Event} {v : Value} (hy : (resolve y).run.eval reply = .ok v) :
    Matched ((resolveFirst resolve x y).run.eval reply) := by
  rw [resolveFirst, ExceptT.run_mk, eval, run_bind]
  rcases (resolve x).run.run (fixed reply) () with ⟨err | u, s⟩
  · by_cases hfatal : err.isFatal = true
    · simp only [hfatal, if_true]
      exact .of_fatal hfatal
    · simp only [hfatal]
      show Matched ((resolve y).run.eval reply)
      rw [hy]
      exact .ok v
  · exact .ok u

namespace World.Standard

variable {w : World} {reply : (c : Call) → c.Reply} {name : String} {rest : List Event}
  {i : ContractInstance} {sent : Selection Reading Effect}

theorem select_fatal (hw : w.Standard) (hi : i ∈ w.contracts.answering name)
    (hsent : ((Command.ofContract i).attempt (w.binder w.resolve) (.token name :: rest)).run.run
      (fixed reply) () = (.ok sent, ())) {err : Error}
    (h : (select (w.binder w.resolve) coreKind w.registry
      (.seq (.token name :: rest))).run.run (fixed reply) () = (.error err, ())) :
    err.isFatal = true := by
  obtain ⟨x, hx, hstops⟩ := Fetcher.branch_of_sends hsent
  have hcandidate : Fetcher.ofContract i ∈ candidates w.registry (.token name :: rest) := by
    rw [hw.registry_eq, Fetcher.candidates_registry, contractCandidates_eq (fun _ => rfl)
      (fun _ => rfl)]
    simp only [List.mem_append]
    exact .inr (.inl (List.mem_map_of_mem hi))
  exact select_error_fatal (mem_searchBranches hcandidate hx) hstops h

/-- What the fetcher does that was selected for an event which could be sent. Where this is the
fallback, the expression to fall back on is the one argument of the transaction. -/
theorem effect_matched (hw : w.Standard)
    (hsent : ((Command.ofContract i).attempt (w.binder w.resolve) (.token name :: rest)).run.run
      (fixed reply) () = (.ok sent, ())) {selection : Selection Reading Fetch}
    (h : (select (w.binder w.resolve) coreKind w.registry
      (.seq (.token name :: rest))).run.run (fixed reply) () = (.ok selection, ())) :
    Matched ((selection.effect.run w.resolve w selection.args).run.eval reply) := by
  by_cases heffect : selection.effect = .firstOf
  · rw [hw.registry_eq] at h
    obtain ⟨text, behind, s, helements, -, hbound⟩ :=
      bound_of_effect (fun h => Fetcher.eq_firstOf_of_effect) rfl rfl h heffect
    obtain ⟨x, y, rfl, rfl⟩ := Fetcher.firstOf_bound hbound
    cases helements
    obtain ⟨method, es, v, vs, s₁, hrest, -, hvs, -⟩ :=
      (Command.send_attempt_ok i).mp ((Command.ofContract_attempt_ok i).mp hsent)
    cases hrest
    obtain ⟨u, hu, -⟩ := Binder.resolvesEach_fixed_one.mp hvs
    exact Fetch.resolveFirst_matched hu
  · intro kind e attempted hr
    rcases Fetch.run_fails heffect (run_fixed.mpr hr) with hvalues | ⟨cause, htransport⟩
    · exact hvalues
    · cases htransport

/-- An event that a contract could be sent is matched when it is resolved. -/
theorem resolve_matched (hw : w.Standard) (hfree : FreeIn Command.core name)
    (hsent : (select (w.binder w.resolve) commandKind (Command.registry w.contracts)
      (.seq (.token name :: rest))).run.eval reply = .ok sent) :
    Matched ((w.resolve (.seq (.token name :: rest))).run.eval reply) := by
  obtain ⟨k, hk, s, hbound⟩ := select_ok (run_fixed.mpr hsent)
  rw [Event.elements, Command.candidates_of_free hfree] at hk
  obtain ⟨i, hi, rfl⟩ := List.mem_map.mp hk
  rw [resolve_seq_eq_carryOut hw.registry_eq, carryOut, eval, run_exceptBind]
  rcases hselect : (select (w.binder w.resolve) coreKind w.registry
      (.seq (.token name :: rest))).run.run (fixed reply) () with ⟨err | selection, s⟩
  · exact .of_fatal (hw.select_fatal hi hbound hselect)
  · exact hw.effect_matched hbound hselect

end World.Standard

/-! ## The prompt -/

namespace Prompt

variable {σ : Type} {answers : Answers σ} {w : World} {e : Event}

theorem resolved_keeps (hkeep : ReadsKeep answers) (w : World) (e : Event) (s : σ) :
    ∃ r, (resolved w e).run answers s = ((r, w), s) := by
  rw [resolved, run_bind, (w.resolve_inquires e).run_eq hkeep]
  cases (w.resolve e).run.eval fun c => (answers s c).1 with
  | ok v => exact ⟨_, rfl⟩
  | error err => exact ⟨_, rfl⟩

/-- A line that selects no command leaves everything as it was. -/
theorem performed_keeps (hkeep : ReadsKeep answers) {s : σ}
    (hnone : ∀ sent, ((select (w.binder w.resolve) World.commandKind
      (Command.registry w.contracts) e).run.eval fun c => (answers s c).1) ≠ .ok sent) :
    ∃ r, (performed w e).run answers s = ((r, w), s) := by
  have hselect := (w.command_select_inquires e).run_eq hkeep s
  have hperform : ∃ err, (w.perform e w.defaultFrom).run.run answers s = (.error err, s) := by
    rw [World.perform, World.performStep, carryOut, run_exceptBind, hselect]
    cases hr : (select (w.binder w.resolve) World.commandKind (Command.registry w.contracts)
        e).run.eval fun c => (answers s c).1 with
    | ok sent => exact absurd hr (hnone sent)
    | error err => exact ⟨err, rfl⟩
  obtain ⟨err, hperform⟩ := hperform
  rw [performed, run_bind, World.run_executeAs, hperform]
  cases err with
  | noMatch kind event attempted => exact resolved_keeps hkeep w e s
  | _ => exact ⟨_, rfl⟩

/-- An event headed by a contract is resolved; it is performed only where no command is selected. -/
theorem evalEvent_keeps (hkeep : ReadsKeep answers) (hw : w.Standard)
    (hcontract : namesContract w e = true) {head : String} (hhead : e.head? = some head)
    (hfree : FreeIn Command.core head) (s : σ) :
    ∃ r, (evalEvent w e).run answers s = ((r, w), s) := by
  have hread := (w.resolve_inquires e).run_eq hkeep s
  rw [evalEvent, if_pos hcontract, run_bind, hread]
  cases hr : (w.resolve e).run.eval fun c => (answers s c).1 with
  | ok v => exact ⟨_, rfl⟩
  | error err =>
    cases err with
    | noMatch kind event attempted =>
      refine performed_keeps hkeep fun sent hsent => ?_
      cases e with
      | token text =>
        obtain ⟨r, hdone, hresult⟩ := hw.resolve_token text
        rw [hdone, eval_done] at hr
        cases (hresult _ hr).1
      | seq items =>
        cases items with
        | nil => cases hhead
        | cons first rest =>
          cases first with
          | seq inner => cases hhead
          | token text =>
            cases hhead
            exact hw.resolve_matched hfree hsent _ _ _ hr
    | _ => exact ⟨_, rfl⟩

/-- In a built world, over every chain in memory: a line headed by the name of a contract, letter
case aside, that is no command of the core leaves the world and the chain as they were. -/
theorem contract_line_keeps (w : World) (hw : w.Built) (c : MemoryChain) (line : String) (e : Event)
    (head name : String) (hread : Event.parseLine line 1 = .ok (some e))
    (hhead : e.head? = some head) (hname : name ∈ w.contracts.names)
    (hsame : Text.sameLetters name head = true) (hfree : FreeIn Command.core head) :
    ∃ r, (evalLine w line).run MemoryChain.answer c = ((r, w), c) := by
  have hcontract : namesContract w e = true := by
    simp only [namesContract, hhead, List.any_eq_true]
    exact ⟨name, hname, hsame⟩
  unfold evalLine
  dsimp only
  split
  · exact ⟨_, rfl⟩
  · split
    · split
      · exact resolved_keeps MemoryChain.readsKeep w _ c
      · exact ⟨_, rfl⟩
      · exact ⟨_, rfl⟩
    · rw [hread]
      exact evalEvent_keeps MemoryChain.readsKeep hw.standard hcontract hhead hfree c

/-- A contract with the name of the fetcher that has a fallback. -/
def ofDefault : World := World.blank.withContract "Default" "Erc20" Address.zero

/-- Neither expression has a value. -/
def bothFail : Event :=
  .seq [.token "default", .seq [.token "Add", .token "x"], .seq [.token "Sub", .token "y"]]

theorem contract_line_keeps_default :
    (ofDefault.Built ∧ Event.parseLine "default (Add x) (Sub y)" 1 = .ok (some bothFail) ∧
      "Default" ∈ ofDefault.contracts.names ∧ FreeIn Command.core "default") ∧
    (∃ kind e attempted, ((ofDefault.resolve bothFail).run.run MemoryChain.answer .paused).1 =
      .error (.noMatch kind e attempted)) ∧
    ∃ r, (evalLine ofDefault "default (Add x) (Sub y)").run MemoryChain.answer .paused =
      ((r, ofDefault), .paused) := by
  have hbuilt : ofDefault.Built := (World.Built.new World.new_blank).withContract _ _ _
  have hread : Event.parseLine "default (Add x) (Sub y)" 1 = .ok (some bothFail) := by with_unfolding_all rfl
  have hname : "Default" ∈ ofDefault.contracts.names := by decide +kernel
  have hfree : FreeIn Command.core "default" := by decide +kernel
  refine ⟨⟨hbuilt, hread, hname, hfree⟩, ?_, ?_⟩
  · with_unfolding_all exact ⟨_, _, _, rfl⟩
  · exact contract_line_keeps ofDefault hbuilt .paused _ bothFail "default" "Default" hread rfl hname
      (by decide +kernel) hfree

end Prompt

end ChainScript
