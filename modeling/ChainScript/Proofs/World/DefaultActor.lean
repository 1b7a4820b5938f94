import ChainScript.Proofs.Command.Actor
import ChainScript.Proofs.Contract.Addressable
import ChainScript.Proofs.Expr.Words

/-! # Acting by default

A new world acts by default as the account that its settings name. A script can name the same
account itself, `(From name command)`, and then the name is read as an address: digits come first,
then aliases, then accounts. The default actor is looked up in an order of its own, accounts before
aliases, and digits are not read at all. The two agree on a name that is not written in digits and
is not given to two addresses.

* `World.perform_actAs`: performing under a change of actor whose account is a known one.
* `World.defaultFrom_eq_iff`: when the default actor of a new world is the address of its name.
* `World.acts_as_default`: acting as the name in the settings, and when this is acting by default.
-/

namespace ChainScript
set_option autoImplicit false

open Program Handler

/-! ## A change of actor -/

/-- A parameter whose element has its value without a call is bound without a call. -/
theorem Binder.params_one_pure {ρ : Type} {b : Binder ρ} {reading : ρ} {e : Event} {v : Value}
    (h : b.resolve reading e = pure v) (name : String) (ps : List (Param ρ)) (bound : BoundArgs)
    (rest : List Event) :
    b.params (.one name reading :: ps) bound (e :: rest) =
      b.params ps (bound.insert name v) rest := by
  have hvalue : b.value (.unresolved name) reading e = pure v := by
    rw [value, h]
    rfl
  change (b.value (.unresolved name) reading e >>= fun u => pure (u, rest)) >>= _ = _
  rw [hvalue, pure_bind, pure_bind]
  rfl

theorem Command.actAs_attempt_pure {w : World} {text : String} {whom inner : Event}
    {other : Address} (hwhom : w.read .address whom = pure (.address other)) :
    (actAs.attempt (w.binder w.resolve) [.token text, whom, inner]).run =
      .done (.ok ⟨actAs.signature, .actAs, actAsArgs other inner⟩) := by
  have hparams : (w.binder w.resolve).params actAs.signature.params {} [whom, inner] =
      pure (actAsArgs other inner, []) :=
    (Binder.params_one_pure hwhom ..).trans (Binder.params_one_pure (e := inner) rfl ..)
  rw [actAs, named, attempt_leaf]
  change ((w.binder w.resolve).params actAs.signature.params {} [whom, inner] >>= _).run = _
  rw [hparams]
  rfl

namespace World

variable {w : World}

theorem perform_actAs {text : String} {whom inner : Event} {other : Address}
    (htext : Text.sameLetters "From" text = true)
    (hwhom : w.read .address whom = pure (.address other)) (actor : Address) :
    w.perform (.seq [.token text, whom, inner]) actor = w.perform inner other := by
  have hc := Command.candidates_registry w.contracts [.token text, whom, inner]
  rw [filter_named_congr htext, Command.core_named_from, List.singleton_append] at hc
  have hselect : select (w.binder w.resolve) commandKind (Command.registry w.contracts)
      (.seq [.token text, whom, inner]) = pure ⟨Command.actAs.signature, .actAs,
        Command.actAsArgs other inner⟩ :=
    ExceptT.ext (select_done hc (Command.actAs_attempt_pure hwhom))
  have hsize : inner.size < (Event.seq [.token text, whom, inner]).size := by
    simp only [Event.size, Event.sizeList]
    omega
  rw [perform, performStep, carryOut, hselect, pure_bind, Command.run_actAs, if_pos hsize]

/-! ## The name of the default actor -/

variable {unlocked : List Address} {settings : Settings}

theorem new_defaultFrom (hnew : World.new unlocked settings = .ok w) :
    w.defaultFrom = chooseActor settings.defaultFrom w.accounts w.aliases unlocked := by
  unfold World.new at hnew
  cases haliases : readAliases settings.aliases with
  | error err =>
    rw [haliases] at hnew
    cases hnew
  | ok aliases =>
    rw [haliases] at hnew
    cases hnew
    rfl

theorem new_lookupAddress (hnew : World.new unlocked settings = .ok w) (name : String) :
    w.lookupAddress name = (w.aliases.find? name).or (w.accounts.find? name) := by
  obtain ⟨accounts, aliases, actor, rfl⟩ := new_ok hnew
  rw [lookupAddress, show ContractIndex.get? {} name = none from rfl, Option.map_none,
    Option.or_none]

/-- The default actor of a new world is the address of its name, unless the name has two: an account
goes before the alias that the name is read as. -/
theorem defaultFrom_eq_iff (hnew : World.new unlocked settings = .ok w) {a : Address}
    (hlookup : w.lookupAddress settings.defaultFrom = some a) :
    w.defaultFrom = a ↔ ∀ b c, w.aliases.find? settings.defaultFrom = some b →
      w.accounts.find? settings.defaultFrom = some c → b = c := by
  rw [new_defaultFrom hnew, chooseActor]
  rw [new_lookupAddress hnew] at hlookup
  cases haccount : w.accounts.find? settings.defaultFrom with
  | none =>
    rw [haccount, Option.or_none] at hlookup
    rw [hlookup]
    simp
  | some account =>
    rw [haccount] at hlookup
    cases halias : w.aliases.find? settings.defaultFrom with
    | none =>
      rw [halias] at hlookup
      cases hlookup
      simp
    | some other =>
      rw [halias] at hlookup
      cases hlookup
      constructor
      · intro heq b c hb hc
        cases hb
        cases hc
        exact heq.symm
      · intro hsame
        exact (hsame a account rfl rfl).symm

/-! ## Acting by default -/

theorem lookup_of_not_digits {text : String} {a : Address} (hdigits : Address.looksLike text = false)
    (h : Literal.address w text = .ok (.address a)) : w.lookupAddress text = some a := by
  unfold Address.looksLike at hdigits
  unfold Literal.address at h
  split at h
  · rename_i b hparse
    rw [hparse] at hdigits
    cases hdigits
  · split at h
    · rename_i b hlookup
      cases h
      exact hlookup
    · cases h

/-- In a new world, let the name of the default actor be read as an address. To perform an event
under a change to the name is to perform it as that address: the two are one program, so they make the
same calls and end in the same world or with the same error. A name that is not written in digits
has the default actor as its address, unless it is an alias and an account with two addresses. -/
theorem acts_as_default {σ : Type} {answers : Answers σ} {s s' : σ} {a : Address}
    (hnew : World.new unlocked settings = .ok w)
    (hread : (w.read .address (.token settings.defaultFrom)).run.run answers s =
      (.ok (.address a), s')) :
    (∀ x actor, w.perform (.seq [.token "From", .token settings.defaultFrom, x]) actor =
      w.perform x a) ∧
    (Address.looksLike settings.defaultFrom = false →
      (w.defaultFrom = a ↔ ∀ b c, w.aliases.find? settings.defaultFrom = some b →
        w.accounts.find? settings.defaultFrom = some c → b = c)) := by
  have hlast : w.lastContract = none := by
    obtain ⟨accounts, aliases, actor, rfl⟩ := new_ok hnew
    rfl
  have hliteral := (new_standard hnew).read_address_token hlast settings.defaultFrom
  cases haddress : Literal.address w settings.defaultFrom with
  | error fault =>
    rw [hliteral, haddress] at hread
    cases hread
  | ok v =>
    rw [haddress] at hliteral
    rw [hliteral] at hread
    cases hread
    constructor
    · intro x actor
      exact perform_actAs (by decide +kernel) hliteral actor
    · intro hdigits
      exact defaultFrom_eq_iff hnew (lookup_of_not_digits hdigits haddress)

end World

/-- Settings that give the name of the default actor to two accounts, and to the second as an alias
too. -/
def Settings.adminTwice : Settings :=
  { accounts := ["Admin", "Bank", "Admin"]
    aliases := [("Admin", "0x3333333333333333333333333333333333333333")] }

def World.adminTwice : World :=
  { settings := .adminTwice
    accounts := [("Admin", .uniform 0x33), ("Bank", .uniform 0x22)]
    aliases := [("Admin", .uniform 0x33)]
    defaultFrom := .uniform 0x33 }

def Event.deployToken : Event := .seq [.token "Deploy", .token "Token"]

namespace World

theorem acts_as_default_twice :
    World.new [.uniform 0x11, .uniform 0x22, .uniform 0x33] .adminTwice = .ok adminTwice ∧
    adminTwice.defaultFrom = .uniform 0x33 ∧
    adminTwice.perform (.seq [.token "From", .token "Admin", .deployToken]) (.uniform 0x22) =
      adminTwice.perform .deployToken adminTwice.defaultFrom := by
  have hnew : World.new [.uniform 0x11, .uniform 0x22, .uniform 0x33] .adminTwice =
      .ok adminTwice := by
    with_unfolding_all rfl
  have hread : (adminTwice.read .address (.token "Admin")).run.run reverting () =
      (.ok (.address (.uniform 0x33)), ()) := by
    with_unfolding_all rfl
  have hsame : ∀ b c, adminTwice.aliases.find? "Admin" = some b →
      adminTwice.accounts.find? "Admin" = some c → b = c := by
    intro b c hb hc
    cases hb
    cases hc
    rfl
  obtain ⟨hperform, hdefault⟩ := acts_as_default hnew hread
  exact ⟨hnew, (hdefault (by decide +kernel)).mpr hsame, hperform .deployToken (.uniform 0x22)⟩

end World

/-- Settings whose default actor is an account, with an alias of that name elsewhere. -/
def Settings.adminAliased : Settings :=
  { accounts := ["Admin"]
    aliases := [("Admin", "0x2222222222222222222222222222222222222222")] }

def World.adminAliased : World :=
  { settings := .adminAliased
    accounts := [("Admin", .uniform 0x11)]
    aliases := [("Admin", .uniform 0x22)]
    defaultFrom := .uniform 0x11 }

/-- Settings whose default actor is written in digits. -/
def Settings.adminWritten : Settings :=
  { defaultFrom := "0x2222222222222222222222222222222222222222", accounts := [], aliases := [] }

def World.adminWritten : World :=
  { settings := .adminWritten, accounts := [], aliases := [], defaultFrom := .uniform 0x11 }

namespace World

/-- A default actor that is not the address of its name: an account stands before the alias, and
digits are not read. A deployment by default and one under a change to the name have two senders. -/
theorem default_actor_misread :
    (World.new [.uniform 0x11] .adminAliased = .ok adminAliased ∧
      adminAliased.read .address (.token "Admin") = pure (.address (.uniform 0x22)) ∧
      adminAliased.defaultFrom = .uniform 0x11 ∧
      (adminAliased.perform .deployToken adminAliased.defaultFrom).run.exchanges reverting () =
        [⟨.deploy "Token" [] (.uniform 0x11), .error (.revert "paused")⟩] ∧
      (adminAliased.perform (.seq [.token "From", .token "Admin", .deployToken])
        adminAliased.defaultFrom).run.exchanges reverting () =
          [⟨.deploy "Token" [] (.uniform 0x22), .error (.revert "paused")⟩]) ∧
    (World.new [.uniform 0x11] .adminWritten = .ok adminWritten ∧
      adminWritten.read .address (.token adminWritten.settings.defaultFrom) =
        pure (.address (.uniform 0x22)) ∧
      adminWritten.defaultFrom = .uniform 0x11) ∧
    Address.uniform 0x11 ≠ Address.uniform 0x22 := by
  refine ⟨⟨?_, ?_, rfl, ?_, ?_⟩, ⟨?_, ?_, rfl⟩, by decide⟩
  all_goals with_unfolding_all rfl

end World

end ChainScript
