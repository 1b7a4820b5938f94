import ChainScript.Expr.Resolve
import ChainScript.Proofs.Chain.Exchanges

/-! # What a reading gives

A typed reading gives a value of its kind: by the literal, or by a value that was asked for its kind.
A sequence is never taken literally.
-/

namespace ChainScript
set_option autoImplicit false

open Program

variable {σ : Type} {answers : Answers σ} {s s' : σ} {w : World} {v : Value}

namespace Reading

variable {resolve : Event → Action Value} {literal : String → Except Fault Value} {expected : Kind}

theorem typed_literal {text : String} (h : literal text = .ok v) :
    typed resolve literal expected (.token text) = pure v := by
  rw [typed, h]

theorem typed_seq_ok {items : List Event} :
    (typed resolve literal expected (.seq items)).run.run answers s = (.ok v, s') ↔
      (resolve (.seq items)).run.run answers s = (.ok v, s') ∧ v.kind = expected := by
  rw [typed, run_exceptBind_eq_ok]
  constructor
  · rintro ⟨u, s₁, hu, h⟩
    by_cases hkind : u.kind = expected
    · rw [if_pos hkind] at h
      cases h
      exact ⟨hu, hkind⟩
    · rw [if_neg hkind] at h
      cases h
  · rintro ⟨hv, hkind⟩
    refine ⟨v, s', hv, ?_⟩
    rw [if_pos hkind]
    rfl

theorem typed_kind (hliteral : ∀ text v, literal text = .ok v → v.kind = expected) {e : Event}
    (h : (typed resolve literal expected e).run.run answers s = (.ok v, s')) :
    v.kind = expected := by
  cases e with
  | token text =>
    rw [typed] at h
    cases hl : literal text with
    | ok u =>
      rw [hl] at h
      cases h
      exact hliteral text _ hl
    | error fault =>
      rw [hl] at h
      dsimp only at h
      rw [ExceptT.run_mk, run_bind] at h
      rcases hr : (resolve (.token text)).run.run answers s with ⟨err | u, s₁⟩
      · rw [hr] at h
        by_cases hfatal : err.isFatal <;> simp [hfatal] at h
      · rw [hr] at h
        by_cases hkind : u.kind = expected
        · simp only [hkind, if_true, Program.pure_eq, run_done, Prod.mk.injEq,
            Except.ok.injEq] at h
          rw [← h.1, hkind]
        · simp [hkind] at h
  | seq items => exact (typed_seq_ok.mp h).2

end Reading

theorem Value.kind_eq_address (h : v.kind = .address) : ∃ a, v = .address a := by
  cases v with
  | address a => exact ⟨a, rfl⟩
  | _ => cases h

theorem Literal.address_kind {text : String} (h : Literal.address w text = .ok v) :
    v.kind = .address := by
  unfold Literal.address at h
  split at h
  · cases h
    rfl
  · split at h
    · cases h
      rfl
    · cases h

namespace World

theorem binder_resolve (w : World) (resolve : Event → Action Value) (reading : Reading) (e : Event) :
    (w.binder resolve).resolve reading e = reading.read resolve w e := rfl

theorem read_address {e : Event} (h : (w.read .address e).run.run answers s = (.ok v, s')) :
    ∃ a, v = .address a := by
  rw [World.read, Reading.read] at h
  exact Value.kind_eq_address (Reading.typed_kind (fun _ _ => Literal.address_kind) h)

/-- A sequence is resolved under every reading but that of an event as it stands. -/
theorem binder_seq_ok {resolve : Event → Action Value} {reading : Reading} {items : List Event}
    (h : ((w.binder resolve).resolve reading (.seq items)).run.run answers s = (.ok v, s'))
    (hreading : reading ≠ .event) :
    (resolve (.seq items)).run.run answers s = (.ok v, s') := by
  rw [binder_resolve] at h
  cases reading with
  | core => exact h
  | event => exact absurd rfl hreading
  | literal => cases h
  | string | bool | number | exp | percent | address =>
    rw [Reading.read] at h
    exact (Reading.typed_seq_ok.mp h).1

end World

end ChainScript
