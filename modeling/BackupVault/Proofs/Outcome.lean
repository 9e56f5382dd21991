/-!
# Outcomes of steps taken in order

A computation that may fail succeeds as a whole exactly if each of its steps does.  What each step
preserves the whole preserves, and where each step comes to the same from two related states, so
does the whole.
-/

set_option autoImplicit false

namespace BackupVault

variable {ε σ α β : Type}

theorem bind_eq_ok {x : Except ε α} {f : α → Except ε β} {b : β} :
    (x >>= f) = .ok b ↔ ∃ a, x = .ok a ∧ f a = .ok b := by
  cases x with
  | error e => exact ⟨fun h => (nomatch h), fun ⟨_, h, _⟩ => (nomatch h)⟩
  | ok a => exact ⟨fun h => ⟨a, rfl, h⟩, fun ⟨_, h, hb⟩ => by cases h; exact hb⟩

theorem mapM_nil_eq_ok {f : α → Except ε β} {bs : List β} : [].mapM f = .ok bs ↔ bs = [] := by
  rw [List.mapM_nil]
  exact ⟨fun h => by cases h; rfl, fun h => by rw [h]; rfl⟩

theorem mapM_cons_eq_ok {f : α → Except ε β} {a : α} {as : List α} {bs : List β} :
    (a :: as).mapM f = .ok bs ↔ ∃ b cs, f a = .ok b ∧ as.mapM f = .ok cs ∧ bs = b :: cs := by
  rw [List.mapM_cons]
  constructor
  · intro h
    obtain ⟨b, hb, h⟩ := bind_eq_ok.mp h
    obtain ⟨cs, hcs, h⟩ := bind_eq_ok.mp h
    cases h
    exact ⟨b, cs, hb, hcs, rfl⟩
  · rintro ⟨b, cs, hb, hcs, rfl⟩
    rw [hb, hcs]
    rfl

theorem bind_run_ok {x : EStateM ε σ α} {f : α → EStateM ε σ β} {s t : σ} {a : α}
    (h : x s = .ok a t) : (x >>= f) s = f a t := by
  change EStateM.bind x f s = _
  rw [EStateM.bind, h]

theorem bind_run_error {x : EStateM ε σ α} {f : α → EStateM ε σ β} {s t : σ} {e : ε}
    (h : x s = .error e t) : (x >>= f) s = .error e t := by
  change EStateM.bind x f s = _
  rw [EStateM.bind, h]

theorem bind_run_congr {x : EStateM ε σ α} {f : α → EStateM ε σ β} {s t : σ} (h : x s = x t) :
    (x >>= f) s = (x >>= f) t := by
  change EStateM.bind x f s = EStateM.bind x f t
  rw [EStateM.bind, EStateM.bind, h]

theorem bind_run_eq_ok {x : EStateM ε σ α} {f : α → EStateM ε σ β} {s t : σ} {b : β} :
    (x >>= f) s = .ok b t ↔ ∃ a u, x s = .ok a u ∧ f a u = .ok b t := by
  constructor
  · intro h
    cases hx : x s with
    | ok a u => exact ⟨a, u, rfl, (bind_run_ok hx).symm.trans h⟩
    | error e u => exact nomatch (bind_run_error hx).symm.trans h
  · rintro ⟨a, u, hx, hf⟩
    exact (bind_run_ok hx).trans hf

theorem bind_run_eq_error {x : EStateM ε σ α} {f : α → EStateM ε σ β} {s t : σ} {e : ε} :
    (x >>= f) s = .error e t ↔ x s = .error e t ∨ ∃ a u, x s = .ok a u ∧ f a u = .error e t := by
  constructor
  · intro h
    cases hx : x s with
    | ok a u => exact .inr ⟨a, u, rfl, (bind_run_ok hx).symm.trans h⟩
    | error e' u =>
      rw [bind_run_error hx] at h
      cases h
      exact .inl rfl
  · rintro (hx | ⟨a, u, hx, hf⟩)
    · exact bind_run_error hx
    · exact (bind_run_ok hx).trans hf

/-! ## States left behind -/

/-- The state that a computation leaves behind, whether it succeeded or not. -/
def after : EStateM.Result ε σ α → σ
  | .ok _ s => s
  | .error _ s => s

/-- What holds before a computation holds after it, whether it succeeded or not. -/
def Preserves (P : σ → Prop) (x : EStateM ε σ α) : Prop := ∀ s, P s → P (after (x s))

namespace Preserves

variable {P : σ → Prop}

theorem pure (a : α) : Preserves P (Pure.pure a : EStateM ε σ α) := fun _ h => h

theorem throw (e : ε) : Preserves P (throw e : EStateM ε σ α) := fun _ h => h

theorem bind {x : EStateM ε σ α} {f : α → EStateM ε σ β} (hx : Preserves P x)
    (hf : ∀ a, Preserves P (f a)) : Preserves P (x >>= f) := by
  intro s h
  have hafter := hx s h
  -- The second computation goes on from where the first one left the state.
  cases hs : x s with
  | ok a t =>
    rw [hs] at hafter
    rw [bind_run_ok hs]
    exact hf a t hafter
  | error e t =>
    rw [hs] at hafter
    rw [bind_run_error hs]
    exact hafter

end Preserves

/-! ## Two runs -/

/-- What a computation came to, whatever state it left behind. -/
def outcome : EStateM.Result ε σ α → Except ε α
  | .ok a _ => .ok a
  | .error e _ => .error e

theorem eq_ok_of_outcome {r : EStateM.Result ε σ α} {a : α} (h : outcome r = .ok a) :
    r = .ok a (after r) := by
  cases r with
  | ok a' s =>
    cases h
    rfl
  | error e s => cases h

theorem eq_error_of_outcome {r : EStateM.Result ε σ α} {e : ε} (h : outcome r = .error e) :
    r = .error e (after r) := by
  cases r with
  | ok a s => cases h
  | error e' s =>
    cases h
    rfl

theorem outcome_map (x : EStateM ε σ α) (f : α → β) (s : σ) :
    outcome ((x >>= fun a => pure (f a)) s) = (outcome (x s)).map f := by
  cases h : x s with
  | ok a t =>
    rw [bind_run_ok h]
    rfl
  | error e t =>
    rw [bind_run_error h]
    rfl

theorem outcome_map_ok {x : EStateM ε σ α} {f : α → β} {s : σ} {b : β} :
    outcome ((x >>= fun a => pure (f a)) s) = .ok b ↔ ∃ a, outcome (x s) = .ok a ∧ f a = b := by
  rw [outcome_map]
  cases outcome (x s) with
  | ok a => simp [Except.map]
  | error e => simp [Except.map]

theorem outcome_map_error {x : EStateM ε σ α} {f : α → β} {s : σ} {e : ε} :
    outcome ((x >>= fun a => pure (f a)) s) = .error e ↔ outcome (x s) = .error e := by
  rw [outcome_map]
  cases outcome (x s) with
  | ok a => simp [Except.map]
  | error e => simp [Except.map]

theorem after_map (x : EStateM ε σ α) (f : α → β) (s : σ) :
    after ((x >>= fun a => pure (f a)) s) = after (x s) := by
  cases h : x s with
  | ok a t =>
    rw [bind_run_ok h]
    rfl
  | error e t =>
    rw [bind_run_error h]
    rfl

/-- From related states the computation comes to the same, and leaves related states behind. -/
def Agrees (P : σ → σ → Prop) (x : EStateM ε σ α) : Prop :=
  ∀ s s', P s s' → outcome (x s) = outcome (x s') ∧ P (after (x s)) (after (x s'))

namespace Agrees

variable {P : σ → σ → Prop}

theorem pure (a : α) : Agrees P (Pure.pure a : EStateM ε σ α) := fun _ _ h => ⟨rfl, h⟩

theorem throw (e : ε) : Agrees P (throw e : EStateM ε σ α) := fun _ _ h => ⟨rfl, h⟩

theorem bind {x : EStateM ε σ α} {f : α → EStateM ε σ β} (hx : Agrees P x)
    (hf : ∀ a, Agrees P (f a)) : Agrees P (x >>= f) := by
  intro s s' h
  obtain ⟨htold, hafter⟩ := hx s s' h
  -- Either both go on from related states, or both end here.
  cases hs : outcome (x s) with
  | ok a =>
    rw [bind_run_ok (eq_ok_of_outcome hs), bind_run_ok (eq_ok_of_outcome (htold ▸ hs))]
    exact hf a _ _ hafter
  | error e =>
    rw [bind_run_error (eq_error_of_outcome hs),
      bind_run_error (eq_error_of_outcome (htold ▸ hs))]
    exact ⟨rfl, hafter⟩

end Agrees

end BackupVault
