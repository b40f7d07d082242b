/-
  File:      Mh1903/Library/Run.lean
  Subject:   RUNS OF A PROGRAM WITH STATE AND EARLY STOP. Names nothing of the bootloader.

  A program over a state `σ` that may stop early with a reason `ε` is an `EStateM ε σ α`; the
  state it stopped in is kept. The ways to speak about its runs:

  * `Leads x s Q E` -- the run from `s` returns into `Q` or stops into `E`;
  * `Returns x P` -- whatever a run of `x` returns meets `P`, `Stops x P` -- whatever it stops
    with does;
  * `Keeps R x` -- whatever the run does, first and last state are related by `R`;
    `KeepsAt R x s P` -- so from `s`, where moreover what is returned meets `P`;
  * `Same R x` -- from two `R`-related states the run does the same and ends `R`-related;
  * `Fails x s P` -- the run from `s` stops, with a reason in `P`.
-/
import Mathlib.Order.Defs.Unbundled

namespace Mh1903.Library

variable {ε σ α β : Type}

/-! ## 1. One run -/

/-- The run of `x` from `s` returns into `Q` or stops into `E`. -/
def Leads (x : EStateM ε σ α) (s : σ) (Q : α → σ → Prop) (E : ε → σ → Prop) : Prop :=
  match x s with
  | .ok a s' => Q a s'
  | .error e s' => E e s'

/-- The state a run ends in, returned or stopped. -/
def final (x : EStateM ε σ α) (s : σ) : σ :=
  match x s with
  | .ok _ s' => s'
  | .error _ s' => s'

section Leads

variable {x : EStateM ε σ α} {f : α → EStateM ε σ β} {s s' : σ} {a : α} {e : ε}
variable {Q Q' : α → σ → Prop} {E E' : ε → σ → Prop}

theorem final_of_ok (h : x s = .ok a s') : final x s = s' := by
  unfold final; rw [h]

theorem final_of_error (h : x s = .error e s') : final x s = s' := by
  unfold final; rw [h]

theorem leads_of_ok (h : x s = .ok a s') (hQ : Q a s') : Leads x s Q E := by
  unfold Leads; rw [h]; exact hQ

theorem leads_of_error (h : x s = .error e s') (hE : E e s') : Leads x s Q E := by
  unfold Leads; rw [h]; exact hE

/-- A run that goes on as another one leads where that one does. -/
theorem leads_of_eq {y : EStateM ε σ α} (h : x s = y s') (hy : Leads y s' Q E) : Leads x s Q E := by
  unfold Leads; rw [h]; exact hy

theorem Leads.ok (h : Leads x s Q E) (hx : x s = .ok a s') : Q a s' := by
  unfold Leads at h; rw [hx] at h; exact h

theorem Leads.error (h : Leads x s Q E) (hx : x s = .error e s') : E e s' := by
  unfold Leads at h; rw [hx] at h; exact h

theorem Leads.mono (h : Leads x s Q E) (hQ : ∀ a s', Q a s' → Q' a s')
    (hE : ∀ e s', E e s' → E' e s') : Leads x s Q' E' := by
  unfold Leads at *
  cases hx : x s with
  | ok a s' => rw [hx] at h; exact hQ a s' h
  | error e s' => rw [hx] at h; exact hE e s' h

/-- Every run leads somewhere. -/
theorem leads_any (x : EStateM ε σ α) (s : σ) : Leads x s (fun _ _ => True) fun _ _ => True := by
  unfold Leads
  cases x s <;> exact trivial

/-- Two ways to lead somewhere, taken at once. -/
theorem Leads.and (h : Leads x s Q E) (h' : Leads x s Q' E') :
    Leads x s (fun a s' => Q a s' ∧ Q' a s') fun e s' => E e s' ∧ E' e s' := by
  unfold Leads at *
  cases hx : x s with
  | ok a s' => rw [hx] at h h'; exact ⟨h, h'⟩
  | error e s' => rw [hx] at h h'; exact ⟨h, h'⟩

/-- What is the same on both exits holds of the final state. -/
theorem Leads.final {P : σ → Prop} (h : Leads x s (fun _ s' => P s') (fun _ s' => P s')) :
    P (final x s) := by
  unfold Leads at h; unfold Library.final
  cases hx : x s <;> rw [hx] at h <;> exact h

@[simp] theorem leads_pure : Leads (pure a : EStateM ε σ α) s Q E ↔ Q a s := Iff.rfl

@[simp] theorem leads_throw : Leads (throw e : EStateM ε σ α) s Q E ↔ E e s := Iff.rfl

@[simp] theorem leads_get {Q : σ → σ → Prop} : Leads (get : EStateM ε σ σ) s Q E ↔ Q s s := Iff.rfl

@[simp] theorem leads_modify {g : σ → σ} {Q : PUnit → σ → Prop} :
    Leads (modify g : EStateM ε σ PUnit) s Q E ↔ Q ⟨⟩ (g s) := Iff.rfl

@[simp] theorem leads_bind {Q : β → σ → Prop} :
    Leads (x >>= f) s Q E ↔ Leads x s (fun a s' => Leads (f a) s' Q E) E := by
  show (match EStateM.bind x f s with | .ok a s' => Q a s' | .error e s' => E e s') ↔ _
  unfold Leads EStateM.bind
  cases x s <;> exact Iff.rfl

theorem leads_ite {c : Prop} [Decidable c] {y : EStateM ε σ α} :
    Leads (if c then x else y) s Q E ↔ (c → Leads x s Q E) ∧ (¬ c → Leads y s Q E) := by
  by_cases hc : c <;> simp [hc]

/-- The continuation of a returned run. -/
theorem bind_ok (h : x s = .ok a s') : (x >>= f) s = f a s' := by
  show EStateM.bind x f s = f a s'
  unfold EStateM.bind; rw [h]

/-- A stopped run stops the whole. -/
theorem bind_error (h : x s = .error e s') : (x >>= f) s = .error e s' := by
  show EStateM.bind x f s = .error e s'
  unfold EStateM.bind; rw [h]

theorem get_bind {f : σ → EStateM ε σ β} : ((get : EStateM ε σ σ) >>= f) s = f s s := rfl

theorem modify_bind {g : σ → σ} {f : PUnit → EStateM ε σ β} :
    ((modify g : EStateM ε σ PUnit) >>= f) s = f ⟨⟩ (g s) := rfl

/-- A returned sequence returned from both parts. -/
theorem bind_eq_ok {b : β} (h : (x >>= f) s = .ok b s') :
    ∃ a s₁, x s = .ok a s₁ ∧ f a s₁ = .ok b s' := by
  cases hx : x s with
  | ok a s₁ => exact ⟨a, s₁, rfl, by rw [← h, bind_ok hx]⟩
  | error e s₁ => rw [bind_error hx] at h; cases h

end Leads

/-! ## 2. The value of a run -/

/-- Whatever a run of `x` returns meets `P`. -/
def Returns (x : EStateM ε σ α) (P : α → Prop) : Prop := ∀ s a s', x s = .ok a s' → P a

section Returns

variable {x : EStateM ε σ α} {f : α → EStateM ε σ β} {P : α → Prop} {Q : β → Prop}

theorem returns_any (x : EStateM ε σ α) : Returns x fun _ => True := fun _ _ _ _ => trivial

theorem returns_pure {a : α} (h : P a) : Returns (pure a : EStateM ε σ α) P := by
  intro s b s' hb
  cases hb
  exact h

theorem returns_throw (e : ε) : Returns (throw e : EStateM ε σ α) P := by
  intro s b s' hb
  cases hb

theorem returns_bind (hx : Returns x P) (hf : ∀ a, P a → Returns (f a) Q) :
    Returns (x >>= f) Q := by
  intro s b s' h
  obtain ⟨a, s₁, h₁, h₂⟩ := bind_eq_ok h
  exact hf a (hx s a s₁ h₁) s₁ b s' h₂

/-- Behind a stop nothing runs. -/
theorem returns_throw_bind (e : ε) : Returns ((throw e : EStateM ε σ α) >>= f) Q := by
  intro s b s' hb
  cases hb

theorem returns_ite {c : Prop} [Decidable c] {y : EStateM ε σ α} (hx : c → Returns x P)
    (hy : ¬ c → Returns y P) : Returns (if c then x else y) P := by
  split
  · exact hx ‹_›
  · exact hy ‹_›

theorem Returns.leads (h : Returns x P) (s : σ) :
    Leads x s (fun a _ => P a) fun _ _ => True := by
  cases hx : x s with
  | ok a s' => exact leads_of_ok hx (h s a s' hx)
  | error e s' => exact leads_of_error hx trivial

theorem Returns.mono {P' : α → Prop} (h : Returns x P) (hP : ∀ a, P a → P' a) : Returns x P' :=
  fun s a s' hx => hP a (h s a s' hx)

end Returns

/-- Whatever a run of `x` stops with meets `P`. -/
def Stops (x : EStateM ε σ α) (P : ε → Prop) : Prop := ∀ s e s', x s = .error e s' → P e

section Stops

variable {x : EStateM ε σ α} {f : α → EStateM ε σ β} {P : ε → Prop}

theorem stops_pure (a : α) : Stops (pure a : EStateM ε σ α) P := by
  intro s e s' h
  cases h

theorem stops_throw {e : ε} (h : P e) : Stops (throw e : EStateM ε σ α) P := by
  intro s e' s' he
  cases he
  exact h

theorem stops_get : Stops (get : EStateM ε σ σ) P := by
  intro s e s' h
  cases h

theorem stops_modify (g : σ → σ) : Stops (modify g : EStateM ε σ PUnit) P := by
  intro s e s' h
  cases h

theorem stops_throw_bind {x : ε} {f : α → EStateM ε σ β} (h : P x) :
    Stops ((throw x : EStateM ε σ α) >>= f) P := by
  intro s e' s' he
  cases he
  exact h

theorem Stops.mono {P' : ε → Prop} (h : Stops x P) (hP : ∀ e, P e → P' e) : Stops x P' :=
  fun s e s' hx => hP e (h s e s' hx)

/-- Sequencing: the second part runs on what the first one returns. -/
theorem stops_bind_of {Q : α → Prop} (hx : Stops x P) (hr : Returns x Q)
    (hf : ∀ a, Q a → Stops (f a) P) : Stops (x >>= f) P := by
  intro s e s' h
  cases hs : x s with
  | ok a s₁ => exact hf a (hr s a s₁ hs) s₁ e s' (by rw [← h, bind_ok hs])
  | error e₁ s₁ =>
      rw [bind_error hs] at h
      cases h
      exact hx s e s' hs

theorem stops_bind (hx : Stops x P) (hf : ∀ a, Stops (f a) P) : Stops (x >>= f) P :=
  stops_bind_of hx (returns_any x) fun a _ => hf a

theorem stops_ite {c : Prop} [Decidable c] {y : EStateM ε σ α} (hx : Stops x P)
    (hy : Stops y P) : Stops (if c then x else y) P := by
  split
  · exact hx
  · exact hy

end Stops

/-! ## 3. Two states of one run -/

-- From here on a run is taken apart by the rules above: unfolding `Leads` would execute it.
attribute [irreducible] Leads

/-- Whatever the run of `x` does, its first and its last state are related. -/
def Keeps (R : σ → σ → Prop) (x : EStateM ε σ α) : Prop := ∀ s, R s (final x s)

section Keeps

variable {R : σ → σ → Prop} {x : EStateM ε σ α} {f : α → EStateM ε σ β}

theorem Keeps.ok (h : Keeps R x) {s s' : σ} {a : α} (hx : x s = .ok a s') : R s s' := by
  have := h s; unfold Library.final at this; rw [hx] at this; exact this

theorem Keeps.error (h : Keeps R x) {s s' : σ} {e : ε} (hx : x s = .error e s') : R s s' := by
  have := h s; unfold Library.final at this; rw [hx] at this; exact this

/-- The run from `s` stays `R`-related to `s`, and what it returns meets `P`. -/
def KeepsAt (R : σ → σ → Prop) (x : EStateM ε σ α) (s : σ) (P : α → Prop) : Prop :=
  Leads x s (fun a s' => R s s' ∧ P a) (fun _ s' => R s s')

theorem Keeps.at {P : α → Prop} (h : Keeps R x) (hP : Returns x P) (s : σ) : KeepsAt R x s P := by
  cases hx : x s with
  | ok a s' => exact leads_of_ok hx ⟨h.ok hx, hP s a s' hx⟩
  | error e s' => exact leads_of_error hx (h.error hx)

theorem KeepsAt.leads {s : σ} {P : α → Prop} (h : KeepsAt R x s P) :
    Leads x s (fun a s' => R s s' ∧ P a) (fun _ s' => R s s') := h

theorem KeepsAt.ok {s s' : σ} {a : α} {P : α → Prop} (h : KeepsAt R x s P)
    (hx : x s = .ok a s') : R s s' ∧ P a := h.leads.ok hx

theorem KeepsAt.error {s s' : σ} {e : ε} {P : α → Prop} (h : KeepsAt R x s P)
    (hx : x s = .error e s') : R s s' := h.leads.error hx

theorem KeepsAt.final {s : σ} {P : α → Prop} (h : KeepsAt R x s P) : R s (final x s) :=
  Leads.final (h.mono (fun _ _ h => h.1) fun _ _ h => h)

theorem keepsAt_pure [Std.Refl R] {a : α} {s : σ} {P : α → Prop} (h : P a) :
    KeepsAt R (pure a : EStateM ε σ α) s P := leads_pure.mpr ⟨Std.Refl.refl s, h⟩

theorem keepsAt_throw [Std.Refl R] (e : ε) (s : σ) (P : α → Prop) :
    KeepsAt R (throw e : EStateM ε σ α) s P := leads_throw.mpr (Std.Refl.refl s)

theorem keepsAt_throw_bind [Std.Refl R] (e : ε) (s : σ) (P : β → Prop) :
    KeepsAt R ((throw e : EStateM ε σ α) >>= f) s P :=
  leads_of_error rfl (Std.Refl.refl s)

/-- Sequencing: the second part runs where the first one led. -/
theorem keepsAt_bind [IsTrans σ R] {s : σ} {P : α → Prop} {Q : β → Prop} (hx : KeepsAt R x s P)
    (hf : ∀ a s', R s s' → P a → KeepsAt R (f a) s' Q) : KeepsAt R (x >>= f) s Q := by
  show Leads _ _ _ _
  rw [leads_bind]
  refine Leads.mono hx (fun a s₁ ⟨h₁, ha⟩ => ?_) fun _ _ h => h
  exact Leads.mono (hf a s₁ h₁ ha) (fun b s₂ h₂ => ⟨IsTrans.trans _ _ _ h₁ h₂.1, h₂.2⟩)
    fun _ s₂ h₂ => IsTrans.trans _ _ _ h₁ h₂

theorem keepsAt_ite {c : Prop} [Decidable c] {y : EStateM ε σ α} {s : σ} {P : α → Prop}
    (hx : c → KeepsAt R x s P) (hy : ¬ c → KeepsAt R y s P) :
    KeepsAt R (if c then x else y) s P := by
  split
  · exact hx ‹_›
  · exact hy ‹_›

theorem keeps_of_leads (h : ∀ s, Leads x s (fun _ s' => R s s') (fun _ s' => R s s')) :
    Keeps R x := fun s => (h s).final

theorem keeps_pure [Std.Refl R] (a : α) : Keeps R (pure a : EStateM ε σ α) :=
  fun s => Std.Refl.refl s

theorem keeps_throw [Std.Refl R] (e : ε) : Keeps R (throw e : EStateM ε σ α) :=
  fun s => Std.Refl.refl s

theorem keeps_get [Std.Refl R] : Keeps R (get : EStateM ε σ σ) := fun s => Std.Refl.refl s

theorem keeps_bind [IsTrans σ R] (hx : Keeps R x) (hf : ∀ a, Keeps R (f a)) :
    Keeps R (x >>= f) := by
  intro s
  cases h : x s with
  | ok a s₁ =>
      have h₁ := hx.ok h
      have h₂ := hf a s₁
      unfold Library.final at h₂ ⊢
      rw [bind_ok h]
      exact IsTrans.trans _ _ _ h₁ h₂
  | error e s₁ =>
      unfold Library.final
      rw [bind_error h]
      exact hx.error h

theorem keeps_throw_bind [Std.Refl R] (e : ε) :
    Keeps R ((throw e : EStateM ε σ α) >>= f) := fun s => Std.Refl.refl s

theorem keeps_ite {c : Prop} [Decidable c] {y : EStateM ε σ α} (hx : Keeps R x) (hy : Keeps R y) :
    Keeps R (if c then x else y) := by
  split
  · exact hx
  · exact hy

end Keeps

/-! ## 4. Two runs of one program -/

/-- From `R`-related states the two runs of `x` return the same, or stop for the same reason,
    and end `R`-related. -/
def Same (R : σ → σ → Prop) (x : EStateM ε σ α) : Prop :=
  ∀ s t, R s t → Leads x s
    (fun a s' => ∃ t', x t = .ok a t' ∧ R s' t') (fun e s' => ∃ t', x t = .error e t' ∧ R s' t')

section Same

variable {R : σ → σ → Prop} {x : EStateM ε σ α} {f : α → EStateM ε σ β}

theorem Same.ok (h : Same R x) {s t s' : σ} {a : α} (hR : R s t) (hx : x s = .ok a s') :
    ∃ t', x t = .ok a t' ∧ R s' t' := (h s t hR).ok hx

theorem same_pure (a : α) : Same R (pure a : EStateM ε σ α) :=
  fun _ t hR => leads_pure.mpr ⟨t, rfl, hR⟩

theorem same_throw (e : ε) : Same R (throw e : EStateM ε σ α) :=
  fun _ t hR => leads_throw.mpr ⟨t, rfl, hR⟩

/-- Sequencing: the second part runs on what the first one returns. -/
theorem same_bind_of {P : α → Prop} (hx : Same R x) (hr : Returns x P)
    (hf : ∀ a, P a → Same R (f a)) : Same R (x >>= f) := by
  intro s t hR
  rw [leads_bind]
  refine ((hx s t hR).and (hr.leads s)).mono (fun a s₁ ⟨⟨t₁, ht, hR₁⟩, ha⟩ => ?_)
    (fun e s₁ ⟨⟨t₁, ht, hR₁⟩, _⟩ => ?_)
  · refine (hf a ha s₁ t₁ hR₁).mono (fun b s₂ ⟨t₂, ht₂, hR₂⟩ => ?_)
      (fun e s₂ ⟨t₂, ht₂, hR₂⟩ => ?_)
    · exact ⟨t₂, by rw [bind_ok ht, ht₂], hR₂⟩
    · exact ⟨t₂, by rw [bind_ok ht, ht₂], hR₂⟩
  · exact ⟨t₁, bind_error ht, hR₁⟩

theorem same_bind (hx : Same R x) (hf : ∀ a, Same R (f a)) : Same R (x >>= f) :=
  same_bind_of hx (returns_any x) fun a _ => hf a

/-- What is done with the state may be done with a related one. -/
theorem same_get_bind {f : σ → EStateM ε σ α} (hf : ∀ s, Same R (f s))
    (hR : ∀ s t, R s t → f t = f s) : Same R ((get : EStateM ε σ σ) >>= f) := by
  intro s t h
  rw [leads_bind, leads_get, get_bind, hR s t h]
  exact hf s s t h

theorem same_throw_bind (e : ε) : Same R ((throw e : EStateM ε σ α) >>= f) :=
  fun _ t hR => leads_of_error rfl ⟨t, rfl, hR⟩

theorem same_ite {c : Prop} [Decidable c] {y : EStateM ε σ α} (hx : Same R x) (hy : Same R y) :
    Same R (if c then x else y) := by
  split
  · exact hx
  · exact hy

end Same

/-! ## 5. Runs that fail -/

/-- The run of `x` from `s` stops with a reason in `P`. -/
def Fails (x : EStateM ε σ α) (s : σ) (P : ε → Prop) : Prop := ∃ e s', x s = .error e s' ∧ P e

section Fails

variable {x : EStateM ε σ α} {f : α → EStateM ε σ β} {s s' : σ} {a : α} {e : ε} {P : ε → Prop}

theorem not_fails_of_ok (h : x s = .ok a s') : ¬ Fails x s P := by
  rintro ⟨e, s₁, he, -⟩
  rw [h] at he
  cases he

theorem not_fails_pure : ¬ Fails (pure a : EStateM ε σ α) s P := not_fails_of_ok rfl

theorem not_fails_of_stops (h : Stops x fun e => ¬ P e) : ¬ Fails x s P := by
  rintro ⟨e, s', he, hP⟩
  exact h s e s' he hP

theorem fails_throw_bind (h : P e) : Fails ((throw e : EStateM ε σ α) >>= f) s P := ⟨e, s, rfl, h⟩

/-- A sequence fails in its first part or in its second one. -/
theorem fails_bind :
    Fails (x >>= f) s P ↔ Fails x s P ∨ ∃ a s', x s = .ok a s' ∧ Fails (f a) s' P := by
  unfold Fails
  cases hx : x s with
  | ok a s₁ =>
      rw [bind_ok hx]
      refine ⟨fun h => .inr ⟨a, s₁, rfl, h⟩, fun h => ?_⟩
      rcases h with ⟨e, s₂, he, -⟩ | ⟨a', s₂, ha, h⟩
      · cases he
      · cases ha
        exact h
  | error e s₁ =>
      rw [bind_error hx]
      refine ⟨fun h => .inl ?_, fun h => ?_⟩
      · obtain ⟨e', s', he, hP⟩ := h
        cases he
        exact ⟨e, s₁, rfl, hP⟩
      · rcases h with ⟨e', s', he, hP⟩ | ⟨a, s₂, ha, -⟩
        · cases he
          exact ⟨e, s₁, rfl, hP⟩
        · cases ha

/-- Behind a first part that returns, the second one decides. -/
theorem fails_bind_ok (h : x s = .ok a s') : Fails (x >>= f) s P ↔ Fails (f a) s' P := by
  unfold Fails
  rw [bind_ok h]

theorem fails_ite {c : Prop} [Decidable c] {y : EStateM ε σ α} :
    Fails (if c then x else y) s P ↔ (c ∧ Fails x s P) ∨ (¬ c ∧ Fails y s P) := by
  split
  · rename_i hc
    exact ⟨fun h => .inl ⟨hc, h⟩, fun h => h.elim (fun h => h.2) fun h => absurd hc h.1⟩
  · rename_i hc
    exact ⟨fun h => .inr ⟨hc, h⟩, fun h => h.elim (fun h => absurd h.1 hc) fun h => h.2⟩

end Fails

end Mh1903.Library
