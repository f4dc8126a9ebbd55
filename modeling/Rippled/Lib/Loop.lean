import Mathlib.Order.Basic
import Mathlib.Tactic.Basic
/-!
# Loops that can throw

A `Run` is the result of code that may throw. A `while` loop runs on fuel, and
running out of it is a failure of its own, apart from the exceptions. `Ensures`
is the total reading of a postcondition: the run ends, with a value that
satisfies it or with an exception of the code.
-/

namespace Rippled.Lib

/-- Why a run has no value. -/
inductive Failure (ε : Type) where
  | outOfFuel
  | thrown (e : ε)
  deriving DecidableEq

abbrev Run (ε α : Type) := Except (Failure ε) α

theorem Except.bind_eq_ok {ε α β : Type} {x : Except ε α} {f : α → Except ε β} {b : β} :
    (x >>= f) = .ok b ↔ ∃ a, x = .ok a ∧ f a = .ok b := by
  cases x with
  | error e => simp [bind, Except.bind]
  | ok a => simp [bind, Except.bind]

/-- A computation that is evaluated ends with a value that has a decidable property. -/
theorem Except.exists_ok_of_any {ε α : Type} {x : Except ε α} {p : α → Bool} (h : x.toOption.any p = true) :
    ∃ a, x = .ok a ∧ p a = true := by
  cases x with
  | error e => cases h
  | ok a => exact ⟨a, rfl, h⟩

namespace Run

variable {ε α β σ : Type}

def throw (e : ε) : Run ε α := .error (.thrown e)

@[simp] theorem ok_bind (a : α) (f : α → Run ε β) : ((.ok a : Run ε α) >>= f) = f a := rfl

variable {r : Run ε α}

theorem bind_eq_ok {f : α → Run ε β} {b : β} : (r >>= f) = .ok b ↔ ∃ a, r = .ok a ∧ f a = .ok b :=
  Except.bind_eq_ok

/-- The run ends, with a value in `P` or with an exception. -/
def Ensures (r : Run ε α) (P : α → Prop) : Prop :=
  (∃ e, r = .error (.thrown e)) ∨ ∃ a, r = .ok a ∧ P a

variable {P : α → Prop}

theorem ensures_ok {a : α} (h : P a) : Ensures (ε := ε) (.ok a) P := .inr ⟨a, rfl, h⟩

theorem ensures_throw (e : ε) (P : α → Prop) : Ensures (throw e) P := .inl ⟨e, rfl⟩

theorem Ensures.mono {Q : α → Prop} (h : r.Ensures P) (hpq : ∀ a, P a → Q a) : r.Ensures Q := by
  rcases h with ⟨e, rfl⟩ | ⟨a, rfl, ha⟩
  · exact .inl ⟨e, rfl⟩
  · exact .inr ⟨a, rfl, hpq a ha⟩

theorem Ensures.bind {f : α → Run ε β} {Q : β → Prop} (h : r.Ensures P) (hf : ∀ a, P a → (f a).Ensures Q) :
    Ensures (r >>= f) Q := by
  rcases h with ⟨e, rfl⟩ | ⟨a, rfl, ha⟩
  · exact .inl ⟨e, rfl⟩
  · exact hf a ha

/-- `while (c) body`, with fuel for `n` iterations. -/
def whileDo (c : σ → Bool) (body : σ → Run ε σ) : Nat → σ → Run ε σ
  | 0, s => if c s then .error .outOfFuel else .ok s
  | n + 1, s => if c s then body s >>= whileDo c body n else .ok s

variable {c : σ → Bool} {body : σ → Run ε σ}

theorem whileDo_done {s : σ} (h : c s = false) (n : Nat) : whileDo c body n s = .ok s := by
  cases n <;> simp [whileDo, h]

theorem whileDo_step {s s' : σ} (h : c s = true) (hb : body s = .ok s') (n : Nat) :
    whileDo c body (n + 1) s = whileDo c body n s' := by
  simp only [whileDo, h, if_true, hb]
  rfl

/-- A loop whose body keeps `Inv` and makes `μ` smaller ends within `μ`
iterations, in a state that satisfies `Inv` and fails the condition. -/
theorem whileDo_ensures (Inv : σ → Prop) (μ : σ → Nat)
    (step : ∀ s, Inv s → c s = true → (body s).Ensures (fun s' => Inv s' ∧ μ s' < μ s)) :
    ∀ n s, Inv s → μ s < n → (whileDo c body n s).Ensures (fun s' => Inv s' ∧ c s' = false) := by
  intro n
  induction n with
  | zero => intro s _ hn; omega
  | succ n ih =>
    intro s hi hn
    cases hc : c s with
    | false => simpa [whileDo, hc] using ensures_ok ⟨hi, hc⟩
    | true =>
      simp only [whileDo, hc, if_true]
      exact (step s hi hc).bind fun s' h => ih s' h.1 (by omega)

/-- What the body of a loop keeps holds when it ends, with the condition false. -/
theorem whileDo_eq_ok (Inv : σ → Prop) (step : ∀ s s', Inv s → c s = true → body s = .ok s' → Inv s')
    {n : Nat} {s s' : σ} (hs : Inv s) (h : whileDo c body n s = .ok s') : Inv s' ∧ c s' = false := by
  induction n generalizing s with
  | zero =>
    simp only [whileDo] at h
    split_ifs at h with hc
    cases h
    exact ⟨hs, Bool.not_eq_true _ ▸ hc⟩
  | succ n ih =>
    cases hc : c s with
    | false =>
      rw [whileDo_done hc] at h
      cases h
      exact ⟨hs, hc⟩
    | true =>
      cases hb : body s with
      | error e =>
        simp only [whileDo, hc, if_true, hb] at h
        cases h
      | ok s₁ =>
        rw [whileDo_step hc hb] at h
        exact ih (step s s₁ hs hc hb) h

/-- A loop whose body throws nothing while `Inv` holds, keeps it and makes `μ` smaller has a result within `μ`
iterations. -/
theorem whileDo_total (Inv : σ → Prop) (μ : σ → Nat)
    (step : ∀ s, Inv s → c s = true → ∃ s', body s = .ok s' ∧ Inv s' ∧ μ s' < μ s) :
    ∀ n s, Inv s → μ s ≤ n → ∃ s', whileDo c body n s = .ok s' ∧ Inv s' ∧ c s' = false := by
  intro n
  induction n with
  | zero =>
    intro s hi hn
    cases hc : c s with
    | false => exact ⟨s, whileDo_done hc 0, hi, hc⟩
    | true =>
      obtain ⟨s', -, -, hlt⟩ := step s hi hc
      omega
  | succ n ih =>
    intro s hi hn
    cases hc : c s with
    | false => exact ⟨s, whileDo_done hc _, hi, hc⟩
    | true =>
      obtain ⟨s', hb, hi', hlt⟩ := step s hi hc
      rw [whileDo_step hc hb]
      exact ih s' hi' (by omega)

end Run

end Rippled.Lib
