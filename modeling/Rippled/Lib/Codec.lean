import Mathlib.Data.List.Basic
import Mathlib.Tactic.Ring
import Mathlib.Tactic.Linarith
import Rippled.Lib.Loop

/-!
# Byte codecs

A reader takes bytes from the front of its input and may throw. `Reads r bs a` says that `r` takes exactly `bs` and
returns `a`, whatever follows: the bytes of a value can then be put in front of anything, so that encodings compose.
-/

namespace Rippled.Lib

abbrev Bytes := List UInt8

/-! ## Big-endian numbers -/

/-- The last `n` bytes of a number, big-endian. -/
def toBE : Nat → Nat → Bytes
  | 0, _ => []
  | n + 1, v => UInt8.ofNat (v / 256 ^ n) :: toBE n v

/-- The number that bytes denote, big-endian. -/
def ofBE : Bytes → Nat
  | [] => 0
  | b :: bs => b.toNat * 256 ^ bs.length + ofBE bs

@[simp] theorem length_toBE (n v : Nat) : (toBE n v).length = n := by
  induction n with
  | zero => rfl
  | succ n ih => simp [toBE, ih]

theorem ofBE_lt (bs : Bytes) : ofBE bs < 256 ^ bs.length := by
  induction bs with
  | nil => simp [ofBE]
  | cons b bs ih =>
    have hb : b.toNat ≤ 255 := by have := b.toNat_lt; omega
    have hm : b.toNat * 256 ^ bs.length ≤ 255 * 256 ^ bs.length := Nat.mul_le_mul_right _ hb
    simp only [ofBE, List.length_cons, pow_succ]
    omega

theorem toBE_add_mul (n v k : Nat) : toBE n (k * 256 ^ n + v) = toBE n v := by
  induction n generalizing k with
  | zero => rfl
  | succ n ih =>
    have hdiv : (k * 256 ^ (n + 1) + v) / 256 ^ n = k * 256 + v / 256 ^ n := by
      rw [pow_succ, show k * (256 ^ n * 256) = 256 ^ n * (k * 256) by ring,
        Nat.mul_add_div (by positivity)]
    have hrest : k * 256 ^ (n + 1) + v = (k * 256) * 256 ^ n + v := by rw [pow_succ]; ring
    simp only [toBE, hdiv]
    rw [hrest, ih]
    congr 1
    apply UInt8.toNat_inj.1
    simp

theorem toBE_ofBE (bs : Bytes) : toBE bs.length (ofBE bs) = bs := by
  induction bs with
  | nil => rfl
  | cons b bs ih =>
    have hdiv : (b.toNat * 256 ^ bs.length + ofBE bs) / 256 ^ bs.length = b.toNat := by
      rw [mul_comm, Nat.mul_add_div (by positivity), Nat.div_eq_of_lt (ofBE_lt bs), Nat.add_zero]
    simp only [List.length_cons, toBE, ofBE, hdiv, toBE_add_mul, ih]
    simp

theorem ofBE_toBE {n v : Nat} (h : v < 256 ^ n) : ofBE (toBE n v) = v := by
  induction n generalizing v with
  | zero => simp [toBE, ofBE] at h ⊢; omega
  | succ n ih =>
    have hq : v / 256 ^ n < 256 := Nat.div_lt_of_lt_mul h
    have hv : v = v / 256 ^ n * 256 ^ n + v % 256 ^ n := (Nat.div_add_mod' v (256 ^ n)).symm
    have hrest : toBE n v = toBE n (v % 256 ^ n) := by
      conv_lhs => rw [hv]
      exact toBE_add_mul n _ _
    have hhead := UInt8.toNat_ofNat_of_lt' hq
    simp only [toBE, ofBE, length_toBE, hhead]
    rw [hrest, ih (Nat.mod_lt _ (by positivity)), ← hv]

theorem length_le_length_flatMap {α : Type} {l : List α} {g : α → Bytes} (h : ∀ a ∈ l, 1 ≤ (g a).length) :
    l.length ≤ (l.flatMap g).length := by
  induction l with
  | nil => simp
  | cons a l ih =>
    have ha := h a (by simp)
    have := ih fun a ha => h a (by simp [ha])
    simp only [List.flatMap_cons, List.length_append, List.length_cons]
    omega

/-! ## Readers -/

/-- Code that takes bytes from the front of its input, or throws. -/
abbrev Reader (ε : Type) := StateT Bytes (Except ε)

namespace Reader

variable {ε α β : Type}

/-- The next `n` bytes, or the exception `e` when fewer are left. -/
def takeBytes (n : Nat) (e : ε) : Reader ε Bytes := fun s =>
  if s.length < n then .error e else .ok (s.take n, s.drop n)

variable {s : Bytes} {x : Reader ε α}

theorem run_bind_eq_ok {f : α → Reader ε β} {r : β × Bytes} :
    (x >>= f).run s = .ok r ↔ ∃ a t, x.run s = .ok (a, t) ∧ (f a).run t = .ok r := by
  rw [StateT.run_bind]
  cases h : x.run s with
  | error e => simp [Bind.bind, Except.bind]
  | ok p =>
    obtain ⟨a, t⟩ := p
    simp [Bind.bind, Except.bind]

theorem run_bind_of_ok {a : α} {t : Bytes} (h : x.run s = .ok (a, t)) (f : α → Reader ε β) :
    (x >>= f).run s = (f a).run t := by
  rw [StateT.run_bind, h]
  rfl

theorem run_pure_eq_ok {a : α} {r : α × Bytes} : (pure a : Reader ε α).run s = .ok r ↔ (a, s) = r := by
  rw [StateT.run_pure]
  constructor
  · intro h; cases h; rfl
  · rintro rfl; rfl

theorem run_map_eq_ok {f : α → β} {r : β × Bytes} :
    (f <$> x).run s = .ok r ↔ ∃ a t, x.run s = .ok (a, t) ∧ (f a, t) = r := by
  rw [← bind_pure_comp, run_bind_eq_ok]
  simp only [run_pure_eq_ok]

theorem run_throw_ne_ok {e : ε} {r : α × Bytes} : (throw e : Reader ε α).run s ≠ .ok r := by
  intro h
  cases h

theorem run_takeBytes_eq_ok {n : Nat} {e : ε} {r : Bytes × Bytes} :
    (takeBytes n e).run s = .ok r ↔ s = r.1 ++ r.2 ∧ r.1.length = n := by
  obtain ⟨bs, t⟩ := r
  have hrun : (takeBytes n e).run s = if s.length < n then .error e else .ok (s.take n, s.drop n) := rfl
  rw [hrun]
  constructor
  · intro h
    split_ifs at h with hlt
    cases h
    exact ⟨(List.take_append_drop n s).symm, by simpa using hlt⟩
  · rintro ⟨rfl, rfl⟩
    simp

/-- The reader takes exactly `bs` and returns `a`, whatever follows. -/
def Reads (r : Reader ε α) (bs : Bytes) (a : α) : Prop := ∀ rest, r.run (bs ++ rest) = .ok (a, rest)

end Reader

end Rippled.Lib
