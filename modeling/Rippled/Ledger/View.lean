import Rippled.Lib.KeyedMap
import Rippled.Lib.Loop

/-!
# Views of a ledger's state

A view gives the entries of a ledger by key (`ReadView`) and can be changed (`RawView`). `LawfulView` says what a view
stands for: a finite map from keys to entries. The ledger itself is one, and so is every table of changes over a lawful
view: what the two tables of the code have in common is in `Overlay`.

`K` stands for the non-zero keys: to read the zero key is unreachable in the code. Of an entry only its key, its type
and the rest as one piece of data are here.
-/

namespace Rippled.View

open Lib Lib.Keyed List KeyedMap

inductive LedgerEntryType where
  | nftokenOffer | check | did | negativeUnl | nftokenPage | signerList | ticket | accountRoot | dirNode | amendments
  | ledgerHashes | offer | depositPreauth | rippleState | feeSettings | escrow | paychan |
      amm | mptokenIssuance | mptoken
  | oracle | credential | permissionedDomain | delegate | vault | loanBroker | loan | sponsorship | transactionProposal
  | any | child | nickname | contract | generatorMap | bridge | xchainOwnedClaimId | xchainOwnedCreateAccountClaimId
  deriving DecidableEq

structure SLE (K α : Type) where
  key : K
  type : LedgerEntryType
  data : α
  deriving DecidableEq

instance {K α : Type} : Keyed (SLE K α) K := ⟨SLE.key⟩

/-- An `SLE::Ref`: a pointer, with the entry that it points to when it is passed. -/
structure SLERef (K α : Type) where
  ptr : Nat
  sle : SLE K α
  deriving DecidableEq

structure Keylet (K : Type) where
  type : LedgerEntryType
  key : K

/-- A keylet that matches an entry of any type (`keylet::unchecked`). -/
def Keylet.unchecked {K : Type} (key : K) : Keylet K := ⟨.any, key⟩

inductive Exception where
  | logicError (what : String)
  | nullPointer
  deriving DecidableEq

variable {K α σ I : Type} [LinearOrder K]

def Keylet.check (k : Keylet K) (sle : SLE K α) : Bool :=
  match k.type with
  | .any => true
  | .child => sle.type ≠ .dirNode
  | t => sle.type = t && sle.key = k.key

class ReadView (σ : Type) (K α : outParam Type) where
  existsAt : σ → Keylet K → Bool
  read : σ → Keylet K → Option (SLE K α)
  succ : σ → K → Option K → Run Exception (Option K)

class RawView (σ : Type) (K α : outParam Type) where
  rawErase : σ → SLERef K α → Run Exception σ
  rawInsert : σ → SLERef K α → Run Exception σ
  rawReplace : σ → SLERef K α → Run Exception σ
  rawDestroyXRP : σ → Int → σ

open ReadView RawView

/-- The keylet has the type of the entry with its key, if there is one. -/
def Keylet.Fits (k : Keylet K) (m : KeyedMap (SLE K α)) : Prop := ∀ sle, m.find k.key = some sle → k.check sle = true

/-- What a view stands for, and what its operations do to that. -/
class LawfulView (σ : Type) {K α : outParam Type} [LinearOrder K] [ReadView σ K α] [RawView σ K α] where
  Denotes : σ → KeyedMap (SLE K α) → Prop
  read_eq {s : σ} {m : KeyedMap (SLE K α)} : Denotes s m → ∀ k : Keylet K, read s k = (m.find k.key).filter k.check
  existsAt_eq {s : σ} {m : KeyedMap (SLE K α)} :
    Denotes s m → ∀ k : Keylet K, k.Fits m → existsAt s k = (m.find k.key).isSome
  succ_eq {s : σ} {m : KeyedMap (SLE K α)} : Denotes s m → ∀ key last, succ s key last = .ok (m.succ key last)
  rawErase_ok {s : σ} {m : KeyedMap (SLE K α)} : Denotes s m → ∀ r : SLERef K α, (m.find r.sle.key).isSome →
    ∃ s', rawErase s r = .ok s' ∧ Denotes s' (m.erase r.sle.key)
  rawInsert_ok {s : σ} {m : KeyedMap (SLE K α)} : Denotes s m → ∀ r : SLERef K α, m.find r.sle.key = none →
    ∃ s', rawInsert s r = .ok s' ∧ Denotes s' (m.insert r.sle)
  rawReplace_ok {s : σ} {m : KeyedMap (SLE K α)} : Denotes s m → ∀ r : SLERef K α, (m.find r.sle.key).isSome →
    ∃ s', rawReplace s r = .ok s' ∧ Denotes s' (m.insert r.sle)
  rawDestroyXRP_ok {s : σ} {m : KeyedMap (SLE K α)} : Denotes s m → ∀ fee, Denotes (rawDestroyXRP s fee) m

/-! ## The ledger -/

/-- A ledger's state map, by increasing key as its iterators give the entries, and the number of drops in existence. -/
structure Ledger (K α : Type) [LinearOrder K] where
  stateMap : KeyedMap (SLE K α)
  drops : Int

namespace Ledger

def existsAt (l : Ledger K α) (k : Keylet K) : Bool := (l.stateMap.find k.key).isSome

def read (l : Ledger K α) (k : Keylet K) : Option (SLE K α) :=
  match l.stateMap.find k.key with
  | none => none
  | some sle => if k.check sle then some sle else none

def rawErase (l : Ledger K α) (r : SLERef K α) : Run Exception (Ledger K α) :=
  if (l.stateMap.find r.sle.key).isSome then .ok { l with stateMap := l.stateMap.erase r.sle.key }
  else Run.throw (.logicError "Ledger::rawErase: key not found")

def rawInsert (l : Ledger K α) (r : SLERef K α) : Run Exception (Ledger K α) :=
  if (l.stateMap.find r.sle.key).isSome then Run.throw (.logicError "Ledger::rawInsert: key already exists")
  else .ok { l with stateMap := l.stateMap.insert r.sle }

def rawReplace (l : Ledger K α) (r : SLERef K α) : Run Exception (Ledger K α) :=
  if (l.stateMap.find r.sle.key).isSome then .ok { l with stateMap := l.stateMap.insert r.sle }
  else Run.throw (.logicError "Ledger::rawReplace: key not found")

instance : ReadView (Ledger K α) K α where
  existsAt := existsAt
  read := read
  succ l key last := .ok (l.stateMap.succ key last)

instance : RawView (Ledger K α) K α where
  rawErase := rawErase
  rawInsert := rawInsert
  rawReplace := rawReplace
  rawDestroyXRP l fee := { l with drops := l.drops - fee }

instance : LawfulView (Ledger K α) where
  Denotes l m := l.stateMap = m
  read_eq := by
    rintro l m rfl k
    change read l k = _
    unfold read
    cases l.stateMap.find k.key <;> rfl
  existsAt_eq := by
    rintro l m rfl k -
    rfl
  succ_eq := by
    rintro l m rfl key last
    rfl
  rawErase_ok := by
    rintro l m rfl r hr
    exact ⟨_, if_pos hr, rfl⟩
  rawInsert_ok := by
    rintro l m rfl r hr
    exact ⟨_, if_neg (by rw [hr]; exact Bool.false_ne_true), rfl⟩
  rawReplace_ok := by
    rintro l m rfl r hr
    exact ⟨_, if_pos hr, rfl⟩
  rawDestroyXRP_ok := by
    rintro l m rfl fee
    rfl

end Ledger

/-! ## Tables of changes -/

/-- The items of a table of changes: an item either takes the entry of its key away or says what it is. -/
class OverlayItem (I : Type) (K α : outParam Type) extends Keyed I K where
  live : I → Option (SLE K α)
  key_live {i : I} {sle : SLE K α} : live i = some sle → Keyed.key sle = key i

open OverlayItem

namespace Overlay

section Model
variable [OverlayItem I K α] [ReadView σ K α]

def existsAt (items : KeyedMap I) (base : σ) (k : Keylet K) : Bool :=
  match items.find k.key with
  | none => ReadView.existsAt base k
  | some item =>
    match live item with
    | none => false
    | some sle => k.check sle

def read (items : KeyedMap I) (base : σ) (k : Keylet K) : Option (SLE K α) :=
  match items.find k.key with
  | none => ReadView.read base k
  | some item =>
    match live item with
    | none => none
    | some sle => if k.check sle then some sle else none

/-- The condition of the loop of `succ`: the key that was found is erased in the table. -/
def erased (items : KeyedMap I) (next : Option K) : Bool :=
  match next with
  | none => false
  | some n => (items.find n).any fun item => (live item).isNone

/-- The key of the first entry of the table after `key`. -/
def succItem (items : KeyedMap I) (key : K) : Option K :=
  ((items.upperBound key).find? fun item => (live item).isSome).map Keyed.key

/-- The loop of `succ` over the base: its successor that is not also deleted in the table. It ends, for every round of
it finds an item with a greater key. -/
def succBase (items : KeyedMap I) (base : σ) (key : K) (last : Option K) : Run Exception (Option K) := do
  let next ← ReadView.succ base key last
  Run.whileDo (erased items)
    (fun next => match next with
      | none => .ok none
      | some n => ReadView.succ base n last)
    items.toList.length next

/-- The lower key, of the one found in the table and the one found in the base. -/
def lower : Option K → Option K → Option K
  | none, next => next
  | some i, none => some i
  | some i, some n => if n > i then some i else some n

/-- No key at `last` or after it. -/
def bounded : Option K → Option K → Option K
  | some l, some n => if n ≥ l then none else some n
  | _, next => next

def succ (items : KeyedMap I) (base : σ) (key : K) (last : Option K) : Run Exception (Option K) := do
  let next ← succBase items base key last
  return bounded last (lower (succItem items key) next)

end Model

variable [OverlayItem I K α]

/-- The map that a table over the map `m` stands for. -/
def denote (items : KeyedMap I) (m : KeyedMap (SLE K α)) : KeyedMap (SLE K α) :=
  items.toList.foldl (fun m item => m.set (key item) (live item)) m

theorem foldl_set_find {l : List I} (hl : KeyedMap.Increasing l) (m : KeyedMap (SLE K α)) (k : K) :
    (l.foldl (fun m item => m.set (key item) (live item)) m).find k =
      match l.find? (key · = k) with
      | none => m.find k
      | some item => live item := by
  induction l generalizing m with
  | nil => rfl
  | cons i l ih =>
    have hset := m.find_set (k := key i) (o := live i) (fun _ => key_live) k
    rw [foldl_cons, ih hl.of_cons, hset]
    by_cases hk : key i = k
    · have hnone : l.find? (key · = k) = none := by
        refine find?_eq_none.2 fun j hj => ?_
        have := (pairwise_cons.1 hl).1 j hj
        simpa using (hk ▸ this).ne'
      rw [hnone, find?_cons_of_pos (by simpa using hk), if_pos hk.symm]
    · rw [find?_cons_of_neg (by simpa using hk), if_neg (Ne.symm hk)]

section
variable (items : KeyedMap I) (m : KeyedMap (SLE K α))

theorem find_denote (k : K) :
    (denote items m).find k = match items.find k with
      | none => m.find k
      | some item => live item :=
  foldl_set_find items.sorted m k

theorem denote_insert (i : I) : denote (items.insert i) m = (denote items m).set (key i) (live i) := by
  refine ext_find fun k => ?_
  rw [find_denote, find_insert, find_set _ (fun _ => key_live), find_denote]
  by_cases hk : k = key i
  · rw [if_pos hk, if_pos hk]
  · rw [if_neg hk, if_neg hk]

theorem denote_erase (k : K) : denote (items.erase k) m = (denote items m).set k (m.find k) := by
  refine ext_find fun k' => ?_
  rw [find_denote, find_erase, find_set _ (fun _ => key_of_find), find_denote]
  by_cases hk : k' = k
  · rw [if_pos hk, if_pos hk, hk]
  · rw [if_neg hk, if_neg hk]

end

/-- Every item of a table fits the base's entry of its key. -/
def Sound (Fit : I → Option (SLE K α) → Prop) (items : KeyedMap I) (m : KeyedMap (SLE K α)) : Prop :=
  ∀ k item, items.find k = some item → Fit item (m.find k)

section Sound
variable {Fit : I → Option (SLE K α) → Prop} {items : KeyedMap I} {m : KeyedMap (SLE K α)}

theorem sound_empty : Sound Fit (∅ : KeyedMap I) m := fun _ _ h => nomatch h

theorem Sound.insert (h : Sound Fit items m) {item : I} (hfit : Fit item (m.find (key item))) :
    Sound Fit (items.insert item) m := by
  intro k item' hfind
  rw [find_insert] at hfind
  split_ifs at hfind with hk
  · cases hfind
    exact hk ▸ hfit
  · exact h k item' hfind

theorem Sound.erase (h : Sound Fit items m) (k : K) : Sound Fit (items.erase k) m := by
  intro k' item hfind
  rw [find_erase] at hfind
  split_ifs at hfind
  exact h k' item hfind

theorem Sound.of_mem (h : Sound Fit items m) {item : I} (hitem : item ∈ items.toList) : Fit item (m.find (key item)) :=
  h _ _ (mem_toList.1 hitem)

end Sound

section Agreement
variable [ReadView σ K α] [RawView σ K α] [LawfulView σ] {base : σ} {m : KeyedMap (SLE K α)}

theorem read_eq (hb : LawfulView.Denotes base m) (items : KeyedMap I) (k : Keylet K) :
    read items base k = ((denote items m).find k.key).filter k.check := by
  rw [find_denote]
  unfold read
  cases items.find k.key with
  | none => exact LawfulView.read_eq hb k
  | some item => cases hlive : live item <;> simp [hlive, Option.filter]

theorem existsAt_eq (hb : LawfulView.Denotes base m) (items : KeyedMap I) (k : Keylet K)
    (hk : k.Fits (denote items m)) : existsAt items base k = ((denote items m).find k.key).isSome := by
  unfold Keylet.Fits at hk
  rw [find_denote] at hk ⊢
  unfold existsAt
  cases hitem : items.find k.key with
  | none =>
    rw [hitem] at hk
    exact LawfulView.existsAt_eq hb k hk
  | some item =>
    rw [hitem] at hk
    cases hlive : live item with
    | none => simp only [hlive, Option.isSome_none]
    | some sle => simp only [hlive, Option.isSome_some, hk sle hlive]

/-- The state of the loop of `succ`: `next` is the base's successor of a key up to which the base's entries are
erased. -/
def Passed (items : KeyedMap I) (m : KeyedMap (SLE K α)) (key : K) (last next : Option K) : Prop :=
  ∃ c, key ≤ c ∧ (∀ n, key < n → n ≤ c → (m.find n).isSome → erased items (some n) = true) ∧ next = m.succ c last

/-- The number of items that the loop may still find. -/
def ahead (items : KeyedMap I) : Option K → Nat
  | none => 0
  | some n => (items.toList.filter (n ≤ key ·)).length

theorem passed_step (hb : LawfulView.Denotes base m) {items : KeyedMap I} {key : K} {last next : Option K}
    (h : Passed items m key last next) (hc : erased items next = true) :
    ∃ next', (match next with
        | none => .ok none
        | some n => ReadView.succ base n last : Run Exception (Option K)) = .ok next' ∧
      Passed items m key last next' ∧ ahead items next' < ahead items next := by
  obtain ⟨c, hkc, hpassed, rfl⟩ := h
  cases hn : m.succ c last with
  | none =>
    rw [hn] at hc
    cases hc
  | some n =>
    rw [hn] at hc
    obtain ⟨hcn, -, -, hleast⟩ := succ_eq_iff.1 hn
    refine ⟨_, LawfulView.succ_eq hb n last, ⟨n, hkc.trans hcn.le, fun n' hkn' hn' hmem => ?_, rfl⟩, ?_⟩
    · rcases le_or_gt n' c with hle | hlt
      · exact hpassed n' hkn' hle hmem
      · obtain rfl := le_antisymm hn' (hleast n' hlt hmem)
        exact hc
    · obtain ⟨item, hitem, -⟩ := (Option.any_eq_true _ _).1 hc
      obtain ⟨hmem, hkey⟩ := find_eq_some.1 hitem
      have hpos : 0 < ahead items (some n) :=
        length_pos_of_mem (mem_filter.2 ⟨hmem, by simpa using hkey.ge⟩)
      cases hn' : m.succ n last with
      | none => exact hpos
      | some n' =>
        have hlt : n < n' := (succ_eq_iff.1 hn').1
        -- the item that was found is counted at `n` and not at `n'`
        have hsub : items.toList.filter (n' ≤ Keyed.key ·) =
            (items.toList.filter (n ≤ Keyed.key ·)).filter (n' ≤ Keyed.key ·) := by
          rw [filter_filter]
          refine filter_congr fun i _ => ?_
          by_cases hi : n' ≤ Keyed.key i
          · simp [hi, hlt.le.trans hi]
          · simp [hi]
        simp only [ahead]
        rw [hsub]
        exact length_filter_lt_length_iff_exists.2
          ⟨item, mem_filter.2 ⟨hmem, by simpa using hkey.ge⟩, by simpa [hkey] using hlt⟩

/-- The loop ends with the first entry of the base after `key` that the table does not erase. -/
theorem succBase_ok (hb : LawfulView.Denotes base m) (items : KeyedMap I) (key : K) (last : Option K) :
    ∃ next, succBase items base key last = .ok next ∧
      KeyedMap.IsSucc (fun n => (m.find n).isSome ∧ erased items (some n) = false) key last next := by
  have hinit : Passed items m key last (m.succ key last) :=
    ⟨key, le_rfl, fun n hlt hle => absurd hle hlt.not_ge, rfl⟩
  have hfuel : ahead items (m.succ key last) ≤ items.toList.length := by
    cases m.succ key last with
    | none => exact Nat.zero_le _
    | some n => exact length_filter_le _ _
  obtain ⟨next, hloop, ⟨c, hkc, hpassed, hnext⟩, hend⟩ :=
    Run.whileDo_total _ _ (fun next h hc => passed_step hb h hc) _ _ hinit hfuel
  refine ⟨next, ?_, ?_⟩
  · unfold succBase
    rw [LawfulView.succ_eq hb]
    exact hloop
  · have hsucc := succ_eq_iff.1 hnext.symm
    have hbeyond : ∀ n, key < n → (m.find n).isSome → erased items (some n) = false → c < n := by
      intro n hlt hmem hn
      refine lt_of_not_ge fun hle => ?_
      rw [hpassed n hlt hle hmem] at hn
      cases hn
    cases next with
    | none => exact fun n hlt hn => hsucc n (hbeyond n hlt hn.1 hn.2) hn.1
    | some n =>
      obtain ⟨hcn, hmem, hlast, hleast⟩ := hsucc
      exact ⟨hkc.trans_lt hcn, ⟨hmem, hend⟩, hlast, fun n' hlt hn' => hleast n' (hbeyond n' hlt hn'.1 hn'.2) hn'.1⟩

theorem isSucc_succItem (items : KeyedMap I) (k : K) :
    KeyedMap.IsSucc (fun n => ∃ item, items.find n = some item ∧ (live item).isSome) k none (succItem items k) := by
  have hinc := items.increasing_upperBound k
  unfold succItem
  cases hfind : (items.upperBound k).find? fun item => (live item).isSome with
  | none =>
    rintro n hlt ⟨item, hitem, hlive⟩
    obtain ⟨hmem, rfl⟩ := find_eq_some.1 hitem
    have := find?_eq_none.1 hfind item (mem_upperBound.2 ⟨hmem, hlt⟩)
    exact absurd hlive this
  | some item =>
    obtain ⟨hmem, hlt⟩ := mem_upperBound.1 (mem_of_find?_eq_some hfind)
    have hlive := find?_some hfind
    refine ⟨hlt, ⟨item, mem_toList.1 hmem, hlive⟩, fun _ hl => (nomatch hl), ?_⟩
    rintro n' hlt' ⟨item', hitem', hlive'⟩
    obtain ⟨hmem', rfl⟩ := find_eq_some.1 hitem'
    exact key_le_of_find? hinc hfind (mem_upperBound.2 ⟨hmem', hlt'⟩) hlive'

/-- A key of the map that a table stands for has a live item, or an entry of the base that is not erased. -/
theorem isSome_find_denote (items : KeyedMap I) (m : KeyedMap (SLE K α)) (n : K) :
    ((denote items m).find n).isSome ↔
      (∃ item, items.find n = some item ∧ (live item).isSome) ∨
        ((m.find n).isSome ∧ erased items (some n) = false) := by
  rw [find_denote]
  unfold erased
  cases hitem : items.find n with
  | none => simp [hitem]
  | some item => cases hlive : live item <;> simp [hitem, hlive]

theorem isSucc_bounded_lower {P Q : K → Prop} {k : K} {last i n : Option K} (hi : KeyedMap.IsSucc P k none i)
    (hn : KeyedMap.IsSucc Q k last n) : KeyedMap.IsSucc (fun n => P n ∨ Q n) k last (bounded last (lower i n)) := by
  have hnone : i = none → ∀ x, k < x → ¬ P x := by
    rintro rfl x hx hP
    obtain ⟨l, hl, -⟩ := hi x hx hP
    cases hl
  -- a key that is found is the least one, and the bound is looked at last
  have hfound : ∀ x, k < x → P x ∨ Q x → (∀ x', k < x' → P x' ∨ Q x' → x ≤ x' ∨ ∃ l, last = some l ∧ l ≤ x') →
      KeyedMap.IsSucc (fun n => P n ∨ Q n) k last (bounded last (some x)) := by
    intro x hx hPQ hleast
    cases last with
    | none => exact ⟨hx, hPQ, nofun, fun x' hx' h => (hleast x' hx' h).resolve_right (by rintro ⟨l, hl, -⟩; cases hl)⟩
    | some l =>
      by_cases hl : x ≥ l
      · rw [bounded, if_pos hl]
        intro x' hx' h
        refine ⟨l, rfl, ?_⟩
        rcases hleast x' hx' h with hle | ⟨l', hl', hle⟩
        · exact hl.trans hle
        · cases hl'
          exact hle
      · rw [bounded, if_neg hl]
        refine ⟨hx, hPQ, fun l' hl' => by cases hl'; exact not_le.1 hl, fun x' hx' h => ?_⟩
        rcases hleast x' hx' h with hle | ⟨l', hl', hle⟩
        · exact hle
        · cases hl'
          exact (not_le.1 hl).le.trans hle
  cases i with
  | none =>
    cases n with
    | none =>
      have hlast : bounded last (none : Option K) = none := by cases last <;> rfl
      rw [lower, hlast]
      rintro x hx (hP | hQ)
      · exact absurd hP (hnone rfl x hx)
      · exact hn x hx hQ
    | some n =>
      refine hfound n hn.1 (.inr hn.2.1) ?_
      rintro x hx (hP | hQ)
      · exact absurd hP (hnone rfl x hx)
      · exact .inl (hn.2.2.2 x hx hQ)
  | some i =>
    cases n with
    | none =>
      refine hfound i hi.1 (.inl hi.2.1) ?_
      rintro x hx (hP | hQ)
      · exact .inl (hi.2.2.2 x hx hP)
      · exact .inr (hn x hx hQ)
    | some n =>
      rw [lower]
      split_ifs with hlt
      · refine hfound i hi.1 (.inl hi.2.1) ?_
        rintro x hx (hP | hQ)
        · exact .inl (hi.2.2.2 x hx hP)
        · exact .inl (hlt.le.trans (hn.2.2.2 x hx hQ))
      · refine hfound n hn.1 (.inr hn.2.1) ?_
        rintro x hx (hP | hQ)
        · exact .inl ((not_lt.1 hlt).trans (hi.2.2.2 x hx hP))
        · exact .inl (hn.2.2.2 x hx hQ)

theorem succ_eq (hb : LawfulView.Denotes base m) (items : KeyedMap I) (key : K) (last : Option K) :
    succ items base key last = .ok ((denote items m).succ key last) := by
  obtain ⟨next, hnext, hsucc⟩ := succBase_ok hb items key last
  have h := isSucc_bounded_lower (isSucc_succItem items key) hsucc
  have hpresent : (fun n => ((denote items m).find n).isSome = true) = fun n =>
      (∃ item, items.find n = some item ∧ (live item).isSome) ∨ ((m.find n).isSome ∧ erased items (some n) = false) :=
    funext fun n => propext (isSome_find_denote items m n)
  rw [← hpresent] at h
  unfold succ
  rw [hnext, succ_eq_iff.2 h]
  rfl

/-- The loop of `apply`: each item finds the base's entry of its key as it was, since no two items have one key. -/
theorem foldlM_denotes {step : σ → I → Run Exception σ} {Fit : I → Option (SLE K α) → Prop}
    (hstep : ∀ (s : σ) (m : KeyedMap (SLE K α)) (i : I), LawfulView.Denotes s m → Fit i (m.find (key i)) →
      ∃ s', step s i = .ok s' ∧ LawfulView.Denotes s' (m.set (key i) (live i)))
    {l : List I} (hl : KeyedMap.Increasing l) (hb : LawfulView.Denotes base m)
    (hfit : ∀ i ∈ l, Fit i (m.find (key i))) :
    ∃ s', l.foldlM step base = .ok s' ∧
      LawfulView.Denotes s' (l.foldl (fun m item => m.set (key item) (live item)) m) := by
  induction l generalizing base m with
  | nil => exact ⟨base, rfl, hb⟩
  | cons i l ih =>
    obtain ⟨s, hs, hd⟩ := hstep base m i hb (hfit i mem_cons_self)
    obtain ⟨s', hs', hd'⟩ := ih hl.of_cons hd fun j hj => by
      have hlt := (pairwise_cons.1 hl).1 j hj
      rw [find_set m (fun _ => key_live), if_neg hlt.ne']
      exact hfit j (mem_cons_of_mem i hj)
    refine ⟨s', ?_, hd'⟩
    rw [foldlM_cons, hs]
    exact hs'

end Agreement

end Overlay

end Rippled.View
