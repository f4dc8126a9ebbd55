import Mathlib.Order.Nat
import Rippled.Ledger.View

/-!
# Modifications of a ledger's state by a transaction

An `ApplyStateTable` keeps, for every entry that was looked at or changed, what is to become of it. `erase` and
`update` take the pointer that `peek` or `insert` gave, and check it. What the caller changes in an entry counts from
the `update` or `erase` that announces it: the entry comes with the pointer there. A `Sandbox` is such a table over a
base view, and can itself be the base of another one.
-/

namespace Rippled.View

open Lib Lib.Keyed OverlayItem KeyedMap

variable {K α σ : Type} [LinearOrder K]

namespace ApplyStateTable

inductive Action where
  | cache
  | erase
  | insert
  | modify
  deriving DecidableEq

structure Item (K α : Type) where
  action : Action
  ref : SLERef K α
  deriving DecidableEq

instance : OverlayItem (Item K α) K α where
  key item := item.ref.sle.key
  live item := if item.action = .erase then none else some item.ref.sle
  key_live {item sle} h := by
    obtain ⟨-, h⟩ := Option.ite_none_left_eq_some.1 h
    exact (congrArg SLE.key (Option.some.inj h)).symm

end ApplyStateTable

open ApplyStateTable in
structure ApplyStateTable (K α : Type) [LinearOrder K] where
  items : KeyedMap (Item K α) := ∅
  dropsDestroyed : Int := 0

variable {r : SLERef K α} {ptr : Nat} {k : Keylet K} {m : KeyedMap (SLE K α)}

namespace ApplyStateTable

/-! ## The table -/

section Read
variable [ReadView σ K α]

def existsAt (tab : ApplyStateTable K α) (base : σ) (k : Keylet K) : Bool := Overlay.existsAt tab.items base k

def succ (tab : ApplyStateTable K α) (base : σ) (key : K) (last : Option K) : Run Exception (Option K) :=
  Overlay.succ tab.items base key last

def read (tab : ApplyStateTable K α) (base : σ) (k : Keylet K) : Option (SLE K α) := Overlay.read tab.items base k

/-- `peek`, where `ptr` points to the copy that is made of an entry of the base. -/
def peek (tab : ApplyStateTable K α) (base : σ) (k : Keylet K) (ptr : Nat) :
    Option (SLERef K α) × ApplyStateTable K α :=
  match tab.items.find k.key with
  | none =>
    match ReadView.read base k with
    | none => (none, tab)
    | some sle => (some ⟨ptr, sle⟩, { tab with items := tab.items.insert ⟨.cache, ptr, sle⟩ })
  | some item =>
    match item.action with
    | .erase => (none, tab)
    | _ => if k.check item.ref.sle then (some item.ref, tab) else (none, tab)

end Read

/-- The switch of `erase` and `rawErase`, with the text for an item that is erased already. -/
def remove (tab : ApplyStateTable K α) (r : SLERef K α) (doubleErase : String) :
    Action → Run Exception (ApplyStateTable K α)
  | .erase => Run.throw (.logicError doubleErase)
  | .insert => .ok { tab with items := tab.items.erase r.sle.key }
  | .cache | .modify => .ok { tab with items := tab.items.insert ⟨.erase, r⟩ }

def erase (tab : ApplyStateTable K α) (r : SLERef K α) : Run Exception (ApplyStateTable K α) :=
  match tab.items.find r.sle.key with
  | none => Run.throw (.logicError "ApplyStateTable::erase: missing key")
  | some item =>
    if item.ref.ptr ≠ r.ptr then Run.throw (.logicError "ApplyStateTable::erase: unknown SLE")
    else tab.remove r "ApplyStateTable::erase: double erase" item.action

def rawErase (tab : ApplyStateTable K α) (r : SLERef K α) : Run Exception (ApplyStateTable K α) :=
  match tab.items.find r.sle.key with
  | none => .ok { tab with items := tab.items.insert ⟨.erase, r⟩ }
  | some item => tab.remove r "ApplyStateTable::rawErase: double erase" item.action

def insert (tab : ApplyStateTable K α) (r : SLERef K α) : Run Exception (ApplyStateTable K α) :=
  match tab.items.find r.sle.key with
  | none => .ok { tab with items := tab.items.insert ⟨.insert, r⟩ }
  | some item =>
    match item.action with
    | .cache => Run.throw (.logicError "ApplyStateTable::insert: already cached")
    | .insert => Run.throw (.logicError "ApplyStateTable::insert: already inserted")
    | .modify => Run.throw (.logicError "ApplyStateTable::insert: already modified")
    | .erase => .ok { tab with items := tab.items.insert ⟨.modify, r⟩ }

/-- The switch of `replace` and `update`, with the text for an item that is erased. -/
def write (tab : ApplyStateTable K α) (r : SLERef K α) (erased : String) : Action → Run Exception (ApplyStateTable K α)
  | .erase => Run.throw (.logicError erased)
  | .cache => .ok { tab with items := tab.items.insert ⟨.modify, r⟩ }
  | .insert => .ok { tab with items := tab.items.insert ⟨.insert, r⟩ }
  | .modify => .ok { tab with items := tab.items.insert ⟨.modify, r⟩ }

def replace (tab : ApplyStateTable K α) (r : SLERef K α) : Run Exception (ApplyStateTable K α) :=
  match tab.items.find r.sle.key with
  | none => .ok { tab with items := tab.items.insert ⟨.modify, r⟩ }
  | some item => tab.write r "ApplyStateTable::replace: already erased" item.action

def update (tab : ApplyStateTable K α) (r : SLERef K α) : Run Exception (ApplyStateTable K α) :=
  match tab.items.find r.sle.key with
  | none => Run.throw (.logicError "ApplyStateTable::update: missing key")
  | some item =>
    if item.ref.ptr ≠ r.ptr then Run.throw (.logicError "ApplyStateTable::update: unknown SLE")
    else tab.write r "ApplyStateTable::update: erased" item.action

def destroyXRP (tab : ApplyStateTable K α) (fee : Int) : ApplyStateTable K α :=
  { tab with dropsDestroyed := tab.dropsDestroyed + fee }

def applyItem [RawView σ K α] (to' : σ) (item : Item K α) : Run Exception σ :=
  match item.action with
  | .cache => .ok to'
  | .erase => RawView.rawErase to' item.ref
  | .insert => RawView.rawInsert to' item.ref
  | .modify => RawView.rawReplace to' item.ref

def apply [RawView σ K α] (tab : ApplyStateTable K α) (to' : σ) : Run Exception σ :=
  tab.items.toList.foldlM applyItem (RawView.rawDestroyXRP to' tab.dropsDestroyed)

/-! ## Operations -/

/-- The operations on a table, without the pointers. -/
inductive Op (K α : Type) where
  | peek (k : Keylet K)
  | insert (sle : SLE K α)
  | update (sle : SLE K α)
  | erase (sle : SLE K α)
  | replace (sle : SLE K α)
  | rawErase (sle : SLE K α)

namespace Op

def run [ReadView σ K α] (base : σ) (tab : ApplyStateTable K α) (ptr : Nat) :
    Op K α → Run Exception (ApplyStateTable K α)
  | .peek k => .ok (tab.peek base k ptr).2
  | .insert sle => tab.insert ⟨ptr, sle⟩
  | .update sle => tab.update ⟨ptr, sle⟩
  | .erase sle => tab.erase ⟨ptr, sle⟩
  | .replace sle => tab.replace ⟨ptr, sle⟩
  | .rawErase sle => tab.rawErase ⟨ptr, sle⟩

def act (m : KeyedMap (SLE K α)) : Op K α → KeyedMap (SLE K α)
  | .peek _ => m
  | .insert sle | .update sle | .replace sle => m.insert sle
  | .erase sle | .rawErase sle => m.erase sle.key

end Op

/-- The table holds an entry of the key under that pointer: it is what `peek` or `insert` gave. -/
def Holds (tab : ApplyStateTable K α) (k : K) (ptr : Nat) : Prop :=
  ∃ item, tab.items.find k = some item ∧ item.action ≠ .erase ∧ item.ref.ptr = ptr

/-- What the operations require: what is inserted is absent, what is replaced or erased by `rawErase` is present, and
what is updated or erased is an entry that `peek` or `insert` gave. -/
def Op.Allowed (tab : ApplyStateTable K α) (m : KeyedMap (SLE K α)) (ptr : Nat) : Op K α → Prop
  | .peek _ => True
  | .insert sle => m.find sle.key = none
  | .update sle | .erase sle => tab.Holds sle.key ptr
  | .replace sle | .rawErase sle => (m.find sle.key).isSome

/-- The tables that come about over a base with the entries `m`, by operations that are used as they require. -/
inductive Runs [ReadView σ K α] (base : σ) (m : KeyedMap (SLE K α)) : List (Op K α) → ApplyStateTable K α → Prop
  | nil : Runs base m [] {}
  | snoc {ops : List (Op K α)} {op : Op K α} {tab tab' : ApplyStateTable K α} (h : Runs base m ops tab) (ptr : Nat)
      (hop : op.Allowed tab (ops.foldl Op.act m) ptr) (hrun : op.run base tab ptr = .ok tab') :
      Runs base m (ops ++ [op]) tab'

/-! ## What an operation does to the table -/

open Overlay

/-- What an item says about the base's entry of its key. -/
def Fits (item : Item K α) (entry : Option (SLE K α)) : Prop :=
  match item.action with
  | .cache => entry = some item.ref.sle
  | .erase | .modify => entry.isSome
  | .insert => entry = none

/-- The table gets an item with the entry. -/
def Writes (tab tab' : ApplyStateTable K α) (m : KeyedMap (SLE K α)) (r : SLERef K α) : Prop :=
  ∃ a, a ≠ .erase ∧ tab'.items = tab.items.insert ⟨a, r⟩ ∧ Fits ⟨a, r⟩ (m.find r.sle.key)

/-- The table gets an item that erases the entry, or has none any more if the base has none. -/
def Erases (tab tab' : ApplyStateTable K α) (m : KeyedMap (SLE K α)) (r : SLERef K α) : Prop :=
  (tab'.items = tab.items.insert ⟨.erase, r⟩ ∧ (m.find r.sle.key).isSome) ∨
    (tab'.items = tab.items.erase r.sle.key ∧ m.find r.sle.key = none)

variable {tab' : ApplyStateTable K α}

section Step
variable {tab : ApplyStateTable K α} {m : KeyedMap (SLE K α)} {item : Item K α}

/-- An item of the table hides the entry below. -/
theorem find_denote_of_find {k : K} (h : tab.items.find k = some item) :
    (denote tab.items m).find k = if item.action = .erase then none else some item.ref.sle := by
  rw [find_denote, h]
  rfl

theorem find_denote_of_none {k : K} (h : tab.items.find k = none) : (denote tab.items m).find k = m.find k := by
  rw [find_denote, h]

theorem not_erase_of_isSome {k : K} (hfind : tab.items.find k = some item)
    (h : ((denote tab.items m).find k).isSome) : item.action ≠ .erase := by
  intro he
  rw [find_denote_of_find hfind, if_pos he] at h
  cases h

section Sound

variable (hs : Sound Fits tab.items m)

include hs

/-- An entry that is absent can be inserted. -/
theorem insert_ok (hr : (denote tab.items m).find r.sle.key = none) :
    ∃ tab', tab.insert r = .ok tab' ∧ Writes tab tab' m r := by
  unfold insert
  cases hfind : tab.items.find r.sle.key with
  | none => exact ⟨_, rfl, .insert, nofun, rfl, (find_denote_of_none hfind).symm.trans hr⟩
  | some item =>
    rw [find_denote_of_find hfind] at hr
    have hfits := hs _ _ hfind
    unfold Fits at hfits
    dsimp only
    cases haction : item.action with
    | erase =>
      rw [haction] at hfits
      exact ⟨_, rfl, .modify, nofun, rfl, hfits⟩
    | cache | insert | modify =>
      rw [haction] at hr
      cases hr

section
variable (hfind : tab.items.find r.sle.key = some item) (hlive : item.action ≠ .erase)
include hfind hlive

theorem write_ok (erased : String) : ∃ tab', tab.write r erased item.action = .ok tab' ∧ Writes tab tab' m r := by
  have hfits := hs _ _ hfind
  unfold Fits at hfits
  cases haction : item.action with
  | erase => exact absurd haction hlive
  | cache =>
    rw [haction] at hfits
    exact ⟨_, rfl, .modify, nofun, rfl, Option.isSome_iff_exists.2 ⟨_, hfits⟩⟩
  | insert =>
    rw [haction] at hfits
    exact ⟨_, rfl, .insert, nofun, rfl, hfits⟩
  | modify =>
    rw [haction] at hfits
    exact ⟨_, rfl, .modify, nofun, rfl, hfits⟩

theorem remove_ok (doubleErase : String) : ∃ tab', tab.remove r doubleErase item.action = .ok tab' ∧
    Erases tab tab' m r := by
  have hfits := hs _ _ hfind
  unfold Fits at hfits
  cases haction : item.action with
  | erase => exact absurd haction hlive
  | cache =>
    rw [haction] at hfits
    exact ⟨_, rfl, .inl ⟨rfl, Option.isSome_iff_exists.2 ⟨_, hfits⟩⟩⟩
  | insert =>
    rw [haction] at hfits
    exact ⟨_, rfl, .inr ⟨rfl, hfits⟩⟩
  | modify =>
    rw [haction] at hfits
    exact ⟨_, rfl, .inl ⟨rfl, hfits⟩⟩

end

/-- An entry that is present can be replaced. -/
theorem replace_ok (hr : ((denote tab.items m).find r.sle.key).isSome) :
    ∃ tab', tab.replace r = .ok tab' ∧ Writes tab tab' m r := by
  unfold replace
  cases hfind : tab.items.find r.sle.key with
  | none => exact ⟨_, rfl, .modify, nofun, rfl, find_denote_of_none hfind ▸ hr⟩
  | some item => exact write_ok hs hfind (not_erase_of_isSome hfind hr) _

/-- An entry that was peeked or inserted can be updated. -/
theorem update_ok (hr : tab.Holds r.sle.key r.ptr) :
    ∃ tab', tab.update r = .ok tab' ∧ Writes tab tab' m r := by
  obtain ⟨item, hfind, hlive, hptr⟩ := hr
  unfold update
  rw [hfind]
  dsimp only
  rw [if_neg (not_not.2 hptr)]
  exact write_ok hs hfind hlive _

/-- An entry that was peeked or inserted can be erased. -/
theorem erase_ok (hr : tab.Holds r.sle.key r.ptr) :
    ∃ tab', tab.erase r = .ok tab' ∧ Erases tab tab' m r := by
  obtain ⟨item, hfind, hlive, hptr⟩ := hr
  unfold erase
  rw [hfind]
  dsimp only
  rw [if_neg (not_not.2 hptr)]
  exact remove_ok hs hfind hlive _

/-- An entry that is present can be erased, peeked or not. -/
theorem rawErase_ok (hr : ((denote tab.items m).find r.sle.key).isSome) :
    ∃ tab', tab.rawErase r = .ok tab' ∧ Erases tab tab' m r := by
  unfold rawErase
  cases hfind : tab.items.find r.sle.key with
  | none => exact ⟨_, rfl, .inl ⟨rfl, find_denote_of_none hfind ▸ hr⟩⟩
  | some item => exact remove_ok hs hfind (not_erase_of_isSome hfind hr) _

end Sound

theorem Writes.sound (h : Writes tab tab' m r) (hs : Sound Fits tab.items m) : Sound Fits tab'.items m := by
  obtain ⟨a, -, hitems, hfits⟩ := h
  rw [hitems]
  exact hs.insert hfits

/-- A write inserts the entry. -/
theorem Writes.denote_eq (h : Writes tab tab' m r) : denote tab'.items m = (denote tab.items m).insert r.sle := by
  obtain ⟨a, ha, hitems, -⟩ := h
  rw [hitems, denote_insert]
  have hlive : live (⟨a, r⟩ : Item K α) = some r.sle := if_neg ha
  rw [hlive]
  rfl

theorem Erases.sound (h : Erases tab tab' m r) (hs : Sound Fits tab.items m) : Sound Fits tab'.items m := by
  rcases h with ⟨hitems, hsome⟩ | ⟨hitems, -⟩
  · rw [hitems]
    exact hs.insert hsome
  · rw [hitems]
    exact hs.erase _

/-- An erasure takes the entry away. -/
theorem Erases.denote_eq (h : Erases tab tab' m r) : denote tab'.items m = (denote tab.items m).erase r.sle.key := by
  rcases h with ⟨hitems, -⟩ | ⟨hitems, hnone⟩
  · rw [hitems, denote_insert]
    rfl
  · rw [hitems, denote_erase, hnone]
    rfl

/-- `peek` puts at most a copy of the base's entry into the table. -/
def Peeks (tab tab' : ApplyStateTable K α) (m : KeyedMap (SLE K α)) (k : Keylet K) (ptr : Nat) : Prop :=
  (tab' = tab ∧ (tab.items.find k.key = none → ∀ sle, m.find k.key = some sle → k.check sle = false)) ∨
    ∃ sle, tab.items.find k.key = none ∧ m.find k.key = some sle ∧ k.check sle = true ∧
      tab'.items = tab.items.insert ⟨.cache, ptr, sle⟩

/-- `peek` copies an entry of the base at most. -/
theorem peek_ok [ReadView σ K α] [RawView σ K α] [LawfulView σ] {base : σ} (hb : LawfulView.Denotes base m)
    (k : Keylet K) (ptr : Nat) : Peeks tab (tab.peek base k ptr).2 m k ptr := by
  unfold Peeks peek
  cases hfind : tab.items.find k.key with
  | none =>
    dsimp only
    rw [LawfulView.read_eq hb]
    cases hm : m.find k.key with
    | none => exact .inl ⟨rfl, nofun⟩
    | some sle =>
      cases hc : k.check sle with
      | false =>
        rw [Option.filter_some_neg (by simp [hc])]
        refine .inl ⟨rfl, fun _ sle' hsle' => ?_⟩
        cases hsle'
        exact hc
      | true =>
        rw [Option.filter_some_pos hc]
        exact .inr ⟨sle, rfl, rfl, hc, rfl⟩
  | some item =>
    refine .inl ⟨?_, nofun⟩
    dsimp only
    cases item.action with
    | erase => rfl
    | cache | insert | modify =>
      dsimp only
      split_ifs <;> rfl

theorem Peeks.sound (h : Peeks tab tab' m k ptr) (hs : Sound Fits tab.items m) : Sound Fits tab'.items m := by
  rcases h with ⟨rfl, -⟩ | ⟨sle, -, hm, -, hitems⟩
  · exact hs
  · have hk : sle.key = k.key := key_of_find hm
    rw [hitems]
    exact hs.insert (hk ▸ hm : m.find sle.key = some sle)

/-- A peek is not seen. -/
theorem Peeks.denote_eq (h : Peeks tab tab' m k ptr) : denote tab'.items m = denote tab.items m := by
  rcases h with ⟨rfl, -⟩ | ⟨sle, hnone, hm, -, hitems⟩
  · rfl
  · have hk : sle.key = k.key := key_of_find hm
    have hfind : (Overlay.denote tab.items m).find sle.key = some sle := by rw [hk, find_denote_of_none hnone, hm]
    rw [hitems, denote_insert]
    exact (congrArg _ hfind.symm).trans (set_find _ _)

end Step

/-- What an operation does to a table over a base with the entries `m`. -/
def Op.Effect (tab tab' : ApplyStateTable K α) (m : KeyedMap (SLE K α)) (ptr : Nat) : Op K α → Prop
  | .peek k => Peeks tab tab' m k ptr
  | .insert sle | .update sle | .replace sle => Writes tab tab' m ⟨ptr, sle⟩
  | .erase sle | .rawErase sle => Erases tab tab' m ⟨ptr, sle⟩

variable {tab : ApplyStateTable K α}

theorem Op.Effect.sound {op : Op K α} (h : op.Effect tab tab' m ptr) (hs : Sound Fits tab.items m) :
    Sound Fits tab'.items m := by
  cases op with
  | peek k => exact Peeks.sound h hs
  | insert sle | update sle | replace sle => exact Writes.sound h hs
  | erase sle | rawErase sle => exact Erases.sound h hs

/-- An operation on the table is the operation on the map. -/
theorem Op.Effect.denote_eq {op : Op K α} (h : op.Effect tab tab' m ptr) :
    denote tab'.items m = op.act (denote tab.items m) := by
  cases op with
  | peek k => exact Peeks.denote_eq h
  | insert sle | update sle | replace sle => exact Writes.denote_eq h
  | erase sle | rawErase sle => exact Erases.denote_eq h

/-! ## Runs -/

section Runs
variable [ReadView σ K α] [RawView σ K α] [LawfulView σ] {base : σ} {m : KeyedMap (SLE K α)}

/-- An operation that is allowed succeeds, with its effect. -/
theorem Op.run_ok (hb : LawfulView.Denotes base m) (hs : Sound Fits tab.items m) {op : Op K α}
    (hop : op.Allowed tab (denote tab.items m) ptr) : ∃ tab', op.run base tab ptr = .ok tab' ∧
      op.Effect tab tab' m ptr := by
  cases op with
  | peek k => exact ⟨_, rfl, peek_ok hb k ptr⟩
  | insert sle => exact insert_ok hs hop
  | update sle => exact update_ok hs hop
  | erase sle => exact erase_ok hs hop
  | replace sle => exact replace_ok hs hop
  | rawErase sle => exact rawErase_ok hs hop

/-- After every run the table stands for the operations on the map. -/
theorem Runs.denotes (hb : LawfulView.Denotes base m) {ops : List (Op K α)} (h : Runs base m ops tab) :
    Sound Fits tab.items m ∧ denote tab.items m = ops.foldl Op.act m := by
  induction h with
  | nil => exact ⟨sound_empty, rfl⟩
  | @snoc ops op tab tab' h ptr hop hrun ih =>
    obtain ⟨hs, hd⟩ := ih
    obtain ⟨tab'', hrun', heffect⟩ := Op.run_ok hb hs (hd ▸ hop)
    rw [hrun] at hrun'
    cases hrun'
    refine ⟨heffect.sound hs, ?_⟩
    rw [List.foldl_append, ← hd]
    exact heffect.denote_eq

/-- One item is carried over to the base. -/
theorem applyItem_ok (s : σ) (m : KeyedMap (SLE K α)) (item : Item K α) (hs : LawfulView.Denotes s m)
    (hfits : Fits item (m.find (key item))) :
    ∃ s', applyItem s item = .ok s' ∧ LawfulView.Denotes s' (m.set (key item) (live item)) := by
  obtain ⟨action, r⟩ := item
  cases action with
  | cache =>
    have hfind : m.find r.sle.key = some r.sle := hfits
    refine ⟨s, rfl, ?_⟩
    have hset : m.set r.sle.key (some r.sle) = m := hfind ▸ m.set_find r.sle.key
    exact hset.symm ▸ hs
  | erase => exact LawfulView.rawErase_ok hs r hfits
  | insert => exact LawfulView.rawInsert_ok hs r hfits
  | modify => exact LawfulView.rawReplace_ok hs r hfits

/-- The table is carried over to the base, which then stands for the same map. -/
theorem apply_ok (hb : LawfulView.Denotes base m) (hs : Sound Fits tab.items m) :
    ∃ base', tab.apply base = .ok base' ∧ LawfulView.Denotes base' (denote tab.items m) :=
  foldlM_denotes applyItem_ok tab.items.sorted (LawfulView.rawDestroyXRP_ok hb _) fun _ => hs.of_mem

end Runs

end ApplyStateTable

/-! ## Sandboxes -/

/-- A table over a base view (`ApplyViewBase`). -/
structure Sandbox (σ K α : Type) [LinearOrder K] where
  base : σ
  items : ApplyStateTable K α

namespace Sandbox

instance [ReadView σ K α] : ReadView (Sandbox σ K α) K α where
  existsAt v := v.items.existsAt v.base
  read v := v.items.read v.base
  succ v := v.items.succ v.base

instance : RawView (Sandbox σ K α) K α where
  rawErase v r := return { v with items := ← v.items.rawErase r }
  rawInsert v r := return { v with items := ← v.items.insert r }
  rawReplace v r := return { v with items := ← v.items.replace r }
  rawDestroyXRP v fee := { v with items := v.items.destroyXRP fee }

variable [ReadView σ K α] [RawView σ K α] [LawfulView σ]

/-- The map that a sandbox stands for: the table's items fit the base. -/
def Denotes (v : Sandbox σ K α) (m : KeyedMap (SLE K α)) : Prop :=
  ∃ m₀, LawfulView.Denotes v.base m₀ ∧ Overlay.Sound ApplyStateTable.Fits v.items.items m₀ ∧
    m = Overlay.denote v.items.items m₀

instance : LawfulView (Sandbox σ K α) where
  Denotes := Denotes
  read_eq := by
    rintro v m ⟨m₀, hb, -, rfl⟩ k
    exact Overlay.read_eq hb v.items.items k
  existsAt_eq := by
    rintro v m ⟨m₀, hb, -, rfl⟩ k hk
    exact Overlay.existsAt_eq hb v.items.items k hk
  succ_eq := by
    rintro v m ⟨m₀, hb, -, rfl⟩ key last
    exact Overlay.succ_eq hb v.items.items key last
  rawErase_ok := by
    rintro v m ⟨m₀, hb, hs, rfl⟩ r hr
    obtain ⟨tab, hrun, he⟩ := ApplyStateTable.rawErase_ok hs hr
    exact ⟨{ v with items := tab }, by simp only [RawView.rawErase, hrun]; rfl, m₀, hb, he.sound hs, he.denote_eq.symm⟩
  rawInsert_ok := by
    rintro v m ⟨m₀, hb, hs, rfl⟩ r hr
    obtain ⟨tab, hrun, hw⟩ := ApplyStateTable.insert_ok hs hr
    exact ⟨{ v with items := tab }, by simp only [RawView.rawInsert, hrun]; rfl, m₀, hb, hw.sound hs, hw.denote_eq.symm⟩
  rawReplace_ok := by
    rintro v m ⟨m₀, hb, hs, rfl⟩ r hr
    obtain ⟨tab, hrun, hw⟩ := ApplyStateTable.replace_ok hs hr
    exact ⟨{ v with items := tab },
      by simp only [RawView.rawReplace, hrun]; rfl, m₀, hb, hw.sound hs, hw.denote_eq.symm⟩
  rawDestroyXRP_ok h _ := h

end Sandbox

namespace ApplyStateTable

/-! ## Nested sandboxes -/

open Overlay

variable {child : ApplyStateTable K α}

section Covers
variable {tab tab' : ApplyStateTable K α} {m : KeyedMap (SLE K α)}

theorem Holds.isSome {k : K} (h : tab.Holds k ptr) : ((denote tab.items m).find k).isSome := by
  obtain ⟨item, hfind, hlive, -⟩ := h
  rw [find_denote_of_find hfind, if_neg hlive]
  rfl

theorem Holds.congr {k : K} (h : tab.Holds k ptr) (hfind : tab'.items.find k = tab.items.find k) :
    tab'.Holds k ptr := by
  unfold Holds
  rw [hfind]
  exact h

/-- An entry with an item is held under some pointer while it is present. -/
theorem holds_of_isSome {k : K} {item : Item K α} (hfind : tab.items.find k = some item)
    (h : ((denote tab.items m).find k).isSome) : ∃ ptr, tab.Holds k ptr :=
  ⟨item.ref.ptr, item, hfind, not_erase_of_isSome hfind h, rfl⟩

theorem Writes.holds (h : Writes tab tab' m r) : tab'.Holds r.sle.key r.ptr := by
  obtain ⟨a, ha, hitems, -⟩ := h
  exact ⟨⟨a, r⟩, by rw [hitems]; exact find_insert_self _ (⟨a, r⟩ : Item K α), ha, rfl⟩

theorem Writes.find_of_ne (h : Writes tab tab' m r) {k : K} (hk : k ≠ r.sle.key) :
    tab'.items.find k = tab.items.find k := by
  obtain ⟨a, -, hitems, -⟩ := h
  rw [hitems]
  exact find_insert_of_ne _ hk

theorem Erases.find_of_ne (h : Erases tab tab' m r) {k : K} (hk : k ≠ r.sle.key) :
    tab'.items.find k = tab.items.find k := by
  rcases h with ⟨hitems, -⟩ | ⟨hitems, -⟩ <;> rw [hitems]
  · exact find_insert_of_ne _ hk
  · exact find_erase_of_ne _ hk

/-- An erased entry is not held under any pointer. -/
theorem Erases.not_holds (h : Erases tab tab' m r) : ¬ tab'.Holds r.sle.key ptr := by
  intro hholds
  have := hholds.isSome (m := m)
  rw [h.denote_eq, find_erase_self] at this
  cases this

variable {ptr' : Nat}

theorem Peeks.holds (h : Peeks tab tab' m k ptr) {k' : K} (hk : tab.Holds k' ptr') : tab'.Holds k' ptr' := by
  rcases h with ⟨rfl, -⟩ | ⟨sle, hnone, hm, -, hitems⟩
  · exact hk
  · refine hk.congr ?_
    rw [hitems]
    refine find_insert_of_ne _ ?_
    rintro rfl
    obtain ⟨item, hfind, -⟩ := hk
    have hkey : sle.key = k.key := key_of_find hm
    change tab.items.find sle.key = _ at hfind
    rw [hkey, hnone] at hfind
    cases hfind

theorem Peeks.holds_of_find (h : Peeks tab tab' m k ptr) {sle : SLE K α}
    (hsle : (denote tab.items m).find k.key = some sle) (hc : k.check sle = true) : ∃ ptr', tab'.Holds k.key ptr' := by
  cases hfind : tab.items.find k.key with
  | some item =>
    obtain ⟨ptr', hholds⟩ := holds_of_isSome hfind (Option.isSome_iff_exists.2 ⟨sle, hsle⟩)
    exact ⟨ptr', h.holds hholds⟩
  | none =>
    rw [find_denote_of_none hfind] at hsle
    rcases h with ⟨-, hno⟩ | ⟨sle', -, hm, -, hitems⟩
    · rw [hno hfind sle hsle] at hc
      cases hc
    · have hkey : sle'.key = k.key := key_of_find hm
      refine ⟨ptr, ⟨.cache, ptr, sle'⟩, ?_, nofun, rfl⟩
      rw [hitems, ← hkey]
      exact find_insert_self _ (⟨.cache, ptr, sle'⟩ : Item K α)

/-- A peek adds the pointer of its own key at most. -/
theorem Peeks.of_holds (h : Peeks tab tab' m k ptr) {k' : K} (hk : tab'.Holds k' ptr') :
    tab.Holds k' ptr' ∨ (k' = k.key ∧ ∃ sle, (denote tab.items m).find k.key = some sle ∧ k.check sle = true) := by
  rcases h with ⟨rfl, -⟩ | ⟨sle, hnone, hm, hc, hitems⟩
  · exact .inl hk
  · by_cases hkk : k' = k.key
    · exact .inr ⟨hkk, sle, by rw [find_denote_of_none hnone, hm], hc⟩
    · have hkey : sle.key = k.key := key_of_find hm
      refine .inl (hk.congr ?_)
      rw [hitems]
      exact (find_insert_of_ne _ (fun h => hkk (h.trans hkey))).symm

def Covers (flat child : ApplyStateTable K α) : Prop := ∀ k ptr, child.Holds k ptr → ∃ ptr', flat.Holds k ptr'

/-- An operation on a table and on one that covers it, where both stand for one map. -/
theorem Covers.effect {flat flat' child' : ApplyStateTable K α} {mc : KeyedMap (SLE K α)} {op : Op K α}
    (h : Covers flat child) (heq : denote child.items mc = denote flat.items m) (hc : op.Effect child child' mc ptr)
    (hf : op.Effect flat flat' m ptr') : Covers flat' child' := by
  intro k p hk
  cases op with
  | peek kl =>
    rcases Peeks.of_holds hc hk with hk | ⟨rfl, sle, hsle, hcheck⟩
    · obtain ⟨p', hp'⟩ := h k p hk
      exact ⟨p', Peeks.holds hf hp'⟩
    · exact Peeks.holds_of_find hf (heq ▸ hsle) hcheck
  | insert sle | update sle | replace sle =>
    by_cases hkey : k = sle.key
    · exact ⟨ptr', hkey ▸ Writes.holds hf⟩
    · obtain ⟨p', hp'⟩ := h k p (hk.congr (Writes.find_of_ne hc hkey).symm)
      exact ⟨p', hp'.congr (Writes.find_of_ne hf hkey)⟩
  | erase sle | rawErase sle =>
    by_cases hkey : k = sle.key
    · exact absurd (hkey ▸ hk) (Erases.not_holds hc)
    · obtain ⟨p', hp'⟩ := h k p (hk.congr (Erases.find_of_ne hc hkey).symm)
      exact ⟨p', hp'.congr (Erases.find_of_ne hf hkey)⟩

end Covers

section Apply
variable {v v' : Sandbox σ K α}

/-- An item goes into the table of the sandbox, not below it. -/
theorem applyItem_base {item : Item K α} (h : applyItem v item = .ok v') : v'.base = v.base := by
  have hbind : ∀ {r : Run Exception (ApplyStateTable K α)}, (do return { v with items := ← r }) = Except.ok v' →
      v'.base = v.base := by
    intro r hr
    cases r with
    | error e => cases hr
    | ok tab =>
      cases hr
      rfl
  unfold applyItem at h
  split at h
  · cases h
    rfl
  · exact hbind h
  · exact hbind h
  · exact hbind h

/-- A child changes its parent and nothing below. -/
theorem apply_base (h : child.apply v = .ok v') : v'.base = v.base := by
  have hfold : ∀ (l : List (Item K α)) (v : Sandbox σ K α), l.foldlM applyItem v = .ok v' → v'.base = v.base := by
    intro l
    induction l with
    | nil =>
      intro v hv
      cases hv
      rfl
    | cons item l ih =>
      intro v hv
      rw [List.foldlM_cons] at hv
      cases hitem : applyItem v item with
      | error e =>
        rw [hitem] at hv
        cases hv
      | ok w =>
        rw [hitem] at hv
        exact (ih w hv).trans (applyItem_base hitem)
  exact hfold _ (RawView.rawDestroyXRP v child.dropsDestroyed) h

end Apply

section Nested
variable [ReadView σ K α] [RawView σ K α] [LawfulView σ] {base : σ} {m : KeyedMap (SLE K α)} {ops : List (Op K α)}
  {tab : ApplyStateTable K α}

theorem Runs.sandbox_denotes (hb : LawfulView.Denotes base m) (h : Runs base m ops tab) :
    LawfulView.Denotes (⟨base, tab⟩ : Sandbox σ K α) (ops.foldl Op.act m) :=
  ⟨m, hb, (h.denotes hb).1, (h.denotes hb).2.symm⟩

/-- The operations on a nested table can follow those on its parent. -/
theorem Runs.flatten (hb : LawfulView.Denotes base m) (h : Runs base m ops tab) {ops' : List (Op K α)}
    (hc : Runs (⟨base, tab⟩ : Sandbox σ K α) (ops.foldl Op.act m) ops' child) :
    ∃ flat, Runs base m (ops ++ ops') flat ∧ Covers flat child := by
  induction hc with
  | nil =>
    refine ⟨tab, (List.append_nil ops).symm ▸ h, ?_⟩
    rintro k ptr ⟨item, hfind, -⟩
    cases hfind
  | @snoc ops' op child child' hc ptr hop hrun ih =>
    obtain ⟨flat, hflat, hcovers⟩ := ih
    obtain ⟨hsc, hdc⟩ := hc.denotes (h.sandbox_denotes hb)
    obtain ⟨hsf, hdf⟩ := hflat.denotes hb
    rw [List.foldl_append] at hdf
    -- what the operation requires of the nested table holds for the other one, with that one's pointer
    obtain ⟨ptr', hop'⟩ : ∃ ptr', op.Allowed flat ((ops ++ ops').foldl Op.act m) ptr' := by
      rw [List.foldl_append]
      cases op with
      | peek k => exact ⟨0, trivial⟩
      | insert sle | replace sle | rawErase sle => exact ⟨0, hop⟩
      | update sle | erase sle => exact hcovers _ _ hop
    obtain ⟨child'', hrun', hec⟩ := Op.run_ok (h.sandbox_denotes hb) hsc (hdc ▸ hop)
    rw [hrun] at hrun'
    cases hrun'
    obtain ⟨flat', hrunf, hef⟩ := Op.run_ok hb hsf (by rw [hdf, ← List.foldl_append]; exact hop')
    refine ⟨flat', ?_, hcovers.effect (hdc.trans hdf.symm) hec hef⟩
    rw [← List.append_assoc]
    exact hflat.snoc ptr' hop' hrunf

/-- After every sequence of operations that are used as they require, over every base, the table is the finite map that
the operations make of the base: `read`, `existsAt` and `succ` are those of the map, and `apply` turns the base into it.
A table over that one, applied to it and then to the base, gives what the two sequences give one after the other. -/
theorem Runs.agrees_with_operations (hb : LawfulView.Denotes base m) (h : Runs base m ops tab) :
    (∀ k, tab.read base k = ((ops.foldl Op.act m).find k.key).filter k.check) ∧
    (∀ k : Keylet K, k.Fits (ops.foldl Op.act m) → tab.existsAt base k = ((ops.foldl Op.act m).find k.key).isSome) ∧
    (∀ key last, tab.succ base key last = .ok ((ops.foldl Op.act m).succ key last)) ∧
    (∃ base', tab.apply base = .ok base' ∧ LawfulView.Denotes base' (ops.foldl Op.act m)) ∧
    ∀ ops' child, Runs (⟨base, tab⟩ : Sandbox σ K α) (ops.foldl Op.act m) ops' child →
      ∃ tab' base' flat base'', child.apply (⟨base, tab⟩ : Sandbox σ K α) = .ok ⟨base, tab'⟩ ∧
        tab'.apply base = .ok base' ∧
        Runs base m (ops ++ ops') flat ∧ flat.apply base = .ok base'' ∧
        LawfulView.Denotes base' ((ops ++ ops').foldl Op.act m) ∧
        LawfulView.Denotes base'' ((ops ++ ops').foldl Op.act m) := by
  obtain ⟨hs, hd⟩ := h.denotes hb
  rw [← hd]
  refine ⟨read_eq hb tab.items, existsAt_eq hb tab.items, succ_eq hb tab.items, apply_ok hb hs, fun ops' child hc => ?_⟩
  rw [hd] at hc
  obtain ⟨hsc, hdc⟩ := hc.denotes (h.sandbox_denotes hb)
  obtain ⟨⟨base₀, tab'⟩, happly, m₀, hb₀, hs', hd'⟩ := apply_ok (h.sandbox_denotes hb) hsc
  obtain rfl : base₀ = base := apply_base happly
  obtain ⟨base', hbase', hden'⟩ := apply_ok hb₀ hs'
  obtain ⟨flat, hflat, -⟩ := h.flatten hb hc
  obtain ⟨hsf, hdf⟩ := hflat.denotes hb
  obtain ⟨base'', hbase'', hden''⟩ := apply_ok hb hsf
  refine ⟨tab', base', flat, base'', happly, hbase', hflat, hbase'', ?_, hdf ▸ hden''⟩
  rw [List.foldl_append, ← hdc]
  exact hd' ▸ hden'

def entryAt (key : Nat) (data : Bool) : SLE Nat Bool := ⟨key, .accountRoot, data⟩

/-- An entry is looked up and changed in one table, and erased in a table over it. -/
theorem Runs.agrees_with_operations_nested :
    let base : Ledger Nat Bool :=
      ⟨(∅ : KeyedMap (SLE Nat Bool)).insert (entryAt 1 false) |>.insert (entryAt 2 false), 0⟩
    let ops : List (Op Nat Bool) := [.peek (.unchecked 1), .update (entryAt 1 true)]
    let tab : ApplyStateTable Nat Bool :=
      { items := (∅ : KeyedMap (Item Nat Bool)).insert ⟨.modify, 1, entryAt 1 true⟩ }
    let ops' : List (Op Nat Bool) := [.peek (.unchecked 1), .erase (entryAt 1 true)]
    let child : ApplyStateTable Nat Bool :=
      { items := (∅ : KeyedMap (Item Nat Bool)).insert ⟨.erase, 2, entryAt 1 true⟩ }
    let parent : Sandbox (Ledger Nat Bool) Nat Bool := ⟨base, tab⟩
    Runs base base.stateMap ops tab ∧ Runs parent (ops.foldl Op.act base.stateMap) ops' child ∧
      ∃ tab' base', child.apply parent = .ok ⟨base, tab'⟩ ∧ tab'.apply base = .ok base' ∧
        base'.stateMap.toList = [entryAt 2 false] := by
  intro base ops tab ops' child parent
  have hpeek : Runs base base.stateMap ([] ++ [.peek (.unchecked 1)]) _ := Runs.nil.snoc 1 trivial rfl
  have htab : Runs base base.stateMap ops tab := hpeek.snoc 1 ⟨_, rfl, nofun, rfl⟩ rfl
  have hpeek' : Runs parent (ops.foldl Op.act base.stateMap) ([] ++ [.peek (.unchecked 1)]) _ :=
    Runs.nil.snoc 2 trivial rfl
  have hchild : Runs parent (ops.foldl Op.act base.stateMap) ops' child := hpeek'.snoc 2 ⟨_, rfl, nofun, rfl⟩ rfl
  have hbase : LawfulView.Denotes base base.stateMap := rfl
  obtain ⟨tab', base', -, -, happly, hbase', -, -, hmap, -⟩ :=
      (htab.agrees_with_operations hbase).2.2.2.2 ops' child hchild
  exact ⟨htab, hchild, tab', base', happly, hbase', congrArg toList hmap⟩

/-- A keylet of another type than the entry: over a `Ledger`, that does not look at the type, the entry exists until
it is in the table, though looking it up changes nothing in the map. -/
theorem Runs.existsAt_after_peek :
    let base : Ledger Nat Bool := ⟨(∅ : KeyedMap (SLE Nat Bool)).insert (entryAt 1 false), 0⟩
    let tab : ApplyStateTable Nat Bool :=
      { items := (∅ : KeyedMap (Item Nat Bool)).insert ⟨.cache, 1, entryAt 1 false⟩ }
    Runs base base.stateMap [] {} ∧ Runs base base.stateMap [.peek (.unchecked 1)] tab ∧
      [Op.peek (.unchecked 1)].foldl Op.act base.stateMap = base.stateMap ∧
      ApplyStateTable.existsAt {} base ⟨.offer, 1⟩ = true ∧ tab.existsAt base ⟨.offer, 1⟩ = false := by
  intro base tab
  exact ⟨.nil, Runs.nil.snoc 1 trivial rfl, rfl, rfl, rfl⟩

end Nested

end ApplyStateTable

end Rippled.View
