import Mathlib.Order.Nat
import Rippled.Ledger.View

/-!
# Raw modifications of a ledger's state

An `OpenView` keeps what is erased, inserted and replaced in a `RawStateTable` over the view below. Its iterators walk
the table and the base at the same time (`SlesIterImpl`). An iterator is the list of what is still to come, and the end
iterator is the empty list; to look at a null pointer is an exception of its own.
-/

namespace Rippled.View

open Lib Lib.Keyed OverlayItem KeyedMap List

variable {K α σ : Type} [LinearOrder K]

/-- A view whose entries can be iterated over, where an iterator is the list of the entries still to come. -/
class SlesView (σ : Type) (K α : outParam Type) where
  slesBegin : σ → List (SLE K α)
  slesUpperBound : σ → K → List (SLE K α)

class LawfulSles (σ : Type) {K α : outParam Type} [LinearOrder K] [ReadView σ K α] [RawView σ K α] [LawfulView σ]
    [SlesView σ K α] : Prop where
  slesBegin_eq {s : σ} {m : KeyedMap (SLE K α)} : LawfulView.Denotes s m → SlesView.slesBegin s = m.toList
  slesUpperBound_eq {s : σ} {m : KeyedMap (SLE K α)} :
    LawfulView.Denotes s m → ∀ key, SlesView.slesUpperBound s key = m.upperBound key

instance : SlesView (Ledger K α) K α where
  slesBegin l := l.stateMap.toList
  slesUpperBound l key := l.stateMap.upperBound key

instance : LawfulSles (Ledger K α) where
  slesBegin_eq := by
    rintro l m rfl
    rfl
  slesUpperBound_eq := by
    rintro l m rfl key
    rfl

namespace RawStateTable

inductive Action where
  | erase
  | insert
  | replace
  deriving DecidableEq

structure SleAction (K α : Type) where
  action : Action
  ref : SLERef K α
  deriving DecidableEq

def SleAction.sle (item : SleAction K α) : SLE K α := item.ref.sle

instance : OverlayItem (SleAction K α) K α where
  key item := item.sle.key
  live item := if item.action = .erase then none else some item.sle
  key_live {item sle} h := by
    obtain ⟨-, h⟩ := Option.ite_none_left_eq_some.1 h
    exact (congrArg SLE.key (Option.some.inj h)).symm

end RawStateTable

open RawStateTable in
structure RawStateTable (K α : Type) [LinearOrder K] where
  items : KeyedMap (SleAction K α) := ∅
  dropsDestroyed : Int := 0

variable {m : KeyedMap (SLE K α)}

namespace RawStateTable

/-! ## The table -/

def erase (tab : RawStateTable K α) (r : SLERef K α) : Run Exception (RawStateTable K α) :=
  match tab.items.find r.sle.key with
  | none => .ok { tab with items := tab.items.insert ⟨.erase, r⟩ }
  | some item =>
    match item.action with
    | .erase => Run.throw (.logicError "RawStateTable::erase: already erased")
    | .insert => .ok { tab with items := tab.items.erase r.sle.key }
    | .replace => .ok { tab with items := tab.items.insert ⟨.erase, r⟩ }

def insert (tab : RawStateTable K α) (r : SLERef K α) : Run Exception (RawStateTable K α) :=
  match tab.items.find r.sle.key with
  | none => .ok { tab with items := tab.items.insert ⟨.insert, r⟩ }
  | some item =>
    match item.action with
    | .erase => .ok { tab with items := tab.items.insert ⟨.replace, r⟩ }
    | .insert => Run.throw (.logicError "RawStateTable::insert: already inserted")
    | .replace => Run.throw (.logicError "RawStateTable::insert: already exists")

def replace (tab : RawStateTable K α) (r : SLERef K α) : Run Exception (RawStateTable K α) :=
  match tab.items.find r.sle.key with
  | none => .ok { tab with items := tab.items.insert ⟨.replace, r⟩ }
  | some item =>
    match item.action with
    | .erase => Run.throw (.logicError "RawStateTable::replace: was erased")
    | .insert => .ok { tab with items := tab.items.insert ⟨.insert, r⟩ }
    | .replace => .ok { tab with items := tab.items.insert ⟨.replace, r⟩ }

def destroyXRP (tab : RawStateTable K α) (fee : Int) : RawStateTable K α :=
  { tab with dropsDestroyed := tab.dropsDestroyed + fee }

def applyItem [RawView σ K α] (to' : σ) (item : SleAction K α) : Run Exception σ :=
  match item.action with
  | .erase => RawView.rawErase to' item.ref
  | .insert => RawView.rawInsert to' item.ref
  | .replace => RawView.rawReplace to' item.ref

def apply [RawView σ K α] (tab : RawStateTable K α) (to' : σ) : Run Exception σ :=
  tab.items.toList.foldlM applyItem (RawView.rawDestroyXRP to' tab.dropsDestroyed)

section Read
variable [ReadView σ K α]

def existsAt (tab : RawStateTable K α) (base : σ) (k : Keylet K) : Bool := Overlay.existsAt tab.items base k

def succ (tab : RawStateTable K α) (base : σ) (key : K) (last : Option K) : Run Exception (Option K) :=
  Overlay.succ tab.items base key last

def read (tab : RawStateTable K α) (base : σ) (k : Keylet K) : Option (SLE K α) := Overlay.read tab.items base k

end Read

/-! ## The merged iterator -/

structure SlesIterImpl (K α : Type) where
  sle0 : Option (SLE K α)
  iter0 : List (SLE K α)
  sle1 : Option (SLE K α)
  iter1 : List (SleAction K α)

def keyAt (p : Option (SLE K α)) : Run Exception K :=
  match p with
  | none => Run.throw .nullPointer
  | some sle => .ok sle.key

namespace SlesIterImpl

def inc0 (it : SlesIterImpl K α) : SlesIterImpl K α := { it with iter0 := it.iter0.tail, sle0 := it.iter0.tail.head? }

def inc1 (it : SlesIterImpl K α) : SlesIterImpl K α :=
  { it with iter1 := it.iter1.tail, sle1 := it.iter1.tail.head?.map SleAction.sle }

/-- The loop of `skip`, over the items from `iter1_` on. -/
def skipFrom (it : SlesIterImpl K α) : List (SleAction K α) → Run Exception (SlesIterImpl K α)
  | [] => .ok it
  | item :: items =>
    if item.action = .erase then do
      let key0 ← keyAt it.sle0
      let key1 ← keyAt it.sle1
      if key0 = key1 then
        let it' := it.inc1.inc0
        if it'.sle0.isNone then return it' else it'.skipFrom items
      else return it
    else .ok it

def skip (it : SlesIterImpl K α) : Run Exception (SlesIterImpl K α) := it.skipFrom it.iter1

def make (iter1 : List (SleAction K α)) (iter0 : List (SLE K α)) : Run Exception (SlesIterImpl K α) :=
  match iter1 with
  | [] => .ok ⟨iter0.head?, iter0, none, []⟩
  | item :: rest => skip ⟨iter0.head?, iter0, some item.sle, item :: rest⟩

def increment (it : SlesIterImpl K α) : Run Exception (SlesIterImpl K α) :=
  match it.sle0, it.sle1 with
  | none, some _ => .ok it.inc1
  | some _, none => .ok it.inc0
  | _, _ => do
    let key0 ← keyAt it.sle0
    let key1 ← keyAt it.sle1
    if key1 = key0 then it.inc1.inc0.skip
    else if key1 < key0 then it.inc1.skip
    else it.inc0.skip

def dereference (it : SlesIterImpl K α) : Option (SLE K α) :=
  match it.sle1, it.sle0 with
  | none, sle0 => sle0
  | some sle1, none => some sle1
  | some sle1, some sle0 => if sle1.key ≤ sle0.key then some sle1 else some sle0

/-- `equal` with the end iterator. -/
def atEnd (it : SlesIterImpl K α) : Bool := it.iter1.isEmpty && it.iter0.isEmpty

/-- A round of a loop over the entries, which collects them. -/
def collectStep (s : List (Option (SLE K α)) × SlesIterImpl K α) :
    Run Exception (List (Option (SLE K α)) × SlesIterImpl K α) := do
  let it ← s.2.increment
  return (s.1 ++ [s.2.dereference], it)

/-- A loop from the iterator to the end. -/
def collect (it : SlesIterImpl K α) : Run Exception (List (Option (SLE K α))) := do
  let s ← Run.whileDo (fun s => !s.2.atEnd) collectStep (it.iter1.length + it.iter0.length) ([], it)
  return s.1

end SlesIterImpl

section Sles
variable [SlesView σ K α]

def slesBegin (tab : RawStateTable K α) (base : σ) : Run Exception (SlesIterImpl K α) :=
  SlesIterImpl.make tab.items.toList (SlesView.slesBegin base)

def slesUpperBound (tab : RawStateTable K α) (base : σ) (key : K) : Run Exception (SlesIterImpl K α) :=
  SlesIterImpl.make (tab.items.upperBound key) (SlesView.slesUpperBound base key)

end Sles

/-! ## Iteration -/

/-- The entries that a table leaves of a base, both by increasing key. -/
def merge : List (SLE K α) → List (SleAction K α) → List (SLE K α)
  | base, [] => base
  | [], item :: items => (live item).toList ++ merge [] items
  | sle :: base, item :: items =>
    if key item < key sle then (live item).toList ++ merge (sle :: base) items
    else if key item = key sle then (live item).toList ++ merge base items
    else sle :: merge base (item :: items)
termination_by base items => base.length + items.length

variable {items : List (SleAction K α)} {base : List (SLE K α)}

section
variable (h0 : KeyedMap.Increasing base) (h1 : KeyedMap.Increasing items)
include h0 h1

/-- Entries of the table that are not erased, and those of the base that it does not name. -/
theorem mem_merge (v : SLE K α) :
    v ∈ merge base items ↔
      (∃ item ∈ items, live item = some v) ∨ (v ∈ base ∧ ∀ item ∈ items, key item ≠ key v) := by
  fun_induction merge base items with
  | case1 base => simp
  | case2 item items ih =>
    rw [mem_append, ih h0 h1.of_cons]
    simp
  | case3 sle base item items hlt ih =>
    rw [mem_append, ih h0 h1.of_cons]
    rw [Option.mem_toList, exists_mem_cons_iff, or_assoc]
    refine or_congr_right (or_congr_right (and_congr_right fun hv => ?_))
    rw [forall_mem_cons]
    exact (and_iff_right (h0.lt_of_mem hlt v hv).ne).symm
  | case4 sle base item items hlt heq ih =>
    rw [mem_append, ih h0.of_cons h1.of_cons]
    have hne : ∀ w ∈ base, key item ≠ key w := fun w hw => heq ▸ ((pairwise_cons.1 h0).1 w hw).ne
    rw [Option.mem_toList, exists_mem_cons_iff, or_assoc]
    refine or_congr_right (or_congr_right ?_)
    rw [forall_mem_cons, mem_cons]
    constructor
    · rintro ⟨hv, hall⟩
      exact ⟨.inr hv, hne v hv, hall⟩
    · rintro ⟨rfl | hv, hk, hall⟩
      · exact absurd heq hk
      · exact ⟨hv, hall⟩
  | case5 sle base item items hlt heq ih =>
    rw [mem_cons, ih h0.of_cons h1]
    have hgt : key sle < key item := lt_of_le_of_ne (not_lt.1 hlt) (Ne.symm heq)
    rw [or_left_comm, mem_cons, or_and_right]
    refine or_congr_right (or_congr_left (iff_self_and.2 ?_))
    rintro rfl
    exact fun i hi => (h1.lt_of_mem hgt i hi).ne'

theorem lt_of_mem_merge {k : K}
    (hb : ∀ v ∈ base, k < key v) (hi : ∀ item ∈ items, k < key item) : ∀ v ∈ merge base items, k < key v := by
  intro v hv
  rcases (mem_merge h0 h1 v).1 hv with ⟨item, hitem, hlive⟩ | ⟨hv, -⟩
  · exact (key_live hlive).symm ▸ hi item hitem
  · exact hb v hv

/-- The merged entries come by increasing key. -/
theorem increasing_merge : KeyedMap.Increasing (merge base items) := by
  have happend : ∀ (item : SleAction K α) (l : List (SLE K α)), (∀ v ∈ l, key item < key v) → KeyedMap.Increasing l →
      KeyedMap.Increasing ((live item).toList ++ l) := by
    intro item l hlt hl
    cases hlive : live item with
    | none => exact hl
    | some sle => exact pairwise_cons.2 ⟨fun v hv => key_live hlive ▸ hlt v hv, hl⟩
  fun_induction merge base items with
  | case1 base => exact h0
  | case2 item items ih =>
    exact happend item _ (lt_of_mem_merge h0 h1.of_cons nofun (pairwise_cons.1 h1).1) (ih h0 h1.of_cons)
  | case3 sle base item items hlt ih =>
    exact happend item _ (lt_of_mem_merge h0 h1.of_cons (h0.lt_of_mem hlt) (pairwise_cons.1 h1).1) (ih h0 h1.of_cons)
  | case4 sle base item items hlt heq ih =>
    refine happend item _ (lt_of_mem_merge h0.of_cons h1.of_cons ?_ (pairwise_cons.1 h1).1) (ih h0.of_cons h1.of_cons)
    exact fun v hv => heq ▸ (pairwise_cons.1 h0).1 v hv
  | case5 sle base item items hlt heq ih =>
    have hgt : key sle < key item := lt_of_le_of_ne (not_lt.1 hlt) (Ne.symm heq)
    exact pairwise_cons.2
      ⟨lt_of_mem_merge h0.of_cons h1 (pairwise_cons.1 h0).1 (h1.lt_of_mem hgt), ih h0.of_cons h1⟩

end

variable {item : SleAction K α}

namespace SlesIterImpl

/-- The pointers of an iterator are those of its positions, and what the table erases is still to come in the base. -/
structure Good (it : SlesIterImpl K α) : Prop where
  sle0 : it.sle0 = it.iter0.head?
  sle1 : it.sle1 = it.iter1.head?.map SleAction.sle
  increasing0 : KeyedMap.Increasing it.iter0
  increasing1 : KeyedMap.Increasing it.iter1
  erased : ∀ item ∈ it.iter1, item.action = .erase → ∃ sle ∈ it.iter0, key sle = key item

/-- The iterator is not at an entry that is erased. -/
def Settled (it : SlesIterImpl K α) : Prop :=
  ∀ sle item, it.iter0.head? = some sle → it.iter1.head? = some item → item.action = .erase → key sle ≠ key item

def rest (it : SlesIterImpl K α) : List (SLE K α) := merge it.iter0 it.iter1

def left (it : SlesIterImpl K α) : Nat := it.iter1.length + it.iter0.length

variable {it : SlesIterImpl K α}

theorem Good.inc0 (h : it.Good)
    (hne : ∀ sle, it.iter0.head? = some sle → ∀ item ∈ it.iter1, item.action = .erase → key sle ≠ key item) :
    it.inc0.Good := by
  refine ⟨rfl, h.sle1, h.increasing0.tail, h.increasing1, fun item hitem he => ?_⟩
  obtain ⟨sle, hsle, hk⟩ := h.erased item hitem he
  cases hiter : it.iter0 with
  | nil =>
    rw [hiter] at hsle
    cases hsle
  | cons sle' rest =>
    rw [hiter] at hsle
    rcases mem_cons.1 hsle with rfl | hsle
    · exact absurd hk (hne _ (by rw [hiter]; rfl) item hitem he)
    · exact ⟨sle, by simpa [SlesIterImpl.inc0, hiter] using hsle, hk⟩

theorem Good.inc1 (h : it.Good) : it.inc1.Good :=
  ⟨h.sle0, rfl, h.increasing0, h.increasing1.tail, fun item hitem => h.erased item (mem_of_mem_tail hitem)⟩

/-- The iterator at two positions, with the pointers that belong to them. -/
def standing (iter0 : List (SLE K α)) (iter1 : List (SleAction K α)) : SlesIterImpl K α :=
  ⟨iter0.head?, iter0, iter1.head?.map SleAction.sle, iter1⟩

/-- A good iterator is known by its positions. -/
theorem Good.eq_standing (h : it.Good) : it = standing it.iter0 it.iter1 := by
  unfold standing
  rw [← h.sle0, ← h.sle1]

omit [LinearOrder K] in
theorem live_eq_none : live item = none ↔ item.action = .erase := by
  change (if item.action = .erase then none else some item.sle) = none ↔ _
  simp

omit [LinearOrder K] in
theorem live_eq_sle (h : item.action ≠ .erase) : live item = some item.sle := if_neg h

/-- `skip` looks at no null pointer, and leaves the entries that are left. -/
theorem skip_ok (iter1 : List (SleAction K α)) (iter0 : List (SLE K α)) (h : (standing iter0 iter1).Good) :
    ∃ it, (standing iter0 iter1).skip = .ok it ∧ it.Good ∧ it.Settled ∧ it.rest = merge iter0 iter1 ∧
      it.left ≤ iter1.length + iter0.length := by
  induction iter1 generalizing iter0 with
  | nil =>
    refine ⟨_, rfl, h, fun _ item _ hitem => ?_, rfl, Nat.le_refl _⟩
    cases hitem
  | cons item items ih =>
    by_cases he : item.action = .erase
    · obtain ⟨sle, hsle, -⟩ := h.erased item mem_cons_self he
      cases iter0 with
      | nil => cases hsle
      | cons sle0 base =>
        by_cases hk : key sle0 = key item
        · -- both positions are passed
          have hgood : (standing base items).Good := by
            refine h.inc1.inc0 fun sle hhead item' hitem' _ => ?_
            cases hhead
            exact hk ▸ ((pairwise_cons.1 h.increasing1).1 item' hitem').ne
          have hskip : (standing (sle0 :: base) (item :: items)).skip =
              if base.head?.isNone then .ok (standing base items) else (standing base items).skip := by
            unfold skip
            simp only [standing, skipFrom, he, if_true]
            exact if_pos hk
          have hrest : merge (sle0 :: base) (item :: items) = merge base items := by
            rw [merge, if_neg hk.le.not_gt, if_pos hk.symm, live_eq_none.2 he]
            rfl
          cases base with
          | nil =>
            refine ⟨_, hskip, hgood, fun sle _ hsle' => ?_, hrest.symm, by simp [left, standing]; omega⟩
            cases hsle'
          | cons sle1 base =>
            obtain ⟨it, hit, hgood', hsettled, hrest', hleft⟩ := ih (sle1 :: base) hgood
            refine ⟨it, hskip.trans hit, hgood', hsettled, hrest'.trans hrest.symm, ?_⟩
            simp only [length_cons] at hleft ⊢
            omega
        · have hskip : (standing (sle0 :: base) (item :: items)).skip = .ok
            (standing (sle0 :: base) (item :: items)) := by
            unfold skip
            simp only [standing, skipFrom, he, if_true]
            exact if_neg hk
          refine ⟨_, hskip, h, fun sle item' hsle' hitem' _ => ?_, rfl, Nat.le_refl _⟩
          cases hsle'
          cases hitem'
          exact hk
    · refine ⟨_, if_neg he, h, fun sle item' _ hitem' he' => ?_, rfl, Nat.le_refl _⟩
      cases hitem'
      exact absurd he' he

/-- An increment followed by `skip` goes on by one entry. -/
theorem skips_ok {iter0 : List (SLE K α)} {iter1 : List (SleAction K α)} {sle : SLE K α}
    (hgood : (standing iter0 iter1).Good) (hinc : it.increment = (standing iter0 iter1).skip)
    (hderef : it.dereference = some sle) (hrest : it.rest = sle :: merge iter0 iter1)
    (hleft : iter1.length + iter0.length < it.left) :
    ∃ it' sle, it.increment = .ok it' ∧ it'.Good ∧ it'.Settled ∧ it.dereference = some sle ∧ it.rest = sle :: it'.rest ∧
      it'.left < it.left := by
  obtain ⟨it', hskip, hgood', hsettled, hrest', hleft'⟩ := skip_ok iter1 iter0 hgood
  exact ⟨it', sle, hinc.trans hskip, hgood', hsettled, hderef, hrest' ▸ hrest, Nat.lt_of_le_of_lt hleft' hleft⟩

/-- A step gives the next entry: `increment` looks at no null pointer. -/
theorem increment_ok (h : it.Good) (hs : it.Settled) (hend : it.atEnd = false) :
    ∃ it' sle, it.increment = .ok it' ∧ it'.Good ∧ it'.Settled ∧ it.dereference = some sle ∧ it.rest = sle :: it'.rest ∧
      it'.left < it.left := by
  obtain ⟨iter0, iter1, rfl⟩ : ∃ iter0 iter1, it = standing iter0 iter1 := ⟨_, _, h.eq_standing⟩
  cases iter0 with
  | nil =>
    cases iter1 with
    | nil => cases hend
    | cons item items =>
      -- nothing of the base is left, so no item erases
      have hlive : item.action ≠ .erase := by
        intro he
        obtain ⟨sle, hsle, -⟩ := h.erased item mem_cons_self he
        cases hsle
      refine ⟨standing [] items, item.sle, rfl, h.inc1, fun _ _ hsle => (by cases hsle), rfl, ?_, ?_⟩
      · change merge [] (item :: items) = _
        rw [merge, live_eq_sle hlive]
        rfl
      · simp [left, standing]
  | cons sle base =>
    cases iter1 with
    | nil =>
      refine ⟨standing base [], sle, rfl, h.inc0 fun _ _ _ hitem => (by cases hitem),
        fun _ _ _ hitem => (by cases hitem), rfl, ?_, by simp [left, standing]⟩
      change merge (sle :: base) [] = sle :: merge base []
      rw [merge, merge]
    | cons item items =>
      have hinc : (standing (sle :: base) (item :: items)).increment =
          if key item = key sle then (standing base items).skip
          else if key item < key sle then (standing (sle :: base) items).skip
          else (standing base (item :: items)).skip := rfl
      have hderef : (standing (sle :: base) (item :: items)).dereference =
          if key item ≤ key sle then some item.sle else some sle := rfl
      rcases lt_trichotomy (key item) (key sle) with hlt | heq | hgt
      · have hlive : item.action ≠ .erase := by
          intro he
          obtain ⟨sle', hsle', hk⟩ := h.erased item mem_cons_self he
          exact (h.increasing0.lt_of_mem hlt sle' hsle').ne hk.symm
        have hgood : (standing (sle :: base) items).Good := h.inc1
        refine skips_ok hgood ?_ (hderef.trans (if_pos hlt.le)) ?_ (by simp [left, standing])
        · rw [hinc, if_neg hlt.ne, if_pos hlt]
        · change merge (sle :: base) (item :: items) = _
          rw [merge, if_pos hlt, live_eq_sle hlive]
          rfl
      · have hlive : item.action ≠ .erase := fun he => hs sle item rfl rfl he heq.symm
        have hgood : (standing base items).Good := by
          refine h.inc1.inc0 fun sle' hhead item' hitem' _ => ?_
          cases hhead
          exact heq ▸ ((pairwise_cons.1 h.increasing1).1 item' hitem').ne
        refine skips_ok hgood (hinc.trans (if_pos heq)) (hderef.trans (if_pos heq.le)) ?_
          (by simp [left, standing]; omega)
        change merge (sle :: base) (item :: items) = _
        rw [merge, if_neg heq.not_lt, if_pos heq, live_eq_sle hlive]
        rfl
      · have hgood : (standing base (item :: items)).Good := by
          refine h.inc0 fun sle' hhead item' hitem' _ => ?_
          cases hhead
          exact (h.increasing1.lt_of_mem hgt item' hitem').ne
        refine skips_ok hgood ?_ (hderef.trans (if_neg hgt.not_ge)) ?_ (by simp [left, standing])
        · rw [hinc, if_neg hgt.ne', if_neg hgt.not_gt]
        · change merge (sle :: base) (item :: items) = _
          rw [merge, if_neg hgt.not_gt, if_neg hgt.ne']

/-- What the loop has collected, with what is left, is what there was. -/
def Collecting (it : SlesIterImpl K α) (s : List (Option (SLE K α)) × SlesIterImpl K α) : Prop :=
  s.2.Good ∧ s.2.Settled ∧ s.1 ++ s.2.rest.map some = it.rest.map some

theorem collectStep_ok (s : List (Option (SLE K α)) × SlesIterImpl K α)
    (h : Collecting it s) (hc : (!s.2.atEnd) = true) :
    ∃ s', collectStep s = .ok s' ∧ Collecting it s' ∧ s'.2.left < s.2.left := by
  obtain ⟨hgood, hsettled, hout⟩ := h
  obtain ⟨it', sle, hinc, hgood', hsettled', hderef, hrest, hleft⟩ := increment_ok hgood hsettled (by simpa using hc)
  refine ⟨(s.1 ++ [some sle], it'), ?_, ⟨hgood', hsettled', ?_⟩, hleft⟩
  · unfold collectStep
    rw [hinc, hderef]
    rfl
  · rw [← hout, hrest]
    simp

/-- The loop collects what the iterator has before it. -/
theorem collect_eq (h : it.Good) (hs : it.Settled) : it.collect = .ok (it.rest.map some) := by
  obtain ⟨s, hloop, ⟨-, -, hout⟩, hend⟩ := Run.whileDo_total (Collecting it) (fun s => s.2.left) collectStep_ok
    (it.iter1.length + it.iter0.length) ([], it) ⟨h, hs, rfl⟩ (Nat.le_refl _)
  have hrest : s.2.rest = [] := by
    simp only [atEnd, Bool.not_eq_false', Bool.and_eq_true, List.isEmpty_iff] at hend
    unfold rest
    rw [hend.1, hend.2, merge]
  rw [hrest, map_nil, append_nil] at hout
  unfold collect
  rw [hloop, ← hout]
  rfl

/-- From two positions on, the iterator gives what the table leaves of the base. -/
theorem collect_make (iter1 : List (SleAction K α)) (iter0 : List (SLE K α)) (h : (standing iter0 iter1).Good) :
    (make iter1 iter0 >>= collect) = .ok ((merge iter0 iter1).map some) := by
  obtain ⟨it, hskip, hgood, hsettled, hrest, -⟩ := skip_ok iter1 iter0 h
  have hmake : make iter1 iter0 = .ok it := by
    rw [← hskip]
    cases iter1 <;> rfl
  rw [hmake, ← hrest]
  exact collect_eq hgood hsettled

end SlesIterImpl

open SlesIterImpl Overlay

/-! ## Runs -/

/-- What is erased or replaced is an entry of the base. -/
abbrev Kept (items : KeyedMap (SleAction K α)) (m : KeyedMap (SLE K α)) : Prop :=
  Sound (fun item entry => item.action ≠ .insert → entry.isSome) items m

/-- What is inserted is no entry of the base. -/
abbrev Fresh (items : KeyedMap (SleAction K α)) (m : KeyedMap (SLE K α)) : Prop :=
  Sound (fun item entry => item.action = .insert → entry = none) items m

inductive Op (K α : Type) where
  | erase (r : SLERef K α)
  | insert (r : SLERef K α)
  | replace (r : SLERef K α)

def Op.run (tab : RawStateTable K α) : Op K α → Run Exception (RawStateTable K α)
  | .erase r => tab.erase r
  | .insert r => tab.insert r
  | .replace r => tab.replace r

def Op.act (m : KeyedMap (SLE K α)) : Op K α → KeyedMap (SLE K α)
  | .erase r => m.erase r.sle.key
  | .insert r => m.insert r.sle
  | .replace r => m.insert r.sle

/-- Only what is present is erased or replaced. -/
def Op.Present (m : KeyedMap (SLE K α)) : Op K α → Prop
  | .erase r => (m.find r.sle.key).isSome
  | .insert _ => True
  | .replace r => (m.find r.sle.key).isSome

/-- Only what is absent is inserted. -/
def Op.Absent (m : KeyedMap (SLE K α)) : Op K α → Prop
  | .erase _ => True
  | .insert r => m.find r.sle.key = none
  | .replace _ => True

/-- The tables that come about over a base with the entries `m`, by operations that do not throw and that erase or
replace only what is present. -/
inductive Runs (m : KeyedMap (SLE K α)) : List (Op K α) → RawStateTable K α → Prop
  | nil : Runs m [] {}
  | snoc {ops : List (Op K α)} {op : Op K α} {tab tab' : RawStateTable K α} (h : Runs m ops tab)
      (hop : op.Present (denote tab.items m)) (hrun : op.run tab = .ok tab') : Runs m (ops ++ [op]) tab'

variable {items : KeyedMap (SleAction K α)}

theorem find_denote_of_find (m : KeyedMap (SLE K α)) {k : K} (h : items.find k = some item) :
    (denote items m).find k = if item.action = .erase then none else some item.sle := by
  rw [find_denote, h]
  rfl

theorem find_denote_of_none (m : KeyedMap (SLE K α)) {k : K} (h : items.find k = none) :
    (denote items m).find k = m.find k := by
  rw [find_denote, h]

variable {tab : RawStateTable K α}

/-- What is known after an operation: what is erased or replaced is still an entry of the base, and if neither what was
inserted nor what it inserts is present, it has changed the map as it says. -/
structure Op.Ran (m : KeyedMap (SLE K α)) (tab : RawStateTable K α) (op : Op K α)
    (tab' : RawStateTable K α) : Prop where
  kept : Kept tab'.items m
  fresh : Fresh tab.items m → op.Absent (denote tab.items m) → Fresh tab'.items m
  denote_eq : Fresh tab.items m → denote tab'.items m = op.act (denote tab.items m)

section
variable {op : Op K α} (hk : Kept tab.items m)
include hk

theorem Op.Ran.put (item : SleAction K α) (hkept : item.action ≠ .insert → (m.find (key item)).isSome)
    (hfresh : Fresh tab.items m → op.Absent (denote tab.items m) → item.action = .insert → m.find (key item) = none)
    (hact : op.act (denote tab.items m) = (denote tab.items m).set (key item) (live item)) :
    op.Ran m tab { tab with items := tab.items.insert item } :=
  ⟨Sound.insert hk hkept, fun hf ha => Sound.insert hf (hfresh hf ha), fun _ => (denote_insert ..).trans hact.symm⟩

/-- An operation on what is present runs, unless it inserts what is there. -/
theorem Op.run_ok (hp : op.Present (denote tab.items m)) :
    (∃ tab', op.run tab = .ok tab' ∧ op.Ran m tab tab') ∨
      ((∀ tab', op.run tab ≠ .ok tab') ∧ ¬op.Absent (denote tab.items m)) := by
  -- an item that is not inserted is one of the base's entries
  have hkept : ∀ {k item}, tab.items.find k = some item → item.action = .erase ∨ item.action = .replace →
      (m.find k).isSome := fun h hor => hk _ _ h (by rcases hor with hor | hor <;> rw [hor] <;> exact nofun)
  cases op with
  | erase r =>
    change ((denote tab.items m).find r.sle.key).isSome at hp
    simp only [Op.run, RawStateTable.erase]
    cases hfind : tab.items.find r.sle.key with
    | none =>
      rw [find_denote_of_none m hfind] at hp
      exact .inl ⟨_, rfl, .put hk ⟨.erase, r⟩ (fun _ => hp) nofun rfl⟩
    | some item =>
      rw [find_denote_of_find m hfind] at hp
      dsimp only
      cases haction : item.action with
      | erase =>
        rw [haction] at hp
        cases hp
      | insert =>
        refine .inl ⟨_, rfl, Sound.erase hk _, fun hf _ => Sound.erase hf _, fun hf => ?_⟩
        rw [denote_erase, hf _ _ hfind haction]
        rfl
      | replace => exact .inl ⟨_, rfl, .put hk ⟨.erase, r⟩ (fun _ => hkept hfind (.inr haction)) nofun rfl⟩
  | insert r =>
    simp only [Op.run, RawStateTable.insert, Op.Absent]
    cases hfind : tab.items.find r.sle.key with
    | none =>
      refine .inl ⟨_, rfl, .put hk ⟨.insert, r⟩ (fun h => absurd rfl h) (fun _ ha _ => ?_) rfl⟩
      rw [← ha]
      exact (find_denote_of_none m hfind).symm
    | some item =>
      rw [find_denote_of_find m hfind]
      dsimp only
      cases haction : item.action with
      | erase => exact .inl ⟨_, rfl, .put hk ⟨.replace, r⟩ (fun _ => hkept hfind (.inl haction)) nofun rfl⟩
      | insert => exact .inr ⟨nofun, nofun⟩
      | replace => exact .inr ⟨nofun, nofun⟩
  | replace r =>
    change ((denote tab.items m).find r.sle.key).isSome at hp
    simp only [Op.run, RawStateTable.replace]
    cases hfind : tab.items.find r.sle.key with
    | none =>
      rw [find_denote_of_none m hfind] at hp
      exact .inl ⟨_, rfl, .put hk ⟨.replace, r⟩ (fun _ => hp) nofun rfl⟩
    | some item =>
      rw [find_denote_of_find m hfind] at hp
      dsimp only
      cases haction : item.action with
      | erase =>
        rw [haction] at hp
        cases hp
      | insert =>
        exact .inl ⟨_, rfl, .put hk ⟨.insert, r⟩ (fun h => absurd rfl h) (fun hf _ _ => hf _ _ hfind haction) rfl⟩
      | replace => exact .inl ⟨_, rfl, .put hk ⟨.replace, r⟩ (fun _ => hkept hfind (.inr haction)) nofun rfl⟩

theorem Op.ran_of_run {tab' : RawStateTable K α}
    (hp : op.Present (denote tab.items m)) (hrun : op.run tab = .ok tab') : op.Ran m tab tab' := by
  rcases Op.run_ok hk hp with ⟨tab'', hrun', hran⟩ | ⟨hnot, -⟩
  · rw [hrun] at hrun'
    cases hrun'
    exact hran
  · exact absurd hrun (hnot tab')

end

/-- After every run, what is erased or replaced is in the base. -/
theorem Runs.kept {ops : List (Op K α)} (h : Runs m ops tab) : Kept tab.items m := by
  induction h with
  | nil => exact sound_empty
  | snoc h hop hrun ih => exact (Op.ran_of_run ih hop hrun).kept

/-- Every operation of a sequence inserts only what is absent. -/
def InsertsAbsent (m : KeyedMap (SLE K α)) : List (Op K α) → Prop
  | [] => True
  | op :: ops => op.Absent m ∧ InsertsAbsent (op.act m) ops

theorem insertsAbsent_append (m : KeyedMap (SLE K α)) (ops ops' : List (Op K α)) :
    InsertsAbsent m (ops ++ ops') ↔ InsertsAbsent m ops ∧ InsertsAbsent (ops.foldl Op.act m) ops' := by
  induction ops generalizing m with
  | nil => simp [InsertsAbsent]
  | cons op ops ih => simp [InsertsAbsent, ih, and_assoc]

/-- A run that inserts only what is absent does to the map what its operations do. -/
theorem Runs.denote_eq {ops : List (Op K α)} (h : Runs m ops tab) (ha : InsertsAbsent m ops) :
    Fresh tab.items m ∧ denote tab.items m = ops.foldl Op.act m := by
  induction h with
  | nil => exact ⟨sound_empty, rfl⟩
  | @snoc ops op tab tab' h hop hrun ih =>
    obtain ⟨hinit, hlast⟩ := (insertsAbsent_append m ops [op]).1 ha
    obtain ⟨hf, hd⟩ := ih hinit
    have hran := Op.ran_of_run h.kept hop hrun
    rw [foldl_append, ← hd]
    exact ⟨hran.fresh hf (hd ▸ hlast.1), hran.denote_eq hf⟩

/-! ## Agreement -/

/-- Merging the base with the table, among the keys that satisfy `p`. -/
theorem merge_filter (items : KeyedMap (SleAction K α)) (m : KeyedMap (SLE K α)) (p : K → Bool) :
    merge (m.toList.filter fun sle => p (key sle)) (items.toList.filter fun item => p (key item)) =
      (denote items m).toList.filter fun sle => p (key sle) := by
  have h0 := m.sorted.filter fun sle => p (key sle)
  have h1 := items.sorted.filter fun item => p (key item)
  refine eq_of_mem_iff (increasing_merge h0 h1) ((denote items m).sorted.filter _) fun v => ?_
  rw [mem_merge h0 h1, mem_filter, mem_filter, mem_toList, mem_toList, find_denote]
  cases hitem : items.find (key v) with
  | none =>
    have hnone := find_eq_none.1 hitem
    constructor
    · rintro (⟨item, hmem, hlive⟩ | ⟨hv, -⟩)
      · exact absurd (key_live hlive).symm (hnone item (mem_filter.1 hmem).1)
      · exact hv
    · exact fun hv => .inr ⟨hv, fun item hmem => hnone item (mem_filter.1 hmem).1⟩
  | some item =>
    obtain ⟨hmem, hk⟩ := find_eq_some.1 hitem
    constructor
    · rintro (⟨item', hmem', hlive⟩ | ⟨⟨-, hp⟩, hne⟩)
      · obtain ⟨hmem', hp'⟩ := mem_filter.1 hmem'
        have hk' : key item' = key v := (key_live hlive).symm
        obtain rfl := eq_of_key_eq items.sorted hmem hmem' (hk.trans hk'.symm)
        exact ⟨hlive, hk ▸ hp'⟩
      · exact absurd hk (hne item (mem_filter.2 ⟨hmem, by rw [hk]; exact hp⟩))
    · rintro ⟨hlive, hp⟩
      exact .inl ⟨item, mem_filter.2 ⟨hmem, by rw [hk]; exact hp⟩, hlive⟩

/-- Iterators over a part of the keys are good. -/
theorem good_standing (hk : Kept items m) (p : K → Bool) :
    (standing (m.toList.filter fun sle => p (key sle)) (items.toList.filter fun item => p (key item))).Good := by
  refine ⟨rfl, rfl, m.sorted.filter _, items.sorted.filter _, fun item hitem he => ?_⟩
  obtain ⟨hmem, hp⟩ := mem_filter.1 hitem
  obtain ⟨sle, hsle⟩ := Option.isSome_iff_exists.1
    (hk (key item) item (mem_toList.1 hmem) (by rw [he]; exact nofun))
  obtain ⟨hsmem, hsk⟩ := find_eq_some.1 hsle
  exact ⟨sle, mem_filter.2 ⟨hsmem, by rw [hsk]; exact hp⟩, hsk⟩

section Base
variable [ReadView σ K α] [RawView σ K α] [LawfulView σ] {base : σ} {m : KeyedMap (SLE K α)}

/-- Iteration from the start gives the entries of the map. -/
theorem slesBegin_collect [SlesView σ K α] [LawfulSles σ] (hb : LawfulView.Denotes base m) (hk : Kept tab.items m) :
    (tab.slesBegin base >>= collect) = .ok ((denote tab.items m).toList.map some) := by
  have hmerge := merge_filter tab.items m fun _ => true
  have hgood := good_standing hk fun _ => true
  simp only [filter_true] at hmerge hgood
  unfold slesBegin
  rw [LawfulSles.slesBegin_eq hb, collect_make _ _ hgood, hmerge]

/-- Iteration from a bound gives the entries behind it. -/
theorem slesUpperBound_collect [SlesView σ K α] [LawfulSles σ] (hb : LawfulView.Denotes base m) (hk : Kept tab.items m)
    (k : K) : (tab.slesUpperBound base k >>= collect) = .ok (((denote tab.items m).upperBound k).map some) := by
  have hmerge := merge_filter tab.items m (k < ·)
  have hgood := good_standing hk (k < ·)
  unfold slesUpperBound
  rw [LawfulSles.slesUpperBound_eq hb, upperBound_eq_filter, upperBound_eq_filter,
    upperBound_eq_filter, collect_make _ _ hgood, hmerge]

/-- An item fits the base's entry of its key. -/
def Fits (item : SleAction K α) (entry : Option (SLE K α)) : Prop :=
  (item.action ≠ .insert → entry.isSome) ∧ (item.action = .insert → entry = none)

theorem applyItem_ok (s : σ) (m : KeyedMap (SLE K α)) (item : SleAction K α) (hs : LawfulView.Denotes s m)
    (hfits : Fits item (m.find (key item))) :
    ∃ s', applyItem s item = .ok s' ∧ LawfulView.Denotes s' (m.set (key item) (live item)) := by
  obtain ⟨action, r⟩ := item
  obtain ⟨hkept, hfresh⟩ := hfits
  cases action with
  | erase => exact LawfulView.rawErase_ok hs r (hkept nofun)
  | insert => exact LawfulView.rawInsert_ok hs r (hfresh rfl)
  | replace => exact LawfulView.rawReplace_ok hs r (hkept nofun)

/-- The table is carried over to the base, which then stands for the same map. -/
theorem apply_ok (hb : LawfulView.Denotes base m) (hk : Kept tab.items m) (hf : Fresh tab.items m) :
    ∃ base', tab.apply base = .ok base' ∧ LawfulView.Denotes base' (denote tab.items m) := by
  refine foldlM_denotes applyItem_ok tab.items.sorted (LawfulView.rawDestroyXRP_ok hb _) fun item hitem => ?_
  exact ⟨Sound.of_mem hk hitem, Sound.of_mem hf hitem⟩

end Base

end RawStateTable

/-! ## The open view -/

/-- A table over a base view, in memory. -/
structure OpenView (σ K α : Type) [LinearOrder K] where
  base : σ
  items : RawStateTable K α

namespace OpenView

instance [ReadView σ K α] : ReadView (OpenView σ K α) K α where
  existsAt v := v.items.existsAt v.base
  read v := v.items.read v.base
  succ v := v.items.succ v.base

instance : RawView (OpenView σ K α) K α where
  rawErase v r := return { v with items := ← v.items.erase r }
  rawInsert v r := return { v with items := ← v.items.insert r }
  rawReplace v r := return { v with items := ← v.items.replace r }
  rawDestroyXRP v fee := { v with items := v.items.destroyXRP fee }

variable [ReadView σ K α] [RawView σ K α] [LawfulView σ]

/-- The map that an open view stands for: the table's items fit the base. -/
def Denotes (v : OpenView σ K α) (m : KeyedMap (SLE K α)) : Prop :=
  ∃ m₀, LawfulView.Denotes v.base m₀ ∧ RawStateTable.Kept v.items.items m₀ ∧ RawStateTable.Fresh v.items.items m₀ ∧
    m = Overlay.denote v.items.items m₀

theorem Denotes.run {v : OpenView σ K α} (h : v.Denotes m) (op : RawStateTable.Op K α) (hp : op.Present m)
    (ha : op.Absent m) : ∃ v',
    (do return { v with items := ← op.run v.items } : Run Exception (OpenView σ K α)) = .ok v' ∧
      v'.Denotes (op.act m) := by
  obtain ⟨m₀, hb, hk, hf, rfl⟩ := h
  obtain ⟨tab, hrun, hran⟩ := (RawStateTable.Op.run_ok hk hp).resolve_right fun h => h.2 ha
  exact ⟨{ v with items := tab }, by rw [hrun]; rfl, m₀, hb, hran.kept, hran.fresh hf ha, (hran.denote_eq hf).symm⟩

/-- So an open view is itself a base for the tables of sandboxes. -/
instance : LawfulView (OpenView σ K α) where
  Denotes := Denotes
  read_eq := by
    rintro v m ⟨m₀, hb, -, -, rfl⟩ k
    exact Overlay.read_eq hb v.items.items k
  existsAt_eq := by
    rintro v m ⟨m₀, hb, -, -, rfl⟩ k hk
    exact Overlay.existsAt_eq hb v.items.items k hk
  succ_eq := by
    rintro v m ⟨m₀, hb, -, -, rfl⟩ key last
    exact Overlay.succ_eq hb v.items.items key last
  rawErase_ok h r hr := h.run (.erase r) hr trivial
  rawInsert_ok h r hr := h.run (.insert r) trivial hr
  rawReplace_ok h r hr := h.run (.replace r) hr trivial
  rawDestroyXRP_ok h _ := h

/-- Over every base, and after every sequence of operations that does not throw and erases or replaces only what is
present, the open view is one finite map: `read`, `existsAt` and `succ` are those of the map, and iterating from the
beginning or from the upper bound of a key gives its entries by increasing key, without a look at a null pointer. If
the operations also insert only what is absent, the map is what they make of the base, and `apply` turns the base
into it. -/
theorem agrees_with_map [SlesView σ K α] [LawfulSles σ] {base : σ} {m : KeyedMap (SLE K α)}
    (hb : LawfulView.Denotes base m) {ops : List (RawStateTable.Op K α)} {tab : RawStateTable K α}
    (h : RawStateTable.Runs m ops tab) :
    ∃ m' : KeyedMap (SLE K α),
      (∀ k, tab.read base k = (m'.find k.key).filter k.check) ∧
      (∀ k : Keylet K, k.Fits m' → tab.existsAt base k = (m'.find k.key).isSome) ∧
      (∀ key last, tab.succ base key last = .ok (m'.succ key last)) ∧
      (tab.slesBegin base >>= RawStateTable.SlesIterImpl.collect) = .ok (m'.toList.map some) ∧
      (∀ key, (tab.slesUpperBound base key >>= RawStateTable.SlesIterImpl.collect) =
        .ok ((m'.upperBound key).map some)) ∧
      (RawStateTable.InsertsAbsent m ops →
        m' = ops.foldl RawStateTable.Op.act m ∧ ∃ base', tab.apply base = .ok base' ∧ LawfulView.Denotes base' m') := by
  refine ⟨Overlay.denote tab.items m, Overlay.read_eq hb tab.items, Overlay.existsAt_eq hb tab.items,
    Overlay.succ_eq hb tab.items, RawStateTable.slesBegin_collect hb h.kept,
    RawStateTable.slesUpperBound_collect hb h.kept, fun ha => ?_⟩
  obtain ⟨hf, hd⟩ := h.denote_eq ha
  exact ⟨hd, RawStateTable.apply_ok hb h.kept hf⟩

def offerAt (key : Nat) : SLE Nat Unit := ⟨key, .offer, ()⟩

/-- The first of two entries is erased and a third one inserted. -/
theorem agrees_with_map_erase_insert :
    let base : Ledger Nat Unit := ⟨(∅ : KeyedMap (SLE Nat Unit)).insert (offerAt 1) |>.insert (offerAt 2), 0⟩
    let ops : List (RawStateTable.Op Nat Unit) := [.erase ⟨0, offerAt 1⟩, .insert ⟨1, offerAt 3⟩]
    ∃ tab, RawStateTable.Runs base.stateMap ops tab ∧
      (tab.slesBegin base >>= RawStateTable.SlesIterImpl.collect) = .ok [some (offerAt 2), some (offerAt 3)] := by
  intro base ops
  have herase : RawStateTable.Runs base.stateMap ([] ++ [.erase ⟨0, offerAt 1⟩]) _ :=
      RawStateTable.Runs.nil.snoc rfl rfl
  have hinsert : RawStateTable.Runs base.stateMap ([.erase ⟨0, offerAt 1⟩] ++ [.insert ⟨1, offerAt 3⟩]) _ :=
    herase.snoc trivial rfl
  have hbase : LawfulView.Denotes base base.stateMap := rfl
  obtain ⟨m', -, -, -, hiter, -, hmap⟩ := agrees_with_map hbase hinsert
  obtain ⟨rfl, -⟩ := hmap ⟨trivial, rfl, trivial⟩
  exact ⟨_, hinsert, hiter⟩

/-- An entry of the base can be inserted once more, and the table cannot be applied then. -/
theorem apply_throws_after_insert :
    let base : Ledger Nat Unit := ⟨(∅ : KeyedMap (SLE Nat Unit)).insert (offerAt 1), 0⟩
    ∃ tab, RawStateTable.Runs base.stateMap [.insert ⟨0, offerAt 1⟩] tab ∧
      tab.apply base = Run.throw (.logicError "Ledger::rawInsert: key already exists") :=
  ⟨_, RawStateTable.Runs.nil.snoc trivial rfl, rfl⟩

end OpenView

end Rippled.View
