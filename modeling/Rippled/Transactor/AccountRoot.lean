import Mathlib.Algebra.Order.Ring.Int
import Rippled.Lib.HashMap

/-!
# Account roots, owner counts and reserves

An account pays a reserve for itself and for what it owns, unless a sponsor does. `OwnerCount` counts what the account
owns, `SponsoredOwnerCount` the part of it that sponsors pay for, and `SponsoringOwnerCount` and
`SponsoringAccountCount` what it pays for itself as the sponsor of others. All counts are 32 bits wide and stop at
both ends. `Lowered` says what giving up objects does to the counts of an account: it never raises its reserve.

Amounts of XRP are numbers of drops, without the bound of 64 bits. The hooks that tell a view of a change of owner
counts change no ledger entry, and are left out.
-/

namespace Rippled.Transactor

open Lib

/-- The amendments that the code below asks for. -/
structure Rules where
  featureSponsor : Bool
  featureCosign : Bool
  featureDeepFreeze : Bool
  featureLendingProtocol : Bool
  fixDirectoryLimit : Bool
  fixCleanup3_4_0 : Bool

/-- The reserves of a ledger, in drops. -/
structure Fees where
  reserve : Nat
  increment : Nat

def Fees.accountReserve (fees : Fees) (ownerCount accountCount : UInt32) : Nat :=
  fees.reserve * accountCount.toNat + fees.increment * ownerCount.toNat

/-- An account root. The counts other than `OwnerCount` are fields with a default, absent when they are zero. -/
structure AccountRoot (Id : Type) where
  sequence : UInt32
  balance : Int
  ownerCount : UInt32
  sponsoredOwnerCount : UInt32
  sponsoringOwnerCount : UInt32
  sponsoringAccountCount : UInt32
  sponsor : Option Id
  ticketCount : Option UInt32
  accountTxnID : Option Nat
  pseudoAccount : Bool
  defaultRipple : Bool
  noFreeze : Bool
  requireDestTag : Bool
  depositAuth : Bool
  mintedNFTokens : Option UInt32
  burnedNFTokens : Option UInt32
  firstNFTokenSequence : Option UInt32
  deriving DecidableEq

/-- What a sponsor has set aside for one sponsee. -/
structure Sponsorship where
  feeAmount : Option Int
  maxFee : Option Int
  remainingOwnerCount : UInt32
  requireSignForFee : Bool
  requireSignForReserve : Bool
  deriving DecidableEq

/-! ## Counts -/

/-- `int32` added to `uint32`, stopped at both ends. -/
def confineOwnerCount (currentOwnerCount : UInt32) (ownerCountAdj : Int) : UInt32 :=
  let totalOwnerCount := currentOwnerCount + UInt32.ofInt ownerCountAdj
  if 0 < ownerCountAdj then
    if totalOwnerCount < currentOwnerCount then 4294967295 else totalOwnerCount
  else
    if currentOwnerCount < totalOwnerCount then 0 else totalOwnerCount

theorem toNat_ofInt (x : Int) : ((UInt32.ofInt x).toNat : Int) = x % 4294967296 := by
  have hpos : 0 ≤ x % 4294967296 := Int.emod_nonneg x (by decide)
  have hto : (UInt32.ofInt x).toNat = (x % 4294967296).toNat % 4294967296 := rfl
  omega

theorem toNat_confineOwnerCount (c : UInt32) (adj : Int) (hlow : -2147483648 ≤ adj) (hhigh : adj ≤ 2147483647) :
    ((confineOwnerCount c adj).toNat : Int) = max 0 (min (c.toNat + adj) 4294967295) := by
  have hc : c.toNat < 4294967296 := c.toNat_lt
  have hof := toNat_ofInt adj
  have hadd : (c + UInt32.ofInt adj).toNat = (c.toNat + (UInt32.ofInt adj).toNat) % 4294967296 := UInt32.toNat_add _ _
  simp only [confineOwnerCount, UInt32.lt_iff_toNat_lt, hadd]
  split_ifs
  · change ((4294967295 : Nat) : Int) = _
    omega
  · rw [hadd]
    omega
  · change ((0 : Nat) : Int) = _
    omega
  · rw [hadd]
    omega

theorem toNat_confineOwnerCount_neg (c : UInt32) {n : Nat} (hn : n ≤ 2147483647) :
    (confineOwnerCount c (-n)).toNat = c.toNat - n := by
  have := toNat_confineOwnerCount c (-n) (by omega) (by omega)
  have := c.toNat_lt
  omega

variable {Id : Type}

def ownerCount (sle : AccountRoot Id) (ownerCountAdj : Int) : UInt32 :=
  let deltaCount := ownerCountAdj - sle.sponsoredOwnerCount.toNat + sle.sponsoringOwnerCount.toNat
  confineOwnerCount sle.ownerCount <|
    if 2147483647 < deltaCount then 2147483647 else if deltaCount < -2147483648 then -2147483648 else deltaCount

/-- The number of account reserves that an account pays for. -/
def accountCountImpl (sle : AccountRoot Id) (accountCountAdj : Int) : UInt32 :=
  let totalAccountCount := (if sle.sponsor.isSome then 0 else 1) + sle.sponsoringAccountCount.toNat + accountCountAdj
  if 4294967295 < totalAccountCount then 4294967295
  else if totalAccountCount < 0 then 0
  else UInt32.ofInt totalAccountCount

/-- How an account is about to change. -/
structure Adjustment where
  ownerCountDelta : Int := 0
  accountCountDelta : Int := 0

def accountReserve (rules : Rules) (fees : Fees) (sle : AccountRoot Id) (adj : Adjustment) : Nat :=
  if !rules.featureSponsor then fees.accountReserve (sle.ownerCount + UInt32.ofInt adj.ownerCountDelta) 1
  else fees.accountReserve (ownerCount sle adj.ownerCountDelta) (accountCountImpl sle adj.accountCountDelta)

theorem toNat_ownerCount (sle : AccountRoot Id) :
    ((ownerCount sle 0).toNat : Int) =
      max 0 (min ((sle.ownerCount.toNat : Int) +
        max (-2147483648) (min ((sle.sponsoringOwnerCount.toNat : Int) - sle.sponsoredOwnerCount.toNat) 2147483647))
        4294967295) := by
  unfold ownerCount
  dsimp only
  split_ifs
  · rw [toNat_confineOwnerCount _ _ (by decide) (by decide)]
    omega
  · rw [toNat_confineOwnerCount _ _ (by decide) (by decide)]
    omega
  · rw [toNat_confineOwnerCount _ _ (by omega) (by omega)]
    omega

/-- Owner counts lowered by `n`, of which sponsors paid for `m`, and by `k` that the account paid for as a sponsor. -/
structure LoweredBy (n m k : Nat) (sle sle' : AccountRoot Id) : Prop where
  owner : sle'.ownerCount.toNat = sle.ownerCount.toNat - n
  sponsored : sle'.sponsoredOwnerCount.toNat = sle.sponsoredOwnerCount.toNat - m
  sponsoring : sle'.sponsoringOwnerCount.toNat = sle.sponsoringOwnerCount.toNat - k
  same : sle' = { sle with
    ownerCount := sle'.ownerCount, sponsoredOwnerCount := sle'.sponsoredOwnerCount,
    sponsoringOwnerCount := sle'.sponsoringOwnerCount }

/-- The account gave up objects, or objects that it sponsored were given up, and nothing else in it changed. -/
def Lowered (sle sle' : AccountRoot Id) : Prop := ∃ n m k, m ≤ n ∧ LoweredBy n m k sle sle'

theorem LoweredBy.refl (sle : AccountRoot Id) : LoweredBy 0 0 0 sle sle := ⟨rfl, rfl, rfl, rfl⟩

theorem LoweredBy.trans {n m k n' m' k' : Nat} {sle₁ sle₂ sle₃ : AccountRoot Id} (h₁ : LoweredBy n m k sle₁ sle₂)
    (h₂ : LoweredBy n' m' k' sle₂ sle₃) : LoweredBy (n + n') (m + m') (k + k') sle₁ sle₃ := by
  refine ⟨?_, ?_, ?_, ?_⟩
  · rw [h₂.owner, h₁.owner, Nat.sub_sub]
  · rw [h₂.sponsored, h₁.sponsored, Nat.sub_sub]
  · rw [h₂.sponsoring, h₁.sponsoring, Nat.sub_sub]
  · rw [h₂.same, h₁.same]

variable {sle' sle : AccountRoot Id}

theorem Lowered.same (h : Lowered sle sle') :
    sle' = { sle with
      ownerCount := sle'.ownerCount, sponsoredOwnerCount := sle'.sponsoredOwnerCount,
      sponsoringOwnerCount := sle'.sponsoringOwnerCount } := by
  obtain ⟨n, m, k, -, h⟩ := h
  exact h.same

section
variable (h : Lowered sle sle') (hle : sle.sponsoredOwnerCount ≤ sle.ownerCount)
include h hle

theorem Lowered.ownerCount_le : (ownerCount sle' 0).toNat ≤ (ownerCount sle 0).toNat := by
  obtain ⟨n, m, k, hmn, h⟩ := h
  have h₁ := toNat_ownerCount sle
  have h₂ := toNat_ownerCount sle'
  have hle' := UInt32.le_iff_toNat_le.1 hle
  rw [h.owner, h.sponsored, h.sponsoring] at h₂
  omega

theorem Lowered.accountReserve_le (rules : Rules)
    (fees : Fees) : accountReserve rules fees sle' {} ≤ accountReserve rules fees sle {} := by
  have hcount : accountCountImpl sle' 0 = accountCountImpl sle 0 := by
    rw [h.same]
    rfl
  have howner : sle'.ownerCount.toNat ≤ sle.ownerCount.toNat := by
    obtain ⟨n, m, k, -, h⟩ := h
    rw [h.owner]
    exact Nat.sub_le _ _
  unfold accountReserve
  split
  · have hzero : ∀ c : UInt32, c + UInt32.ofInt 0 = c := UInt32.add_zero
    rw [hzero, hzero]
    exact Nat.add_le_add_left (Nat.mul_le_mul_left _ howner) _
  · rw [hcount]
    exact Nat.add_le_add_left (Nat.mul_le_mul_left _ (h.ownerCount_le hle)) _

end

/-- What an object counts for in the reserve of its owner, and the sponsor that pays it. -/
structure Holding (Id : Type) where
  owner : Id
  sponsor : Option Id
  count : Nat

namespace Holding

variable [DecidableEq Id] (held : Holding Id) (id : Id)

def owned : Nat := if id = held.owner then held.count else 0

def sponsored : Nat := if id = held.owner ∧ held.sponsor.isSome then held.count else 0

def sponsoring : Nat := if held.sponsor = some id then held.count else 0

end Holding

/-! ## Accounts and sponsorships of a ledger -/

/-- The account roots, and the sponsorships by sponsor and sponsee. -/
structure Roots (Id : Type) where
  accounts : HashMap Id (AccountRoot Id)
  sponsorships : HashMap (Id × Id) Sponsorship

variable [DecidableEq Id] (r : Roots Id) (account : Id) (sponsor : Option Id)

namespace Roots

/-- Fields of an account root are set, where there is one. -/
def modify (r : Roots Id) (id : Id) (set : AccountRoot Id → AccountRoot Id) : Roots Id :=
  match r.accounts.lookup id with
  | none => r
  | some sle => { r with accounts := r.accounts.insert id (set sle) }

theorem lookup_modify (id : Id) (set : AccountRoot Id → AccountRoot Id) (id' : Id) :
    (r.modify id set).accounts.lookup id' =
      (r.accounts.lookup id').map fun sle => if id' = id then set sle else sle := by
  unfold modify
  by_cases hid : id' = id
  · subst hid
    cases h : r.accounts.lookup id' with
    | none => rw [h, Option.map_none]
    | some sle =>
      rw [Option.map_some, if_pos rfl]
      exact AList.lookup_insert _
  · simp only [if_neg hid, Option.map_id']
    split
    · rfl
    · exact AList.lookup_insert_ne hid

@[simp] theorem sponsorships_modify (id : Id) (set : AccountRoot Id → AccountRoot Id) :
    (r.modify id set).sponsorships = r.sponsorships := by
  unfold modify
  split <;> rfl

/-- The pre-funded count of a sponsorship is lowered, where there is one. -/
def takeReserve (r : Roots Id) (sponsor sponsee : Id) (adjustment : Int) : Roots Id :=
  match r.sponsorships.lookup (sponsor, sponsee) with
  | none => r
  | some sle =>
    let sle := { sle with remainingOwnerCount := confineOwnerCount sle.remainingOwnerCount (-adjustment) }
    { r with sponsorships := r.sponsorships.insert (sponsor, sponsee) sle }

@[simp] theorem accounts_takeReserve (sponsor sponsee : Id) (adjustment : Int) :
    (r.takeReserve sponsor sponsee adjustment).accounts = r.accounts := by
  unfold takeReserve
  split <;> rfl

end Roots

section Adjust

variable (rules : Rules)

def addOwner (adjustment : Int) (sle : AccountRoot Id) : AccountRoot Id :=
  { sle with ownerCount := confineOwnerCount sle.ownerCount adjustment }

def addSponsored (adjustment : Int) (sle : AccountRoot Id) : AccountRoot Id :=
  { sle with sponsoredOwnerCount := confineOwnerCount sle.sponsoredOwnerCount adjustment }

def addSponsoring (adjustment : Int) (sle : AccountRoot Id) : AccountRoot Id :=
  { sle with sponsoringOwnerCount := confineOwnerCount sle.sponsoringOwnerCount adjustment }

def adjustOwnerCountSigned (r : Roots Id) (account : Id) (sponsor : Option Id) (adjustment : Int) : Roots Id :=
  if rules.featureSponsor then
    match sponsor with
    | none => r.modify account (addOwner adjustment)
    | some sponsorID =>
      let r := (r.modify account (addSponsored adjustment)).modify sponsorID (addSponsoring adjustment)
      -- the pre-funded count pays for new objects, and gets nothing back
      let r := if 0 < adjustment then r.takeReserve sponsorID account adjustment else r
      r.modify account (addOwner adjustment)
  else r.modify account (addOwner adjustment)

def increaseOwnerCount (r : Roots Id) (account : Id) (sponsor : Option Id) (count : Nat) : Roots Id :=
  if count = 0 ∨ 2147483647 < count then r else adjustOwnerCountSigned rules r account sponsor count

def decreaseOwnerCount (r : Roots Id) (account : Id) (sponsor : Option Id) (count : Nat) : Roots Id :=
  if count = 0 ∨ 2147483647 < count then r else adjustOwnerCountSigned rules r account sponsor (-count)

/-- The account root of the sponsor that an object names, when it is there. -/
def getLedgerEntryReserveSponsor (r : Roots Id) (sponsor : Option Id) : Option Id :=
  sponsor.filter fun sponsorID => (r.accounts.lookup sponsorID).isSome

/-- An object that names the given sponsor is given up. -/
def decreaseOwnerCountForObject (r : Roots Id) (account : Id) (sponsor : Option Id) (count : Nat) : Roots Id :=
  decreaseOwnerCount rules r account (getLedgerEntryReserveSponsor r sponsor) count

/-- The sponsor whose counts are adjusted. -/
def paying (sponsor : Option Id) : Option Id := if rules.featureSponsor then sponsor else none

/-- What an adjustment makes of the root of account `id`. -/
def adjusted (account : Id) (sponsor : Option Id) (adjustment : Int) (id : Id) (sle : AccountRoot Id) :
    AccountRoot Id :=
  { sle with
    ownerCount := if id = account then confineOwnerCount sle.ownerCount adjustment else sle.ownerCount
    sponsoredOwnerCount :=
      if id = account ∧ (paying rules sponsor).isSome then confineOwnerCount sle.sponsoredOwnerCount adjustment
      else sle.sponsoredOwnerCount
    sponsoringOwnerCount :=
      if paying rules sponsor = some id then confineOwnerCount sle.sponsoringOwnerCount adjustment
      else sle.sponsoringOwnerCount }

theorem adjusted_of_paying_none {sponsor : Option Id} (h : paying rules sponsor = none)
    (account : Id) (adjustment : Int) (id : Id) (sle : AccountRoot Id) :
    adjusted rules account sponsor adjustment id sle = if id = account then addOwner adjustment sle else sle := by
  unfold adjusted
  rw [h]
  by_cases hid : id = account
  · simp [hid, addOwner]
  · simp [hid]

theorem adjusted_of_paying_some {sponsor : Option Id} {sponsorID : Id} (h : paying rules sponsor = some sponsorID)
    (account : Id) (adjustment : Int) (id : Id) (sle : AccountRoot Id) :
    adjusted rules account sponsor adjustment id sle =
      (fun sle => if id = account then addOwner adjustment sle else sle)
        ((fun sle => if id = sponsorID then addSponsoring adjustment sle else sle)
          (if id = account then addSponsored adjustment sle else sle)) := by
  have hiff : some sponsorID = some id ↔ id = sponsorID := by rw [Option.some.injEq, eq_comm]
  unfold adjusted
  simp only [h, hiff, Option.isSome_some, and_true]
  split_ifs <;> rfl

theorem lookup_adjustOwnerCountSigned (adjustment : Int) (id : Id) :
    (adjustOwnerCountSigned rules r account sponsor adjustment).accounts.lookup id =
      (r.accounts.lookup id).map (adjusted rules account sponsor adjustment id) := by
  unfold adjustOwnerCountSigned
  cases hrule : rules.featureSponsor with
  | false =>
    have hnone : paying rules sponsor = none := by rw [paying, hrule]; rfl
    rw [if_neg (by decide), Roots.lookup_modify]
    exact congrArg (Option.map · _)
      (funext fun sle => (adjusted_of_paying_none rules hnone account adjustment id sle).symm)
  | true =>
    rw [if_pos rfl]
    have hsome : paying rules sponsor = sponsor := by rw [paying, hrule]; rfl
    cases sponsor with
    | none =>
      rw [Roots.lookup_modify]
      exact congrArg (Option.map · _)
        (funext fun sle => (adjusted_of_paying_none rules hsome account adjustment id sle).symm)
    | some sponsorID =>
      have htake : ∀ r : Roots Id, (if 0 < adjustment then r.takeReserve sponsorID account adjustment else r).accounts =
          r.accounts := by
        intro r
        split
        · exact Roots.accounts_takeReserve _ _ _ _
        · rfl
      dsimp only
      rw [Roots.lookup_modify, htake, Roots.lookup_modify, Roots.lookup_modify, Option.map_map, Option.map_map]
      exact congrArg (Option.map · _)
        (funext fun sle => (adjusted_of_paying_some rules hsome account adjustment id sle).symm)

theorem sponsorships_adjust_neg (n : Nat) :
    (adjustOwnerCountSigned rules r account sponsor (-n)).sponsorships = r.sponsorships := by
  unfold adjustOwnerCountSigned
  split
  · cases sponsor with
    | none => exact Roots.sponsorships_modify _ _ _
    | some sponsorID =>
      dsimp only
      rw [if_neg (by omega), Roots.sponsorships_modify, Roots.sponsorships_modify, Roots.sponsorships_modify]
  · exact Roots.sponsorships_modify _ _ _

theorem loweredBy_adjusted {n : Nat} (hn : n ≤ 2147483647) (id : Id) (sle : AccountRoot Id) :
    LoweredBy (if id = account then n else 0) (if id = account ∧ (paying rules sponsor).isSome then n else 0)
      (if paying rules sponsor = some id then n else 0) sle (adjusted rules account sponsor (-n) id sle) := by
  have hconfine : ∀ (p : Prop) [Decidable p] (c : UInt32),
      (if p then confineOwnerCount c (-n) else c).toNat = c.toNat - if p then n else 0 := by
    intro p _ c
    split
    · exact toNat_confineOwnerCount_neg c hn
    · rfl
  exact ⟨hconfine _ _, hconfine _ _, hconfine _ _, rfl⟩

end Adjust

end Rippled.Transactor
