import Rippled.Validators.Manifest
/-!
# Whom a signing key speaks for

Calls of `applyManifest` run at the same time: a call that passed its first part waits for its second one, while any
other call runs. `Consistent` is what the cache keeps in every such run.
-/

namespace Rippled.Validators

open Lib Protocol Option

variable {Key : Type} [DecidableEq Key] {m : Manifest Key} {d : ManifestDisposition}

namespace ManifestCache

/-- What the two maps and the set of untrusted keys have to do with each other. -/
structure Consistent (signed : Bytes → Key → SField → Bool) (c : ManifestCache Key) : Prop where
  verified : ∀ k m, c.map.lookup k = some m → m.masterKey = k ∧ m.verify signed = true
  signing : ∀ s k, c.signingToMasterKeys.lookup s = some k ↔ ∃ m, c.map.lookup k = some m ∧ m.signingKey = some s
  apart : ∀ k, (c.map.lookup k).isSome → c.signingToMasterKeys.lookup k = none
  untrusted : ∀ k ∈ c.untrustedKeys, (c.map.lookup k).isSome
  capped : c.untrustedKeys.card ≤ c.maxUntrustedCount

variable {signed : Bytes → Key → SField → Bool} {c : ManifestCache Key} {m : Manifest Key}
    {cap : ManifestRateLimitCapPolicy}

theorem consistent_init (n : Nat) : Consistent signed (init n : ManifestCache Key) where
  verified k m h := by simp [init] at h
  signing s k := by simp [init]
  apart k h := by simp [init] at h
  untrusted k h := by simp [init] at h
  capped := Nat.zero_le n

/-! ## What a write does -/

/-- The checks that a manifest has passed when it is stored. -/
structure Fresh (c : ManifestCache Key) (m : Manifest Key) : Prop where
  newer : ∀ old, c.map.lookup m.masterKey = some old → old.sequence < m.sequence
  master : c.signingToMasterKeys.lookup m.masterKey = none
  signing : ∀ s, m.signingKey = some s → c.signingToMasterKeys.lookup s = none ∧ c.map.lookup s = none

/-- A manifest that passes the check is fresh. -/
theorem fresh_of_prewriteCheck {b : Bool} (h : c.prewriteCheck signed m b = none) : c.Fresh m := by
  unfold prewriteCheck at h
  by_cases hstale : ((c.map.lookup m.masterKey).any fun old => m.sequence ≤ old.sequence) = true
  · rw [if_pos hstale] at h
    cases h
  rw [if_neg hstale] at h
  split at h
  · cases h
  by_cases hmaster : (c.signingToMasterKeys.lookup m.masterKey).isSome = true
  · rw [if_pos hmaster] at h
    cases h
  rw [if_neg hmaster] at h
  refine ⟨fun old hold => ?_, by simpa using hmaster, fun s hs => ?_⟩
  · rw [hold] at hstale
    simpa using hstale
  · have hrev : m.revoked = false := by
      rw [← Bool.not_eq_true, Manifest.revoked_iff, hs]
      exact some_ne_none s
    rw [if_neg (by simp [hrev]), checkSigningKey, hs] at h
    dsimp only at h
    split at h
    · cases h
    · rename_i hsigning
      split at h
      · cases h
      · rename_i hmap
        exact ⟨by simpa using hsigning, by simpa using hmap⟩

theorem verify_of_prewriteCheck (h : c.prewriteCheck signed m true = none) : m.verify signed = true := by
  unfold prewriteCheck at h
  split at h
  · cases h
  · split at h
    · cases h
    · rename_i hv
      simpa using hv

/-- A write stores the manifest, or it changes nothing. -/
inductive Written (c : ManifestCache Key) (m : Manifest Key) : ManifestDisposition → ManifestCache Key → Prop where
  | kept {d : ManifestDisposition} (hd : d ≠ .accepted) : Written c m d c
  | stored {c' : ManifestCache Key} (hfresh : c.Fresh m)
      (hmap : ∀ k, c'.map.lookup k = if k = m.masterKey then some m else c.map.lookup k)
      (hsigning : ∀ s k, c'.signingToMasterKeys.lookup s = some k ↔
        (m.signingKey = some s ∧ k = m.masterKey) ∨ (c.signingToMasterKeys.lookup s = some k ∧
          ∀ old, c.map.lookup m.masterKey = some old → old.signingKey ≠ some s))
      (huntrusted : ∀ k ∈ c'.untrustedKeys, k = m.masterKey ∨ k ∈ c.untrustedKeys)
      (hcard : c'.untrustedKeys.card ≤ c.untrustedKeys.card ∨ c'.untrustedKeys.card ≤ c.maxUntrustedCount)
      (hmax : c'.maxUntrustedCount = c.maxUntrustedCount) : Written c m .accepted c'

/-- The check alone accepts nothing. -/
theorem prewriteCheck_ne_accepted {b : Bool} (h : c.prewriteCheck signed m b = some d) : d ≠ .accepted := by
  unfold prewriteCheck checkSigningKey at h
  repeat' split at h
  all_goals cases h
  all_goals decide

/-- A signing key that is not in use is added. -/
theorem lookup_emplaceSigningKey {signing : HashMap Key Key}
    (hnone : ∀ s, m.signingKey = some s → signing.lookup s = none)
    (s k : Key) : (emplaceSigningKey signing m).lookup s = some k ↔
      (m.signingKey = some s ∧ k = m.masterKey) ∨ signing.lookup s = some k := by
  unfold emplaceSigningKey
  cases hm : m.signingKey with
  | none => simp
  | some s' =>
    dsimp only
    rw [HashMap.lookup_emplace]
    by_cases hs : s = s'
    · subst hs
      simp [hnone s hm, eq_comm]
    · have hne : ¬ s' = s := fun h => hs h.symm
      simp [hs, hne]

theorem written_acceptNew (hfresh : c.Fresh m) (hnew : c.map.lookup m.masterKey = none)
    (hcap : c.atUntrustedCap m cap = false) : Written c m .accepted (c.acceptNew m cap) := by
  refine .stored hfresh (fun k => ?_) (fun s k => ?_) (fun k hk => ?_) ?_ rfl
  · rw [acceptNew, HashMap.lookup_emplace, hnew]
    rfl
  · rw [acceptNew, lookup_emplaceSigningKey fun s hs => (hfresh.signing s hs).1]
    simp [hnew]
  · unfold acceptNew at hk
    dsimp only at hk
    split at hk
    · exact .inr hk
    · exact Finset.mem_insert.1 hk
  · unfold acceptNew
    dsimp only
    split
    · exact .inl le_rfl
    · rename_i huncapped
      have hlt : c.untrustedKeys.card < c.maxUntrustedCount := by
        simpa [atUntrustedCap, hnew, huncapped] using hcap
      exact .inr ((Finset.card_insert_le _ _).trans hlt)

theorem written_acceptUpdate (hfresh : c.Fresh m) {old : Manifest Key} (hold : c.map.lookup m.masterKey = some old) :
    Written c m .accepted (c.acceptUpdate old m cap) := by
  have hrev : old.revoked = false := by
    by_contra h
    have hle := Manifest.sequence_le_of_revoked (by simpa using h) m.sequence
    exact absurd (hfresh.newer old hold) (UInt32.not_lt.2 hle)
  obtain ⟨s₀, hs₀⟩ := Manifest.exists_signingKey hrev
  refine .stored hfresh (fun k => ?_) (fun s k => ?_) (fun k hk => ?_) ?_ rfl
  · rw [acceptUpdate, HashMap.lookup_insert_eq]
  · unfold acceptUpdate
    simp only [hs₀]
    rw [lookup_emplaceSigningKey, HashMap.lookup_erase_eq]
    · refine or_congr_right ?_
      by_cases hs : s = s₀
      · subst hs
        simp [hold, hs₀]
      · have hne : ¬ s₀ = s := fun h => hs h.symm
        simp [hs, hold, hs₀, hne]
    · intro s hs
      rw [HashMap.lookup_erase_eq, (hfresh.signing s hs).1, ite_self]
  · unfold acceptUpdate at hk
    dsimp only at hk
    split at hk
    · exact .inr (Finset.mem_of_mem_erase hk)
    · exact .inr hk
  · unfold acceptUpdate
    dsimp only
    split
    · exact .inl (Finset.card_le_card (Finset.erase_subset _ _))
    · exact .inl le_rfl

variable {c' : ManifestCache Key}

/-- The part under the write lock stores the manifest, or changes nothing. -/
theorem written_of_applyManifestWrite (h : c.applyManifestWrite signed m cap = (d, c')) : Written c m d c' := by
  unfold applyManifestWrite at h
  by_cases hcap : c.atUntrustedCap m cap = true
  · rw [if_pos hcap] at h
    cases h
    exact .kept (by decide)
  rw [if_neg hcap] at h
  cases hcheck : c.prewriteCheck signed m false with
  | some d' =>
    rw [hcheck] at h
    cases h
    exact .kept (prewriteCheck_ne_accepted hcheck)
  | none =>
    have hfresh := fresh_of_prewriteCheck hcheck
    rw [hcheck] at h
    cases hold : c.map.lookup m.masterKey with
    | none =>
      simp only [hold] at h
      cases h
      exact written_acceptNew hfresh hold (by simpa using hcap)
    | some old =>
      simp only [hold] at h
      cases h
      exact written_acceptUpdate hfresh hold

theorem applyManifestRead_ne_accepted (h : c.applyManifestRead signed m cap = some d) : d ≠ .accepted := by
  unfold applyManifestRead at h
  split at h
  · cases h
    decide
  · exact prewriteCheck_ne_accepted h

/-- A call stores the manifest, or changes nothing. -/
theorem written_applyManifest (signed : Bytes → Key → SField → Bool) (c : ManifestCache Key) (m : Manifest Key)
    (cap : ManifestRateLimitCapPolicy) : Written c m (c.applyManifest signed m cap).1
    (c.applyManifest signed m cap).2 := by
  unfold applyManifest
  split
  · rename_i d hread
    exact .kept (applyManifestRead_ne_accepted hread)
  · exact written_of_applyManifestWrite rfl

theorem lookup_of_written (h : Written c m .accepted c') : c'.map.lookup m.masterKey = some m := by
  cases h with
  | kept hd => exact absurd rfl hd
  | stored _ hmap _ _ _ _ => rw [hmap, if_pos rfl]

/-- Only an accepted manifest changes the cache. -/
theorem Written.eq_of_ne_accepted (h : Written c m d c') (hd : d ≠ .accepted) : c' = c := by
  cases h with
  | kept _ => rfl
  | stored _ _ _ _ _ _ => exact absurd rfl hd

theorem Written.fresh (h : Written c m .accepted c') : c.Fresh m := by
  cases h with
  | kept hd => exact absurd rfl hd
  | stored hfresh _ _ _ _ _ => exact hfresh

theorem Written.lookup_other (h : Written c m d c') {k : Key} (hk : k ≠ m.masterKey) :
    c'.map.lookup k = c.map.lookup k := by
  cases h with
  | kept _ => rfl
  | stored _ hmap _ _ _ _ => rw [hmap, if_neg hk]

section
variable (h : Consistent signed c)
include h

/-- A verified manifest is stored consistently. -/
theorem Consistent.write (hw : Written c m d c') (hm : m.verify signed = true) : Consistent signed c':= by
  cases hw with
  | kept _ => exact h
  | stored hfresh hmap hsigning huntrusted hcard hmax =>
    refine ⟨fun k x hx => ?_, fun s k => ?_, fun k hk => ?_, fun k hk => ?_, ?_⟩
    · rw [hmap] at hx
      split at hx
      · rename_i hk
        obtain rfl := some.inj hx
        exact ⟨hk.symm, hm⟩
      · exact h.verified k x hx
    · rw [hsigning, hmap, h.signing]
      by_cases hk : k = m.masterKey
      · -- the old manifest of this master key gives way to the new one
        subst hk
        rw [if_pos rfl]
        constructor
        · rintro (⟨hs, -⟩ | ⟨⟨old, hold, hs⟩, hnot⟩)
          · exact ⟨m, rfl, hs⟩
          · exact absurd hs (hnot old hold)
        · rintro ⟨x, hx, hs⟩
          obtain rfl := some.inj hx
          exact .inl ⟨hs, rfl⟩
      · rw [if_neg hk]
        constructor
        · rintro (⟨-, hkm⟩ | ⟨hx, -⟩)
          · exact absurd hkm hk
          · exact hx
        · rintro ⟨x, hx, hs⟩
          refine .inr ⟨⟨x, hx, hs⟩, fun old hold hs' => hk ?_⟩
          -- no other master key has the signing key of the old manifest
          have hsk := (h.signing s k).2 ⟨x, hx, hs⟩
          have hsm := (h.signing s m.masterKey).2 ⟨old, hold, hs'⟩
          exact some.inj (hsk.symm.trans hsm)
    · refine eq_none_iff_forall_not_mem.2 fun k' hk' => ?_
      rw [hmap] at hk
      rcases (hsigning k k').1 hk' with ⟨hs, -⟩ | ⟨hold, -⟩
      · split at hk
        · rename_i hkm
          exact m.distinct (hkm ▸ hs)
        · rw [(hfresh.signing k hs).2] at hk
          exact absurd hk (by simp)
      · split at hk
        · rename_i hkm
          rw [hkm, hfresh.master] at hold
          cases hold
        · rw [h.apart k hk] at hold
          cases hold
    · rw [hmap]
      split
      · rfl
      · rename_i hne
        rcases huntrusted k hk with rfl | hold
        · exact absurd rfl hne
        · exact h.untrusted k hold
    · rw [hmax]
      exact hcard.elim (fun hle => hle.trans h.capped) id

theorem Consistent.promote (pk : Key) : Consistent signed (c.promoteToTrusted pk) where
  __ := h
  untrusted k hk := h.untrusted k (Finset.mem_of_mem_erase hk)
  capped := (Finset.card_le_card (Finset.erase_subset _ _)).trans h.capped

/-- The signing key of a master key leads back to it. -/
theorem Consistent.getMasterKey_getSigningKey {k : Key} (hm : c.map.lookup k = some m)
    (hrev : m.revoked = false) : (c.getSigningKey k).map c.getMasterKey = some k := by
  obtain ⟨s, hs⟩ := Manifest.exists_signingKey hrev
  have hlook := (h.signing s k).2 ⟨m, hm, hs⟩
  simp only [getSigningKey, hm, hrev, Bool.false_eq_true, if_false, hs, map_some, getMasterKey, hlook]

/-- A key is its own master key, or the signing key in its master key's manifest. -/
theorem Consistent.getMasterKey_cases (s : Key) :
    c.getMasterKey s = s ∨ ∃ m, c.map.lookup (c.getMasterKey s) = some m ∧ m.signingKey = some s := by
  unfold getMasterKey
  cases hs : c.signingToMasterKeys.lookup s with
  | none => exact .inl rfl
  | some k => exact .inr ((h.signing s k).1 hs)

end

end ManifestCache

/-! ## Calls at the same time -/

open ManifestCache

/-- A cache with the calls of `applyManifest` that are between their two parts, and the manifests that were accepted,
the last one first. -/
structure Calls (Key : Type) [DecidableEq Key] where
  cache : ManifestCache Key
  waiting : List (Manifest Key × ManifestRateLimitCapPolicy)
  accepted : List (Manifest Key)

def Calls.init (maxUntrustedCount : Nat) : Calls Key := ⟨.init maxUntrustedCount, [], []⟩

/-- A step runs one lock region of some call. -/
inductive Calls.Step (signed : Bytes → Key → SField → Bool) : Calls Key → Calls Key → Prop where
  | refuse {s : Calls Key} {m : Manifest Key} {cap : ManifestRateLimitCapPolicy} {d : ManifestDisposition}
      (h : s.cache.applyManifestRead signed m cap = some d) : Step signed s s
  | read {s : Calls Key} {m : Manifest Key} {cap : ManifestRateLimitCapPolicy}
      (h : s.cache.applyManifestRead signed m cap = none) : Step signed s { s with waiting := (m, cap) :: s.waiting }
  | write {s : Calls Key} {m : Manifest Key} {cap : ManifestRateLimitCapPolicy} {d : ManifestDisposition}
      {c : ManifestCache Key} (hmem : (m, cap) ∈ s.waiting) (h : s.cache.applyManifestWrite signed m cap = (d, c)) :
      Step signed s ⟨c, s.waiting.erase (m, cap), if d = .accepted then m :: s.accepted else s.accepted⟩
  | promote {s : Calls Key} (pk : Key) : Step signed s { s with cache := s.cache.promoteToTrusted pk }

/-- Runs of any length. -/
abbrev Calls.Steps (signed : Bytes → Key → SField → Bool) : Calls Key → Calls Key → Prop :=
  Relation.ReflTransGen (Calls.Step signed)

/-- `m'` was accepted after `m`. -/
def Calls.Later (s : Calls Key) (m' m : Manifest Key) : Prop := ∃ A B, s.accepted = A ++ B ∧ m' ∈ A ∧ m ∈ B

variable {signed : Bytes → Key → SField → Bool} {s s' : Calls Key}

/-- What holds between the steps. -/
structure Calls.Valid (signed : Bytes → Key → SField → Bool) (s : Calls Key) : Prop where
  consistent : s.cache.Consistent signed
  waiting : ∀ e ∈ s.waiting, e.1.verify signed = true
  /-- A manifest that gave way shares its signing key at most with one that came later. -/
  superseded : ∀ m ∈ s.accepted, s.cache.map.lookup m.masterKey ≠ some m →
    ∀ x, s.cache.map.lookup x.masterKey = some x →
    m.signingKey ≠ none → x.signingKey = m.signingKey → s.Later x m

theorem Calls.valid_init (n : Nat) : Calls.Valid signed (Calls.init n : Calls Key) where
  consistent := consistent_init n
  waiting e h := by cases h
  superseded m h := by cases h

theorem Calls.Later.cons {x y : Manifest Key} (h : s.Later x m) (c : ManifestCache Key)
    (w : List (Manifest Key × ManifestRateLimitCapPolicy)) : Calls.Later ⟨c, w, y :: s.accepted⟩ x m := by
  obtain ⟨A, B, heq, hx, hm⟩ := h
  exact ⟨y :: A, B, by rw [heq]; rfl, List.mem_cons_of_mem y hx, hm⟩

variable {c : ManifestCache Key}

theorem verify_of_read {cap : ManifestRateLimitCapPolicy} (h : c.applyManifestRead signed m cap = none) :
    m.verify signed = true := by
  unfold applyManifestRead at h
  split at h
  · cases h
  · exact verify_of_prewriteCheck h

/-- What was accepted and is gone was superseded later. -/
theorem Calls.Valid.superseded_write (hs : s.Valid signed) (hw : Written s.cache m d c)
    {w : List (Manifest Key × ManifestRateLimitCapPolicy)} (hm : m.verify signed = true) {y : Manifest Key}
    (hy : y ∈ if d = .accepted then m :: s.accepted else s.accepted) (hgone : c.map.lookup y.masterKey ≠ some y)
    {x : Manifest Key} (hx : c.map.lookup x.masterKey = some x) (hne : y.signingKey ≠ none)
    (hkey : x.signingKey = y.signingKey) :
    Calls.Later ⟨c, w, if d = .accepted then m :: s.accepted else s.accepted⟩ x y := by
  have hcons := hs.consistent.write hw hm
  cases hw with
  | kept hd =>
    rw [if_neg hd] at hy ⊢
    exact hs.superseded y hy hgone x hx hne hkey
  | stored hfresh hmap hsigning _ _ _ =>
    rw [if_pos rfl] at hy ⊢
    have hym : y ≠ m := by
      rintro rfl
      rw [hmap, if_pos rfl] at hgone
      exact hgone rfl
    have hy' : y ∈ s.accepted := (List.mem_cons.1 hy).resolve_left hym
    by_cases hxm : x = m
    · exact ⟨[m], s.accepted, rfl, by rw [hxm]; exact List.mem_singleton_self m, hy'⟩
    · have hxk : x.masterKey ≠ m.masterKey := by
        intro hk
        rw [hmap, if_pos hk] at hx
        exact hxm (some.inj hx).symm
      have hxold : s.cache.map.lookup x.masterKey = some x := by rwa [hmap, if_neg hxk] at hx
      by_cases hystored : s.cache.map.lookup y.masterKey = some y
      · -- two stored manifests do not share a signing key
        obtain ⟨t, ht⟩ := ne_none_iff_exists'.1 hne
        have h1 := (hs.consistent.signing t y.masterKey).2 ⟨y, hystored, ht⟩
        have h2 := (hs.consistent.signing t x.masterKey).2 ⟨x, hxold, hkey.trans ht⟩
        have heq : x.masterKey = y.masterKey := some.inj (h2.symm.trans h1)
        rw [heq, hystored] at hxold
        rw [← some.inj hxold] at hx
        exact absurd hx hgone
      · exact (hs.superseded y hy' hystored x hxold hne hkey).cons c w

/-- Each lock region keeps what holds between the steps. -/
theorem Calls.Valid.step (hs : s.Valid signed) (h : Calls.Step signed s s') : s'.Valid signed := by
  cases h with
  | refuse _ => exact hs
  | read hread =>
    refine ⟨hs.consistent, fun e he => ?_, hs.superseded⟩
    rcases List.mem_cons.1 he with rfl | he
    · exact verify_of_read hread
    · exact hs.waiting e he
  | @write m cap d c hmem hwrite =>
    have hm := hs.waiting _ hmem
    have hw := written_of_applyManifestWrite hwrite
    exact ⟨hs.consistent.write hw hm, fun e he => hs.waiting e (List.mem_of_mem_erase he),
      fun y hy hgone x hx hne hkey => hs.superseded_write hw hm hy hgone hx hne hkey⟩
  | promote pk => exact ⟨hs.consistent.promote pk, hs.waiting, hs.superseded⟩

theorem Calls.Valid.steps (hs : s.Valid signed) (h : Calls.Steps signed s s') : s'.Valid signed := by
  induction h with
  | refl => exact hs
  | tail _ hstep ih => exact ih.step hstep

/-- How the manifest of a master key moves on: to one with a greater sequence, and from a revoked one not at all. -/
def Supersedes (m m' : Manifest Key) : Prop := m' = m ∨ (m.sequence < m'.sequence ∧ m.revoked = false)

omit [DecidableEq Key] in
theorem Supersedes.trans {m' m'' : Manifest Key} (h : Supersedes m m') (h' : Supersedes m' m'') : Supersedes m m'' := by
  rcases h with rfl | ⟨hlt, hrev⟩
  · exact h'
  · rcases h' with rfl | ⟨hlt', -⟩
    · exact .inr ⟨hlt, hrev⟩
    · exact .inr ⟨UInt32.lt_trans hlt hlt', hrev⟩

/-- In a step the manifest of a key stays or is superseded. -/
theorem Calls.Step.supersedes (h : Calls.Step signed s s') {k : Key} (hm : s.cache.map.lookup k = some m) :
    ∃ m', s'.cache.map.lookup k = some m' ∧ Supersedes m m' := by
  cases h with
  | refuse _ => exact ⟨m, hm, .inl rfl⟩
  | read _ => exact ⟨m, hm, .inl rfl⟩
  | @write x cap d c _ hwrite =>
    cases written_of_applyManifestWrite hwrite with
    | kept _ => exact ⟨m, hm, .inl rfl⟩
    | stored hfresh hmap _ _ _ _ =>
      dsimp only
      rw [hmap]
      by_cases hk : k = x.masterKey
      · have hlt := hfresh.newer m (hk ▸ hm)
        refine ⟨x, if_pos hk, .inr ⟨hlt, ?_⟩⟩
        by_contra hrev
        exact absurd hlt (UInt32.not_lt.2 (Manifest.sequence_le_of_revoked (by simpa using hrev) x.sequence))
      · exact ⟨m, by rw [if_neg hk, hm], .inl rfl⟩
  | promote pk => exact ⟨m, hm, .inl rfl⟩

/-- In a run the manifest of a key stays or is superseded. -/
theorem Calls.Steps.supersedes (h : Calls.Steps signed s s') {k : Key} (hm : s.cache.map.lookup k = some m) :
    ∃ m', s'.cache.map.lookup k = some m' ∧ Supersedes m m' := by
  induction h with
  | refl => exact ⟨m, hm, .inl rfl⟩
  | tail _ hstep ih =>
    obtain ⟨m', hm', hsup⟩ := ih
    obtain ⟨m'', hm'', hsup'⟩ := hstep.supersedes hm'
    exact ⟨m'', hm'', hsup.trans hsup'⟩

theorem Calls.Steps.maxUntrustedCount (h : Calls.Steps signed s s') :
    s'.cache.maxUntrustedCount = s.cache.maxUntrustedCount := by
  induction h with
  | refl => rfl
  | tail _ hstep ih =>
    cases hstep with
    | refuse _ => exact ih
    | read _ => exact ih
    | write _ hwrite =>
      cases written_of_applyManifestWrite hwrite with
      | kept _ => exact ih
      | stored _ _ _ _ _ hmax => exact hmax.trans ih
    | promote pk => exact ih

/-- A call that nothing comes between is two steps. -/
theorem Calls.Steps.accept {c : ManifestCache Key} (h : Calls.Steps signed s s') (m : Manifest Key)
    (cap : ManifestRateLimitCapPolicy) (hread : s'.cache.applyManifestRead signed m cap = none)
    (hwrite : s'.cache.applyManifestWrite signed m cap = (.accepted, c)) :
    Calls.Steps signed s ⟨c, s'.waiting, m :: s'.accepted⟩ := by
  have hsteps := (h.tail (.read hread)).tail (.write List.mem_cons_self hwrite)
  rwa [List.erase_cons_head, if_pos rfl] at hsteps

end Rippled.Validators
