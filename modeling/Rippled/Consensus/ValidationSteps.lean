import Rippled.Consensus.ValidationSupport

/-!
# What one operation of the validation store does

Besides `Core`, two facts are followed through every operation: the trusted flags of the current validations are
those of the trusted set (`Flags`), and every node with support in the trie has a current, trusted validation
(`Backed`). The second survives the withdrawal of a validation only if the node's support is for the ledger of that
validation (`Clean`).
-/

namespace Rippled.Consensus.Validations

open Lib List AList

variable {A NodeID L ID : Type} [DecidableEq NodeID]

/-- The trusted flags of the current validations are those of the trusted set `T`. -/
def Flags (T : NodeID → Bool) (s : Validations A NodeID L ID) : Prop :=
  ∀ n v, s.current.lookup n = some v → v.trusted = T n

/-- Every node with support in the trie has a current validation that is trusted. -/
def Backed (s : Validations A NodeID L ID) : Prop :=
  ∀ n l, s.lastLedger.lookup n = some l → ∃ v, s.current.lookup n = some v ∧ v.trusted = true

/-- The support of a node, if it has any, is for the ledger of the validation. -/
def Clean [Ledger L ID] (s : Validations A NodeID L ID) (n : NodeID) (v : Validation ID) : Prop :=
  ∀ l, s.lastLedger.lookup n = some l → Ledger.id l = v.ledgerID

variable {s s' : Validations A NodeID L ID}

theorem Backed.congr (h : Backed s) (hlast : s'.lastLedger = s.lastLedger) (hcur : s'.current = s.current) :
    Backed s' := by
  rw [Backed, hlast, hcur]
  exact h

variable {v : Validation ID} {n : NodeID} {T : NodeID → Bool}

theorem Flags.insert (h : Flags T s) (hcur : s'.current = s.current.insert n v) (hv : v.trusted = T n) :
    Flags T s' := by
  intro m w hw
  rw [hcur] at hw
  by_cases hm : m = n
  · subst hm
    rw [lookup_insert] at hw
    cases hw
    exact hv
  · rw [lookup_insert_ne hm] at hw
    exact h m w hw

variable [Ledger L ID] [DecidableEq ID]

/-! ## Changes of the current validations -/

variable {c : HashMap NodeID (Validation ID)}

/-- The current validation of `n` may change as long as the ledger it waits for remains the same. -/
theorem Core.setCurrent (h : Core s)
    (hn : ∀ k nodes, s.acquiring.lookup k = some nodes → n ∈ nodes → ∃ v, c.lookup n = some v ∧
      v.trusted = true ∧ k = (v.seq, v.ledgerID))
    (hc : ∀ m, m ≠ n → c.lookup m = s.current.lookup m) : Core { s with current := c } := by
  refine ⟨h.trie, h.holds, h.nodup, fun k nodes m hk hm => ?_⟩
  by_cases hmn : m = n
  · subst hmn
    exact hn k nodes hk hm
  · simp only [hc m hmn]
    exact h.pending k nodes m hk hm

theorem Core.idle (h : Core s) (hn : ∀ v, s.current.lookup n = some v → v.trusted = false) {k : Nat × ID}
    {nodes : List NodeID} (hk : s.acquiring.lookup k = some nodes) : n ∉ nodes := by
  intro hmem
  obtain ⟨v, hv, htrusted, -⟩ := h.pending k nodes n hk hmem
  rw [hn v hv] at htrusted
  cases htrusted

/-- A node waits for nothing once the ledger of its current validation is taken off its lists. -/
theorem Core.drop_idle (h : Core s) (hv : s.current.lookup n = some v) :
    Core (s.dropAcquiring (v.seq, v.ledgerID) n) ∧
      ∀ k nodes, (s.dropAcquiring (v.seq, v.ledgerID) n).acquiring.lookup k = some nodes → n ∉ nodes := by
  obtain ⟨hshrinks, hgone⟩ := dropAcquiring_acquiring h.nodup (v.seq, v.ledgerID) n
  refine ⟨by rw [dropAcquiring_eq]; exact h.shrink hshrinks, fun k nodes hk hmem => ?_⟩
  obtain ⟨-, nodes', hk', hsub⟩ := hshrinks k nodes hk
  obtain ⟨v', hv', -, hkey⟩ := h.pending k nodes' n hk' (hsub n hmem)
  rw [hv] at hv'
  cases hv'
  subst hkey
  exact hgone nodes hk hmem

/-- The current validation of a node is replaced after the ledger of the old one is taken off its lists. -/
theorem Core.replace (h : Core s) (hv : s.current.lookup n = some v)
    (hc : ∀ m, m ≠ n → c.lookup m = s.current.lookup m) :
    Core (dropAcquiring (v.seq, v.ledgerID) n { s with current := c }) := by
  obtain ⟨hcore, hidle⟩ := h.drop_idle hv
  rw [dropAcquiring_current]
  refine hcore.setCurrent (n := n) (fun k nodes hk hmem => absurd hmem (hidle k nodes hk)) fun m hm => ?_
  rw [hc m hm, dropAcquiring_eq]

theorem Core.congr (h : Core s) (htrie : s'.trie = s.trie) (hlast : s'.lastLedger = s.lastLedger)
    (hacq : s'.acquiring = s.acquiring) (hcur : s'.current = s.current) :
    Core s' where
  trie := htrie ▸ h.trie
  holds := by rw [htrie, hlast, h.holds]
  nodup := hacq ▸ h.nodup
  pending := by rw [hacq, hcur]; exact h.pending

/-- A new current validation of a node that is not trusted: it had no support and waited for nothing. -/
theorem addUntrusted_spec (h : Core s) (hflags : Flags T s) (hn : T n = false) :
    Core { s with current := s.current.insert n v } ∧
      (Backed s → Backed { s with current := s.current.insert n v }) := by
  refine ⟨h.setCurrent (n := n) (fun k nodes hk hmem => absurd hmem (h.idle (fun w hw => ?_) hk))
    fun m hm => lookup_insert_ne hm, fun hback m l hl => ?_⟩
  · rw [hflags n w hw, hn]
  · obtain ⟨w, hw, htrusted⟩ := hback m l hl
    have hm : m ≠ n := by
      rintro rfl
      rw [hflags m w hw, hn] at htrusted
      cases htrusted
    exact ⟨w, (lookup_insert_ne hm).trans hw, htrusted⟩

/-! ## Flushing stale validations -/

/-- What flushing the validations in `es` does: those that are stale at time `t` go, and with each the support of
its node if that is for its ledger. -/
structure Flushed (t : Int) (es : List (Σ _ : NodeID, Validation ID)) (s s' : Validations A NodeID L ID) : Prop where
  core : Core s'
  parms : s'.parms = s.parms
  current : ∀ n v, s'.current.lookup n = some v ↔
    s.current.lookup n = some v ∧ (⟨n, v⟩ ∈ es → isCurrent s.parms t v.signTime v.seenTime = true)
  last : ∀ n l, s'.lastLedger.lookup n = some l → s.lastLedger.lookup n = some l
  gone : ∀ e ∈ es, isCurrent s.parms t e.2.signTime e.2.seenTime = false → Clean s e.1 e.2 →
    s'.lastLedger.lookup e.1 = none

theorem Flushed.cons {t : Int} {e : Σ _ : NodeID, Validation ID} {es : List (Σ _ : NodeID, Validation ID)}
    {s'' : Validations A NodeID L ID} (h : Flushed t [e] s s') (h' : Flushed t es s' s'') :
    Flushed t (e :: es) s s'' where
  core := h'.core
  parms := h'.parms.trans h.parms
  current n v := by
    rw [h'.current, h.current, h.parms]
    simp only [mem_cons, not_mem_nil, or_false, or_imp, and_assoc]
  last n l hl := h.last n l (h'.last n l hl)
  gone d hd hstale hclean := by
    rcases mem_cons.1 hd with rfl | hd
    · have hnone := h.gone d mem_cons_self hstale hclean
      cases hlast : s''.lastLedger.lookup d.1 with
      | none => rfl
      | some l =>
        rw [h'.last d.1 l hlast] at hnone
        cases hnone
    · exact h'.gone d hd (h.parms ▸ hstale) fun l hl => hclean l (h.last d.1 l hl)

section Waiting
variable [Adaptor A L]

theorem Waits.validation (h : Core s) {l : L} (hn : Waits s n l) :
    ∃ v, s.current.lookup n = some v ∧ v.trusted = true ∧ Acquired (A := A) v.ledgerID l := by
  obtain ⟨k, nodes, hk, hmem, hacq⟩ := hn
  obtain ⟨v, hv, htrusted, rfl⟩ := h.pending k nodes n hk hmem
  exact ⟨v, hv, htrusted, hacq⟩

theorem checkAcquired_backed (h : Core s) (hmoves : Moves (Waits s) s s') (hback : Backed s) : Backed s' := by
  intro n l hl
  rw [hmoves.current]
  rcases hmoves.last n l hl with hl | hn
  · exact hback n l hl
  · obtain ⟨v, hv, htrusted, -⟩ := hn.validation h
    exact ⟨v, hv, htrusted⟩

theorem record_frame (n : NodeID) (v : Validation ID) (s : Validations A NodeID L ID) :
    (s.record n v).2.trie = s.trie ∧ (s.record n v).2.lastLedger = s.lastLedger ∧
      (s.record n v).2.acquiring = s.acquiring ∧ (s.record n v).2.current = s.current := by
  rw [record]
  dsimp only
  split_ifs <;> exact ⟨rfl, rfl, rfl, rfl⟩

end Waiting

variable [LawfulLedger L]

theorem flushOne_spec (h : Core s) (t : Int) {e : Σ _ : NodeID, Validation ID} (he : s.current.lookup e.1 = some e.2) :
    ∃ s', flushOne t s e = some s' ∧ Flushed t [e] s s' := by
  rw [flushOne]
  split_ifs with hcur
  · refine ⟨s, rfl, h, rfl, fun n v => ?_, fun _ _ hl => hl, fun d hd hstale => ?_⟩
    · refine (and_iff_left fun hmem => ?_).symm
      rw [← mem_singleton.1 hmem] at hcur
      exact hcur
    · rw [mem_singleton.1 hd, hcur] at hstale
      cases hstale
  · obtain ⟨s', hret, hmoves, hacq, hclean⟩ := removeTrie_moves (h.drop_idle he).1
    have hidle := (h.drop_idle he).2
    rw [← hacq] at hidle
    have hscur : s'.current = s.current := by rw [hmoves.current, dropAcquiring_eq]
    refine ⟨{ s' with current := s'.current.erase e.1 }, ?_, ?_, ?_, fun n v => ?_,
      fun n l hl => ?_, fun d hd _ hd' => ?_⟩
    · rw [hret]
      rfl
    · refine hmoves.core.setCurrent (n := e.1) (fun k nodes hk hmem => absurd hmem (hidle k nodes hk)) fun m hm => ?_
      exact lookup_erase_ne hm
    · rw [hmoves.parms, dropAcquiring_eq]
    · simp only [hscur, mem_singleton]
      by_cases hn : n = e.1
      · subst hn
        rw [lookup_erase]
        refine ⟨(nomatch ·), fun ⟨hv, hfresh⟩ => absurd (hfresh ?_) ?_⟩
        · rw [he] at hv
          cases hv
          rfl
        · rw [he] at hv
          cases hv
          exact hcur
      · rw [lookup_erase_ne hn]
        exact (and_iff_left fun hmem => absurd (congrArg Sigma.fst hmem) hn).symm
    · have hl' := (hmoves.last n l hl).resolve_right id
      rwa [dropAcquiring_eq] at hl'
    · rw [mem_singleton.1 hd] at hd' ⊢
      exact hclean hd'

theorem flushes_spec (t : Int) (es : List (Σ _ : NodeID, Validation ID)) (hnd : es.NodupKeys) (h : Core s)
    (hes : ∀ e ∈ es, s.current.lookup e.1 = some e.2) :
    ∃ s', es.foldlM (flushOne t) s = some s' ∧ Flushed t es s s' := by
  induction es generalizing s with
  | nil => exact ⟨s, rfl, h, rfl, fun n v => by simp, fun _ _ hl => hl, fun d hd => by cases hd⟩
  | cons e es ih =>
    obtain ⟨s', hret, hone⟩ := flushOne_spec h t (hes e mem_cons_self)
    rw [nodupKeys_cons] at hnd
    obtain ⟨s'', hret', hrest⟩ := ih hnd.2 hone.core fun d hd => by
      -- the validations still to be looked at are those of other nodes
      refine (hone.current d.1 d.2).2 ⟨hes d (mem_cons_of_mem e hd), fun hmem => ?_⟩
      rw [← congrArg Sigma.fst (mem_singleton.1 hmem)] at hnd
      exact absurd (mem_keys_of_mem hd) hnd.1
    refine ⟨s'', ?_, hone.cons hrest⟩
    rw [foldlM_cons, hret]
    exact hret'

variable [Adaptor A L]

/-- Every stale validation is clean: its node's support, if any, is for its ledger. -/
def FlushClean (s : Validations A NodeID L ID) : Prop :=
  ∀ n v, s.current.lookup n = some v → isCurrent s.parms
    (Adaptor.now s.adaptor).1 v.signTime v.seenTime = false → Clean s n v

/-- Stale validations go, with their support. -/
theorem flushStale_spec (h : Core s) :
    ∃ s', s.flushStale = some s' ∧ Core s' ∧ s'.parms = s.parms ∧
      (∀ n v, s'.current.lookup n = some v → s.current.lookup n = some v ∧
        isCurrent s.parms (Adaptor.now s.adaptor).1 v.signTime v.seenTime = true) ∧
      (FlushClean s → Backed s → Backed s') := by
  have hmem : ∀ e, e ∈ s.current.entries ↔ s.current.lookup e.1 = some e.2 := fun e => mem_lookup_iff.symm
  obtain ⟨s', hret, hflushed⟩ := flushes_spec (Adaptor.now s.adaptor).1 s.current.entries s.current.nodupKeys
    (h.adaptor (Adaptor.now s.adaptor).2) fun e he => (hmem e).1 he
  refine ⟨s', hret, hflushed.core, hflushed.parms, fun n v hv => ?_, fun hclean hback n l hl => ?_⟩
  · obtain ⟨hv, hfresh⟩ := (hflushed.current n v).1 hv
    exact ⟨hv, hfresh ((hmem ⟨n, v⟩).2 hv)⟩
  · obtain ⟨v, hv, htrusted⟩ := hback n l (hflushed.last n l hl)
    refine ⟨v, (hflushed.current n v).2 ⟨hv, fun hin => ?_⟩, htrusted⟩
    by_contra hstale
    rw [Bool.not_eq_true] at hstale
    rw [hflushed.gone ⟨n, v⟩ hin hstale (hclean n v hv hstale)] at hl
    cases hl

/-- `withTrie` returns; it keeps only validations that are current at the time it reads. -/
theorem withTrie_spec (h : Core s) :
    ∃ s', s.withTrie = some s' ∧ Core s' ∧ s'.parms = s.parms ∧
      (∀ n v, s'.current.lookup n = some v → s.current.lookup n = some v ∧
        isCurrent s.parms (Adaptor.now s.adaptor).1 v.signTime v.seenTime = true) ∧
      (FlushClean s → Backed s → Backed s') := by
  obtain ⟨u, hret, hcore, hparms, hcur, hback⟩ := flushStale_spec h
  obtain ⟨s', hret', hmoves⟩ := checkAcquired_moves hcore
  refine ⟨s', ?_, hmoves.core, hmoves.parms.trans hparms, ?_, fun hclean hs => ?_⟩
  · rw [withTrie, hret]
    exact hret'
  · rw [hmoves.current]
    exact hcur
  · exact checkAcquired_backed hcore hmoves (hback hclean hs)

/-! ## New validations -/

variable {prior : Option (Nat × ID)}

/-- `updateTrie` for the validation that has just become the current one of its node. -/
theorem updateTrie_keeps (h : Core (clearPrior prior n s)) (hv : s.current.lookup n = some v)
    (htrusted : v.trusted = true) : ∃ s', updateTrie n v prior s = some s' ∧ Core s' ∧ s'.current = s.current ∧
      ∀ m l, s'.lastLedger.lookup m = some l →
        s.lastLedger.lookup m = some l ∨ (∃ w, s.current.lookup m = some w ∧ w.trusted = true ∧
          Acquired (A := A) w.ledgerID l) ∨
          m = n := by
  have hsame : (clearPrior prior n s).current = s.current ∧ (clearPrior prior n s).lastLedger = s.lastLedger := by
    cases prior with
    | none => exact ⟨rfl, rfl⟩
    | some key => rw [clearPrior, dropAcquiring_eq]; exact ⟨rfl, rfl⟩
  obtain ⟨s', hret, hcore, hcur, hlast⟩ := updateTrie_spec h (hsame.1 ▸ hv) htrusted
  refine ⟨s', hret, hcore, hcur.trans hsame.1, fun m l hl => ?_⟩
  rw [← hsame.1, ← hsame.2]
  exact (hlast m l hl).imp_right fun hm => hm.imp_left fun hw => hw.validation h

theorem addTrusted_spec (h : Core (clearPrior prior n { s with current := s.current.insert n v }))
    (htrusted : v.trusted = true) :
    ∃ s', updateTrie n v prior { s with current := s.current.insert n v } = some s' ∧ Core s' ∧
      s'.current = s.current.insert n v ∧ (Backed s → Backed s') := by
  obtain ⟨s', hret, hcore, hcur, hlast⟩ := updateTrie_keeps h (lookup_insert _) htrusted
  refine ⟨s', hret, hcore, hcur, fun hback m l hl => ?_⟩
  rw [hcur]
  by_cases hm : m = n
  · exact ⟨v, hm ▸ lookup_insert _, htrusted⟩
  · rcases hlast m l hl with hl | ⟨w, hw, hwt, -⟩ | hm'
    · rw [lookup_insert_ne hm]
      exact hback m l hl
    · exact ⟨w, hw, hwt⟩
    · exact absurd hm' hm

/-- A validation is added, and the state stays in order. -/
theorem addCurrent_spec (h : Core s) (hflags : Flags T s) (hv : v.trusted = T n) :
    ∃ r, addCurrent n v s = some r ∧ Core r.2 ∧ Flags T r.2 ∧ (Backed s → Backed r.2) := by
  -- what replacing the current validation does, whatever ledger the node waited for
  have hset : ∀ prior : Option (Nat × ID),
      (v.trusted = true → Core (clearPrior prior n { s with current := s.current.insert n v })) →
      ∃ r, (if v.trusted = true then
          (updateTrie n v prior { s with current := s.current.insert n v }).map (ValStatus.current, ·)
        else some (.current, { s with current := s.current.insert n v })) = some r ∧
        Core r.2 ∧ Flags T r.2 ∧ (Backed s → Backed r.2) := by
    intro prior hcore
    split_ifs with htrusted
    · obtain ⟨s', hret, hcore', hcur, hback⟩ := addTrusted_spec (hcore htrusted) htrusted
      exact ⟨(.current, s'), by rw [hret]; rfl, hcore', hflags.insert hcur hv, hback⟩
    · rw [Bool.not_eq_true, hv] at htrusted
      obtain ⟨hcore', hback⟩ := addUntrusted_spec (v := v) h hflags htrusted
      exact ⟨_, rfl, hcore', hflags.insert rfl hv, hback⟩
  rw [addCurrent]
  cases hold : s.current.lookup n with
  | none =>
    refine hset none fun _ => h.setCurrent (n := n) (fun k nodes hk hmem => absurd hmem (h.idle (fun w hw => ?_) hk))
      fun m hm => lookup_insert_ne hm
    rw [hold] at hw
    cases hw
  | some old =>
    simp only
    by_cases hnewer : v.signTime > old.signTime
    · rw [if_pos hnewer]
      exact hset (some (old.seq, old.ledgerID)) fun _ => h.replace hold fun m hm => lookup_insert_ne hm
    · rw [if_neg hnewer]
      exact ⟨_, rfl, h, hflags, id⟩

/-- `add` returns and keeps what holds of the store, when the flag of the new validation is that of the trusted set. -/
theorem add_spec (h : Core s) (hflags : Flags T s) (hv : v.trusted = T n) :
    ∃ r, add n v s = some r ∧ Core r.2 ∧ Flags T r.2 ∧ (Backed s → Backed r.2) := by
  rw [add]
  dsimp only
  split_ifs with hstale
  · exact ⟨_, rfl, h.adaptor _, hflags, id⟩
  · obtain ⟨htrie, hlast, hacq, hcur⟩ := record_frame n v { s with adaptor := (Adaptor.now s.adaptor).2 }
    rcases hrec : record n v { s with adaptor := (Adaptor.now s.adaptor).2 } with ⟨_ | status, u⟩
    all_goals
      rw [hrec] at htrie hlast hacq hcur
      have hcore : Core u := h.congr htrie hlast hacq hcur
      have hflags' : Flags T u := by
        rw [Flags, hcur]
        exact hflags
      have hback : Backed s → Backed u := fun hs => hs.congr hlast hcur
    · obtain ⟨r, hret, hcore', hfl, hb⟩ := addCurrent_spec hcore hflags' hv
      exact ⟨r, hret, hcore', hfl, fun hs => hb (hback hs)⟩
    · exact ⟨_, rfl, hcore, hflags', hback⟩

/-! ## Changes of trust -/

/-- One round of `trustChanged`: the flag of one validation changes; support is added for that node if it is now
trusted, and for nodes whose ledgers have arrived; and it goes with its trust if it is for the ledger of the
validation. -/
structure Retrusts (added removed : List NodeID) (e : Σ _ : NodeID, Validation ID) (s s' : Validations A NodeID L ID) :
    Prop where
  core : Core s'
  same : ∀ m, m ≠ e.1 → s'.current.lookup m = s.current.lookup m
  self : s'.current.lookup e.1 = some (retrust added removed e.1 e.2)
  last : ∀ m l, s'.lastLedger.lookup m = some l → s.lastLedger.lookup m = some l ∨
    (∃ v, s.current.lookup m = some v ∧ v.trusted = true ∧ Acquired (A := A) v.ledgerID l) ∨ m = e.1 ∧ m ∈ added
  gone : e.1 ∉ added → e.1 ∈ removed → Clean s e.1 e.2 → s'.lastLedger.lookup e.1 = none

variable (added removed : List NodeID)

theorem trustOne_spec (h : Core s) {e : Σ _ : NodeID, Validation ID} (he : s.current.lookup e.1 = some e.2) :
    ∃ s', trustOne added removed s e = some s' ∧ Retrusts added removed e s s' := by
  rw [trustOne]
  by_cases hadd : e.1 ∈ added
  · have hre : retrust added removed e.1 e.2 = { e.2 with trusted := true } := if_pos hadd
    rw [if_pos hadd, ← hre]
    have hcore : Core { s with current := s.current.insert e.1 (retrust added removed e.1 e.2) } := by
      refine h.setCurrent (n := e.1) (fun k nodes hk hmem => ?_) fun m hm => lookup_insert_ne hm
      -- the node waits for the same ledger as before
      obtain ⟨v, hv, -, hkey⟩ := h.pending k nodes e.1 hk hmem
      rw [he] at hv
      cases hv
      exact ⟨_, lookup_insert _, by rw [hre], by rw [hre, hkey]⟩
    obtain ⟨s', hret, hcore', hcur, hlast⟩ := updateTrie_keeps (show Core (clearPrior none e.1 _) from hcore)
      (lookup_insert _) (by rw [hre])
    refine ⟨s', hret, hcore', fun m hm => ?_, ?_, fun m l hl => ?_, fun hnot => absurd hadd hnot⟩
    · rw [hcur, lookup_insert_ne hm]
    · rw [hcur, lookup_insert]
    · by_cases hm : m = e.1
      · exact .inr (.inr ⟨hm, hm ▸ hadd⟩)
      · rcases hlast m l hl with hl | ⟨v, hv, hv'⟩ | hm'
        · exact .inl hl
        · exact .inr (.inl ⟨v, by rwa [lookup_insert_ne hm] at hv, hv'⟩)
        · exact absurd hm' hm
  · rw [if_neg hadd]
    by_cases hrem : e.1 ∈ removed
    · have hre : retrust added removed e.1 e.2 = { e.2 with trusted := false } := (if_neg hadd).trans (if_pos hrem)
      rw [if_pos hrem, ← hre]
      have hkey : ((retrust added removed e.1 e.2).seq, (retrust added removed e.1 e.2).ledgerID) =
          (e.2.seq, e.2.ledgerID) := by
        rw [hre]
      have hcore := h.replace he (c := s.current.insert e.1 (retrust added removed e.1 e.2)) fun m hm =>
          lookup_insert_ne hm
      rw [← hkey] at hcore
      obtain ⟨s', hret, hmoves, -, hclean⟩ := removeTrie_moves hcore
      have hcur : s'.current = s.current.insert e.1
          (retrust added removed e.1 e.2) := by rw [hmoves.current, dropAcquiring_eq]
      refine ⟨s', hret, hmoves.core, fun m hm => ?_, ?_, fun m l hl => .inl ?_, fun _ _ hc => hclean ?_⟩
      · rw [hcur, lookup_insert_ne hm]
      · rw [hcur, lookup_insert]
      · have hl' := (hmoves.last m l hl).resolve_right id
        rwa [dropAcquiring_eq] at hl'
      · rw [hre]
        exact hc
    · have hre : retrust added removed e.1 e.2 = e.2 := (if_neg hadd).trans (if_neg hrem)
      rw [if_neg hrem]
      exact ⟨s, rfl, h, fun _ _ => rfl, by rw [hre, he], fun _ _ hl => .inl hl, fun _ hin => absurd hin hrem⟩

/-- The ledger that the adaptor acquires for an id is the one with that id. -/
class LawfulAdaptor (A : Type) {L ID : Type} [Ledger L ID] [Adaptor A L] : Prop where
  id_acquire : ∀ (i : ID) (a : A) (l : L), (Adaptor.acquire i a).1 = some l → Ledger.id l = i

omit [LawfulLedger L] in
theorem Retrusts.backed {added removed : List NodeID} {e : Σ _ : NodeID, Validation ID}
    (h : Retrusts added removed e s s')
    (he : s.current.lookup e.1 = some e.2) (hclean : e.1 ∉ added → e.1 ∈ removed → Clean s e.1 e.2) (hback : Backed s) :
    Backed s' := by
  intro m l hl
  -- a node that keeps or gains support had a trusted validation, or is the one whose trust changed
  have hhad : (∃ v, s.current.lookup m = some v ∧ v.trusted = true) ∨ m = e.1 ∧ m ∈ added := by
    rcases h.last m l hl with hl' | ⟨v, hv, htrusted, -⟩ | hm
    · exact .inl (hback m l hl')
    · exact .inl ⟨v, hv, htrusted⟩
    · exact .inr hm
  by_cases hm : m = e.1
  · subst hm
    refine ⟨_, h.self, ?_⟩
    by_cases hadd : e.1 ∈ added
    · rw [retrust, if_pos hadd]
    · by_cases hrem : e.1 ∈ removed
      · rw [h.gone hadd hrem (hclean hadd hrem)] at hl
        cases hl
      · rcases hhad with ⟨v, hv, htrusted⟩ | ⟨-, hin⟩
        · rw [he] at hv
          cases hv
          rw [retrust, if_neg hadd, if_neg hrem, htrusted]
        · exact absurd hin hadd
  · rw [h.same m hm]
    rcases hhad with hv | ⟨hm', -⟩
    · exact hv
    · exact absurd hm' hm

omit [LawfulLedger L] in
theorem Retrusts.clean [LawfulAdaptor A] {added removed : List NodeID} {e d : Σ _ : NodeID, Validation ID}
    (h : Retrusts added removed e s s') (hd : s.current.lookup d.1 = some d.2)
    (hne : d.1 ≠ e.1) (hclean : Clean s d.1 d.2) : Clean s' d.1 d.2 := by
  intro l hl
  rcases h.last d.1 l hl with hl | ⟨v, hv, -, a, hacq⟩ | ⟨hm, -⟩
  · exact hclean l hl
  · rw [hd] at hv
    cases hv
    exact LawfulAdaptor.id_acquire _ a l hacq
  · exact absurd hm hne

theorem trusts_spec (es : List (Σ _ : NodeID, Validation ID)) (hnd : es.NodupKeys) (h : Core s)
    (hes : ∀ e ∈ es, s.current.lookup e.1 = some e.2) :
    ∃ s', es.foldlM (trustOne added removed) s = some s' ∧ Core s' ∧
      (∀ m, m ∉ es.keys → s'.current.lookup m = s.current.lookup m) ∧
      (∀ e ∈ es, s'.current.lookup e.1 = some (retrust added removed e.1 e.2)) ∧
      (LawfulAdaptor A → (∀ e ∈ es, e.1 ∉ added → e.1 ∈ removed → Clean s e.1 e.2) → Backed s → Backed s') := by
  induction es generalizing s with
  | nil => exact ⟨s, rfl, h, fun _ _ => rfl, fun _ hd => (nomatch hd), fun _ _ hb => hb⟩
  | cons e es ih =>
    have he := hes e mem_cons_self
    obtain ⟨s', hret, hone⟩ := trustOne_spec added removed h he
    rw [nodupKeys_cons] at hnd
    have hne : ∀ d ∈ es, d.1 ≠ e.1 := fun d hd heq => hnd.1 (heq ▸ mem_keys_of_mem hd)
    obtain ⟨s'', hret', hcore, hsame, hdone, hback⟩ := ih hnd.2 hone.core fun d hd =>
      (hone.same d.1 (hne d hd)).trans (hes d (mem_cons_of_mem e hd))
    refine ⟨s'', ?_, hcore, fun m hm => ?_, fun d hd => ?_, fun hlaw hclean hs => ?_⟩
    · rw [foldlM_cons, hret]
      exact hret'
    · rw [keys_cons, mem_cons, not_or] at hm
      rw [hsame m hm.2, hone.same m hm.1]
    · rcases mem_cons.1 hd with rfl | hd
      · rw [hsame d.1 hnd.1, hone.self]
      · exact hdone d hd
    · refine hback hlaw (fun d hd hadd hrem => ?_) (hone.backed he (hclean e mem_cons_self) hs)
      exact hone.clean (hes d (mem_cons_of_mem e hd)) (hne d hd) (hclean d (mem_cons_of_mem e hd) hadd hrem)

def retrustSet (added removed : List NodeID) (T : NodeID → Bool) (n : NodeID) : Bool :=
  if n ∈ added then true else if n ∈ removed then false else T n

def TrustClean (added removed : List NodeID) (s : Validations A NodeID L ID) : Prop :=
  ∀ n v, s.current.lookup n = some v → n ∉ added → n ∈ removed → Clean s n v

/-- A change of trust keeps the state in order. -/
theorem trustChanged_spec (h : Core s) (hflags : Flags T s) :
    ∃ s', trustChanged added removed s = some s' ∧ Core s' ∧ Flags (retrustSet added removed T) s' ∧
      (LawfulAdaptor A → TrustClean added removed s → Backed s → Backed s') := by
  have hmem : ∀ e, e ∈ s.current.entries ↔ s.current.lookup e.1 = some e.2 := fun e => mem_lookup_iff.symm
  obtain ⟨u, hret, hcore, hsame, hdone, hback⟩ := trusts_spec added removed s.current.entries s.current.nodupKeys h
    fun e he => (hmem e).1 he
  rw [trustChanged, hret]
  refine ⟨_, rfl, hcore.congr rfl rfl rfl rfl, fun n v hv => ?_, fun hlaw hclean hs => ?_⟩
  · change u.current.lookup n = some v at hv
    cases hn : s.current.lookup n with
    | none =>
      rw [hsame n (lookup_eq_none.1 hn), hn] at hv
      cases hv
    | some w =>
      rw [hdone ⟨n, w⟩ ((hmem ⟨n, w⟩).2 hn)] at hv
      cases hv
      have hw := hflags n w hn
      rw [retrust, retrustSet]
      split_ifs
      · rfl
      · rfl
      · exact hw
  · exact hback hlaw (fun e he => hclean e.1 e.2 ((hmem e).1 he)) hs

end Rippled.Consensus.Validations
