import Mathlib.Data.List.TakeWhile
import Rippled.Validators.Revocation
/-!
# Pending lists go live

One publisher's lists along a clock. A list is taken as the current one, kept as pending or refused, and what is
pending is pruned by one pass that compares neighbours. Every list that was ever presented stays accounted for
(`Tracks`): it is not above the current one, or a pending list with at least its sequence starts no later. One pass
puts the starting times in order exactly when they are `Straight` before it, and then `updateTrusted` finds the right
list.
-/

namespace Rippled.Validators

open Lib Protocol List Option KeyedMap PublisherListStats

variable {Key : Type} [LinearOrder Key]

/-- The keys of a list, as they are kept. -/
def ParsedList.keys (l : ParsedList Key) : List Key := (l.validators.filterMap (·.key)).insertionSort (· ≤ ·)

/-- A kept list is the presented list `l`. -/
structure Keeps (p : PublisherList Key) (l : ParsedList Key) : Prop where
  sequence : p.sequence = l.sequence
  validFrom : p.validFrom = l.validFrom
  validUntil : p.validUntil = l.validUntil

theorem keeps_fill (p : PublisherList Key) (l : ParsedList Key) :
    Keeps (PublisherListCollection.fill p l) l := ⟨rfl, rfl, rfl⟩

variable {r : PublisherList Key} {d : ListDisposition} {p : PublisherList Key}

namespace PublisherListCollection

variable {c : PublisherListCollection Key} {seen : List (ParsedList Key)} {t now : Nat} {l : ParsedList Key}

/-- The current list is one that was presented and has started, with its keys unless it is over. -/
def Started (p : PublisherList Key) (seen : List (ParsedList Key)) (t : Nat) : Prop :=
  ∃ l ∈ seen, Keeps p l ∧ l.validFrom ≤ t ∧ (t < l.validUntil → p.list = l.keys)

/-- How a collection accounts for the lists that were presented up to time `t`. -/
structure Tracks (c : PublisherListCollection Key) (seen : List (ParsedList Key)) (t : Nat) : Prop where
  current : c.current.sequence = 0 ∨ Started c.current seen t
  pending : ∀ r ∈ c.remaining.toList, ∃ l ∈ seen, Keeps r l ∧ r.list = l.keys
  covered : ∀ l ∈ seen, l.sequence ≤ c.current.sequence ∨
    ∃ r ∈ c.remaining.toList, l.sequence ≤ r.sequence ∧ r.validFrom ≤ l.validFrom
  max_none : c.maxSequence = none → c.current.sequence = 0 ∧ c.remaining.toList = []
  max_some : ∀ max, c.maxSequence = some max → max = c.current.sequence ∨ (c.remaining.find max).isSome
  max_le : ∀ r ∈ c.remaining.toList, ∀ max, c.maxSequence = some max → r.sequence ≤ max
  max_ge : ∀ max, c.maxSequence = some max → c.current.sequence ≤ max

/-- At most one list for each sequence number, and none has the number zero. -/
structure Proper (seen : List (ParsedList Key)) : Prop where
  unique : ∀ l ∈ seen, ∀ l' ∈ seen, l.sequence = l'.sequence → l = l'
  pos : ∀ l ∈ seen, l.sequence ≠ 0
  lasting : ∀ l ∈ seen, l.validFrom < l.validUntil

omit [LinearOrder Key] in
theorem Proper.mono {seen' : List (ParsedList Key)} (h : Proper seen) (hsub : ∀ l ∈ seen', l ∈ seen) :
    Proper seen' where
  unique l hl l' hl' := h.unique l (hsub l hl) l' (hsub l' hl')
  pos l hl := h.pos l (hsub l hl)
  lasting l hl := h.lasting l (hsub l hl)

theorem Tracks.later (h : Tracks c seen t) (ht : t ≤ now) : Tracks c seen now where
  __ := h
  current := h.current.imp_right fun ⟨l, hl, hk, hfrom, hlist⟩ =>
    ⟨l, hl, hk, hfrom.trans ht, fun hnow => hlist (lt_of_le_of_lt ht hnow)⟩

theorem Started.cons (h : Started p seen t) (l : ParsedList Key) : Started p (l :: seen) t :=
  let ⟨l', hl', h'⟩ := h
  ⟨l', mem_cons_of_mem l hl', h'⟩

/-- A list that is not stored is accounted for if the current list or a pending one covers it. -/
theorem Tracks.refuse (h : Tracks c seen t) (hcov : l.sequence ≤ c.current.sequence ∨
    ∃ r ∈ c.remaining.toList, l.sequence ≤ r.sequence ∧ r.validFrom ≤ l.validFrom) : Tracks c (l :: seen) t where
  __ := h
  current := h.current.imp_right fun hs => hs.cons l
  pending r hr :=
    let ⟨l', hl', h'⟩ := h.pending r hr
    ⟨l', mem_cons_of_mem l hl', h'⟩
  covered l' hl' := by
    rcases mem_cons.1 hl' with rfl | hl'
    · exact hcov
    · exact h.covered l' hl'

/-! ## Storing a list -/

section NewMax

omit [LinearOrder Key]

/-- The sequence that `maxSequence` becomes. -/
def newMax (c : PublisherListCollection Key) (l : ParsedList Key) : Nat :=
  match c.maxSequence with
  | none => l.sequence
  | some max => if l.sequence > max then l.sequence else max

theorem le_newMax (c : PublisherListCollection Key) (l : ParsedList Key) : l.sequence ≤ c.newMax l := by
  unfold newMax
  split
  · exact le_rfl
  · split <;> omega

/-- The new maximum is the number of the list, or it was there. -/
theorem newMax_cases (c : PublisherListCollection Key) (l : ParsedList Key) :
    c.newMax l = l.sequence ∨ c.maxSequence = some (c.newMax l) := by
  unfold newMax
  split
  · exact .inl rfl
  · rename_i max hmax
    by_cases hlt : l.sequence > max
    · exact .inl (if_pos hlt)
    · rw [if_neg hlt]
      exact .inr hmax

end NewMax

theorem Tracks.current_le_newMax (h : Tracks c seen t) (l : ParsedList Key) : c.current.sequence ≤ c.newMax l := by
  unfold newMax
  cases hmax : c.maxSequence with
  | none => rw [(h.max_none hmax).1]; exact Nat.zero_le _
  | some max =>
    have hge := h.max_ge max hmax
    dsimp only
    split <;> omega

theorem Tracks.le_newMax (h : Tracks c seen t) (l : ParsedList Key) (hr : r ∈ c.remaining.toList) :
    r.sequence ≤ c.newMax l := by
  unfold newMax
  cases hmax : c.maxSequence with
  | none =>
    rw [(h.max_none hmax).2] at hr
    cases hr
  | some max =>
    have hle := h.max_le r hr max hmax
    dsimp only
    split <;> omega

/-- A list that comes into effect takes the place of a pending one with its sequence. -/
theorem store_accepted (c : PublisherListCollection Key) (l : ParsedList Key) (hd : d = .accepted ∨ d = .expired) :
    (∀ r, r ∈ (c.store l d).remaining.toList ↔ r ∈ c.remaining.toList ∧ r.sequence ≠ l.sequence) ∧
    (c.store l d).maxSequence = some (c.newMax l) ∧
    ((c.store l d).current = fill c.current l ∨ c.remaining.find l.sequence = some (c.store l d).current) := by
  unfold store newMax
  rw [if_pos hd]
  cases hfind : c.remaining.find l.sequence with
  | none =>
    refine ⟨fun r => (and_iff_left_of_imp fun hr => ?_).symm, rfl, .inl rfl⟩
    exact find_eq_none.1 hfind r hr
  | some p => exact ⟨fun r => mem_erase, rfl, .inr rfl⟩

/-- A pending list takes the place of those with its number, and the current list stays. -/
theorem store_pending (c : PublisherListCollection Key) (l : ParsedList Key) :
    (c.store l .pending).current = c.current ∧ (c.store l .pending).maxSequence = some (c.newMax l) ∧
    ∃ p, Keeps p l ∧ p.list = l.keys ∧
      ∀ r, r ∈ (c.store l .pending).remaining.toList ↔ r = p ∨ (r ∈ c.remaining.toList ∧ r.sequence ≠ l.sequence) := by
  have hd : ¬ (ListDisposition.pending = .accepted ∨ ListDisposition.pending = .expired) := by decide
  unfold store newMax
  rw [if_neg hd]
  exact ⟨rfl, rfl, _, keeps_fill _ l, rfl, fun r => mem_insertList c.remaining.sorted⟩

variable (h : Tracks c seen now) (hP : Proper (l :: seen))

include h hP

/-- A pending list with the number of a presented list is that list. -/
theorem Tracks.keeps_of_sequence (hr : r ∈ c.remaining.toList) (hseq : r.sequence = l.sequence) :
    Keeps r l ∧ r.list = l.keys := by
  obtain ⟨l', hl', hk, hlist⟩ := h.pending r hr
  have heq : l' = l := hP.unique l' (mem_cons_of_mem l hl') l mem_cons_self (hk.sequence.symm.trans hseq)
  exact heq ▸ ⟨hk, hlist⟩

/-- What is kept of a new list: it is the current list or a pending one, and the other lists stay. -/
theorem Tracks.stored {c' : PublisherListCollection Key} (hmax : c'.maxSequence = some (c.newMax l))
    (hcurrent : c'.current.sequence = 0 ∨ Started c'.current (l :: seen) now)
    (hseq : c'.current.sequence = c.current.sequence ∨ c.current.sequence < l.sequence ∧
      c'.current.sequence = l.sequence)
    (hl : c'.current.sequence = l.sequence ∨ ∃ p ∈ c'.remaining.toList, Keeps p l)
    (hnew : ∀ r ∈ c'.remaining.toList, r ∈ c.remaining.toList ∨ Keeps r l ∧ r.list = l.keys)
    (hkept : ∀ r ∈ c.remaining.toList, r.sequence ≠ l.sequence → r ∈ c'.remaining.toList) :
    Tracks c' (l :: seen) now := by
  have hlcov : ∀ n from', n ≤ l.sequence → l.validFrom ≤ from' →
      n ≤ c'.current.sequence ∨ ∃ r ∈ c'.remaining.toList, n ≤ r.sequence ∧ r.validFrom ≤ from' := by
    intro n from' hn hfrom
    rcases hl with heq | ⟨p, hp, hk⟩
    · exact .inl (heq ▸ hn)
    · exact .inr ⟨p, hp, hk.sequence ▸ hn, hk.validFrom ▸ hfrom⟩
  refine ⟨hcurrent, fun r hr => ?_, fun x hx => ?_, fun hnone => ?_, fun max hm => ?_,
    fun r hr max hm => ?_, fun max hm => ?_⟩
  · rcases hnew r hr with hr | hr
    · obtain ⟨l', hl', hk⟩ := h.pending r hr
      exact ⟨l', mem_cons_of_mem l hl', hk⟩
    · exact ⟨l, mem_cons_self, hr⟩
  · rcases mem_cons.1 hx with rfl | hx
    · exact hlcov _ _ le_rfl le_rfl
    · rcases h.covered x hx with hle | ⟨r, hr, hle, hfr⟩
      · exact .inl (by omega)
      · by_cases hrl : r.sequence = l.sequence
        · -- the list is there already, and stays
          have hk := (h.keeps_of_sequence hP hr hrl).1
          exact hlcov _ _ (hrl ▸ hle) (hk.validFrom ▸ hfr)
        · exact .inr ⟨r, hkept r hr hrl, hle, hfr⟩
  · rw [hmax] at hnone
    cases hnone
  · rw [hmax] at hm
    obtain rfl := some.inj hm
    by_cases hml : c.newMax l = l.sequence
    · rcases hl with heq | ⟨p, hp, hk⟩
      · exact .inl (hml.trans heq.symm)
      · exact .inr (isSome_find.2 ⟨p, hp, hk.sequence.trans hml.symm⟩)
    · have hle := c.le_newMax l
      rcases h.max_some _ ((c.newMax_cases l).resolve_left hml) with heq | hsome
      · exact .inl (by omega)
      · obtain ⟨r, hr, hkey⟩ := isSome_find.1 hsome
        exact .inr (isSome_find.2 ⟨r, hkept r hr fun he => hml (hkey.symm.trans he), hkey⟩)
  · rw [hmax] at hm
    obtain rfl := some.inj hm
    rcases hnew r hr with hr | hr
    · exact h.le_newMax l hr
    · rw [hr.1.sequence]
      exact c.le_newMax l
  · rw [hmax] at hm
    obtain rfl := some.inj hm
    have hle := c.le_newMax l
    have hle' := h.current_le_newMax l
    omega

/-- A newer list that has started becomes the current one. -/
theorem Tracks.accept (hd : d = .accepted ∨ d = .expired) (hseq : c.current.sequence < l.sequence)
    (hfrom : l.validFrom ≤ now) : Tracks (c.store l d) (l :: seen) now := by
  obtain ⟨hrem, hmax, hcur⟩ := c.store_accepted l hd
  have hcurrent : Keeps (c.store l d).current l ∧ (c.store l d).current.list = l.keys := by
    rcases hcur with hfill | hfind
    · rw [hfill]
      exact ⟨keeps_fill _ l, rfl⟩
    · obtain ⟨hmem, hkey⟩ := find_eq_some.1 hfind
      exact h.keeps_of_sequence hP hmem hkey
  have hcseq := hcurrent.1.sequence
  exact h.stored hP hmax (.inr ⟨l, mem_cons_self, hcurrent.1, hfrom, fun _ => hcurrent.2⟩)
    (.inr ⟨hseq, hcseq⟩) (.inl hcseq)
    (fun r hr => .inl ((hrem r).1 hr).1) fun r hr hne => (hrem r).2 ⟨hr, hne⟩

/-- A list that is stored as pending is accounted for. -/
theorem Tracks.keepPending : Tracks (c.store l .pending) (l :: seen) now := by
  obtain ⟨hcur, hmax, p, hp, hlist, hrem⟩ := c.store_pending l
  refine h.stored hP hmax ?_ (.inl (by rw [hcur])) (.inr ⟨p, (hrem p).2 (.inl rfl), hp⟩) (fun r hr => ?_)
    fun r hr hne => (hrem r).2 (.inr ⟨hr, hne⟩)
  · rw [hcur]
    exact h.current.imp_right fun hs => hs.cons l
  · rcases (hrem r).1 hr with rfl | ⟨hr, -⟩
    · exact .inr ⟨hp, hlist⟩
    · exact .inl hr

def taken (c : PublisherListCollection Key) (l : ParsedList Key) (d : ListDisposition) : PublisherListCollection Key :=
  if d.rank ≤ ListDisposition.pending.rank then c.store l d else c

/-- Whatever `verify` says about a list, it does not throw, and the list is accounted for. -/
theorem Tracks.present : ∃ d, c.classify now l = .ok d ∧ Tracks (c.taken l d) (l :: seen) now := by
  have hlasting := hP.lasting l mem_cons_self
  unfold classify
  rw [if_neg (not_le.2 hlasting)]
  by_cases hstale : l.sequence < c.current.sequence
  · rw [if_pos hstale]
    exact ⟨.stale, rfl, h.refuse (.inl hstale.le)⟩
  rw [if_neg hstale]
  by_cases hsame : l.sequence = c.current.sequence
  · rw [if_pos hsame]
    exact ⟨.sameSequence, rfl, h.refuse (.inl hsame.le)⟩
  rw [if_neg hsame]
  have hseq : c.current.sequence < l.sequence := by omega
  by_cases hexpired : l.validUntil ≤ now
  · rw [if_pos hexpired]
    exact ⟨.expired, rfl, h.accept hP (.inr rfl) hseq (by omega)⟩
  rw [if_neg hexpired]
  by_cases hfuture : l.validFrom > now
  · rw [if_pos hfuture]
    cases hmax : c.maxSequence with
    | none => exact ⟨.pending, rfl, h.keepPending hP⟩
    | some max =>
      dsimp only
      by_cases hnew : l.sequence > max
      · rw [if_pos hnew]
        exact ⟨.pending, rfl, h.keepPending hP⟩
      rw [if_neg hnew]
      cases hfind : c.remaining.find l.sequence with
      | some r =>
        rw [if_pos isSome_some]
        obtain ⟨hmem, hkey⟩ := find_eq_some.1 hfind
        have hk := (h.keeps_of_sequence hP hmem hkey).1
        exact ⟨.knownSequence, rfl, h.refuse (.inr ⟨r, hmem, hk.sequence.ge, hk.validFrom.le⟩)⟩
      | none =>
        rw [if_neg (by simp)]
        -- the greatest sequence seen is above the current one, so it is pending
        have hpending : (c.remaining.find max).isSome := (h.max_some max hmax).resolve_left (by omega)
        obtain ⟨last, hlast⟩ := isSome_iff_exists.1 hpending
        obtain ⟨hmem, hkey⟩ := find_eq_some.1 hlast
        rw [hlast]
        dsimp only
        by_cases hbefore : l.validFrom < last.validFrom
        · rw [if_pos hbefore]
          exact ⟨.pending, rfl, h.keepPending hP⟩
        · rw [if_neg hbefore]
          have hle : l.sequence ≤ last.sequence := by
            change last.sequence = max at hkey
            omega
          exact ⟨.knownSequence, rfl, h.refuse (.inr ⟨last, hmem, hle, not_lt.1 hbefore⟩)⟩
  · rw [if_neg hfuture]
    exact ⟨.accepted, rfl, h.accept hP (.inl rfl) hseq (not_lt.1 hfuture)⟩

end PublisherListCollection

/-! ## Cleaning up -/

section Prune

omit [LinearOrder Key]

variable {ps : List (PublisherList Key)}

/-- The pass keeps lists above the current one only. -/
theorem current_lt_of_mem_prune {current : Nat} (h : r ∈ prune current ps) : current < r.sequence := by
  induction ps with
  | nil => cases h
  | cons p rest ih =>
    rw [prune] at h
    split at h
    · exact ih h
    · rename_i hkeep
      rcases mem_cons.1 h with rfl | h
      · exact not_le.1 fun hle => hkeep (.inl hle)
      · exact ih h

/-- What the pass drops is not above the current list, or a list that it keeps starts no later. -/
theorem covered_by_prune (current : Nat) (hinc : KeyedMap.Increasing ps) (hp : p ∈ ps) :
    p.sequence ≤ current ∨ ∃ r ∈ prune current ps, p.sequence ≤ r.sequence ∧ r.validFrom ≤ p.validFrom := by
  induction ps generalizing p with
  | nil => cases hp
  | cons q rest ih =>
    rw [prune]
    by_cases hdrop : q.sequence ≤ current ∨ (rest.head?.any fun next => next.validFrom ≤ q.validFrom) = true
    · rw [if_pos hdrop]
      rcases mem_cons.1 hp with rfl | hp
      · rcases hdrop with hle | hnext
        · exact .inl hle
        · -- the next list covers it, and the kept one covers that
          obtain ⟨next, hnext, hfrom⟩ := (any_eq_true _ _).1 hnext
          have hmem : next ∈ rest := mem_of_head? hnext
          have hlt : p.sequence < next.sequence := (pairwise_cons.1 hinc).1 next hmem
          rcases ih hinc.of_cons hmem with hle | ⟨r, hr, hle, hr'⟩
          · exact .inl (hlt.le.trans hle)
          · exact .inr ⟨r, hr, hlt.le.trans hle, hr'.trans (of_decide_eq_true hfrom)⟩
      · exact ih hinc.of_cons hp
    · rw [if_neg hdrop]
      rcases mem_cons.1 hp with rfl | hp
      · exact .inr ⟨p, mem_cons_self, le_rfl, le_rfl⟩
      · rcases ih hinc.of_cons hp with hle | ⟨r, hr, h⟩
        · exact .inl hle
        · exact .inr ⟨r, mem_cons_of_mem q hr, h⟩

/-- Of the lists that have not started at time `t`, each starts before those after it. -/
def Ordered (t : Nat) (ps : List (PublisherList Key)) : Prop :=
  ps.Pairwise fun p q => t < p.validFrom → p.validFrom < q.validFrom

/-- What one pass needs to put lists in order: a list above the current one that has not started, and that starts
before the next one, starts before all later ones. -/
def Straight (t current : Nat) : List (PublisherList Key) → Prop
  | [] => True
  | p :: rest =>
    (t < p.validFrom → current < p.sequence → (∀ next ∈ rest.head?, p.validFrom < next.validFrom) →
      ∀ r ∈ rest, p.validFrom < r.validFrom) ∧ Straight t current rest

instance Straight.decidable (t current : Nat) : (ps : List (PublisherList Key)) → Decidable (Straight t current ps)
  | [] => .isTrue trivial
  | _ :: rest => @instDecidableAnd _ _ inferInstance (decidable t current rest)

theorem Ordered.of_increasing (t : Nat) (h : ps.Pairwise fun p q => p.validFrom < q.validFrom) : Ordered t ps := by
  refine h.imp ?_
  intro p q hlt _
  exact hlt

/-- Lists that are in order stay so in one pass. -/
theorem Ordered.straight {t : Nat} (h : Ordered t ps) (current : Nat) : Straight t current ps := by
  induction ps with
  | nil => trivial
  | cons p rest ih =>
    obtain ⟨hp, hrest⟩ := pairwise_cons.1 h
    exact ⟨fun ht _ _ r hr => hp r hr ht, ih hrest⟩

/-- When one pass puts the lists in order. -/
theorem ordered_prune (t current : Nat) (hinc : KeyedMap.Increasing ps) :
    Ordered t (prune current ps) ↔ Straight t current ps := by
  induction ps with
  | nil => exact ⟨fun _ => trivial, fun _ => Pairwise.nil⟩
  | cons p rest ih =>
    have ih := ih hinc.of_cons
    rw [prune, Straight]
    by_cases hdrop : p.sequence ≤ current ∨ (rest.head?.any fun next => next.validFrom ≤ p.validFrom) = true
    · rw [if_pos hdrop, ih]
      refine (and_iff_right fun _ habove hnext => ?_).symm
      rcases hdrop with hle | hany
      · omega
      · obtain ⟨next, hmem, hle⟩ := (any_eq_true _ _).1 hany
        exact absurd (hnext next hmem) (not_lt.2 (of_decide_eq_true hle))
    · rw [if_neg hdrop]
      have habove : current < p.sequence := not_le.1 fun hle => hdrop (.inl hle)
      have hnext : ∀ next ∈ rest.head?, p.validFrom < next.validFrom := fun next hmem =>
        not_le.1 fun hle => hdrop (.inr ((any_eq_true _ _).2 ⟨next, hmem, decide_eq_true hle⟩))
      refine pairwise_cons.trans (and_congr ⟨fun h ht _ _ r hr => ?_, fun h r hr ht => ?_⟩ ih)
      · -- a list that is dropped is covered by one that is kept
        have hlt : p.sequence < r.sequence := (pairwise_cons.1 hinc).1 r hr
        rcases covered_by_prune current hinc.of_cons hr with hle | ⟨r', hr', -, hfrom⟩
        · omega
        · exact (h r' hr' ht).trans_le hfrom
      · exact h ht habove hnext r ((prune_sublist current rest).subset hr)

/-- Lists that have started do not matter. -/
theorem ordered_dropWhile {t : Nat} : Ordered t (ps.dropWhile fun p => p.validFrom ≤ t) ↔ Ordered t ps := by
  induction ps with
  | nil => exact Iff.rfl
  | cons p rest ih =>
    by_cases hp : p.validFrom ≤ t
    · rw [dropWhile_cons_of_pos (by simpa using hp), ih]
      exact (pairwise_cons.trans (and_iff_right fun r _ hlt => absurd hlt (not_lt.2 hp))).symm
    · rw [dropWhile_cons_of_neg (by simpa using hp)]

theorem Ordered.lt_of_mem_dropWhile {t : Nat} (h : Ordered t ps) (hr : r ∈ ps.dropWhile fun p => p.validFrom ≤ t) :
    t < r.validFrom := by
  induction ps with
  | nil => cases hr
  | cons p ps ih =>
    obtain ⟨hfirst, hrest⟩ := pairwise_cons.1 h
    by_cases hp : p.validFrom ≤ t
    · rw [dropWhile_cons_of_pos (by simpa using hp)] at hr
      exact ih hrest hr
    · rw [dropWhile_cons_of_neg (by simpa using hp)] at hr
      rcases mem_cons.1 hr with rfl | hr
      · exact not_le.1 hp
      · exact (not_le.1 hp).trans (hfirst r hr (not_le.1 hp))

end Prune

namespace PublisherListCollection

variable {c : PublisherListCollection Key} {seen : List (ParsedList Key)} {t : Nat}

/-- What the pass drops is covered by what it keeps. -/
theorem Tracks.cleanUp (h : Tracks c seen t) : Tracks c.cleanUp seen t := by
  have hsub : ∀ r, r ∈ c.cleanUp.remaining.toList → r ∈ c.remaining.toList := fun r hr => (prune_sublist _ _).subset hr
  have hcov := fun {p : PublisherList Key} (hp : p ∈ c.remaining.toList) =>
    covered_by_prune c.current.sequence c.remaining.sorted hp
  refine ⟨h.current, fun r hr => h.pending r (hsub r hr), fun l hl => ?_, fun hnone => ?_, fun max hmax => ?_,
    fun r hr => h.max_le r (hsub r hr), h.max_ge⟩
  · rcases h.covered l hl with hle | ⟨r, hr, hle, hfrom⟩
    · exact .inl hle
    · rcases hcov hr with hle' | ⟨r', hr', hle', hfrom'⟩
      · exact .inl (hle.trans hle')
      · exact .inr ⟨r', hr', hle.trans hle', hfrom'.trans hfrom⟩
  · refine ⟨(h.max_none hnone).1, eq_nil_iff_forall_not_mem.2 fun r hr => ?_⟩
    have hr' := hsub r hr
    rw [(h.max_none hnone).2] at hr'
    cases hr'
  · rcases h.max_some max hmax with heq | hsome
    · exact .inl heq
    · obtain ⟨r, hmem, hkey⟩ := isSome_find.1 hsome
      change r.sequence = max at hkey
      have hge := h.max_ge max hmax
      rcases hcov hmem with hle | ⟨r', hr', hle, -⟩
      · exact .inl (show max = c.current.sequence by omega)
      · have hle' := h.max_le r' (hsub r' hr') max hmax
        have hkey' : r'.sequence = max := by omega
        exact .inr (isSome_find.2 ⟨r', hr', hkey'⟩)

/-! ## Going live -/

section Rotation

omit [LinearOrder Key]

def rotated (c : PublisherListCollection Key) (closeTime : Nat) : PublisherListCollection Key :=
  match (c.due closeTime).getLast? with
  | none => c
  | some candidate =>
    { c with
      status := .available
      current := if candidate.validUntil ≤ closeTime then { candidate with list := [] } else candidate
      remaining := c.notDue closeTime }

def afterExpiry (c : PublisherListCollection Key) (closeTime : Nat) : PublisherListCollection Key :=
  if c.status = .available ∧ c.current.validUntil ≤ closeTime then
    { c with status := .expired, current := { c.current with list := [] } }
  else c

/-- The pending lists are those that are due and, behind them, the others. -/
theorem due_append_notDue (c : PublisherListCollection Key) (t : Nat) :
    c.remaining.toList = c.due t ++ (c.notDue t).toList :=
  takeWhile_append_dropWhile.symm

theorem validFrom_of_mem_due (h : r ∈ c.due t) : r.validFrom ≤ t := by
  simpa using mem_takeWhile_imp h

section Candidate

variable {candidate : PublisherList Key} (hlast : (c.due t).getLast? = some candidate)

include hlast

theorem candidate_mem : candidate ∈ c.due t := mem_of_getLast? hlast

theorem candidate_pending : candidate ∈ c.remaining.toList := by
  rw [c.due_append_notDue t]
  exact mem_append_left _ (candidate_mem hlast)

/-- The list that is rotated in has the greatest number of those that are due. -/
theorem le_candidate (hr : r ∈ c.due t) : r.sequence ≤ candidate.sequence :=
  le_key_getLast? (c.remaining.sorted.sublist (takeWhile_sublist _)) hlast hr

theorem candidate_lt (hr : r ∈ (c.notDue t).toList) : candidate.sequence < r.sequence :=
  lt_of_cut (c.due_append_notDue t) (candidate_mem hlast) hr

theorem rotated_eq : c.rotated t =
    { c with
      status := .available
      current := if candidate.validUntil ≤ t then { candidate with list := [] } else candidate
      remaining := c.notDue t } := by
  unfold rotated
  rw [hlast]

theorem rotated_sequence : (c.rotated t).current.sequence = candidate.sequence := by
  rw [rotated_eq hlast]
  dsimp only
  split <;> rfl

end Candidate

/-- What `updateTrusted` makes of a collection. -/
def refreshed (c : PublisherListCollection Key) (t : Nat) : PublisherListCollection Key := (c.rotated t).afterExpiry t

/-- What is pending after the walk of `updateTrusted`. -/
theorem refreshed_remaining (c : PublisherListCollection Key) (t : Nat) :
    (c.refreshed t).remaining.toList = c.remaining.toList.dropWhile fun p => p.validFrom ≤ t := by
  have hexpiry : (c.refreshed t).remaining = (c.rotated t).remaining := by
    unfold refreshed afterExpiry
    split <;> rfl
  rw [hexpiry]
  cases hlast : (c.due t).getLast? with
  | none =>
    unfold rotated
    rw [hlast]
    have happend := c.due_append_notDue t
    rwa [getLast?_eq_none_iff.1 hlast, nil_append] at happend
  | some candidate =>
    rw [rotated_eq hlast]
    rfl

theorem refreshed_sequence (c : PublisherListCollection Key) (t : Nat) :
    (c.refreshed t).current.sequence = (c.rotated t).current.sequence := by
  unfold refreshed afterExpiry
  split <;> rfl

/-- What is pending stays above the current list. -/
theorem above_refreshed (h : ∀ r ∈ c.remaining.toList, c.current.sequence < r.sequence)
    (hr : r ∈ (c.refreshed t).remaining.toList) : (c.refreshed t).current.sequence < r.sequence := by
  rw [refreshed_remaining] at hr
  rw [refreshed_sequence]
  cases hlast : (c.due t).getLast? with
  | none =>
    unfold rotated
    rw [hlast]
    exact h r ((dropWhile_sublist _).subset hr)
  | some candidate =>
    rw [rotated_sequence hlast]
    exact candidate_lt hlast hr

end Rotation

/-- The rotation makes the last due list the current one and loses none. -/
theorem Tracks.rotated (h : Tracks c seen t) (habove : ∀ r ∈ c.remaining.toList, c.current.sequence < r.sequence) :
    Tracks (c.rotated t) seen t := by
  cases hlast : (c.due t).getLast? with
  | none =>
    unfold PublisherListCollection.rotated
    rw [hlast]
    exact h
  | some candidate =>
    have hseq := rotated_sequence hlast
    have hmem := candidate_pending hlast
    have habove := habove candidate hmem
    have hrem : (c.rotated t).remaining = c.notDue t := by rw [rotated_eq hlast]
    have hmax : (c.rotated t).maxSequence = c.maxSequence := by rw [rotated_eq hlast]
    have hsub : ∀ r ∈ (c.notDue t).toList, r ∈ c.remaining.toList := fun r hr => (dropWhile_sublist _).subset hr
    refine ⟨.inr ?_, ?_, fun l hl => ?_, fun hnone => ?_, fun max hm => ?_, ?_, fun max hm => ?_⟩
    · obtain ⟨l, hl, hk, hlist⟩ := h.pending candidate hmem
      have hfrom : l.validFrom ≤ t := hk.validFrom ▸ validFrom_of_mem_due (candidate_mem hlast)
      rw [rotated_eq hlast]
      dsimp only
      by_cases hover : candidate.validUntil ≤ t
      · rw [if_pos hover]
        refine ⟨l, hl, ⟨hk.sequence, hk.validFrom, hk.validUntil⟩, hfrom, fun hlt => ?_⟩
        rw [hk.validUntil] at hover
        omega
      · rw [if_neg hover]
        exact ⟨l, hl, hk, hfrom, fun _ => hlist⟩
    · rw [hrem]
      exact fun r hr => h.pending r (hsub r hr)
    · rw [hseq, hrem]
      rcases h.covered l hl with hle | ⟨r, hr, hle, hfrom⟩
      · exact .inl (hle.trans habove.le)
      · rw [c.due_append_notDue t] at hr
        rcases mem_append.1 hr with hr | hr
        · exact .inl (hle.trans (le_candidate hlast hr))
        · exact .inr ⟨r, hr, hle, hfrom⟩
    · rw [hmax] at hnone
      rw [(h.max_none hnone).2] at hmem
      cases hmem
    · rw [hmax] at hm
      rw [hseq, hrem]
      have hle := h.max_le candidate hmem max hm
      rcases h.max_some max hm with heq | hsome
      · omega
      · obtain ⟨r, hr, hkey⟩ := isSome_find.1 hsome
        rw [c.due_append_notDue t] at hr
        rcases mem_append.1 hr with hr | hr
        · have hle' := le_candidate hlast hr
          change r.sequence = max at hkey
          exact .inl (by omega)
        · exact .inr (isSome_find.2 ⟨r, hr, hkey⟩)
    · rw [hrem, hmax]
      exact fun r hr => h.max_le r (hsub r hr)
    · rw [hmax] at hm
      rw [hseq]
      exact h.max_le candidate hmem max hm

theorem Tracks.afterExpiry (h : Tracks c seen t) : Tracks (c.afterExpiry t) seen t := by
  unfold PublisherListCollection.afterExpiry
  split
  · rename_i hover
    refine ⟨h.current.imp_right ?_, h.pending, h.covered, h.max_none, h.max_some, h.max_le, h.max_ge⟩
    rintro ⟨l, hl, hk, hfrom, -⟩
    refine ⟨l, hl, ⟨hk.sequence, hk.validFrom, hk.validUntil⟩, hfrom, fun hlt => ?_⟩
    have hle : l.validUntil ≤ t := hk.validUntil ▸ hover.2
    omega
  · exact h

/-- The lists at time `t` are as they should be: the current one is the last of those that have started, and what is
pending starts later, in order. -/
structure OnTime (c : PublisherListCollection Key) (seen : List (ParsedList Key)) (t : Nat) : Prop where
  current : c.current.sequence = 0 ∨ Started c.current seen t
  latest : ∀ l ∈ seen, l.validFrom ≤ t → l.sequence ≤ c.current.sequence
  above : ∀ r ∈ c.remaining.toList, c.current.sequence < r.sequence
  later : ∀ r ∈ c.remaining.toList, t < r.validFrom
  increasing : c.remaining.toList.Pairwise (fun p q => p.validFrom < q.validFrom)

/-- Lists that are in order are on time once they are walked over. -/
theorem Tracks.onTime (h : Tracks c seen t) (habove : ∀ r ∈ c.remaining.toList, c.current.sequence < r.sequence)
    (ho : Ordered t c.remaining.toList) : OnTime (c.refreshed t) seen t := by
  have htracks : Tracks (c.refreshed t) seen t := (h.rotated habove).afterExpiry
  have hlater : ∀ r ∈ (c.refreshed t).remaining.toList, t < r.validFrom := by
    rw [refreshed_remaining]
    exact fun r hr => ho.lt_of_mem_dropWhile hr
  refine ⟨htracks.current, fun l hl hfrom => ?_, fun r => above_refreshed habove, hlater, ?_⟩
  · refine (htracks.covered l hl).resolve_right ?_
    rintro ⟨r, hr, -, hr'⟩
    have hlt := hlater r hr
    omega
  · have hordered : Ordered t (c.refreshed t).remaining.toList := by rwa [refreshed_remaining, ordered_dropWhile]
    exact hordered.imp_of_mem fun hp _ h => h (hlater _ hp)

/-- And only those. -/
theorem OnTime.ordered (h : OnTime (c.refreshed t) seen t) : Ordered t c.remaining.toList := by
  rw [← ordered_dropWhile, ← refreshed_remaining]
  exact .of_increasing t h.increasing

/-- Who saw more lists is not behind. -/
theorem OnTime.sequence_le {c c' : PublisherListCollection Key} {seen' : List (ParsedList Key)} (h : OnTime c seen t)
    (h' : OnTime c' seen' t) (hsub : ∀ l ∈ seen, l ∈ seen') : c.current.sequence ≤ c'.current.sequence := by
  rcases h.current with hzero | ⟨l, hl, hk, hfrom, -⟩
  · omega
  · rw [hk.sequence]
    exact h'.latest l (hsub l hl) hfrom

end PublisherListCollection

/-! ## Calls of `applyLists` -/

/-! ### The best disposition -/

variable {stats : PublisherListStats Key}

namespace PublisherListStats

omit [LinearOrder Key]

theorem rank_better (a b : ListDisposition) : (better a b).rank = min a.rank b.rank := by
  unfold better
  split <;> omega

theorem rank_le (a : ListDisposition) : a.rank ≤ ListDisposition.invalid.rank := by
  cases a <;> decide

theorem rank_bestDisposition_single (h : stats.dispositions = [d]) : stats.bestDisposition.rank = d.rank := by
  unfold bestDisposition
  rw [h]
  simp only [foldr_cons, foldr_nil, rank_better]
  exact min_eq_left (rank_le d)

/-- The best disposition of two results together is the better one of both. -/
theorem rank_bestDisposition_merge (r src : PublisherListStats Key) :
    (r.mergeDispositions src).bestDisposition.rank = min r.bestDisposition.rank src.bestDisposition.rank := by
  unfold bestDisposition mergeDispositions
  dsimp only
  induction r.dispositions with
  | nil => exact (min_eq_right (rank_le _)).symm
  | cons d ds ih =>
    simp only [cons_append, foldr_cons, rank_better]
    rw [ih, min_assoc]

end PublisherListStats

namespace ValidatorList

open PublisherListCollection

variable {env : Env Key} {P : Key} {s : ValidatorList Key} {now t : Nat} {manifest : String}

/-- A blob is the correctly signed list `l` of publisher `P`. -/
def Presented (env : Env Key) (manifest : String) (P : Key) (s : ValidatorList Key)
    (info : ValidatorBlobInfo) (l : ParsedList Key) : Prop :=
  ∃ m k, ForPublisher env manifest P info m ∧ (s.verifyManifest env m).2 = some k ∧ openBlob env k info = .ok (some l)

/-- The blobs of one call are the correctly signed lists `ls`. -/
def PresentedAll (env : Env Key) (now : Nat) (manifest : String) (P : Key) :
    ValidatorList Key → List ValidatorBlobInfo → List (ParsedList Key) → Prop
  | _, [], ls => ls = []
  | _, _ :: _, [] => False
  | s, info :: blobs, l :: ls =>
    Presented env manifest P s info l ∧ PresentedAll env now manifest P (s.applyList env now manifest info).1 blobs ls

/-- A manifest that gives a key to check the list with takes nothing away. -/
theorem verifyManifest_lists {m : Manifest Key} {k : Key} (h : (s.verifyManifest env m).2 = some k) :
    (s.verifyManifest env m).1.publisherLists = s.publisherLists := by
  have hrev : ¬ m.revoked = true := by
    intro hrev
    unfold verifyManifest at h
    dsimp only at h
    rw [if_pos (.inl hrev)] at h
    cases h
  unfold verifyManifest
  dsimp only
  rw [if_neg fun hc => hrev hc.1]

theorem lookup_storeList (c : PublisherListCollection Key)
    (hc : s.publisherLists.lookup P = some c) (l : ParsedList Key)
    (d : ListDisposition) : (s.storeList env P l d).1.publisherLists.lookup P = some (c.store l d) := by
  unfold storeList
  rw [hc]
  dsimp only [getD_some]
  split
  · rw [(updatePublisherList_sameLists env _ _ _).lists]
    exact AList.lookup_insert _
  · exact AList.lookup_insert _

variable {c : PublisherListCollection Key} {info : ValidatorBlobInfo}

/-- A correctly signed list is taken in as it is classified. -/
theorem applyList_presented (hc : s.publisherLists.lookup P = some c) {l : ParsedList Key}
    (h : Presented env manifest P s info l) (hd : c.classify now l = .ok d) :
    ∃ s' stats, s.applyList env now manifest info = (s', .ok stats) ∧
      s'.publisherLists.lookup P = some (c.taken l d) ∧ stats.dispositions = [d] ∧
      (stats.publisherKey = some P ∨ stats.publisherKey = none ∧ ListDisposition.pending.rank < d.rank) := by
  obtain ⟨m, k, hfor, hkey, hopen⟩ := h
  obtain rfl := hfor.2.2
  have hlists := verifyManifest_lists hkey
  have hc' : (s.verifyManifest env m).1.publisherLists.lookup m.masterKey = some c := by rw [hlists, hc]
  have hverify : s.verify env now m info = ((s.verifyManifest env m).1, .ok (d, some l)) := by
    unfold verify
    dsimp only
    rw [hkey]
    dsimp only
    rw [hopen]
    dsimp only
    rw [hc', getD_some, hd]
    rfl
  rw [applyList_forPublisher hfor]
  unfold applyVerified
  rw [if_neg (by rw [hc]; exact Bool.false_ne_true), hverify]
  dsimp only
  by_cases hrank : d.rank > ListDisposition.pending.rank
  · rw [if_pos hrank]
    refine ⟨_, _, rfl, ?_, refused_dispositions _ _ _, ?_⟩
    · rw [hc', taken, if_neg (not_le.2 hrank)]
    · unfold refused
      rw [hc']
      dsimp only
      split
      · split
        · exact .inl rfl
        · exact .inr ⟨rfl, hrank⟩
      · exact .inr ⟨rfl, hrank⟩
  · rw [if_neg hrank]
    refine ⟨_, _, rfl, ?_, rfl, .inl rfl⟩
    rw [lookup_storeList c hc', taken, if_pos (not_lt.1 hrank)]

/-- The result so far, when the collection of the publisher was `c₀` at the start of the call and is `c` now: if any
list was stored, the result names the publisher. -/
structure Names (P : Key) (c₀ c : PublisherListCollection Key) (result : PublisherListStats Key) : Prop where
  key : result.publisherKey = none ∨ result.publisherKey = some P
  stored : result.bestDisposition.rank ≤ ListDisposition.pending.rank → result.publisherKey = some P
  unchanged : ListDisposition.pending.rank < result.bestDisposition.rank → c = c₀

variable {c₀ : PublisherListCollection Key} {result : PublisherListStats Key}

/-- One more list keeps what the result says about the publisher. -/
theorem Names.combine (h : Names P c₀ c result) {l : ParsedList Key} (hd : stats.dispositions = [d])
    (hkey : stats.publisherKey = some P ∨ stats.publisherKey = none ∧ ListDisposition.pending.rank < d.rank) :
    Names P c₀ (c.taken l d) (ValidatorList.combine result stats) := by
  have hbest := rank_bestDisposition_single hd
  have hunchanged : ListDisposition.pending.rank < min result.bestDisposition.rank stats.bestDisposition.rank →
      c.taken l d = c₀ := by
    intro hlt
    rw [hbest] at hlt
    rw [taken, if_neg (by omega)]
    exact h.unchanged (by omega)
  unfold ValidatorList.combine
  split
  · rename_i hwins
    have hle : stats.bestDisposition.rank ≤ result.bestDisposition.rank := by
      rcases hwins with hlt | ⟨heq, -⟩
      · exact hlt.le
      · rw [heq]
    refine ⟨hkey.symm.imp_left (·.1), fun hr => ?_, fun hr => ?_⟩
    · rw [rank_bestDisposition_merge] at hr
      refine hkey.resolve_right ?_
      rintro ⟨-, hlt⟩
      omega
    · rw [rank_bestDisposition_merge, min_comm] at hr
      exact hunchanged hr
  · refine ⟨h.key, fun hr => ?_, fun hr => ?_⟩
    · rw [rank_bestDisposition_merge] at hr
      exact h.stored (by omega)
    · rw [rank_bestDisposition_merge] at hr
      exact hunchanged hr

variable {seen : List (ParsedList Key)} {blobs : List ValidatorBlobInfo} {ls : List (ParsedList Key)}

/-- The loop over the blobs takes in every list. -/
theorem applyBlobs_presented (hc : s.publisherLists.lookup P = some c)
    (ht : Tracks c seen now) (hn : Names P c₀ c result)
    (hp : PresentedAll env now manifest P s blobs ls) (hproper : Proper (ls.reverse ++ seen)) :
    ∃ s' result' c', s.applyBlobs env now manifest blobs result = (s', .ok result') ∧
      s'.publisherLists.lookup P = some c' ∧ Tracks c' (ls.reverse ++ seen) now ∧ Names P c₀ c' result' := by
  induction blobs generalizing s c ls seen result with
  | nil =>
    obtain rfl : ls = [] := hp
    exact ⟨s, result, c, rfl, hc, ht, hn⟩
  | cons info blobs ih =>
    cases ls with
    | nil => exact hp.elim
    | cons l ls =>
      rw [reverse_cons, append_assoc, singleton_append] at hproper ⊢
      obtain ⟨d, hd, ht'⟩ := ht.present (hproper.mono fun x hx => mem_append_right _ hx)
      obtain ⟨s₁, stats, happly, hc', hdis, hkey⟩ := applyList_presented hc hp.1 hd
      have hrest := hp.2
      rw [happly] at hrest
      unfold applyBlobs
      rw [happly]
      exact ih hc' ht' (hn.combine hdis hkey) hrest hproper

/-- The collection of `P` accounts for what was presented and is in order. -/
structure Settled (P : Key) (seen : List (ParsedList Key)) (t : Nat) (s : ValidatorList Key)
    (c : PublisherListCollection Key) : Prop where
  lookup : s.publisherLists.lookup P = some c
  tracks : Tracks c seen t
  above : ∀ r ∈ c.remaining.toList, c.current.sequence < r.sequence
  ordered : Ordered t c.remaining.toList

/-- Before the clean-up pass of `applyLists`, the lists of `P` are such that it puts them in order. -/
def StraightBefore (env : Env Key) (now : Nat) (manifest : String) (P : Key) (s : ValidatorList Key)
    (blobs : List ValidatorBlobInfo) : Prop :=
  ∀ c ∈ (s.applyBlobs env now manifest blobs {}).1.publisherLists.lookup P,
    Straight now c.current.sequence c.remaining.toList

instance (manifest : String) (s : ValidatorList Key) (blobs : List ValidatorBlobInfo) :
    Decidable (StraightBefore env now manifest P s blobs) := by
  unfold StraightBefore
  infer_instance

/-- A call of `applyLists` accounts for every list, and what is pending is above the current one; it is in order
exactly if it was straight before the pass. -/
theorem applyLists_presented {version : Nat} (h : Settled P seen now s c) (hv : version = 1 ∨ version = 2)
    (hp : PresentedAll env now manifest P s blobs ls) (hproper : Proper (ls.reverse ++ seen)) :
    ∃ c', (s.applyLists env now manifest version blobs).1.publisherLists.lookup P = some c' ∧
      Tracks c' (ls.reverse ++ seen) now ∧ (∀ r ∈ c'.remaining.toList, c'.current.sequence < r.sequence) ∧
      (Ordered now c'.remaining.toList ↔ StraightBefore env now manifest P s blobs) := by
  have hstart : Names P c c {} := ⟨.inl rfl, fun hr => absurd (show 8 ≤ 2 from hr) (by decide), fun _ => rfl⟩
  obtain ⟨s₁, result, c₁, hblobs, hc₁, ht₁, hn⟩ := applyBlobs_presented h.lookup h.tracks hstart hp hproper
  have hbefore : StraightBefore env now manifest P s blobs ↔ Straight now c₁.current.sequence c₁.remaining.toList := by
    rw [StraightBefore, hblobs, hc₁]
    simp only [mem_some_iff, forall_eq']
  rw [hbefore]
  unfold applyLists
  rw [if_neg (by omega), hblobs]
  dsimp only
  unfold finishLists
  rcases hn.key with hnone | hsome
  · -- nothing was stored
    have hsame : c₁ = c := hn.unchanged <| not_le.1 fun hle => by
      have hkey := hn.stored hle
      rw [hnone] at hkey
      cases hkey
    rw [hnone]
    subst hsame
    exact ⟨c₁, hc₁, ht₁, h.above, fun ho => ho.straight _, fun _ => h.ordered⟩
  · rw [hsome]
    dsimp only
    rw [hc₁]
    exact ⟨c₁.cleanUp, AList.lookup_insert _, ht₁.cleanUp, fun r hr => current_lt_of_mem_prune hr,
      ordered_prune now _ c₁.remaining.sorted⟩

/-! ## Calls of `updateTrusted` -/

theorem lookup_rotate_self (hc : s.publisherLists.lookup P = some c) :
    (s.rotate env t P).publisherLists.lookup P = some (c.rotated t) := by
  unfold rotate rotated
  rw [hc]
  dsimp only
  cases (c.due t).getLast? with
  | none => exact hc
  | some candidate =>
    dsimp only
    rw [(updatePublisherList_sameLists env _ _ _).lists]
    exact AList.lookup_insert _

/-- The rotation for one publisher leaves the others alone. -/
theorem lookup_rotate_ne {Q : Key} (hQ : P ≠ Q) :
    (s.rotate env t Q).publisherLists.lookup P = s.publisherLists.lookup P := by
  unfold rotate
  split
  · rfl
  · split
    · rfl
    · rw [(updatePublisherList_sameLists env _ _ _).lists]
      exact lookup_setCollection_ne hQ _

theorem lookup_expire_self (hc : s.publisherLists.lookup P = some c) :
    (s.expire t P).publisherLists.lookup P = some (c.afterExpiry t) := by
  unfold expire afterExpiry
  rw [hc]
  dsimp only
  split
  · unfold removePublisherList
    rw [hc]
    exact AList.lookup_insert _
  · exact hc

/-- The expiry for one publisher leaves the others alone. -/
theorem lookup_expire_ne {Q : Key} (hQ : P ≠ Q) :
    (s.expire t Q).publisherLists.lookup P = s.publisherLists.lookup P := by
  unfold expire
  split
  · rfl
  · split
    · exact lookup_removePublisherList_ne hQ .expired
    · rfl

variable {order : List Key}

/-- The walk refreshes each publisher that it comes to, and leaves the others. -/
theorem lookup_walkAll (hnodup : order.Nodup) (P : Key) :
    (order.foldl (fun s Q => (s.rotate env t Q).expire t Q) s).publisherLists.lookup P =
      if P ∈ order then (s.publisherLists.lookup P).map (·.refreshed t) else s.publisherLists.lookup P := by
  induction order generalizing s with
  | nil => rfl
  | cons Q order ih =>
    obtain ⟨hQ, hrest⟩ := nodup_cons.1 hnodup
    rw [foldl_cons, ih hrest]
    by_cases hP : P = Q
    · subst hP
      rw [if_neg hQ, if_pos mem_cons_self]
      cases hc : s.publisherLists.lookup P with
      | none =>
        have hrot : s.rotate env t P = s := by
          unfold rotate
          rw [hc]
        have hexp : s.expire t P = s := by
          unfold expire
          rw [hc]
        rw [hrot, hexp, hc]
        rfl
      | some c => exact lookup_expire_self (lookup_rotate_self hc)
    · rw [lookup_expire_ne hP, lookup_rotate_ne hP]
      refine if_congr ?_ rfl rfl
      rw [mem_cons, or_iff_right hP]

/-- Every collection is walked over once, in whatever order. -/
theorem lookup_updateTrusted (horder : order.Perm s.publisherLists.keys) (P : Key) :
    (s.updateTrusted env t t order).publisherLists.lookup P = (s.publisherLists.lookup P).map (·.refreshed t) := by
  have hclock : (s.updateTrusted env t t order).publisherLists =
      (order.foldl (fun s Q => (s.rotate env t Q).expire t Q) s).publisherLists := by
    unfold updateTrusted updateLists
    rw [if_neg (by omega)]
    rfl
  rw [hclock, lookup_walkAll (horder.nodup_iff.2 s.publisherLists.keys_nodup)]
  split
  · rfl
  · rename_i hP
    have hnone : s.publisherLists.lookup P = none :=
      AList.lookup_eq_none.2 fun hmem => hP (horder.mem_iff.2 hmem)
    rw [hnone]
    rfl

/-! ## Whole runs -/

/-- What can happen to the lists of one publisher: the clock `t` does not go back, `seen` are the lists presented up
to now. Each call of `applyLists` brings correctly signed lists, and what is pending before its clean-up pass is
straight. -/
inductive ListRun (env : Env Key) (P : Key) : Nat → List (ParsedList Key) → ValidatorList Key → Prop where
  | start {s : ValidatorList Key} (hs : s.publisherLists.lookup P = some {}) (t : Nat) : ListRun env P t [] s
  | applyLists {t : Nat} {seen : List (ParsedList Key)} {s : ValidatorList Key} (h : ListRun env P t seen s) {now : Nat}
      (ht : t ≤ now) (manifest : String) {version : Nat} (hv : version = 1 ∨ version = 2)
      {blobs : List ValidatorBlobInfo}
      {ls : List (ParsedList Key)} (hp : PresentedAll env now manifest P s blobs ls)
      (hproper : Proper (ls.reverse ++ seen))
      (hstraight : StraightBefore env now manifest P s blobs) :
      ListRun env P now (ls.reverse ++ seen) (s.applyLists env now manifest version blobs).1
  | updateTrusted {t : Nat} {seen : List (ParsedList Key)} {s : ValidatorList Key}
      (h : ListRun env P t seen s) {now : Nat}
      (ht : t ≤ now) (order : List Key) (horder : order.Perm s.publisherLists.keys) :
      ListRun env P now seen (s.updateTrusted env now now order)
  /-- Anything that does not concern the publisher. -/
  | elsewhere {t : Nat} {seen : List (ParsedList Key)} {s s' : ValidatorList Key} (h : ListRun env P t seen s)
      (hsame : s'.publisherLists.lookup P = s.publisherLists.lookup P) : ListRun env P t seen s'

theorem Settled.later (h : Settled P seen t s c) (ht : t ≤ now) : Settled P seen now s c where
  __ := h
  tracks := h.tracks.later ht
  ordered := h.ordered.imp fun hlt hnow => hlt (ht.trans_lt hnow)

theorem Settled.lookup_updateTrusted (h : Settled P seen now s c) (horder : order.Perm s.publisherLists.keys) :
    (s.updateTrusted env now now order).publisherLists.lookup P = some (c.refreshed now) := by
  rw [ValidatorList.lookup_updateTrusted horder, h.lookup, Option.map_some]

/-- After every run the collection accounts for what was presented. -/
theorem ListRun.settled (h : ListRun env P t seen s) : ∃ c, Settled P seen t s c := by
  induction h with
  | start hs t =>
    refine ⟨_, hs, ⟨.inl rfl, ?_, ?_, fun _ => ⟨rfl, rfl⟩, ?_, ?_, ?_⟩, ?_, Pairwise.nil⟩ <;> intro _ hx <;> cases hx
  | applyLists _ ht manifest hv hp hproper hstraight ih =>
    obtain ⟨c, hc⟩ := ih
    obtain ⟨c', hc', htracks, habove, hordered⟩ := applyLists_presented (hc.later ht) hv hp hproper
    exact ⟨c', hc', htracks, habove, hordered.2 hstraight⟩
  | @updateTrusted _ _ _ _ now ht order horder ih =>
    obtain ⟨c, hc⟩ := ih
    have hc := hc.later ht
    have hon := hc.tracks.onTime hc.above hc.ordered
    exact ⟨c.refreshed now, hc.lookup_updateTrusted horder, (hc.tracks.rotated hc.above).afterExpiry,
      hon.above, .of_increasing now hon.increasing⟩
  | elsewhere _ hsame ih =>
    obtain ⟨c, hc⟩ := ih
    exact ⟨c, { hc with lookup := hsame.trans hc.lookup }⟩

/-- After `updateTrusted` at any time `t`, the lists of the publisher are on time. -/
theorem ListRun.onTime (h : ListRun env P t seen s) (ht : t ≤ now) {order : List Key}
    (horder : order.Perm s.publisherLists.keys) :
    ∃ c, (s.updateTrusted env now now order).publisherLists.lookup P = some c ∧ OnTime c seen now := by
  obtain ⟨c, hc⟩ := h.settled
  have hc := hc.later ht
  exact ⟨_, hc.lookup_updateTrusted horder, hc.tracks.onTime hc.above hc.ordered⟩

/-- In a run, the lists of the publisher are on time after every `updateTrusted`. And the condition on the calls is
needed: after a call that does not meet it they are not, already at the next `updateTrusted`. -/
theorem pending_lists_go_live :
    (∀ (env : Env Key) (P : Key) (t now : Nat) (seen : List (ParsedList Key))
    (s : ValidatorList Key) (order : List Key),
      ListRun env P t seen s → t ≤ now → order.Perm s.publisherLists.keys →
        ∃ c, (s.updateTrusted env now now order).publisherLists.lookup P = some c ∧ OnTime c seen now) ∧
    (∀ (env : Env Key) (P : Key) (t now : Nat) (seen ls : List (ParsedList Key)) (s s' : ValidatorList Key)
      (manifest : String) (version : Nat) (blobs : List ValidatorBlobInfo) (order : List Key),
      ListRun env P t seen s → t ≤ now → (version = 1 ∨ version = 2) → PresentedAll env now manifest P s blobs ls →
      Proper (ls.reverse ++ seen) → (s.applyLists env now manifest version blobs).1 = s' →
      order.Perm s'.publisherLists.keys → ¬ StraightBefore env now manifest P s blobs →
        ∀ c, (s'.updateTrusted env now now order).publisherLists.lookup P = some c →
          ¬ OnTime c (ls.reverse ++ seen) now) := by
  refine ⟨fun env P t now seen s order h ht horder => h.onTime ht horder, ?_⟩
  rintro env P t now seen ls s _ manifest version blobs order h ht hv hp hproper rfl horder hnot c hc hon
  obtain ⟨c₀, hc₀⟩ := h.settled
  obtain ⟨c', hc', -, -, hordered⟩ := applyLists_presented (hc₀.later ht) hv hp hproper
  rw [lookup_updateTrusted horder, hc', Option.map_some] at hc
  cases hc
  exact hnot (hordered.1 hon.ordered)

/-- Two servers to which a publisher's lists were presented, in any order and at any times, have the same current list
of it when they update at the same time. -/
theorem lists_converge {env' : Env Key} {s' : ValidatorList Key} {t' : Nat} {seen seen' : List (ParsedList Key)}
    (h : ListRun env P t seen s) (h' : ListRun env' P t' seen' s') (hsame : ∀ l, l ∈ seen ↔ l ∈ seen')
    (hproper : Proper seen) (ht : t ≤ now) (ht' : t' ≤ now) {order order' : List Key}
    (horder : order.Perm s.publisherLists.keys) (horder' : order'.Perm s'.publisherLists.keys) :
    ∃ c c', (s.updateTrusted env now now order).publisherLists.lookup P = some c ∧
      (s'.updateTrusted env' now now order').publisherLists.lookup P = some c' ∧
      c.current.sequence = c'.current.sequence ∧
      (c.current.sequence ≠ 0 → now < c.current.validUntil → c'.current.list = c.current.list) := by
  obtain ⟨c, hc, hon⟩ := h.onTime ht horder
  obtain ⟨c', hc', hon'⟩ := h'.onTime ht' horder'
  have heq := le_antisymm (hon.sequence_le hon' fun l => (hsame l).1) (hon'.sequence_le hon fun l => (hsame l).2)
  refine ⟨c, c', hc, hc', heq, fun hne hnow => ?_⟩
  obtain ⟨l, hl, hk, -, hlist⟩ := hon.current.resolve_left hne
  obtain ⟨l', hl', hk', -, hlist'⟩ := hon'.current.resolve_left (heq ▸ hne)
  obtain rfl := hproper.unique l hl l' ((hsame l').2 hl') (by rw [← hk.sequence, heq, hk'.sequence])
  rw [hk.validUntil] at hnow
  rw [hlist hnow, hlist' hnow]

/-- Lists 1, 2 and 3 of publisher 1, which start at 5, 7 and 4, and a list with sequence number 0. -/
def threeLists : Env Nat where
  signed _ _ _ := true
  deserializeManifest _ := some firstManifest
  verifyBlob _ _ _ := true
  parse blob := some
    (if blob = "1" then ⟨some 1, some 100, some (some 5), some []⟩
    else if blob = "2" then ⟨some 2, some 100, some (some 7), some []⟩
    else if blob = "3" then ⟨some 3, some 100, some (some 4), some []⟩
    else ⟨some 0, some 100, none, some []⟩)

/-- Lists 1 and 2 in one call, then list 3. -/
def afterTwoLists : ValidatorList Nat :=
    (twoPublishers.applyLists threeLists 0 "" 2 [⟨"1", "", none⟩, ⟨"2", "", none⟩]).1

def afterThreeLists : ValidatorList Nat := (afterTwoLists.applyLists threeLists 1 "" 2 [⟨"3", "", none⟩]).1

theorem presented_threeLists {s : ValidatorList Nat} {l : ParsedList Nat} (hman : info.manifest = none)
    (hkey : (s.verifyManifest threeLists firstManifest).2 = some 11)
    (hopen : openBlob threeLists 11 info = .ok (some l)) : Presented threeLists "" 1 s info l :=
  ⟨_, 11, ⟨by rw [hman]; decide, rfl, rfl⟩, hkey, hopen⟩

theorem presented_twoLists : PresentedAll threeLists 0 "" 1 twoPublishers [⟨"1", "", none⟩, ⟨"2", "", none⟩]
    [⟨1, 5, 100, []⟩, ⟨2, 7, 100, []⟩] :=
  ⟨presented_threeLists rfl (by decide +kernel) rfl, presented_threeLists rfl (by decide +kernel) rfl, rfl⟩

theorem proper_twoLists : Proper [(⟨2, 7, 100, []⟩ : ParsedList Nat), ⟨1, 5, 100, []⟩] := by
  refine ⟨?_, ?_, ?_⟩ <;> simp

theorem run_twoLists : ListRun threeLists 1 0 [⟨2, 7, 100, []⟩, ⟨1, 5, 100, []⟩] afterTwoLists :=
  .applyLists (.start rfl 0) le_rfl "" (.inr rfl) presented_twoLists proper_twoLists (by decide +kernel)

/-- Two pending lists, of which the second is current at time 7; with list 3 in addition, they are not straight. -/
theorem pending_lists_go_live_two :
    (∃ c, (afterTwoLists.updateTrusted threeLists 7 7 [1, 2]).publisherLists.lookup 1 = some c ∧
      OnTime c [⟨2, 7, 100, []⟩, ⟨1, 5, 100, []⟩] 7) ∧
    ∀ c, (afterThreeLists.updateTrusted threeLists 1 1 [1, 2]).publisherLists.lookup 1 = some c →
      ¬ OnTime c [⟨3, 4, 100, []⟩, ⟨2, 7, 100, []⟩, ⟨1, 5, 100, []⟩] 1 := by
  have hpresented : PresentedAll threeLists 1 "" 1 afterTwoLists [⟨"3", "", none⟩] [⟨3, 4, 100, []⟩] :=
    ⟨presented_threeLists rfl (by decide +kernel) rfl, rfl⟩
  have hproper : Proper [(⟨3, 4, 100, []⟩ : ParsedList Nat), ⟨2, 7, 100, []⟩, ⟨1, 5, 100, []⟩] := by
    refine ⟨?_, ?_, ?_⟩ <;> simp
  exact ⟨pending_lists_go_live.1 _ _ _ _ _ _ _ run_twoLists (by decide) (by decide +kernel),
    pending_lists_go_live.2 _ _ _ _ _ _ _ _ _ _ _ _ run_twoLists (by decide) (.inr rfl) hpresented hproper rfl
      (by decide +kernel) (by decide +kernel)⟩

/-- Lists 1 and 2 are presented to one server in one call, and to another in two, list 2 first, with an update in
between. -/
theorem lists_converge_late :
    ∃ s' c c', (afterTwoLists.updateTrusted threeLists 7 7 [1, 2]).publisherLists.lookup 1 = some c ∧
    (updateTrusted threeLists 7 7 [1, 2] s').publisherLists.lookup 1 = some c' ∧
      c.current.sequence = c'.current.sequence := by
  set s₁ := (twoPublishers.applyLists threeLists 0 "" 1 [⟨"2", "", none⟩]).1 with hs₁
  set s₂ := (s₁.applyLists threeLists 3 "" 1 [⟨"1", "", none⟩]).1 with hs₂
  have hp₁ : PresentedAll threeLists 0 "" 1 twoPublishers [⟨"2", "", none⟩] [⟨2, 7, 100, []⟩] :=
    ⟨presented_threeLists rfl (by decide +kernel) rfl, rfl⟩
  have hp₂ : PresentedAll threeLists 3 "" 1 s₁ [⟨"1", "", none⟩] [⟨1, 5, 100, []⟩] :=
    ⟨presented_threeLists rfl (by decide +kernel) rfl, rfl⟩
  have hrun₁ := ListRun.applyLists (.start rfl 0) le_rfl "" (.inl rfl) hp₁
      (proper_twoLists.mono (by simp)) (by decide +kernel)
  have hrun₂ := hrun₁.applyLists (by decide) "" (.inl rfl) hp₂ (proper_twoLists.mono (by simp)) (by decide +kernel)
  have hkeys : [1, 2].Perm s₂.publisherLists.keys := by decide +kernel
  obtain ⟨c, c', hc, hc', heq, -⟩ := lists_converge run_twoLists (hrun₂.updateTrusted (by decide : 3 ≤ 5) _ hkeys)
    (by simp [or_comm]) proper_twoLists (by decide : 0 ≤ 7) (by decide) (by decide +kernel : [1, 2].Perm _)
    (by decide +kernel : [1, 2].Perm _)
  exact ⟨_, c, c', hc, hc', heq⟩

/-- List 3 starts at time 4, but the pass of `applyLists` leaves list 1 before it, so that nothing is current at that
time. And a list with sequence number zero never becomes current. -/
theorem started_list_is_not_current :
    PresentedAll threeLists 0 "" 1 twoPublishers [⟨"1", "", none⟩, ⟨"2", "", none⟩] [⟨1, 5, 100, []⟩, ⟨2, 7, 100, []⟩] ∧
    PresentedAll threeLists 1 "" 1 afterTwoLists [⟨"3", "", none⟩] [⟨3, 4, 100, []⟩] ∧
    ((afterThreeLists.updateTrusted threeLists 4 4 [1, 2]).publisherLists.lookup 1).map
      (fun c => (c.current.sequence, c.remaining.toList.map fun p => (p.sequence, p.validFrom))) = some
        (0, [(1, 5), (3, 4)]) ∧
    PresentedAll threeLists 10 "" 1 twoPublishers [⟨"0", "", none⟩] [⟨0, 0, 100, []⟩] ∧
    (twoPublishers.applyLists threeLists 10 "" 2 [⟨"0", "", none⟩]).2.toOption.map
    (·.dispositions) = some [.sameSequence] := by
  refine ⟨presented_twoLists, ⟨?_, rfl⟩, by decide +kernel, ⟨?_, rfl⟩, by decide +kernel⟩ <;>
    exact presented_threeLists rfl (by decide +kernel) rfl

end ValidatorList

end Rippled.Validators
