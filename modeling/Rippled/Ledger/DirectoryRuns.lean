import Rippled.Ledger.DirectoryRemove

/-!
# What holds of a directory after any operations

`Runs` is every directory that the operations reach from no directory at all, with the page that was last returned for
each key. Keys are added that are not there; anything may be removed, from any page.
-/

namespace Rippled.Directory

open Lib Lib.OrderedRing View Function

variable {K : Type} [LinearOrder K] {directory : K} {loc : K → Option Nat} {dir : Dir K}

/-- The page of each key, after `dirAdd` answered for one. -/
def located (loc : K → Option Nat) (key : K) : Option Nat → K → Option Nat
  | none => loc
  | some page => Function.update loc key (some page)

inductive Runs (directory : K) : (K → Option Nat) → Dir K → Prop where
  | empty : Runs directory (fun _ => none) (fun _ => none)
  | add {loc : K → Option Nat} {dir dir' : Dir K} (fixDirectoryLimit preserveOrder : Bool)
      {key : K} {page : Option Nat} :
      Runs directory loc dir → loc key = none →
      dirAdd directory fixDirectoryLimit preserveOrder dir key = .ok (page, dir') →
      Runs directory (located loc key page) dir'
  | remove {loc : K → Option Nat} {dir dir' : Dir K} {page : Nat} {key : K} {keepRoot found : Bool} :
      Runs directory loc dir → dirRemove dir page key keepRoot = .ok (found, dir') →
      Runs directory (if found then Function.update loc key none else loc) dir'
  | emptyDirDelete {loc : K → Option Nat} {dir dir' : Dir K} {deleted : Bool} :
      Runs directory loc dir → emptyDirDelete directory dir = .ok (deleted, dir') → Runs directory loc dir'

/-- Each key is in the page that was returned for it. -/
structure Located (directory : K) (loc : K → Option Nat) (dir : Dir K) : Prop where
  wellFormed : WellFormed directory dir
  mem_iff : ∀ key n, loc key = some n ↔ key ∈ content dir n

/-! ## One operation -/

variable {key : K}

omit [LinearOrder K] in
theorem Located.not_mem (h : Located directory loc dir) (hkey : loc key = none) (n : Nat) : key ∉ content dir n := by
  intro hmem
  rw [← h.mem_iff, hkey] at hmem
  cases hmem

variable {preserveOrder : Bool}

theorem mem_content_withKey {key' : K} {p n : Nat} {f : Nat → List K} :
    key' ∈ Function.update f p (withKey preserveOrder (f p) key) n ↔ key' ∈ f n ∨ (n = p ∧ key' = key) := by
  by_cases hn : n = p
  · subst hn
    rw [update_self, (withKey_perm preserveOrder _ key).mem_iff, List.mem_cons]
    tauto
  · rw [update_of_ne hn]
    tauto

variable {dir' : Dir K}

theorem Located.add (h : Located directory loc dir) {p : Nat} (hkey : loc key = none)
    (hadded : Added directory dir preserveOrder key p dir') : Located directory (located loc key (some p)) dir' := by
  obtain ⟨hwf, -, -, hcontent⟩ := hadded
  refine ⟨hwf, fun key' n => ?_⟩
  simp only [located]
  rw [hcontent, mem_content_withKey]
  by_cases hk : key' = key
  · subst hk
    rw [update_self, Option.some_inj, eq_comm]
    have := h.not_mem hkey n
    tauto
  · rw [update_of_ne hk, h.mem_iff]
    tauto

section
variable {keepRoot : Bool} {page : Nat} (h : Located directory loc dir) (hpage : loc key = some page)
  (hremoved : Removed directory dir page key keepRoot dir')
include h hpage hremoved

theorem Removed.mem_content {key' : K} {n : Nat} : key' ∈ content dir' n ↔ key' ∈ content dir n ∧ key' ≠ key := by
  rw [hremoved.keys]
  by_cases hn : n = page
  · subst hn
    have hnodup : (content dir n).Nodup := by
      obtain ⟨node, hnode⟩ := (page_of_mem_content ((h.mem_iff key n).1 hpage)).exists
      rw [content_eq hnode]
      exact h.wellFormed.nodup n node hnode
    rw [update_self, hnodup.mem_erase_iff, and_comm]
  · rw [update_of_ne hn]
    -- the key is in no other page
    refine ⟨fun hmem => ⟨hmem, ?_⟩, And.left⟩
    rintro rfl
    rw [← h.mem_iff, hpage] at hmem
    exact hn (Option.some.inj hmem).symm

theorem Located.remove : Located directory (Function.update loc key none) dir' := by
  refine ⟨hremoved.wellFormed, fun key' n => ?_⟩
  rw [hremoved.mem_content h hpage]
  by_cases hk : key' = key
  · subst hk
    simp
  · rw [update_of_ne hk, h.mem_iff]
    tauto

end

theorem Runs.located (h : Runs directory loc dir) : Located directory loc dir := by
  induction h with
  | empty => exact ⟨wellFormed_none fun _ => rfl, fun key n => by simp [content]⟩
  | @add loc dir dir' fixDirectoryLimit preserveOrder key page _ hkey hrun ih =>
    rcases dirAdd_cases ih.wellFormed preserveOrder fixDirectoryLimit key with
      ⟨⟨n, hmem⟩, -⟩ | hnone | ⟨p, dir'', hrun', hadded⟩
    · exact absurd hmem (ih.not_mem hkey n)
    · rw [hnone] at hrun
      cases hrun
      exact ih
    · rw [hrun'] at hrun
      cases hrun
      exact ih.add hkey hadded
  | @remove loc dir dir' page key keepRoot found _ hrun ih =>
    rcases dirRemove_cases ih.wellFormed page key keepRoot with ⟨-, hfalse⟩ | ⟨hmem, dir'', htrue, hremoved⟩
    · rw [hfalse] at hrun
      cases hrun
      exact ih
    · rw [htrue] at hrun
      cases hrun
      exact ih.remove ((ih.mem_iff key page).2 hmem) hremoved
  | emptyDirDelete _ hrun ih =>
    obtain ⟨b, dir'', hrun', hclean⟩ := emptyDirDelete_ok ih.wellFormed
    rw [hrun'] at hrun
    cases hrun
    exact ⟨hclean.wellFormed, fun key n => by rw [hclean.keys]; exact ih.mem_iff key n⟩

/-! ## The chain as a list -/

/-- The pages `ps` are one circle through the root, in which the page numbers increase. -/
structure Circle (dir : Dir K) (ps : List Nat) : Prop where
  increasing : ps.Pairwise (· < ·)
  root : ps[0]? = some 0
  mem_iff : ∀ n, n ∈ ps ↔ Page dir n
  next : ∀ (i : Nat) (hi : i < ps.length) (node : DirNode K), dir ps[i] = some node →
    ps[(i + 1) % ps.length]? = some node.indexNext
  prev : ∀ (i : Nat) (hi : i < ps.length) (node : DirNode K), dir ps[i] = some node →
    ps[(i + ps.length - 1) % ps.length]? = some node.indexPrevious

omit [LinearOrder K] in
theorem Linked.circle (h : Linked directory dir) {root : DirNode K} (hroot : dir 0 = some root) :
    Circle dir ((List.range (root.indexPrevious + 1)).filter fun n => (dir n).isSome) := by
  have hincreasing := (List.pairwise_lt_range (n := root.indexPrevious + 1)).filter fun n => (dir n).isSome
  have hmem : ∀ n, n ∈ (List.range (root.indexPrevious + 1)).filter (fun n => (dir n).isSome) ↔ Page dir n := by
    intro n
    rw [List.mem_filter, List.mem_range, Nat.lt_succ_iff]
    exact ⟨And.right, fun hn => ⟨(h.isLast hroot).2 n hn, hn⟩⟩
  have h0 : ((List.range (root.indexPrevious + 1)).filter fun n => (dir n).isSome)[0]? = some 0 := by
    rw [List.range_succ_eq_map, List.filter_cons_of_pos (by simp [hroot])]
    rfl
  exact ⟨hincreasing, h0, hmem, fun i hi node hnode => (h.next _ node hnode).getElem? hincreasing hmem h0 hi,
    fun i hi node hnode => (h.prev _ node hnode).getElem? hincreasing hmem h0 hi⟩

/-- What is true of a directory in which the keys were put in the pages `loc`. -/
structure Intact (directory : K) (loc : K → Option Nat) (dir : Dir K) : Prop where
  /-- There is no page, or the pages are one circle. -/
  circle : (∀ n, dir n = none) ∨ ∃ ps, Circle dir ps
  size : ∀ n node, dir n = some node → node.indexes.length ≤ kDirNodeMaxEntries
  nonempty : ∀ n node, dir n = some node → n ≠ 0 → node.indexes ≠ []
  /-- A key is in the page that was returned for it, once, and in no other. -/
  count : ∀ key n node, dir n = some node → node.indexes.count key = if loc key = some n then 1 else 0
  stored : ∀ key n, loc key = some n → Page dir n
  /-- Whatever is added next, the only exception is the one for a key that is there. -/
  dirAdd : ∀ fixDirectoryLimit preserveOrder key,
    (loc key ≠ none ∧ Directory.dirAdd directory fixDirectoryLimit preserveOrder dir key =
      logicError "dirInsert: double insertion") ∨
    ∃ page dir', Directory.dirAdd directory fixDirectoryLimit preserveOrder dir key = .ok (page, dir')
  /-- A key that is there is removed, and no other; the directory is gone if there was no other, and it is not kept. -/
  dirRemove : ∀ key page keepRoot, loc key = some page →
    ∃ dir', Directory.dirRemove dir page key keepRoot = .ok (true, dir') ∧
      (∀ key' n, key' ∈ content dir' n ↔ key' ∈ content dir n ∧ key' ≠ key) ∧
      ((∀ n, dir' n = none) ↔ keepRoot = false ∧ ∀ key', key' ≠ key → loc key' = none)
  /-- What is not there is not removed. -/
  dirRemove_absent : ∀ key page keepRoot, loc key ≠ some page →
    Directory.dirRemove dir page key keepRoot = .ok (false, dir)
  emptyDirDelete : ∃ deleted dir', Directory.emptyDirDelete directory dir = .ok (deleted, dir') ∧
    content dir' = content dir

theorem Located.count (h : Located directory loc dir) (key : K) {n : Nat} {node : DirNode K}
    (hnode : dir n = some node) : node.indexes.count key = if loc key = some n then 1 else 0 := by
  have hmem := h.mem_iff key n
  rw [content_eq hnode] at hmem
  split_ifs with hloc
  · exact List.count_eq_one_of_mem (h.wellFormed.nodup n node hnode) (hmem.1 hloc)
  · exact List.count_eq_zero_of_not_mem fun hin => hloc (hmem.2 hin)

/-- After any operations the pages are one circle through the root, each key is where `dirAdd` put it, and the next
operation finds no broken link. -/
theorem Runs.intact (h : Runs directory loc dir) : Intact directory loc dir := by
  have hloc := h.located
  have hwf := hloc.wellFormed
  refine ⟨?_, hwf.size, hwf.nonempty, fun key n node hnode => hloc.count key hnode,
    fun key n hn => page_of_mem_content ((hloc.mem_iff key n).1 hn), fun fixDirectoryLimit preserveOrder key => ?_,
    fun key page keepRoot hpage => ?_, fun key page keepRoot hpage => ?_, ?_⟩
  · cases hroot : dir 0 with
    | none => exact .inl (hwf.eq_none hroot)
    | some root => exact .inr ⟨_, hwf.circle hroot⟩
  · rcases dirAdd_cases hwf preserveOrder fixDirectoryLimit key with ⟨⟨n, hmem⟩, hthrow⟩ | hnone | ⟨p, dir', hrun, -⟩
    · exact .inl ⟨fun hno => hloc.not_mem hno n hmem, hthrow⟩
    · exact .inr ⟨none, dir, hnone⟩
    · exact .inr ⟨some p, dir', hrun⟩
  · have hin := (hloc.mem_iff key page).1 hpage
    rcases dirRemove_cases hwf page key keepRoot with ⟨hno, -⟩ | ⟨-, dir', hrun, hremoved⟩
    · exact absurd hin hno
    · have hkeys : ∀ key' n, key' ∈ content dir' n ↔ key' ∈ content dir n ∧ key' ≠ key :=
        fun key' n => hremoved.mem_content hloc hpage
      refine ⟨dir', hrun, hkeys, fun hno => ?_, fun ⟨hkeep, hother⟩ => ?_⟩
      · obtain ⟨hkeep, hnil⟩ := hremoved.gone.1 (hno 0)
        refine ⟨hkeep, fun key' hne => Option.eq_none_iff_forall_ne_some.2 fun n hn => ?_⟩
        have hmem := (hkeys key' n).2 ⟨(hloc.mem_iff key' n).1 hn, hne⟩
        rw [hnil n] at hmem
        cases hmem
      · refine hremoved.wellFormed.eq_none (hremoved.gone.2 ⟨hkeep, fun n => ?_⟩)
        refine List.eq_nil_iff_forall_not_mem.2 fun key' hmem => ?_
        obtain ⟨hmem, hne⟩ := (hkeys key' n).1 hmem
        exact hloc.not_mem (hother key' hne) n hmem
  · rcases dirRemove_cases hwf page key keepRoot with ⟨-, hrun⟩ | ⟨hmem, -⟩
    · exact hrun
    · exact absurd ((hloc.mem_iff key page).2 hmem) hpage
  · obtain ⟨deleted, dir', hrun, hclean⟩ := emptyDirDelete_ok hwf
    exact ⟨deleted, dir', hrun, hclean.keys⟩

/-- A key that is not there is added. -/
def addKey (directory : K) (s : (K → Option Nat) × Dir K) (key : K) : Run Exception ((K → Option Nat) × Dir K) :=
  if s.1 key = none then do
    let (page, dir) ← dirAdd directory true false s.2 key
    return (located s.1 key page, dir)
  else logicError "dirInsert: double insertion"

theorem Runs.addKeys {keys : List K} {s : (K → Option Nat) × Dir K} (h : Runs directory loc dir)
    (hkeys : keys.foldlM (addKey directory) (loc, dir) = .ok s) : Runs directory s.1 s.2 := by
  induction keys generalizing loc dir with
  | nil =>
    cases hkeys
    exact h
  | cons key keys ih =>
    rw [List.foldlM_cons, Run.bind_eq_ok] at hkeys
    obtain ⟨s₁, hkey, hkeys⟩ := hkeys
    rw [addKey] at hkey
    split_ifs at hkey with hnone
    · obtain ⟨⟨page, dir₁⟩, hadd, hs₁⟩ := Run.bind_eq_ok.1 hkey
      cases hs₁
      exact ih (.add true false h hnone hadd) hkeys
    · cases hkey

/-- Forty keys are added, which takes two pages, and one is removed from the second page. -/
theorem intact_two_pages : ∃ s dir', (List.range 40).foldlM (addKey 99) (fun _ => none, fun _ => none) = .ok s ∧
    s.1 5 = some 0 ∧ s.1 35 = some 1 ∧ dirRemove s.2 1 35 true = .ok (true, dir') ∧
    Intact 99 (Function.update s.1 35 none) dir' := by
  obtain ⟨s, hadd, hpages⟩ := Except.exists_ok_of_any
    (x := (List.range 40).foldlM (addKey 99) (fun _ => none, fun _ => none))
    (p := fun s => decide (s.1 5 = some 0 ∧ s.1 35 = some 1)) (by decide +kernel)
  obtain ⟨hfirst, hsecond⟩ := of_decide_eq_true hpages
  have hrun : Runs 99 s.1 s.2 := Runs.empty.addKeys hadd
  obtain ⟨dir', hremove, -⟩ := (Runs.intact hrun).dirRemove 35 1 true hsecond
  exact ⟨s, dir', hadd, hfirst, hsecond, hremove, Runs.intact (.remove hrun hremove)⟩

end Rippled.Directory
