import Rippled.Ledger.Directory
import Rippled.Lib.OrderedRing

/-!
# The pages of a directory

The pages that the operations leave are one circle by increasing page number (`Linked`), and all but the root hold keys
(`WellFormed`). Each function has one lemma: it throws nothing on such a directory, leaves one, and changes the keys of
one page.
-/

namespace Rippled.Directory

open Lib Lib.OrderedRing View Function

variable {K : Type} {directory : K} {dir : Dir K}

def Page (dir : Dir K) (n : Nat) : Prop := (dir n).isSome

def content (dir : Dir K) (n : Nat) : List K :=
  match dir n with
  | none => []
  | some node => node.indexes

variable {node : DirNode K} {n : Nat}

theorem content_eq (h : dir n = some node) : content dir n = node.indexes := by
  unfold content
  rw [h]

theorem page_of_eq (h : dir n = some node) : Page dir n :=
  Option.isSome_iff_exists.2 ⟨node, h⟩

theorem Page.exists (h : Page dir n) : ∃ node, dir n = some node := Option.isSome_iff_exists.1 h

theorem not_page_iff : ¬ Page dir n ↔ dir n = none := by
  unfold Page
  simp

/-- The pages are in a circle by increasing number. -/
structure Linked (directory : K) (dir : Dir K) : Prop where
  root : ∀ n, Page dir n → Page dir 0
  next : ∀ n node, dir n = some node → IsNext (Page dir) n node.indexNext
  prev : ∀ n node, dir n = some node → IsPrev (Page dir) n node.indexPrevious
  bound : ∀ n, Page dir n → n < 2 ^ 64
  rootIndex : ∀ n node, dir n = some node → node.rootIndex = directory

/-- No page has too many keys, and only the root may have none. -/
structure Filled (dir : Dir K) : Prop where
  size : ∀ n node, dir n = some node → node.indexes.length ≤ kDirNodeMaxEntries
  nonempty : ∀ n node, dir n = some node → n ≠ 0 → node.indexes ≠ []
  nodup : ∀ n node, dir n = some node → node.indexes.Nodup

structure WellFormed (directory : K) (dir : Dir K) : Prop extends Linked directory dir, Filled dir

/-- No directory at all is well formed. -/
theorem wellFormed_none (h : ∀ n, dir n = none) : WellFormed directory dir := by
  have hno : ∀ n node, dir n ≠ some node := fun n node hn => by rw [h n] at hn; cases hn
  refine ⟨⟨fun n hn => ?_, fun n node hn => absurd hn (hno n node),
    fun n node hn => absurd hn (hno n node), fun n hn => ?_,
    fun n node hn => absurd hn (hno n node)⟩, fun n node hn => absurd hn (hno n node),
    fun n node hn => absurd hn (hno n node), fun n node hn => absurd hn (hno n node)⟩
  · obtain ⟨node, hn⟩ := hn.exists
    exact absurd hn (hno n node)
  · obtain ⟨node, hn⟩ := hn.exists
    exact absurd hn (hno n node)

/-! ## The keys of a page -/

/-- A page that is overwritten stays a page. -/
theorem page_update_some {node' : DirNode K} (h : dir n = some node) (q : Nat) :
    Page (Function.update dir n (some node')) q ↔ Page dir q := by
  unfold Page
  by_cases hq : q = n
  · subst hq
    simp [h]
  · rw [update_of_ne hq]

theorem content_update_some (n : Nat) (node : DirNode K) :
    content (Function.update dir n (some node)) = Function.update (content dir) n node.indexes := by
  funext q
  unfold content
  by_cases hq : q = n
  · subst hq
    simp
  · rw [update_of_ne hq, update_of_ne hq]

/-- New keys in a page leave the links alone. -/
theorem Linked.setIndexes (h : Linked directory dir) (hn : dir n = some node) (indexes : List K) :
    Linked directory (Function.update dir n (some { node with indexes := indexes })) := by
  have hPage : Page (update dir n (some { node with indexes := indexes })) = Page dir :=
    funext fun q => propext (page_update_some hn q)
  -- every page has the links of a page that was there
  have hold : ∀ q node', update dir n (some { node with indexes := indexes }) q = some node' →
      ∃ node'', dir q = some node'' ∧ node' = { node'' with indexes := node'.indexes } := by
    intro q node' hq
    by_cases hqn : q = n
    · subst hqn
      rw [update_self] at hq
      cases hq
      exact ⟨node, hn, rfl⟩
    · rw [update_of_ne hqn] at hq
      exact ⟨node', hq, rfl⟩
  refine ⟨hPage ▸ h.root, fun q node' hq => ?_, fun q node' hq => ?_, hPage ▸ h.bound, fun q node' hq => ?_⟩
  all_goals obtain ⟨node'', hq', heq⟩ := hold q node' hq
  · rw [hPage, heq]
    exact h.next q node'' hq'
  · rw [hPage, heq]
    exact h.prev q node'' hq'
  · rw [heq]
    exact h.rootIndex q node'' hq'

theorem Filled.setIndexes (h : Filled dir) {indexes : List K} (hsize : indexes.length ≤ kDirNodeMaxEntries)
    (hne : n ≠ 0 → indexes ≠ []) (hnodup : indexes.Nodup) :
    Filled (Function.update dir n (some { node with indexes := indexes })) := by
  have hcases : ∀ q node', update dir n (some { node with indexes := indexes }) q = some node' →
      (q = n ∧ node'.indexes = indexes) ∨ dir q = some node' := by
    intro q node' hq
    by_cases hqn : q = n
    · subst hqn
      rw [update_self] at hq
      cases hq
      exact .inl ⟨rfl, rfl⟩
    · rw [update_of_ne hqn] at hq
      exact .inr hq
  refine ⟨fun q node' hq => ?_, fun q node' hq hq0 => ?_, fun q node' hq => ?_⟩
  all_goals rcases hcases q node' hq with ⟨rfl, hi⟩ | hq'
  · rw [hi]; exact hsize
  · exact h.size q node' hq'
  · rw [hi]; exact hne hq0
  · exact h.nonempty q node' hq' hq0
  · rw [hi]; exact hnodup
  · exact h.nodup q node' hq'

/-- The key is added, and no other changes. -/
theorem withKey_perm [LinearOrder K] (preserveOrder : Bool) (indexes : List K) (key : K) :
    (withKey preserveOrder indexes key).Perm (key :: indexes) := by
  unfold withKey
  cases preserveOrder with
  | true => exact List.perm_append_singleton key indexes
  | false => exact (List.perm_orderedInsert _ _ _).trans ((List.perm_insertionSort _ _).cons key)

/-! ## A new page -/

/-- The directory with a page after the last one. -/
def linkPage (directory : K) (dir : Dir K) (last : Nat) (key : K) : Dir K := fun n =>
  if n = last + 1 then some { rootIndex := directory, indexes := [key], indexPrevious := last }
  else (dir n).map fun node =>
    { node with
      indexNext := if n = last then last + 1 else node.indexNext
      indexPrevious := if n = 0 then last + 1 else node.indexPrevious }

section LinkPage
variable {last : Nat} {key : K}

/-- The new page, the page before it, the root, or a page that did not change. -/
theorem linkPage_cases (h : linkPage directory dir last key n = some node) :
    (n = last + 1 ∧ node = { rootIndex := directory, indexes := [key], indexPrevious := last }) ∨
      (n ≠ last + 1 ∧ ∃ node', dir n = some node' ∧ node =
        { node' with
          indexNext := if n = last then last + 1 else node'.indexNext
          indexPrevious := if n = 0 then last + 1 else node'.indexPrevious }) := by
  unfold linkPage at h
  by_cases hn : n = last + 1
  · rw [if_pos hn] at h
    cases h
    exact .inl ⟨hn, rfl⟩
  · rw [if_neg hn] at h
    obtain ⟨node', hnode', rfl⟩ := Option.map_eq_some_iff.1 h
    exact .inr ⟨hn, node', hnode', rfl⟩

theorem page_linkPage (directory : K) (dir : Dir K) (last : Nat) (key : K) (n : Nat) :
    Page (linkPage directory dir last key) n ↔ Page dir n ∨ n = last + 1 := by
  unfold Page linkPage
  by_cases hn : n = last + 1 <;> simp [hn]

/-- A page behind the last one keeps the links. -/
theorem linked_linkPage (h : Linked directory dir) (hl : IsLast (Page dir) last) (hb : last + 1 < 2 ^ 64) :
    Linked directory (linkPage directory dir last key) := by
  have hP := page_linkPage directory dir last key
  have hlt := Nat.lt_succ_self last
  refine ⟨fun n _ => (hP 0).2 (.inl (h.root last hl.1)), fun n node hn => ?_, fun n node hn => ?_, fun n hn => ?_,
    fun n node hn => ?_⟩
  · rcases linkPage_cases hn with ⟨rfl, rfl⟩ | ⟨-, node', hn', rfl⟩
    · exact isNext_add_new hl hlt hP
    · dsimp only
      split_ifs with hnl
      · rw [hnl]
        exact isNext_add_last hl hlt hP
      · exact (h.next n node' hn').add hl hlt hP (page_of_eq hn') hnl
  · rcases linkPage_cases hn with ⟨rfl, rfl⟩ | ⟨-, node', hn', rfl⟩
    · exact isPrev_add_new hl hlt hP
    · dsimp only
      split_ifs with hn0
      · exact .inl ⟨hn0, isLast_add hl hlt hP⟩
      · exact (h.prev n node' hn').add hl hlt hP (page_of_eq hn') hn0
  · rcases (hP n).1 hn with hn | rfl
    · exact h.bound n hn
    · exact hb
  · rcases linkPage_cases hn with ⟨rfl, rfl⟩ | ⟨-, node', hn', rfl⟩
    · rfl
    · exact h.rootIndex n node' hn'

theorem filled_linkPage (h : Filled dir) : Filled (linkPage directory dir last key) := by
  refine ⟨fun n node hn => ?_, fun n node hn hn0 => ?_, fun n node hn => ?_⟩
  all_goals rcases linkPage_cases hn with ⟨rfl, rfl⟩ | ⟨-, node', hn', rfl⟩
  · simp [kDirNodeMaxEntries]
  · exact h.size n node' hn'
  · simp
  · exact h.nonempty n node' hn' hn0
  · simp
  · exact h.nodup n node' hn'

/-- The new page has the key. -/
theorem content_linkPage : content (linkPage directory dir last key) = Function.update
    (content dir) (last + 1) [key] := by
  funext n
  unfold content linkPage
  by_cases hn : n = last + 1
  · subst hn
    simp
  · rw [if_neg hn, update_of_ne hn]
    cases dir n <;> rfl

end LinkPage

/-! ## A page taken away -/

/-- The directory without a page, whose neighbours are `prevPage` and `nextPage`. -/
def unlinkPage (dir : Dir K) (page prevPage nextPage : Nat) : Dir K := fun n =>
  if n = page then none
  else (dir n).map fun node =>
    { node with
      indexNext := if n = prevPage then nextPage else node.indexNext
      indexPrevious := if n = nextPage then prevPage else node.indexPrevious }

section UnlinkPage
variable {page : Nat} {node : DirNode K}

/-- What is left of a page when another is taken out of the chain. -/
theorem unlinkPage_eq {prevPage nextPage : Nat} (h : unlinkPage dir page prevPage nextPage n = some node) :
    ∃ node', dir n = some node' ∧ node =
      { node' with
        indexNext := if n = prevPage then nextPage else node'.indexNext
        indexPrevious := if n = nextPage then prevPage else node'.indexPrevious } := by
  unfold unlinkPage at h
  by_cases hn : n = page
  · rw [if_pos hn] at h
    cases h
  · rw [if_neg hn] at h
    obtain ⟨node', hnode', rfl⟩ := Option.map_eq_some_iff.1 h
    exact ⟨node', hnode', rfl⟩

theorem page_unlinkPage (dir : Dir K) (page prevPage nextPage n : Nat) :
    Page (unlinkPage dir page prevPage nextPage) n ↔ Page dir n ∧ n ≠ page := by
  unfold Page unlinkPage
  by_cases hn : n = page <;> simp [hn]

/-- A page other than the root is taken out, and the links are kept. -/
theorem linked_unlinkPage (h : Linked directory dir) (hpage : dir page = some node) (h0 : page ≠ 0) :
    Linked directory (unlinkPage dir page node.indexPrevious node.indexNext) := by
  have hP := page_unlinkPage dir page node.indexPrevious node.indexNext
  have hprev := h.prev page node hpage
  have hnext := h.next page node hpage
  refine ⟨fun n hn => (hP 0).2 ⟨h.root n ((hP n).1 hn).1, Ne.symm h0⟩, fun n node' hn => ?_, fun n node' hn => ?_,
    fun n hn => h.bound n ((hP n).1 hn).1, fun n node' hn => ?_⟩
  all_goals obtain ⟨node'', hn', rfl⟩ := unlinkPage_eq hn
  · dsimp only
    split_ifs with hnp
    · rw [hnp]
      exact isNext_remove_prev h0 hP hprev hnext
    · exact (h.next n node'' hn').remove h0 hP (page_of_eq hn') hprev hnp
  · dsimp only
    split_ifs with hnn
    · rw [hnn]
      exact isPrev_remove_next h0 hP hprev hnext
    · exact (h.prev n node'' hn').remove hP (page_of_eq hn') hnext hnn
  · exact h.rootIndex n node'' hn'

/-- Only the keys of the page go. -/
theorem content_unlinkPage (prevPage nextPage : Nat) :
    content (unlinkPage dir page prevPage nextPage) = Function.update (content dir) page [] := by
  funext n
  unfold content unlinkPage
  by_cases hn : n = page
  · subst hn
    simp
  · rw [if_neg hn, update_of_ne hn]
    cases dir n <;> rfl

theorem filled_unlinkPage (h : Filled dir) (prevPage nextPage : Nat) :
    Filled (unlinkPage dir page prevPage nextPage) := by
  refine ⟨fun n node hn => ?_, fun n node hn hn0 => ?_, fun n node hn => ?_⟩
  all_goals obtain ⟨node', hn', rfl⟩ := unlinkPage_eq hn
  · exact h.size n node' hn'
  · exact h.nonempty n node' hn' hn0
  · exact h.nodup n node' hn'

theorem unlinkPage_update (node : Option (DirNode K)) (prevPage nextPage : Nat) :
    unlinkPage (Function.update dir page node) page prevPage nextPage = unlinkPage dir page prevPage nextPage := by
  funext n
  unfold unlinkPage
  by_cases hn : n = page
  · rw [if_pos hn, if_pos hn]
  · rw [if_neg hn, if_neg hn, update_of_ne hn]

end UnlinkPage

/-! ## What the functions do -/

/-- The root points back to the last page. -/
theorem Linked.isLast (h : Linked directory dir) {root : DirNode K} (hroot : dir 0 = some root) :
    IsLast (Page dir) root.indexPrevious := by
  rcases h.prev 0 root hroot with ⟨-, hl⟩ | ⟨-, hlt, -⟩
  · exact hl
  · omega

/-- Without a root there is no page. -/
theorem Linked.eq_none (h : Linked directory dir) (h0 : dir 0 = none) (n : Nat) : dir n = none := by
  rw [← not_page_iff]
  intro hn
  exact not_page_iff.2 h0 (h.root n hn)

theorem content_of_not_page (h : ¬ Page dir n) : content dir n = [] := by
  rw [not_page_iff] at h
  unfold content
  rw [h]

theorem page_of_mem_content {key : K} (h : key ∈ content dir n) : Page dir n := by
  by_contra hno
  rw [content_of_not_page hno] at h
  cases h

variable {p : Nat}

theorem content_of_last_lt (hp : IsLast (Page dir) p) (hn : p < n) : content dir n = [] :=
  content_of_not_page fun hpage => absurd (hp.2 n hpage) (Nat.not_le.2 hn)

theorem Dir.update_ok (h : dir n = some node) (set : DirNode K → DirNode K) :
    dir.update n set = .ok (Function.update dir n (some (set node))) := by
  unfold Dir.update
  rw [h]

theorem Dir.insert_ok (h : dir n = none) (node : DirNode K) :
    dir.insert n node = .ok (Function.update dir n (some node)) := by
  unfold Dir.insert
  rw [h]
  rfl

theorem Dir.erase_ok (h : dir n = some node) : dir.erase n = .ok (Function.update dir n none) := by
  unfold Dir.erase
  rw [h]
  rfl

/-- A root that is the only page. -/
theorem wellFormed_root {indexes : List K} (hdir : ∀ n, n ≠ 0 → dir n = none)
    (h0 : dir 0 = some { rootIndex := directory, indexes := indexes }) (hsize : indexes.length ≤ kDirNodeMaxEntries)
    (hnodup : indexes.Nodup) : WellFormed directory dir := by
  have hsome : ∀ n node, dir n = some node → n = 0 ∧ node = { rootIndex := directory, indexes := indexes } := by
    intro n node hn
    by_cases hn0 : n = 0
    · subst hn0
      rw [h0] at hn
      exact ⟨rfl, (Option.some.inj hn).symm⟩
    · rw [hdir n hn0] at hn
      cases hn
  have hpage : ∀ n, Page dir n → n = 0 := fun n hn => by
    obtain ⟨node, hnode⟩ := hn.exists
    exact (hsome n node hnode).1
  have hlast : IsLast (Page dir) 0 := ⟨page_of_eq h0, fun n hn => (hpage n hn).le⟩
  refine ⟨⟨fun n hn => hlast.1, fun n node hn => ?_, fun n node hn => ?_, fun n hn => ?_, fun n node hn => ?_⟩,
    fun n node hn => ?_, fun n node hn hn0 => absurd (hsome n node hn).1 hn0, fun n node hn => ?_⟩
  · obtain ⟨rfl, rfl⟩ := hsome n node hn
    exact .inl ⟨rfl, hlast.2⟩
  · obtain ⟨rfl, rfl⟩ := hsome n node hn
    exact .inl ⟨rfl, hlast⟩
  · rw [hpage n hn]
    omega
  · rw [(hsome n node hn).2]
  · rw [(hsome n node hn).2]
    exact hsize
  · rw [(hsome n node hn).2]
    exact hnodup

/-- The last page is found. -/
theorem findPreviousPage_ok (h : Linked directory dir) {root : DirNode K} (hroot : dir 0 = some root) :
    ∃ node, findPreviousPage dir root = .ok (root.indexPrevious, node) ∧ dir root.indexPrevious = some node := by
  unfold findPreviousPage
  by_cases h0 : root.indexPrevious = 0
  · exact ⟨root, if_neg (not_not.2 h0), h0.symm ▸ hroot⟩
  · obtain ⟨node, hnode⟩ := (h.isLast hroot).1.exists
    refine ⟨node, ?_, hnode⟩
    dsimp only
    rw [if_pos h0, hnode]

/-- The steps of `attachPage` link the page. -/
theorem attachPage_ok (h : Linked directory dir) (hp : IsLast (Page dir) p) (key : K) :
    attachPage directory dir p (p + 1) key = .ok (linkPage directory dir p key) := by
  obtain ⟨node, hnode⟩ := hp.1.exists
  obtain ⟨root, hroot⟩ := (h.root p hp.1).exists
  have hnew : dir (p + 1) = none := by
    rw [← not_page_iff]
    intro hpage
    have := hp.2 (p + 1) hpage
    omega
  have hprev : (if p + 1 ≠ 1 then p + 1 - 1 else 0) = p := by split_ifs <;> omega
  -- the root, as it is after the change of the last page, which may be the root
  have hroot' : update dir p (some { node with indexNext := p + 1 }) 0 =
      some { root with indexNext := if 0 = p then p + 1 else root.indexNext } := by
    by_cases hp0 : 0 = p
    · subst hp0
      rw [hroot] at hnode
      cases hnode
      simp
    · rw [update_of_ne hp0, hroot, if_neg hp0]
  have hnew' : update (update dir p (some { node with indexNext := p + 1 })) 0
      (some { root with indexNext := if 0 = p then p + 1 else root.indexNext, indexPrevious := p + 1 })
        (p + 1) = none := by
    rw [update_of_ne (by omega), update_of_ne (by omega), hnew]
  unfold attachPage
  rw [Dir.update_ok hnode, Run.ok_bind, Dir.update_ok hroot', Run.ok_bind, Dir.insert_ok hnew', hprev]
  refine congrArg Except.ok (funext fun n => ?_)
  unfold linkPage
  by_cases hn : n = p + 1
  · subst hn
    simp
  · rw [update_of_ne hn, if_neg hn]
    by_cases hn0 : n = 0
    · subst hn0
      simp [hroot]
    · rw [update_of_ne hn0]
      by_cases hnp : n = p
      · subst hnp
        simp [hnode, hn0]
      · rw [update_of_ne hnp]
        cases dir n <;> simp [hnp, hn0]

section Functions
variable [LinearOrder K]

def Added (directory : K) (dir : Dir K) (preserveOrder : Bool) (key : K) (p : Nat) (dir' : Dir K) : Prop :=
  WellFormed directory dir' ∧ key ∉ content dir p ∧ (∀ n, p < n → content dir n = []) ∧
    content dir' = Function.update (content dir) p (withKey preserveOrder (content dir p) key)

/-- A first key makes a root. -/
theorem createRoot_ok (directory : K) (h : ∀ n, dir n = none) (key : K) (preserveOrder : Bool) :
    ∃ dir', createRoot directory dir key = .ok (0, dir') ∧ Added directory dir preserveOrder key 0 dir' := by
  have hcontent : ∀ n, content dir n = [] := fun n => by unfold content; rw [h n]
  refine ⟨_, by unfold createRoot; rw [Dir.insert_ok (h 0)]; rfl, ?_, ?_, fun n _ => hcontent n, ?_⟩
  · exact wellFormed_root (fun n hn => by rw [update_of_ne hn, h n]) (update_self ..)
      (by simp [kDirNodeMaxEntries]) (List.nodup_singleton key)
  · rw [hcontent 0]
    exact List.not_mem_nil
  · rw [content_update_some, hcontent 0]
    cases preserveOrder <;> rfl

section
variable (h : WellFormed directory dir) (preserveOrder : Bool)
include h

/-- A page with room takes the key. -/
theorem insertKey_ok (hp : IsLast (Page dir) p) (hnode : dir p = some node)
    (hlen : node.indexes.length < kDirNodeMaxEntries) {key : K} (hkey : key ∉ node.indexes) :
    ∃ dir', insertKey dir node p preserveOrder key = .ok (p, dir') ∧ Added directory dir preserveOrder key p dir' := by
  have hcontent := content_eq hnode
  have hperm := withKey_perm preserveOrder node.indexes key
  refine ⟨_, by unfold insertKey; rw [if_neg hkey, Dir.update_ok hnode]; rfl,
    ⟨h.toLinked.setIndexes hnode _, ?_⟩, ?_, ?_, ?_⟩
  · refine h.toFilled.setIndexes ?_ (fun _ hnil => ?_)
      (hperm.nodup_iff.2 (List.nodup_cons.2 ⟨hkey, h.nodup p node hnode⟩))
    · rw [hperm.length_eq, List.length_cons]
      omega
    · rw [hnil] at hperm
      cases hperm.length_eq
  · rw [hcontent]
    exact hkey
  · exact fun n hn => content_of_last_lt hp hn
  · rw [content_update_some, hcontent]

/-- A new page is linked behind the last one, or the directory is full. -/
theorem insertPage_cases (hp : IsLast (Page dir) p) (fixDirectoryLimit : Bool) (key : K) :
    insertPage directory fixDirectoryLimit dir p key = .ok (none, dir) ∨
      ∃ p' dir', insertPage directory fixDirectoryLimit dir p key = .ok (some p', dir') ∧
        Added directory dir preserveOrder key p' dir' := by
  have hnone : content dir (p + 1) = [] := content_of_last_lt hp (Nat.lt_succ_self p)
  have hbound := h.bound p hp.1
  unfold insertPage
  rcases Nat.lt_or_ge (p + 1) (2 ^ 64) with hlt | hge
  · rw [Nat.mod_eq_of_lt hlt]
    dsimp only
    rw [if_neg (Nat.succ_ne_zero p), attachPage_ok h.toLinked hp]
    split_ifs with hmax
    · exact .inl rfl
    · refine .inr ⟨p + 1, _, rfl, ⟨linked_linkPage h.toLinked hp hlt, filled_linkPage h.toFilled⟩, ?_,
        fun n hn => content_of_last_lt hp (Nat.lt_of_succ_lt hn), ?_⟩
      · rw [hnone]
        exact List.not_mem_nil
      · rw [content_linkPage, hnone]
        cases preserveOrder <;> rfl
  · have hmod : (p + 1) % 2 ^ 64 = 0 := by
      have hp : p + 1 = 2 ^ 64 := by omega
      rw [hp, Nat.mod_self]
    rw [hmod]
    exact .inl rfl

/-- `dirAdd` fails on a key that is in the last page, or adds the key to the last page or to a new one; it may also
find no number for a new page. -/
theorem dirAdd_cases (fixDirectoryLimit : Bool) (key : K) :
    ((∃ n, key ∈ content dir n) ∧
        dirAdd directory fixDirectoryLimit preserveOrder dir key = logicError "dirInsert: double insertion") ∨
      dirAdd directory fixDirectoryLimit preserveOrder dir key = .ok (none, dir) ∨
      ∃ p dir', dirAdd directory fixDirectoryLimit preserveOrder dir key = .ok (some p, dir') ∧
        Added directory dir preserveOrder key p dir' := by
  unfold dirAdd
  cases h0 : dir 0 with
  | none =>
    obtain ⟨dir', hrun, hadded⟩ := createRoot_ok directory (h.eq_none h0) key preserveOrder
    exact .inr (.inr ⟨0, dir', by simp only [hrun]; rfl, hadded⟩)
  | some root =>
    obtain ⟨node, hfind, hnode⟩ := findPreviousPage_ok h.toLinked h0
    have hl := h.isLast h0
    simp only [hfind, Run.ok_bind]
    by_cases hlen : node.indexes.length < kDirNodeMaxEntries
    · rw [if_pos hlen]
      by_cases hkey : key ∈ node.indexes
      · refine .inl ⟨⟨root.indexPrevious, (content_eq hnode).symm ▸ hkey⟩, ?_⟩
        unfold insertKey
        rw [if_pos hkey]
        rfl
      · obtain ⟨dir', hrun, hadded⟩ := insertKey_ok h preserveOrder hl hnode hlen hkey
        exact .inr (.inr ⟨root.indexPrevious, dir', by rw [hrun]; rfl, hadded⟩)
    · rw [if_neg hlen]
      exact .inr (insertPage_cases h preserveOrder hl fixDirectoryLimit key)

end

end Functions

end Rippled.Directory
