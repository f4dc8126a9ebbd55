import Rippled.Ledger.DirectoryChain

/-!
# Removal from a directory

`dirRemove` takes a key out of a page, and a page that it emptied out of the chain; the root goes last, unless it is
kept. The branches that repair a chain with an empty last page are never taken on a well-formed directory.
-/

namespace Rippled.Directory

open Lib Lib.OrderedRing View Function

variable {K : Type} {directory : K} {dir : Dir K}

/-- What an operation leaves that may take away a directory without keys, and keeps every key. -/
structure Cleaned (directory : K) (dir : Dir K) (keepRoot : Bool) (dir' : Dir K) : Prop where
  wellFormed : WellFormed directory dir'
  keys : content dir' = content dir
  gone : dir' 0 = none ↔ keepRoot = false ∧ ∀ n, content dir n = []

theorem WellFormed.eq_zero_of_content_nil (h : WellFormed directory dir) (hnil : ∀ n, content dir n = []) {n : Nat}
    (hn : Page dir n) : n = 0 := by
  obtain ⟨node, hnode⟩ := hn.exists
  by_contra hn0
  exact h.nonempty n node hnode hn0 (by rw [← content_eq hnode, hnil n])

theorem cleaned_self (h : WellFormed directory dir) (hroot : Page dir 0) {keepRoot : Bool}
    (hkeep : keepRoot = false → ∃ n, content dir n ≠ []) : Cleaned directory dir keepRoot dir := by
  refine ⟨h, rfl, fun hno => absurd hno (not_page_iff.not_right.1 hroot), ?_⟩
  rintro ⟨hk, hnil⟩
  obtain ⟨n, hn⟩ := hkeep hk
  exact absurd (hnil n) hn

theorem cleaned_erase_root (honly : ∀ n, Page dir n → n = 0) (hnil : content dir 0 = []) :
    Cleaned directory dir false (Function.update dir 0 none) := by
  have hdir : ∀ n, n ≠ 0 → dir n = none := by
    intro n hn
    rw [← not_page_iff]
    exact fun hpage => hn (honly n hpage)
  have hnone : ∀ n, update dir 0 none n = none := by
    intro n
    by_cases hn : n = 0
    · rw [hn, update_self]
    · rw [update_of_ne hn, hdir n hn]
  have hcontent : ∀ n, content dir n = [] := by
    intro n
    by_cases hn : n = 0
    · rw [hn, hnil]
    · unfold content
      rw [hdir n hn]
  refine ⟨wellFormed_none hnone, funext fun n => ?_, fun _ => ⟨rfl, hcontent⟩, fun _ => hnone 0⟩
  rw [hcontent n]
  unfold content
  rw [hnone n]

variable {root : DirNode K}

theorem Linked.next_eq_zero_iff (h : Linked directory dir) (hroot : dir 0 = some root) :
    root.indexNext = 0 ↔ root.indexPrevious = 0 :=
  ((h.next 0 root hroot).eq_zero_iff (h.isLast hroot) (page_of_eq hroot)).trans eq_comm

theorem Linked.eq_zero_of_page (h : Linked directory dir) (hroot : dir 0 = some root) (hprev : root.indexPrevious = 0)
    {n : Nat} (hn : Page dir n) : n = 0 :=
  Nat.le_zero.1 (hprev ▸ (h.isLast hroot).2 n hn)

section Root
variable (h : WellFormed directory dir) (hroot : dir 0 = some root)
include h hroot

theorem WellFormed.next_content (hnext : root.indexNext ≠ 0) :
    ∃ last, dir root.indexNext = some last ∧ last.indexes ≠ [] := by
  obtain ⟨last, hlast⟩ := ((h.next 0 root hroot).mem (page_of_eq hroot)).exists
  exact ⟨last, hlast, h.nonempty _ last hlast hnext⟩

theorem dropEmptyLast_ok :
    dropEmptyLast dir root.indexNext root.indexPrevious = .ok (root.indexNext, root.indexPrevious, dir) := by
  unfold dropEmptyLast
  by_cases hc : root.indexNext = root.indexPrevious ∧ root.indexNext ≠ 0
  · obtain ⟨last, hlast, hne⟩ := h.next_content hroot hc.2
    rw [if_pos hc, hlast]
    dsimp only
    rw [if_neg hne]
    rfl
  · rw [if_neg hc]
    rfl

theorem removeRoot_ok (hnil : root.indexes = [])
    (keepRoot : Bool) : ∃ dir', removeRoot dir root keepRoot = .ok (true, dir') ∧
      Cleaned directory dir keepRoot dir' := by
  have hlinks := h.next_eq_zero_iff hroot
  unfold removeRoot
  rw [if_neg (by tauto), if_neg (by tauto), dropEmptyLast_ok h hroot]
  cases keepRoot with
  | true => exact ⟨dir, rfl, cleaned_self h (page_of_eq hroot) (nomatch ·)⟩
  | false =>
    by_cases hz : root.indexNext = 0 ∧ root.indexPrevious = 0
    · refine ⟨update dir 0 none, ?_,
        cleaned_erase_root (fun n hn => h.eq_zero_of_page hroot hz.2 hn) (by rw [content_eq hroot, hnil])⟩
      rw [Run.ok_bind]
      dsimp only
      rw [if_neg Bool.false_ne_true, if_pos hz, Dir.erase_ok hroot]
      rfl
    · have hnext : root.indexNext ≠ 0 := by tauto
      obtain ⟨last, hlast, hne⟩ := h.next_content hroot hnext
      refine ⟨dir, if_neg hz, cleaned_self h (page_of_eq hroot) fun _ => ⟨root.indexNext, ?_⟩⟩
      rw [content_eq hlast]
      exact hne

end Root

variable {prevPage nextPage : Nat}

theorem dropRoot_ok (h : WellFormed directory dir) (hprev : Page dir prevPage)
    (hnext : IsNext (Page dir) prevPage nextPage) (keepRoot : Bool) :
    ∃ dir', dropRoot dir prevPage nextPage keepRoot = .ok (true, dir') ∧ Cleaned directory dir keepRoot dir' := by
  have hroot := h.root prevPage hprev
  unfold dropRoot
  cases keepRoot with
  | true => exact ⟨dir, rfl, cleaned_self h hroot (nomatch ·)⟩
  | false =>
    by_cases hz : nextPage = 0 ∧ prevPage = 0
    · obtain ⟨rfl, rfl⟩ := hz
      obtain ⟨root, hroot'⟩ := hroot.exists
      have honly : ∀ n, Page dir n → n = 0 := by
        intro n hn
        by_contra hn0
        have := (hnext.of_lt hn (Nat.pos_of_ne_zero hn0)).2.1
        omega
      simp only [hroot', Bool.not_false, decide_true, Bool.and_self, if_true]
      by_cases hnil : root.indexes = []
      · refine ⟨update dir 0 none, ?_, cleaned_erase_root honly (by rw [content_eq hroot', hnil])⟩
        rw [if_pos hnil, Dir.erase_ok hroot']
        rfl
      · refine ⟨dir, if_neg hnil, cleaned_self h hroot fun _ => ⟨0, ?_⟩⟩
        rw [content_eq hroot']
        exact hnil
    · refine ⟨dir, if_neg (by simpa using hz), cleaned_self h hroot fun _ => ?_⟩
      by_contra hno
      have hnil : ∀ n, content dir n = [] := fun n => not_not.1 fun hn => hno ⟨n, hn⟩
      exact hz ⟨h.eq_zero_of_content_nil hnil (hnext.mem hroot), h.eq_zero_of_content_nil hnil hprev⟩

variable {next : DirNode K}

theorem update_prev_next {prev : DirNode K} (hprev : dir prevPage = some prev) (hnext : dir nextPage = some next) :
    Function.update dir prevPage (some { prev with indexNext := nextPage }) nextPage =
      some { next with indexNext := if nextPage = prevPage then nextPage else next.indexNext } := by
  by_cases heq : nextPage = prevPage
  · subst heq
    rw [hprev] at hnext
    cases hnext
    simp
  · rw [update_of_ne heq, hnext, if_neg heq]

variable {page : Nat}

theorem unlinkPage_eq_update {prev : DirNode K} (hprev : dir prevPage = some prev) (hnext : dir nextPage = some next) :
    Function.update (Function.update (Function.update dir prevPage (some { prev with indexNext := nextPage })) nextPage
        (some { next with
          indexNext := if nextPage = prevPage then nextPage
            else next.indexNext, indexPrevious := prevPage })) page none =
      unlinkPage dir page prevPage nextPage := by
  funext n
  unfold unlinkPage
  by_cases hn : n = page
  · subst hn
    simp
  · rw [update_of_ne hn, if_neg hn]
    by_cases hnn : n = nextPage
    · subst hnn
      simp [hnext]
    · rw [update_of_ne hnn]
      by_cases hnp : n = prevPage
      · subst hnp
        simp [hprev, hnn]
      · rw [update_of_ne hnp]
        cases dir n <;> simp [hnp, hnn]

theorem dropEmptyNext_ok (hne : nextPage ≠ 0 → next.indexes ≠ []) :
    dropEmptyNext dir prevPage nextPage next = .ok (nextPage, dir) := by
  unfold dropEmptyNext
  rw [if_neg (by tauto)]
  rfl

theorem removePage_ok (h : Linked directory dir) {node : DirNode K} (hpage : dir page = some node) (h0 : page ≠ 0)
    (hfilled : Filled (unlinkPage dir page node.indexPrevious node.indexNext)) (keepRoot : Bool) :
    ∃ dir', removePage dir page node keepRoot = .ok (true, dir') ∧
      Cleaned directory (unlinkPage dir page node.indexPrevious node.indexNext) keepRoot dir' := by
  have hprev := h.prev page node hpage
  have hnext := h.next page node hpage
  have hprevNe : node.indexPrevious ≠ page := by
    rcases hprev with ⟨h0', -⟩ | ⟨-, hlt, -⟩
    · exact absurd h0' h0
    · exact hlt.ne
  have hnextNe : node.indexNext ≠ page := by
    rcases hnext with ⟨h0', -⟩ | ⟨-, hlt, -⟩
    · rw [h0']
      exact h0.symm
    · exact hlt.ne'
  have hP := page_unlinkPage dir page node.indexPrevious node.indexNext
  have hwf : WellFormed directory (unlinkPage dir page node.indexPrevious node.indexNext) :=
    ⟨linked_unlinkPage h hpage h0, hfilled⟩
  obtain ⟨prev, hprevPage⟩ := hprev.mem.exists
  obtain ⟨next, hnextPage⟩ := (hnext.mem (h.root page (page_of_eq hpage))).exists
  have hdrop := dropRoot_ok hwf ((hP _).2 ⟨hprev.mem, hprevNe⟩) (isNext_remove_prev h0 hP hprev hnext) keepRoot
  obtain ⟨dir', hrun, hclean⟩ := hdrop
  refine ⟨dir', ?_, hclean⟩
  have hnext' := update_prev_next hprevPage hnextPage
  -- the page itself is still there when it is erased
  have hpage' : update (update dir node.indexPrevious (some { prev with indexNext := node.indexNext }))
      node.indexNext (some { next with
        indexNext := if node.indexNext = node.indexPrevious then node.indexNext else next.indexNext
        indexPrevious := node.indexPrevious }) page = some node := by
    rw [update_of_ne hnextNe.symm, update_of_ne hprevNe.symm, hpage]
  have hnonempty : node.indexNext ≠ 0 → next.indexes ≠ [] := by
    intro hn
    obtain ⟨next', hnext''⟩ := ((hP node.indexNext).2 ⟨page_of_eq hnextPage, hnextNe⟩).exists
    have hne := hfilled.nonempty _ next' hnext'' hn
    obtain ⟨node', hnode', rfl⟩ := unlinkPage_eq hnext''
    rw [hnextPage] at hnode'
    cases hnode'
    exact hne
  unfold removePage
  dsimp only
  rw [if_neg hnextNe, if_neg hprevNe, hprevPage, if_neg (by simp), Dir.update_ok hprevPage, Run.ok_bind, hnext']
  dsimp only
  rw [Dir.update_ok hnext', Run.ok_bind, Dir.erase_ok hpage', Run.ok_bind, unlinkPage_eq_update hprevPage hnextPage,
    dropEmptyNext_ok (by exact hnonempty), Run.ok_bind]
  exact hrun

section Functions
variable [LinearOrder K]

theorem emptyDirDelete_ok (h : WellFormed directory dir) :
    ∃ b dir', emptyDirDelete directory dir = .ok (b, dir') ∧ Cleaned directory dir false dir' := by
  unfold emptyDirDelete
  cases hroot : dir 0 with
  | none =>
    have hnone := h.eq_none hroot
    refine ⟨false, dir, rfl, h, rfl, fun _ => ⟨rfl, fun n => ?_⟩, fun _ => hroot⟩
    unfold content
    rw [hnone n]
  | some root =>
    have hlinks := h.next_eq_zero_iff hroot
    dsimp only
    rw [if_neg (not_not.2 (h.rootIndex 0 root hroot))]
    by_cases hnil : root.indexes = []
    · rw [if_neg (not_not.2 hnil), if_neg (by tauto), if_neg (by tauto)]
      by_cases hz : root.indexNext = 0
      · have hp := hlinks.1 hz
        refine ⟨true, update dir 0 none, ?_,
          cleaned_erase_root (fun n hn => h.eq_zero_of_page hroot hp hn) (by rw [content_eq hroot, hnil])⟩
        rw [if_neg (by tauto), if_pos ⟨hz, hp⟩, Dir.erase_ok hroot]
        rfl
      · obtain ⟨last, hlast, hne⟩ := h.next_content hroot hz
        have hclean := cleaned_self h (page_of_eq hroot) (fun _ : false = false =>
          ⟨root.indexNext, by rw [content_eq hlast]; exact hne⟩)
        by_cases hone : root.indexNext = root.indexPrevious ∧ root.indexNext ≠ 0
        · refine ⟨false, dir, ?_, hclean⟩
          rw [if_pos hone, hlast]
          exact if_pos hne
        · refine ⟨true, dir, ?_, hclean⟩
          rw [if_neg hone, if_neg (by tauto)]
          rfl
    · rw [if_pos hnil]
      refine ⟨false, dir, rfl, cleaned_self h (page_of_eq hroot) fun _ => ⟨0, ?_⟩⟩
      rw [content_eq hroot]
      exact hnil

/-- What `dirRemove` leaves of a directory whose page `page` has the key. -/
structure Removed (directory : K) (dir : Dir K) (page : Nat) (key : K) (keepRoot : Bool) (dir' : Dir K) : Prop where
  wellFormed : WellFormed directory dir'
  keys : content dir' = Function.update (content dir) page ((content dir page).erase key)
  gone : dir' 0 = none ↔ keepRoot = false ∧ ∀ n, content dir' n = []

theorem Cleaned.removed {dir₁ dir' : Dir K} {key : K} {keepRoot : Bool} (h : Cleaned directory dir₁ keepRoot dir')
    (hkeys : content dir₁ = Function.update (content dir) page ((content dir page).erase key)) :
    Removed directory dir page key keepRoot dir' :=
  ⟨h.wellFormed, h.keys.trans hkeys, h.keys ▸ h.gone⟩

theorem dirRemove_cases (h : WellFormed directory dir) (page : Nat) (key : K) (keepRoot : Bool) :
    (key ∉ content dir page ∧ dirRemove dir page key keepRoot = .ok (false, dir)) ∨
      (key ∈ content dir page ∧ ∃ dir', dirRemove dir page key keepRoot = .ok (true, dir') ∧
        Removed directory dir page key keepRoot dir') := by
  unfold dirRemove
  cases hpage : dir page with
  | none =>
    refine .inl ⟨?_, rfl⟩
    unfold content
    rw [hpage]
    exact List.not_mem_nil
  | some node =>
    have hcontent := content_eq hpage
    dsimp only
    by_cases hkey : key ∈ node.indexes
    · refine .inr ⟨hcontent.symm ▸ hkey, ?_⟩
      rw [if_neg (not_not.2 hkey), Dir.update_ok hpage, Run.ok_bind]
      have hlinked := h.toLinked.setIndexes hpage (node.indexes.erase key)
      have hkeys : content (update dir page (some { node with indexes := node.indexes.erase key })) =
          update (content dir) page ((content dir page).erase key) := by
        rw [content_update_some, hcontent]
      have hfilled : (page ≠ 0 → node.indexes.erase key ≠ []) →
          Filled (update dir page (some { node with indexes := node.indexes.erase key })) := fun hne =>
        h.toFilled.setIndexes (List.length_erase_le.trans (h.size page node hpage)) hne
          ((h.nodup page node hpage).erase key)
      have hself : update dir page (some { node with indexes := node.indexes.erase key }) page =
          some { node with indexes := node.indexes.erase key } := update_self ..
      by_cases hnil : node.indexes.erase key = []
      · rw [if_neg (not_not.2 hnil)]
        by_cases h0 : page = 0
        · rw [if_pos h0]
          subst h0
          obtain ⟨dir', hrun, hclean⟩ := removeRoot_ok ⟨hlinked, hfilled (absurd rfl)⟩ hself hnil keepRoot
          exact ⟨dir', hrun, hclean.removed hkeys⟩
        · rw [if_neg h0]
          obtain ⟨dir', hrun, hclean⟩ := removePage_ok hlinked hself h0
            (by rw [unlinkPage_update]; exact filled_unlinkPage h.toFilled _ _) keepRoot
          refine ⟨dir', hrun, hclean.removed ?_⟩
          rw [unlinkPage_update, content_unlinkPage, hcontent, hnil]
      · rw [if_pos hnil]
        refine ⟨_, rfl, (cleaned_self ⟨hlinked, hfilled fun _ => hnil⟩ (hlinked.root page (page_of_eq hself))
          fun _ => ⟨page, ?_⟩).removed hkeys⟩
        rw [content_eq hself]
        exact hnil
    · exact .inl ⟨hcontent.symm ▸ hkey, if_pos hkey⟩

end Functions

end Rippled.Directory
