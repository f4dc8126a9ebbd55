import Rippled.Ledger.DirectoryRuns
import Rippled.Ledger.DirectoryWalk

/-!
# Deleting while walking

`cleanupOnAccountDelete` walks an owner directory and hands each entry to a deleter, which may remove the entry from the
directory that is being walked. The loop then sets its index back by hand. It visits every entry once all the same
(`cleanupOnAccountDelete_visits`): what is before the index stays, and what is behind it is what was behind the entry.
-/

namespace Rippled.Directory

open Lib Lib.OrderedRing View Function List

variable {K V SLE : Type}

inductive TER where
  | tesSUCCESS
  | tecINCOMPLETE
  | tefBAD_LEDGER
  | other (code : Int)
  deriving DecidableEq

/-- What a deleter does with the directory. `SkipEntry::No` comes with the arguments of its `dirRemove`. -/
inductive SkipEntry where
  | no (page : Nat) (keepRoot : Bool)
  | yes

structure Answer (V : Type) where
  ter : TER
  skipEntry : SkipEntry
  view : V

/-- The view apart from the directory, and a deleter that changes it. -/
structure EntryDeleter (K V SLE : Type) where
  peek : V → K → Option SLE
  call : V → K → SLE → Answer V

section Model
variable [LinearOrder K] [Zero K] (deleter : EntryDeleter K V SLE)

/-- What a pointer to a page has after a key was removed from that page. A page that was erased keeps its fields; a
root is erased when no other page is left. -/
def afterRemove (dir : Dir K) (page : Nat) (key : K) (node : DirNode K) : DirNode K :=
  (dir page).getD
    { node with indexes := node.indexes.erase key, indexNext := if page = 0 then 0 else node.indexNext }

/-- The directory and the state of the iteration after the deleter. -/
def SkipEntry.run (dir : Dir K) (cursor : Cursor K) : SkipEntry → Run Exception (Dir K × Cursor K)
  | .yes => return (dir, cursor)
  | .no page keepRoot => do
    let (_, dir) ← dirRemove dir page cursor.entry keepRoot
    return (dir, { cursor with
      page := cursor.page.map (afterRemove dir page cursor.entry), index := cursor.index - 1 })

/-- The loop of `cleanupOnAccountDelete`. -/
def cleanup (maxNodesToDelete : Option Nat) : Nat → V → Dir K → Nat → Cursor K → Run Exception (TER × V × Dir K)
  | 0, _, _, _, _ => .error .outOfFuel
  | fuel + 1, view, dir, deleted, cursor =>
    if maxNodesToDelete.any (deleted + 1 > ·) then return (.tecINCOMPLETE, view, dir)
    else
      match deleter.peek view cursor.entry with
      | none => return (.tefBAD_LEDGER, view, dir)
      | some sleItem => do
        let answer := deleter.call view cursor.entry sleItem
        let (dir, after) ← answer.skipEntry.run dir cursor
        if answer.ter ≠ .tesSUCCESS then return (answer.ter, answer.view, dir)
        else if cursor.index = 0 then return (.tefBAD_LEDGER, answer.view, dir)
        else
          let (found, cursor) ← dirNext dir (fuel + 2) after
          if found then cleanup maxNodesToDelete fuel answer.view dir (deleted + 1) cursor
          else return (.tesSUCCESS, answer.view, dir)

def cleanupOnAccountDelete (maxNodesToDelete : Option Nat) (fuel : Nat) (view : V) (dir : Dir K) :
    Run Exception (TER × V × Dir K) :=
  if (dir 0).isNone then return (.tesSUCCESS, view, dir)
  else do
    let (found, cursor) ← dirFirst dir (fuel + 2) ⟨none, 0, 0⟩
    if found then cleanup deleter maxNodesToDelete fuel view dir 0 cursor else return (.tesSUCCESS, view, dir)

end Model

/-! ## What the deleter leaves -/

/-- The keys of a directory, in the order of the walk. -/
def listed (dir : Dir K) : List K := (entries dir 0 (2 ^ 64)).map Prod.snd

/-- The keys before and behind an index of a page, in the order of the walk. -/
def before (dir : Dir K) (p i : Nat) : List K := (entries dir 0 p).map Prod.snd ++ (content dir p).take i
def behind (dir : Dir K) (p i : Nat) : List K := remaining dir (2 ^ 64) p i

def SkipEntry.left (key : K) : SkipEntry → List K
  | .yes => [key]
  | .no .. => []

/-- The view after calls of the deleter for some keys, and the keys that it left in the directory. -/
def EntryDeleter.calls (deleter : EntryDeleter K V SLE) : V → List K → V × List K
  | view, [] => (view, [])
  | view, key :: keys =>
    match deleter.peek view key with
    | none => (view, key :: keys)
    | some sleItem =>
      let answer := deleter.call view key sleItem
      let rest := deleter.calls answer.view keys
      (rest.1, answer.skipEntry.left key ++ rest.2)

/-- The deleter removes exactly the entry that it gets, or leaves the directory alone. The objects of other entries
stay. -/
structure Deletes (deleter : EntryDeleter K V SLE) (loc : K → Option Nat) : Prop where
  success : ∀ view key sle, (deleter.call view key sle).ter = .tesSUCCESS
  page : ∀ view key sle page keepRoot, (deleter.call view key sle).skipEntry = .no page keepRoot → loc key = some page
  others : ∀ view key sle k, k ≠ key → (deleter.peek view k).isSome →
    (deleter.peek (deleter.call view key sle).view k).isSome

/-- The keys that are visited of those that are left, when some have been before. -/
def visited (max : Option Nat) (deleted : Nat) (rest : List K) : List K :=
  max.elim rest fun m => rest.take (m - deleted)

/-- The deleter is called once for each key of `rest`, in this order, up to the limit. What it leaves comes behind
`left`. -/
def Visits (deleter : EntryDeleter K V SLE) (max : Option Nat) (deleted : Nat) (view : V) (left rest : List K)
    (run : Run Exception (TER × V × Dir K)) : Prop :=
  ∃ dir', run = .ok (if max.all (deleted + rest.length ≤ ·) then .tesSUCCESS else .tecINCOMPLETE,
      (deleter.calls view (visited max deleted rest)).1, dir') ∧
    listed dir' = left ++ (deleter.calls view (visited max deleted rest)).2 ++ rest.drop
      (visited max deleted rest).length

variable {directory : K} {dir dir' : Dir K} {node : DirNode K} {p i : Nat} {key : K} {loc : K → Option Nat}

theorem listed_eq (hp : p < 2 ^ 64) (dir : Dir K) (i : Nat) : listed dir = before dir p i ++ behind dir p i := by
  unfold listed before behind remaining
  rw [entries_eq (Nat.zero_le p) hp, map_append, map_append, map_map, append_assoc,
    ← append_assoc (take ..), take_append_drop]
  congr 2
  exact map_id _

theorem WellFormed.page_iff (h : WellFormed directory dir) {n : Nat} (hn : n ≠ 0) :
    Page dir n ↔ content dir n ≠ [] := by
  constructor
  · intro hpage
    obtain ⟨node, hnode⟩ := hpage.exists
    rw [content_eq hnode]
    exact h.nonempty n node hnode hn
  · exact fun hne => by_contra fun hno => hne (content_of_not_page hno)

section Visits
variable {deleter : EntryDeleter K V SLE} {max : Option Nat} {deleted : Nat} {view : V} {left rest : List K}
  {run : Run Exception (TER × V × Dir K)}

theorem visits_nil (hmax : ¬ max.any (deleted > ·) = true) (h : listed dir = left) :
    Visits deleter max deleted view left [] (.ok (.tesSUCCESS, view, dir)) := by
  refine ⟨dir, ?_, ?_⟩
  · cases max with
    | none => rfl
    | some m =>
      rw [Option.any_some, decide_eq_true_eq, gt_iff_lt, Nat.not_lt] at hmax
      rw [Option.all_some, decide_eq_true (by exact hmax), visited, Option.elim_some, take_nil]
      rfl
  · cases max <;> simp [visited, EntryDeleter.calls, h]

theorem visits_full (hmax : max.any (deleted + 1 > ·) = true) (h : listed dir = left ++ key :: rest) :
    Visits deleter max deleted view left (key :: rest) (.ok (.tecINCOMPLETE, view, dir)) := by
  cases max with
  | none => cases hmax
  | some m =>
    rw [Option.any_some, decide_eq_true_eq] at hmax
    have hnone : visited (some m) deleted (key :: rest) = [] := by
      rw [visited, Option.elim_some, show m - deleted = 0 by omega, take_zero]
    refine ⟨dir, ?_, ?_⟩
    · rw [hnone, Option.all_some, length_cons, decide_eq_false (by omega)]
      rfl
    · rw [hnone, h]
      simp [EntryDeleter.calls]

theorem Visits.cons {sleItem : SLE} (hmax : ¬ max.any (deleted + 1 > ·) = true)
    (hpeek : deleter.peek view key = some sleItem)
    (h : Visits deleter max (deleted + 1) (deleter.call view key sleItem).view
      (left ++ (deleter.call view key sleItem).skipEntry.left key) rest run) :
    Visits deleter max deleted view left (key :: rest) run := by
  obtain ⟨dir', hrun, hkeys⟩ := h
  have hvisited : visited max deleted (key :: rest) = key :: visited max (deleted + 1) rest := by
    cases max with
    | none => rfl
    | some m =>
      rw [Option.any_some, decide_eq_true_eq] at hmax
      rw [visited, Option.elim_some, show m - deleted = m - (deleted + 1) + 1 by omega, take_succ_cons]
      rfl
  refine ⟨dir', ?_, ?_⟩
  · rw [hrun, hvisited, EntryDeleter.calls, hpeek, length_cons, Nat.add_right_comm, Nat.add_assoc]
  · rw [hkeys, hvisited, EntryDeleter.calls, hpeek, length_cons, drop_succ_cons, append_assoc left]

end Visits

section Entry
variable (hnode : dir p = some node) (hkey : node.indexes[i]? = some key)
include hnode hkey

theorem behind_eq_cons : behind dir p i = key :: behind dir p (i + 1) := by
  obtain ⟨hlt, rfl⟩ := List.getElem?_eq_some_iff.1 hkey
  rw [behind, behind, remaining, remaining, content_eq hnode, drop_eq_getElem_cons hlt]
  rfl

theorem Located.eq_some (h : Located directory loc dir) : loc key = some p :=
  (h.mem_iff key p).2 (by rw [content_eq hnode]; exact mem_of_getElem? hkey)

theorem Located.not_mem_behind (h : Located directory loc dir) : key ∉ behind dir p (i + 1) := by
  have hloc := h.eq_some hnode hkey
  obtain ⟨hlt, rfl⟩ := List.getElem?_eq_some_iff.1 hkey
  have hnodup := h.wellFormed.nodup p node hnode
  rw [← take_append_drop i node.indexes, drop_eq_getElem_cons hlt] at hnodup
  rw [behind, remaining, content_eq hnode, mem_append, not_or]
  refine ⟨(nodup_cons.1 (nodup_append.1 hnodup).2.1).1, fun hmem => ?_⟩
  obtain ⟨⟨n, _⟩, hn, rfl⟩ := mem_map.1 hmem
  obtain ⟨hrange, hmem⟩ := mem_entries.1 hn
  have heq := Option.some.inj (hloc.symm.trans ((h.mem_iff _ n).2 hmem))
  omega

end Entry

variable [LinearOrder K]

/-- The loop's pointer leads on to the pages after the one that a key was removed from. -/
theorem Removed.points {keepRoot : Bool} (hr : Removed directory dir p key keepRoot dir') (h : WellFormed directory dir)
    (hnode : dir p = some node) : Points dir' p (afterRemove dir' p key node) := by
  unfold afterRemove
  cases hp : dir' p with
  | some node' => exact ⟨hr.wellFormed.next p node' hp, .inl hp⟩
  | none =>
    have hnil : node.indexes.erase key = [] := by
      rw [← content_eq hnode, ← update_self p ((content dir p).erase key) (content dir), ← hr.keys]
      exact content_of_not_page (not_page_iff.2 hp)
    refine ⟨?_, .inr ⟨hp, hnil⟩⟩
    change IsNext (Page dir') p (if p = 0 then 0 else node.indexNext)
    split_ifs with hp0
    · subst hp0
      exact .inl ⟨rfl, fun q hq => absurd (hr.wellFormed.eq_none hp q) (not_page_iff.not_right.1 hq)⟩
    · -- the pages after this one are as they were
      have hpage : ∀ q, p < q → (Page dir' q ↔ Page dir q) := by
        intro q hq
        rw [hr.wellFormed.page_iff (by omega), h.page_iff (by omega), hr.keys, update_of_ne hq.ne']
      rcases h.next p node hnode with ⟨h0, hlast⟩ | ⟨hnext, hlt, hleast⟩
      · exact .inl ⟨h0, fun q hq => Nat.not_lt.1 fun hlt => Nat.not_le.2 hlt (hlast q ((hpage q hlt).1 hq))⟩
      · exact .inr ⟨(hpage _ hlt).2 hnext, hlt, fun q hq hpq => hleast q ((hpage q hpq).1 hq) hpq⟩

/-- Whatever the deleter does, what is before the entry stays, and what is behind it comes next. -/
theorem SkipEntry.run_ok (h : Located directory loc dir) (hnode : dir p = some node)
    (hkey : node.indexes[i]? = some key)
    (skipEntry : SkipEntry) (hpage : ∀ page keepRoot, skipEntry = .no page keepRoot → loc key = some page) :
    ∃ dir' loc' node' i', skipEntry.run dir ⟨some node, i + 1, key⟩ = .ok (dir', ⟨some node', i', key⟩) ∧
      Located directory loc' dir' ∧ (∀ k n, loc' k = some n → loc k = some n) ∧ Points dir' p node' ∧
      before dir' p i' = before dir p i ++ skipEntry.left key ∧ behind dir' p i' = behind dir p (i + 1) := by
  have hloc := h.eq_some hnode hkey
  obtain ⟨hlt, rfl⟩ := List.getElem?_eq_some_iff.1 hkey
  have hcontent := content_eq hnode
  cases skipEntry with
  | yes =>
    refine ⟨dir, loc, node, i + 1, rfl, h, fun _ _ => id, ⟨h.wellFormed.next p node hnode, .inl hnode⟩, ?_, rfl⟩
    rw [before, before, append_assoc, hcontent, take_succ_eq_append_getElem hlt]
    rfl
  | no page keepRoot =>
    obtain rfl : p = page := Option.some.inj (hloc.symm.trans (hpage page keepRoot rfl))
    obtain ⟨dir', hrun, hr⟩ :=
      ((dirRemove_cases h.wellFormed p _ keepRoot).resolve_left fun hno => hno.1 ((h.mem_iff _ p).1 hloc)).2
    have hlen := length_take_of_le hlt.le
    have hself : content dir' p = node.indexes.take i ++ node.indexes.drop (i + 1) := by
      rw [hr.keys, update_self, hcontent, (h.wellFormed.nodup p node hnode).erase_getElem i hlt,
        eraseIdx_eq_take_drop_succ]
    have hother : ∀ n, n ≠ p → content dir' n = content dir n := fun n hn => by rw [hr.keys, update_of_ne hn]
    refine ⟨dir', _, _, i, ?_, h.remove hloc hr, fun k n hk => ?_, hr.points h.wellFormed hnode, ?_, ?_⟩
    · rw [SkipEntry.run, hrun]
      rfl
    · by_cases hk' : k = node.indexes[i]
      · rw [hk', update_self] at hk
        cases hk
      · rwa [update_of_ne hk'] at hk
    · rw [before, before, entries_congr fun n _ hn => hother n hn.ne, hself, hcontent, take_left' hlen]
      exact (append_nil _).symm
    · rw [behind, behind, remaining, remaining, entries_congr fun n hn _ => hother n (Nat.ne_of_gt hn), hself, hcontent,
        drop_left' hlen]

/-! ## The loop -/

variable [Zero K] {deleter : EntryDeleter K V SLE} {max : Option Nat} {deleted : Nat} {view : V}

omit [LinearOrder K] in
theorem visits_next (h : WellFormed directory dir) (hnode : Points dir p node) (hp : p < 2 ^ 64)
    (hmax : ¬ max.any (deleted > ·) = true) {loop : Cursor K → Run Exception (TER × V × Dir K)}
    (hloop : ∀ q node j key, dir q = some node → node.indexes[j]? = some key → behind dir q j = behind dir p i →
      Visits deleter max deleted view (before dir q j) (behind dir q j) (loop ⟨some node, j + 1, key⟩))
    (entry : K) (fuel : Nat) :
    Visits deleter max deleted view (before dir p i) (behind dir p i) (do
      let (found, cursor) ← internalDirNext dir (fuel + 2) ⟨some node, i, entry⟩
      if found then loop cursor else return (.tesSUCCESS, view, dir)) := by
  have hkeys := listed_eq hp dir i
  rcases internalDirNext_cases h h.bound hnode entry fuel with
    ⟨hnil, cursor, hnext⟩ | ⟨q, node', j, key, hnode', hkey, hcons, hnext⟩
  · rw [show behind dir p i = [] from hnil] at hkeys ⊢
    rw [hnext, Run.ok_bind]
    exact visits_nil hmax (hkeys.trans (append_nil _))
  · have heq : behind dir p i = behind dir q j := hcons.trans (behind_eq_cons hnode' hkey).symm
    have hsplit := listed_eq (h.bound q (page_of_eq hnode')) dir j
    rw [← heq] at hsplit
    rw [hnext, Run.ok_bind, heq, append_cancel_right (hkeys.symm.trans hsplit)]
    exact hloop q node' j key hnode' hkey heq.symm

theorem cleanup_visits {loc₀ : K → Option Nat} (hd : Deletes deleter loc₀) {fuel : Nat} (h : Located directory loc dir)
    (hsub : ∀ k n, loc k = some n → loc₀ k = some n) (hnode : dir p = some node) (hkey : node.indexes[i]? = some key)
    (hitems : ∀ k ∈ behind dir p i, (deleter.peek view k).isSome) (hfuel : (behind dir p i).length ≤ fuel) :
    Visits deleter max deleted view (before dir p i) (behind dir p i)
      (cleanup deleter max fuel view dir deleted ⟨some node, i + 1, key⟩) := by
  have hbound := h.wellFormed.bound p (page_of_eq hnode)
  induction fuel generalizing dir loc p node i key view deleted with
  | zero =>
    rw [behind_eq_cons hnode hkey] at hfuel
    cases hfuel
  | succ fuel ih =>
    have hkeys := listed_eq hbound dir i
    have hlater := h.not_mem_behind hnode hkey
    have hin := h.eq_some hnode hkey
    rw [behind_eq_cons hnode hkey] at hitems hfuel hkeys ⊢
    rw [cleanup]
    by_cases hmax : max.any (deleted + 1 > ·) = true
    · rw [if_pos hmax]
      exact visits_full hmax hkeys
    · obtain ⟨sleItem, hpeek⟩ := Option.isSome_iff_exists.1 (hitems key mem_cons_self)
      have hsuccess := hd.success view key sleItem
      have hpage := hd.page view key sleItem
      have hothers := hd.others view key sleItem
      refine Visits.cons hmax hpeek ?_
      rw [if_neg hmax, hpeek]
      dsimp only
      generalize deleter.call view key sleItem = answer at hsuccess hpage hothers ⊢
      obtain ⟨dir₁, loc₁, node₁, i₁, hrun, hloc₁, hsub₁, hpoints, hbefore, hrest⟩ :=
        answer.skipEntry.run_ok h hnode hkey fun page keepRoot heq =>
          hin.trans ((hsub key p hin).symm.trans (hpage page keepRoot heq))
      rw [hrun, Run.ok_bind]
      dsimp only
      rw [if_neg (not_not.2 hsuccess), if_neg (Nat.succ_ne_zero i), ← hbefore, ← hrest]
      refine visits_next hloc₁.wellFormed hpoints hbound hmax (fun q node' j key' hnode' hkey' heq => ?_) key fuel
      rw [hrest] at heq
      refine ih hloc₁ (fun k n hk => hsub k n (hsub₁ k n hk)) hnode' hkey' (fun k hk => ?_) ?_ ?_
      · rw [heq] at hk
        exact hothers k (fun hkey => hlater (hkey ▸ hk)) (hitems k (mem_cons_of_mem _ hk))
      · rw [heq]
        exact Nat.le_of_succ_le_succ hfuel
      · exact hloc₁.wellFormed.bound q (page_of_eq hnode')

/-- The deleter is called once for each entry, in the order of the directory, up to the limit. Without a limit, or if
it is not reached, the entries that are left are those that the deleter skipped. -/
theorem cleanupOnAccountDelete_visits (h : Runs directory loc dir) (hd : Deletes deleter loc)
    (hitems : ∀ key, loc key ≠ none → (deleter.peek view key).isSome) {fuel : Nat}
    (hfuel : (listed dir).length ≤ fuel) :
    Visits deleter max 0 view [] (listed dir) (cleanupOnAccountDelete deleter max fuel view dir) ∧
      ∀ n cursor, (listed dir).length + 2 ≤ n → walk (dirFirst dir) (dirNext dir) n cursor = .ok (listed dir) := by
  have hloc := h.located
  have hwf := hloc.wellFormed
  refine ⟨?_, fun n cursor hn => walk_internal_eq hwf hwf.bound (by rwa [listed, length_map] at hn) cursor⟩
  have hpresent : ∀ k ∈ listed dir, (deleter.peek view k).isSome := by
    intro k hk
    obtain ⟨⟨n, _⟩, hn, rfl⟩ := mem_map.1 hk
    exact hitems _ (Option.ne_none_iff_exists'.2 ⟨n, (hloc.mem_iff _ n).2 (mem_entries.1 hn).2⟩)
  have hmax : ¬ max.any (0 > ·) = true := by cases max <;> simp
  unfold cleanupOnAccountDelete
  cases hroot : dir 0 with
  | none =>
    have hnil : listed dir = [] := by
      unfold listed
      rw [entries_eq_nil fun n _ _ => content_of_not_page (not_page_iff.2 (hwf.eq_none hroot n))]
      rfl
    rw [hnil]
    exact visits_nil hmax hnil
  | some root =>
    have hkeys : listed dir = behind dir 0 0 := listed_eq (p := 0) (by decide) dir 0
    rw [hkeys] at hpresent hfuel ⊢
    rw [dirFirst, internalDirFirst, hroot]
    refine visits_next (p := 0) hwf ⟨hwf.next 0 root hroot, .inl hroot⟩ (by decide) hmax
      (fun q node j key hnode hkey heq => ?_) 0 fuel
    exact cleanup_visits hd hloc (fun _ _ => id) hnode hkey (heq ▸ hpresent) (heq ▸ hfuel)

/-- The entries 3, 5 and 8 go, from the root page; others are skipped. -/
def dropSome : EntryDeleter Nat Unit Unit :=
  ⟨fun _ _ => some (), fun view key _ => ⟨.tesSUCCESS, if key ∈ [3, 5, 8] then .no 0 true else .yes, view⟩⟩

/-- Four entries, of which one is skipped, and a limit of three. -/
theorem cleanupOnAccountDelete_visits_four : ∃ s, [8, 3, 7, 5].foldlM (addKey 9)
    (fun _ => none, fun _ => none) = .ok s ∧
    Visits dropSome (some 3) 0 () [] (listed s.2)
    (cleanupOnAccountDelete dropSome (some 3) (listed s.2).length () s.2) ∧
    ∀ n cursor, (listed s.2).length + 2 ≤ n → walk (dirFirst s.2) (dirNext s.2) n cursor = .ok (listed s.2) := by
  obtain ⟨s, hadd, hpages⟩ := Except.exists_ok_of_any
      (x := [8, 3, 7, 5].foldlM (addKey 9) (fun _ => none, fun _ => none))
    (p := fun s => decide (∀ key ∈ [3, 5, 8], s.1 key = some 0)) (by decide +kernel)
  refine ⟨s, hadd, cleanupOnAccountDelete_visits (Runs.empty.addKeys hadd) ⟨fun _ _ _ => rfl, ?_, fun _ _ _ _ _ => id⟩
    (fun _ _ => rfl) le_rfl⟩
  intro _ key _ page keepRoot hno
  by_cases hkey : key ∈ [3, 5, 8]
  · cases (if_pos hkey).symm.trans hno
    exact of_decide_eq_true hpages key hkey
  · cases (if_neg hkey).symm.trans hno

end Rippled.Directory
