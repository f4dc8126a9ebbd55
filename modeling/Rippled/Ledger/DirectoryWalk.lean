import Mathlib.Algebra.GroupWithZero.Nat
import Mathlib.Data.List.Induction
import Rippled.Ledger.DirectoryRemove

/-!
# Walking a directory

`internalDirFirst` and `internalDirNext` follow the chain from the root, and `walk` is the loop around them. In a
directory that keys are only appended to and removed from, the walk gives what is left of the keys in the order of
their appending (`History.walk_eq`): a new key goes behind all others, since no page after the one it goes to has
keys.
-/

namespace Rippled.Directory

open Lib Lib.OrderedRing View List

variable {K : Type} {directory : K} {dir : Dir K}

/-- The variables that the caller of the walk keeps. -/
structure Cursor (K : Type) where
  page : Option (DirNode K)
  index : Nat
  entry : K

section Model
variable [Zero K]

def internalDirNext (dir : Dir K) : Nat → Cursor K → Run Exception (Bool × Cursor K)
  | 0, _ => .error .outOfFuel
  | fuel + 1, cursor =>
    match cursor.page with
    | none => Run.throw .nullPointer
    | some page =>
      match page.indexes[cursor.index]? with
      | none =>
        if page.indexNext = 0 then return (false, { cursor with entry := 0 })
        else
          match dir page.indexNext with
          | none => return (false, { cursor with page := none })
          | some next => internalDirNext dir fuel { cursor with page := some next, index := 0 }
      | some key => return (true, { cursor with index := cursor.index + 1, entry := key })

def internalDirFirst (dir : Dir K) (fuel : Nat) (cursor : Cursor K) : Run Exception (Bool × Cursor K) :=
  match dir 0 with
  | none => return (false, { cursor with page := none })
  | some root => internalDirNext dir fuel { cursor with page := some root, index := 0 }

def dirFirst (dir : Dir K) := internalDirFirst dir
def dirNext (dir : Dir K) := internalDirNext dir
def cdirFirst (dir : Dir K) := internalDirFirst dir
def cdirNext (dir : Dir K) := internalDirNext dir

/-- The keys of `do { ... } while (next(...))`, which is entered if the call before found one. -/
def visit (next : Cursor K → Run Exception (Bool × Cursor K)) : Nat → Bool × Cursor K → Run Exception (List K)
  | _, (false, _) => return []
  | 0, (true, _) => .error .outOfFuel
  | fuel + 1, (true, cursor) => do
    let keys ← visit next fuel (← next cursor)
    return cursor.entry :: keys

/-- The keys of `if (first(...)) do { ... } while (next(...))`. -/
def walk (first next : Nat → Cursor K → Run Exception (Bool × Cursor K)) (fuel : Nat) (cursor : Cursor K) :
    Run Exception (List K) := do
  visit (next fuel) fuel (← first fuel cursor)

end Model

/-! ## The keys in the order of their pages -/

/-- The keys of the pages from `a` to before `b`, each with its page. -/
def entries (dir : Dir K) (a b : Nat) : List (Nat × K) :=
  (List.range' a (b - a)).flatMap fun n => (content dir n).map (n, ·)

variable {b : Nat} {a : Nat}

theorem mem_entries {n : Nat} {key : K} : (n, key) ∈ entries dir a b ↔ (a ≤ n ∧ n < b) ∧ key ∈ content dir n := by
  unfold entries
  simp only [mem_flatMap, mem_range'_1, mem_map, Prod.mk.injEq]
  constructor
  · rintro ⟨q, hq, key', hkey, rfl, rfl⟩
    exact ⟨by omega, hkey⟩
  · rintro ⟨hn, hkey⟩
    exact ⟨n, by omega, key, hkey, rfl, rfl⟩

theorem entries_append {c : Nat} (hab : a ≤ b) (hbc : b ≤ c) :
    entries dir a c = entries dir a b ++ entries dir b c := by
  have hrange : range' a (c - a) = range' a (b - a) ++ range' b (c - b) := by
    have hsum : c - a = (b - a) + (c - b) := by omega
    have hb : a + (b - a) = b := by omega
    rw [hsum, ← range'_append_1, hb]
  unfold entries
  rw [hrange, flatMap_append]

theorem entries_succ (n : Nat) : entries dir n (n + 1) = (content dir n).map (n, ·) := by
  unfold entries
  rw [Nat.add_sub_cancel_left]
  simp

theorem entries_eq {n : Nat} (ha : a ≤ n) (hb : n < b) :
    entries dir a b = entries dir a n ++ ((content dir n).map (n, ·) ++ entries dir (n + 1) b) := by
  rw [entries_append ha (Nat.le_of_lt hb), entries_append (Nat.le_succ n) hb, entries_succ]

theorem entries_eq_nil (h : ∀ n, a ≤ n → n < b → content dir n = []) : entries dir a b = [] := by
  rw [eq_nil_iff_forall_not_mem]
  rintro ⟨n, key⟩ hmem
  obtain ⟨⟨ha, hb⟩, hkey⟩ := mem_entries.1 hmem
  rw [h n ha hb] at hkey
  cases hkey

variable {dir' : Dir K}

theorem entries_congr (h : ∀ n, a ≤ n → n < b → content dir' n = content dir n) :
    entries dir' a b = entries dir a b := by
  unfold entries
  rw [flatMap_def, flatMap_def]
  refine congrArg _ (map_congr_left fun n hn => ?_)
  rw [mem_range'_1] at hn
  rw [h n hn.1 (by omega)]

theorem nodup_entries (h : ∀ n, (content dir n).Nodup) (a b : Nat) : (entries dir a b).Nodup := by
  unfold entries
  rw [nodup_flatMap]
  refine ⟨fun n _ => (h n).map fun _ _ heq => (Prod.mk.inj heq).2, ?_⟩
  refine (nodup_range' (s := a) (n := b - a)).imp fun {m n} hne => ?_
  change List.Disjoint _ _
  rw [disjoint_left]
  rintro ⟨q, key⟩ hm hn
  simp only [mem_map, Prod.mk.injEq] at hm hn
  obtain ⟨_, _, rfl, _⟩ := hm
  obtain ⟨_, _, rfl, _⟩ := hn
  exact hne rfl

variable {p : Nat}

/-- A key behind the last one comes last. -/
theorem entries_update_append {key : K} (hp : p < b) (habove : ∀ n, p < n → content dir n = [])
    (hcontent : content dir' = Function.update (content dir) p (content dir p ++ [key])) :
    entries dir' 0 b = entries dir 0 b ++ [(p, key)] := by
  have hother : ∀ n, n ≠ p → content dir' n = content dir n := fun n hn => by rw [hcontent, Function.update_of_ne hn]
  have hself : content dir' p = content dir p ++ [key] := by rw [hcontent, Function.update_self]
  have hnil : entries dir (p + 1) b = [] := entries_eq_nil fun n hn _ => habove n hn
  rw [entries_eq (Nat.zero_le p) hp, entries_eq (Nat.zero_le p) hp, hself,
    entries_congr fun n _ hn => hother n hn.ne, entries_congr fun n hn _ => hother n (Nat.ne_of_gt hn), hnil]
  simp

theorem entries_update_erase [DecidableEq K] {key : K} (hp : p < b) (hkey : key ∈ content dir p)
    (hcontent : content dir' = Function.update (content dir) p ((content dir p).erase key)) :
    entries dir' 0 b = (entries dir 0 b).erase (p, key) := by
  have hother : ∀ n, n ≠ p → content dir' n = content dir n := fun n hn => by rw [hcontent, Function.update_of_ne hn]
  have hself : content dir' p = (content dir p).erase key := by rw [hcontent, Function.update_self]
  have hinj : Function.Injective (fun key : K => (p, key)) := fun _ _ heq => (Prod.mk.inj heq).2
  have hbefore : (p, key) ∉ entries dir 0 p := fun hmem => absurd (mem_entries.1 hmem).1.2 (Nat.lt_irrefl p)
  rw [entries_eq (Nat.zero_le p) hp, entries_eq (Nat.zero_le p) hp, hself,
    entries_congr fun n _ hn => hother n hn.ne, entries_congr fun n hn _ => hother n (Nat.ne_of_gt hn),
    erase_append_right _ hbefore, erase_append_left _ (mem_map.2 ⟨key, hkey, rfl⟩), map_erase hinj]

/-! ## One step of the walk -/

/-- The keys that the walk has still to visit, at an index of a page. -/
def remaining (dir : Dir K) (b p i : Nat) : List K :=
  (content dir p).drop i ++ (entries dir (p + 1) b).map Prod.snd

/-- A pointer to a page, which may have been erased since. -/
def Points (dir : Dir K) (p : Nat) (node : DirNode K) : Prop :=
  IsNext (Page dir) p node.indexNext ∧ (dir p = some node ∨ dir p = none ∧ node.indexes = [])

theorem Points.content_eq {node : DirNode K} (h : Points dir p node) : content dir p = node.indexes := by
  rcases h.2 with hnode | ⟨hnone, hnil⟩
  · exact Directory.content_eq hnode
  · rw [hnil, content_of_not_page (not_page_iff.2 hnone)]

section Walk
variable [Zero K]

section
variable (h : WellFormed directory dir) (hb : ∀ n, Page dir n → n < b)
include h hb

/-- The walk is over, or it goes on to the next key. -/
theorem internalDirNext_cases {i : Nat} {node : DirNode K} (hnode : Points dir p node) (entry : K) (fuel : Nat) :
    (remaining dir b p i = [] ∧ ∃ cursor, internalDirNext dir (fuel + 2) ⟨some node, i, entry⟩ = .ok (false, cursor)) ∨
      ∃ q node' j key, dir q = some node' ∧ node'.indexes[j]? = some key ∧
        remaining dir b p i = key :: remaining dir b q (j + 1) ∧
        internalDirNext dir (fuel + 2) ⟨some node, i, entry⟩ = .ok (true, ⟨some node', j + 1, key⟩) := by
  have hcontent := hnode.content_eq
  unfold remaining internalDirNext
  dsimp only
  cases hi : node.indexes[i]? with
  | some key =>
    obtain ⟨hlt, hget⟩ := List.getElem?_eq_some_iff.1 hi
    have hlive := hnode.2.resolve_right fun herased => Nat.not_lt_zero i (by rwa [herased.2] at hlt)
    refine .inr ⟨p, node, i, key, hlive, hi, ?_, rfl⟩
    rw [hcontent, drop_eq_getElem_cons hlt, hget]
    rfl
  | none =>
    have hdrop : (content dir p).drop i = [] := by
      rw [hcontent]
      exact drop_eq_nil_of_le (getElem?_eq_none_iff.1 hi)
    rw [hdrop, nil_append]
    dsimp only
    rcases hnode.1 with ⟨hnext, hlast⟩ | ⟨hpage, hlt, hleast⟩
    · rw [if_pos hnext]
      refine .inl ⟨?_, _, rfl⟩
      rw [entries_eq_nil fun n hn _ => content_of_not_page fun hpage => Nat.not_le.2 hn (hlast n hpage)]
      rfl
    · have hne : node.indexNext ≠ 0 := by omega
      obtain ⟨next, hnextNode⟩ := hpage.exists
      obtain ⟨key, keys, hkeys⟩ := exists_cons_of_ne_nil (h.nonempty _ next hnextNode hne)
      refine .inr ⟨node.indexNext, next, 0, key, hnextNode, by rw [hkeys]; rfl, ?_, ?_⟩
      · -- no page lies between this one and the next
        have hbetween : entries dir (p + 1) node.indexNext = [] := by
          refine entries_eq_nil fun n hn hlt' => content_of_not_page fun hpage' => ?_
          exact absurd (hleast n hpage' hn) (Nat.not_le.2 hlt')
        rw [entries_eq hlt (hb _ hpage), hbetween, Directory.content_eq hnextNode, hkeys]
        simp
      · rw [if_neg hne, hnextNode]
        unfold internalDirNext
        dsimp only
        rw [hkeys]
        rfl

theorem visit_eq (n : Nat) {i : Nat} {node : DirNode K}
    (hnode : dir p = some node) (entry : K) {fuel : Nat} (hfuel : (remaining dir b p i).length < fuel) :
    (internalDirNext dir (n + 2) ⟨some node, i, entry⟩ >>= visit (internalDirNext dir (n + 2)) fuel) =
      .ok (remaining dir b p i) := by
  induction fuel generalizing p i node entry with
  | zero => cases hfuel
  | succ fuel ih =>
    rcases internalDirNext_cases h hb ⟨h.next p node hnode, .inl hnode⟩ entry n with
      ⟨hnil, cursor, hrun⟩ | ⟨q, node', j, key, hnode', -, hcons, hrun⟩
    · rw [hrun, Run.ok_bind, hnil]
      rfl
    · rw [hcons, length_cons] at hfuel
      rw [hrun, Run.ok_bind, hcons]
      unfold visit
      rw [← bind_assoc, ih hnode' key (Nat.lt_of_succ_lt_succ hfuel)]
      rfl

theorem walk_internal_eq {fuel : Nat} (hfuel : (entries dir 0 b).length + 2 ≤ fuel) (cursor : Cursor K) :
    walk (internalDirFirst dir) (internalDirNext dir) fuel cursor = .ok ((entries dir 0 b).map Prod.snd) := by
  obtain ⟨n, rfl⟩ : ∃ n, fuel = n + 2 := ⟨fuel - 2, by omega⟩
  unfold walk internalDirFirst
  cases hroot : dir 0 with
  | none =>
    rw [entries_eq_nil fun n _ _ => content_of_not_page (not_page_iff.2 (h.eq_none hroot n))]
    rfl
  | some root =>
    have hremaining : remaining dir b 0 0 = (entries dir 0 b).map Prod.snd := by
      rw [entries_eq (Nat.le_refl 0) (hb 0 (page_of_eq hroot)),
        entries_eq_nil (b := 0) fun n _ hn => absurd hn (Nat.not_lt_zero n)]
      simp [remaining]
    rw [← hremaining]
    refine visit_eq h hb n hroot cursor.entry ?_
    rw [hremaining, length_map]
    omega

end

end Walk

/-! ## Histories -/

inductive Event (K : Type) where
  | append (page : Nat) (key : K)
  | remove (page : Nat) (key : K)

section History
variable [LinearOrder K]

/-- What is left of the appended keys, in the order of their appending, each with the page that was returned for it. -/
def live (hist : List (Event K)) : List (Nat × K) :=
  hist.foldl (fun keys event =>
    match event with
    | .append page key => keys ++ [(page, key)]
    | .remove page key => keys.erase (page, key)) []

@[simp] theorem live_append (hist : List (Event K)) (page : Nat) (key : K) :
    live (hist ++ [.append page key]) = live hist ++ [(page, key)] := by
  simp [live]

@[simp] theorem live_remove (hist : List (Event K)) (page : Nat) (key : K) :
    live (hist ++ [.remove page key]) = (live hist).erase (page, key) := by
  simp [live]

/-- Every history of `dirAppend` and `dirRemove` on a directory, of which the calls that change nothing leave no
event. -/
inductive History (directory : K) : List (Event K) → Dir K → Prop where
  | empty : History directory [] (fun _ => none)
  | append {hist : List (Event K)} {dir dir' : Dir K} (fixDirectoryLimit : Bool) {page : Nat} {key : K} :
      History directory hist dir → dirAppend directory fixDirectoryLimit dir key = .ok (some page, dir') →
      History directory (hist ++ [.append page key]) dir'
  | full {hist : List (Event K)} {dir dir' : Dir K} (fixDirectoryLimit : Bool) {key : K} :
      History directory hist dir → dirAppend directory fixDirectoryLimit dir key = .ok (none, dir') →
      History directory hist dir'
  | remove {hist : List (Event K)} {dir dir' : Dir K} {page : Nat} {key : K} {keepRoot : Bool} :
      History directory hist dir → dirRemove dir page key keepRoot = .ok (true, dir') →
      History directory (hist ++ [.remove page key]) dir'
  | absent {hist : List (Event K)} {dir dir' : Dir K} {page : Nat} {key : K} {keepRoot : Bool} :
      History directory hist dir → dirRemove dir page key keepRoot = .ok (false, dir') → History directory hist dir'

variable {hist : List (Event K)}

/-- The entries are those that the history left, in order. -/
theorem History.entries_eq (h : History directory hist dir) (hb : 2 ^ 64 ≤ b) :
    WellFormed directory dir ∧ entries dir 0 b = live hist := by
  induction h with
  | empty =>
    refine ⟨wellFormed_none fun _ => rfl, entries_eq_nil fun _ _ _ => rfl⟩
  | @append hist dir dir' fixDirectoryLimit page key _ hrun ih =>
    obtain ⟨hwf, heq⟩ := ih
    unfold dirAppend at hrun
    rcases dirAdd_cases hwf true fixDirectoryLimit key with ⟨-, hthrow⟩ | hnone | ⟨p, dir'', hrun', hadded⟩
    · rw [hthrow] at hrun
      cases hrun
    · rw [hnone] at hrun
      cases hrun
    · rw [hrun'] at hrun
      cases hrun
      obtain ⟨hwf', -, habove, hcontent⟩ := hadded
      have hpage : Page dir' page := by
        refine page_of_mem_content (?_ : key ∈ _)
        rw [hcontent, Function.update_self]
        simp [withKey]
      refine ⟨hwf', ?_⟩
      rw [entries_update_append (Nat.lt_of_lt_of_le (hwf'.bound page hpage) hb) habove hcontent, heq, live_append]
  | @full hist dir dir' fixDirectoryLimit key _ hrun ih =>
    unfold dirAppend at hrun
    rcases dirAdd_cases ih.1 true fixDirectoryLimit key with ⟨-, hthrow⟩ | hnone | ⟨p, dir'', hrun', -⟩
    · rw [hthrow] at hrun
      cases hrun
    · rw [hnone] at hrun
      cases hrun
      exact ih
    · rw [hrun'] at hrun
      cases hrun
  | @remove hist dir dir' page key keepRoot _ hrun ih =>
    obtain ⟨hwf, heq⟩ := ih
    rcases dirRemove_cases hwf page key keepRoot with ⟨-, hfalse⟩ | ⟨hmem, dir'', htrue, hremoved⟩
    · rw [hfalse] at hrun
      cases hrun
    · rw [htrue] at hrun
      cases hrun
      refine ⟨hremoved.wellFormed, ?_⟩
      have hpage := hwf.bound page (page_of_mem_content hmem)
      rw [entries_update_erase (Nat.lt_of_lt_of_le hpage hb) hmem hremoved.keys, heq, live_remove]
  | @absent hist dir dir' page key keepRoot _ hrun ih =>
    rcases dirRemove_cases ih.1 page key keepRoot with ⟨-, hfalse⟩ | ⟨-, dir'', htrue, -⟩
    · rw [hfalse] at hrun
      cases hrun
      exact ih
    · rw [htrue] at hrun
      cases hrun

/-- No key is appended that is there. -/
def AppendsAbsent (hist : List (Event K)) : Prop :=
  ∀ earlier page key, earlier ++ [.append page key] <+: hist → key ∉ (live earlier).map Prod.snd

theorem AppendsAbsent.nodup (h : AppendsAbsent hist) : ((live hist).map Prod.snd).Nodup := by
  induction hist using reverseRecOn with
  | nil => exact nodup_nil
  | append_singleton hist event ih =>
    have hhist := ih fun earlier page key hle => h earlier page key (hle.trans (prefix_append hist _))
    cases event with
    | append page key =>
      have hkey := h hist page key (prefix_refl _)
      rw [live_append, map_append, nodup_append]
      refine ⟨hhist, nodup_singleton key, fun x hx y hy heq => ?_⟩
      rw [heq, mem_singleton.1 hy] at hx
      exact hkey hx
    | remove page key =>
      rw [live_remove]
      exact hhist.sublist (erase_sublist.map Prod.snd)

/-- The walk visits what is left of the appended keys, each once, in the order of their appending. -/
theorem History.walk_eq [Zero K] {hist : List (Event K)} (h : History directory hist dir) :
    (live hist).Nodup ∧ (AppendsAbsent hist → ((live hist).map Prod.snd).Nodup) ∧
      ∀ fuel cursor, (live hist).length + 2 ≤ fuel →
        walk (cdirFirst dir) (cdirNext dir) fuel cursor = .ok ((live hist).map Prod.snd) ∧
        walk (dirFirst dir) (dirNext dir) fuel cursor = .ok ((live hist).map Prod.snd) := by
  obtain ⟨b, hb⟩ : ∃ b, 2 ^ 64 ≤ b := ⟨_, Nat.le_refl _⟩
  obtain ⟨hwf, heq⟩ := h.entries_eq hb
  have hnodup : ∀ n, (content dir n).Nodup := by
    intro n
    cases hnode : dir n with
    | none =>
      rw [content_of_not_page (not_page_iff.2 hnode)]
      exact nodup_nil
    | some node =>
      rw [content_eq hnode]
      exact hwf.nodup n node hnode
  have hbound : ∀ n, Page dir n → n < b := fun n hn => Nat.lt_of_lt_of_le (hwf.bound n hn) hb
  rw [← heq]
  refine ⟨nodup_entries hnodup 0 b, fun habsent => heq ▸ habsent.nodup, fun fuel cursor hfuel => ?_⟩
  have hwalk := walk_internal_eq hwf hbound hfuel cursor
  exact ⟨hwalk, hwalk⟩

/-- Three keys are appended, and the first is removed. -/
theorem walk_three_keys : ∃ dir : Dir Nat, History 9 [.append 0 5, .append 0 6, .append 0 4, .remove 0 5] dir ∧
    walk (cdirFirst dir) (cdirNext dir) 4 ⟨none, 0, 0⟩ = .ok [6, 4] := by
  have h : ∃ dir : Dir Nat, History 9 ([] ++ [.append 0 5] ++ [.append 0 6] ++ [.append 0 4] ++ [.remove 0 5]) dir :=
    ⟨_, .remove (.append true (.append true (.append true .empty rfl) rfl) rfl) (rfl : dirRemove _ 0 5 true = _)⟩
  obtain ⟨dir, h⟩ := h
  exact ⟨dir, h, ((History.walk_eq h).2.2 4 ⟨none, 0, 0⟩ (Nat.le_refl 4)).1⟩

end History

end Rippled.Directory
