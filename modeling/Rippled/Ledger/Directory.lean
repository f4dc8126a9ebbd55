import Mathlib.Algebra.Group.Nat.Defs
import Mathlib.Data.List.Sort
import Rippled.Ledger.View

/-!
# Directories

A directory is a list of keys, kept in pages that are linked in a circle from the root, which is page 0. `Dir` is what
a view has of one directory: its pages by number, since `keylet::page` gives each number a key of its own. What a view
does with a page it does as a table of changes: an entry that is inserted must be absent, one that is updated or
erased must be there. A page that was fetched with `peek` is changed in place, so that two pointers to one page see
the same changes. `describe` sets fields of a new page that no function here reads, and is left out.
-/

namespace Rippled.Directory

open Lib View

variable {K : Type} [LinearOrder K]

structure DirNode (K : Type) where
  rootIndex : K
  indexes : List K := []
  indexNext : Nat := 0
  indexPrevious : Nat := 0
  deriving DecidableEq

abbrev Dir (K : Type) := Nat → Option (DirNode K)

def kDirNodeMaxEntries : Nat := 32
def kDirNodeMaxPages : Nat := 262144

def logicError {α : Type} (what : String) : Run Exception α := Run.throw (.logicError what)

variable (dir : Dir K)

namespace Dir

def insert (dir : Dir K) (page : Nat) (node : DirNode K) : Run Exception (Dir K) :=
  if (dir page).isSome then logicError "ApplyStateTable::insert: already inserted"
  else .ok (Function.update dir page (some node))

/-- Fields of a page are set, and the page is given to `update`. -/
def update (page : Nat) (set : DirNode K → DirNode K) : Run Exception (Dir K) :=
  match dir page with
  | none => logicError "ApplyStateTable::update: missing key"
  | some node => .ok (Function.update dir page (some (set node)))

def erase (dir : Dir K) (page : Nat) : Run Exception (Dir K) :=
  if (dir page).isSome then .ok (Function.update dir page none)
  else logicError "ApplyStateTable::erase: missing key"

end Dir

section Model
variable (directory : K) (fixDirectoryLimit : Bool) (dir : Dir K)

def createRoot (key : K) : Run Exception (Nat × Dir K) := do
  let dir ← dir.insert 0 { rootIndex := directory, indexes := [key] }
  return (0, dir)

def findPreviousPage (start : DirNode K) : Run Exception (Nat × DirNode K) :=
  let page := start.indexPrevious
  if page ≠ 0 then
    match dir page with
    | none => logicError "Directory chain: root back-pointer broken."
    | some node => .ok (page, node)
  else .ok (page, start)

/-- The keys of a page with a new one among them. -/
def withKey (preserveOrder : Bool) (indexes : List K) (key : K) : List K :=
  if preserveOrder then indexes ++ [key] else (indexes.insertionSort (· ≤ ·)).orderedInsert (· ≤ ·) key

def insertKey (node : DirNode K) (page : Nat) (preserveOrder : Bool) (key : K) : Run Exception (Nat × Dir K) := do
  if key ∈ node.indexes then logicError "dirInsert: double insertion"
  else
    let dir ← dir.update page fun node => { node with indexes := withKey preserveOrder node.indexes key }
    return (page, dir)

/-- The part of `insertPage` that links the page `page'` into the chain after `page`; `next` is the root. -/
def attachPage (page page' : Nat) (key : K) : Run Exception (Dir K) := do
  let dir ← dir.update page fun node => { node with indexNext := page' }
  let dir ← dir.update 0 fun next => { next with indexPrevious := page' }
  dir.insert page' { rootIndex := directory, indexes := [key], indexPrevious := if page' ≠ 1 then page' - 1 else 0 }

/-- `insertPage`. Page numbers are of type `std::uint64_t`. -/
def insertPage (page : Nat) (key : K) : Run Exception (Option Nat × Dir K) := do
  let page' := (page + 1) % 2 ^ 64
  if page' = 0 then return (none, dir)
  else if !fixDirectoryLimit && decide (page' ≥ kDirNodeMaxPages) then return (none, dir)
  else
    let dir ← attachPage directory dir page page' key
    return (some page', dir)

def dirAdd (preserveOrder : Bool) (dir : Dir K) (key : K) : Run Exception (Option Nat × Dir K) := do
  match dir 0 with
  | none =>
    let (page, dir) ← createRoot directory dir key
    return (some page, dir)
  | some root =>
    let (page, node) ← findPreviousPage dir root
    if node.indexes.length < kDirNodeMaxEntries then
      let (page, dir) ← insertKey dir node page preserveOrder key
      return (some page, dir)
    else insertPage directory fixDirectoryLimit dir page key

def dirAppend (key : K) : Run Exception (Option Nat × Dir K) :=
  dirAdd directory fixDirectoryLimit true dir key

def dirInsert (key : K) : Run Exception (Option Nat × Dir K) :=
  dirAdd directory fixDirectoryLimit false dir key

def emptyDirDelete : Run Exception (Bool × Dir K) := do
  match dir 0 with
  | none => return (false, dir)
  | some node =>
    if node.rootIndex ≠ directory then return (false, dir)
    else if node.indexes ≠ [] then return (false, dir)
    else if node.indexNext = 0 ∧ node.indexPrevious ≠ 0 then logicError "Directory chain: fwd link broken"
    else if node.indexPrevious = 0 ∧ node.indexNext ≠ 0 then logicError "Directory chain: rev link broken"
    else if node.indexNext = node.indexPrevious ∧ node.indexNext ≠ 0 then
      match dir node.indexNext with
      | none => logicError "Directory chain: fwd link broken."
      | some last =>
        if last.indexes ≠ [] then return (false, dir)
        else
          let dir ← dir.update 0 fun node => { node with indexNext := 0, indexPrevious := 0 }
          let dir ← dir.erase node.indexNext
          -- no other pages are left
          let dir ← dir.erase 0
          return (true, dir)
    else if node.indexNext = 0 ∧ node.indexPrevious = 0 then
      let dir ← dir.erase 0
      return (true, dir)
    else return (true, dir)

end Model

/-- The part of `dirRemove` that removes the last page if it is empty, next to an empty root: the neighbours of the root
after it. -/
def dropEmptyLast (nextPage prevPage : Nat) : Run Exception (Nat × Nat × Dir K) := do
  if nextPage = prevPage ∧ nextPage ≠ 0 then
    match dir nextPage with
    | none => logicError "Directory chain: fwd link broken."
    | some last =>
      if last.indexes = [] then
        let dir ← dir.update 0 fun node => { node with indexNext := 0, indexPrevious := 0 }
        let dir ← dir.erase nextPage
        return (0, 0, dir)
      else return (nextPage, prevPage, dir)
  else return (nextPage, prevPage, dir)

/-- The end of `dirRemove` for an emptied root page `node`. -/
def removeRoot (node : DirNode K) (keepRoot : Bool) : Run Exception (Bool × Dir K) := do
  if node.indexNext = 0 ∧ node.indexPrevious ≠ 0 then logicError "Directory chain: fwd link broken"
  else if node.indexPrevious = 0 ∧ node.indexNext ≠ 0 then logicError "Directory chain: rev link broken"
  else
    let (nextPage, prevPage, dir) ← dropEmptyLast dir node.indexNext node.indexPrevious
    if keepRoot then return (true, dir)
    else if nextPage = 0 ∧ prevPage = 0 then
      let dir ← dir.erase 0
      return (true, dir)
    else return (true, dir)

/-- The part of `dirRemove` that removes the page after the one that is gone, if it is the last one and empty: the page
after it. -/
def dropEmptyNext (prevPage nextPage : Nat) (next : DirNode K) : Run Exception (Nat × Dir K) := do
  if nextPage ≠ 0 ∧ next.indexNext = 0 ∧ next.indexes = [] then
    let dir ← dir.erase nextPage
    let dir ← dir.update prevPage fun prev => { prev with indexNext := 0 }
    if (dir 0).isNone then logicError "Directory chain: root link broken."
    else
      let dir ← dir.update 0 fun root => { root with indexPrevious := prevPage }
      return (0, dir)
  else return (nextPage, dir)

/-- The part of `dirRemove` that removes the root if nothing else is left. -/
def dropRoot (prevPage nextPage : Nat) (keepRoot : Bool) : Run Exception (Bool × Dir K) := do
  if !keepRoot && decide (nextPage = 0) && decide (prevPage = 0) then
    match dir prevPage with
    | none => Run.throw .nullPointer
    | some prev =>
      if prev.indexes = [] then
        let dir ← dir.erase prevPage
        return (true, dir)
      else return (true, dir)
  else return (true, dir)

/-- The end of `dirRemove` for an emptied page `node` other than the root. -/
def removePage (page : Nat) (node : DirNode K) (keepRoot : Bool) : Run Exception (Bool × Dir K) := do
  let prevPage := node.indexPrevious
  let nextPage := node.indexNext
  if nextPage = page then logicError "Directory chain: fwd link broken"
  else if prevPage = page then logicError "Directory chain: rev link broken"
  else if (dir prevPage).isNone then logicError "Directory chain: fwd link broken."
  else
    let dir ← dir.update prevPage fun prev => { prev with indexNext := nextPage }
    match dir nextPage with
    | none => logicError "Directory chain: rev link broken."
    | some next =>
      let dir ← dir.update nextPage fun next => { next with indexPrevious := prevPage }
      let dir ← dir.erase page
      let (nextPage, dir) ← dropEmptyNext dir prevPage nextPage next
      dropRoot dir prevPage nextPage keepRoot

def dirRemove (page : Nat) (key : K) (keepRoot : Bool) : Run Exception (Bool × Dir K) := do
  match dir page with
  | none => return (false, dir)
  | some node =>
    if key ∉ node.indexes then return (false, dir)
    else
      let node := { node with indexes := node.indexes.erase key }
      let dir ← dir.update page fun _ => node
      if node.indexes ≠ [] then return (true, dir)
      else if page = 0 then removeRoot dir node keepRoot
      else removePage dir page node keepRoot

end Rippled.Directory
