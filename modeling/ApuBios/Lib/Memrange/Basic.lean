import ApuBios.Library.Word
import ApuBios.Library.IntervalMap

/-!
# Memory ranges

Model of `src/lib/memrange.c`: a sorted list of tagged address ranges kept up to date by
insertion, hole punching and retagging. Addresses are `resource_t`, 64-bit unsigned words, and
the arithmetic on them wraps.

The singly linked list of `struct range_entry` is a Lean list. Unlinked entries go to a pool
from which later entries are taken; every field of a pooled entry is overwritten before it is
linked again, so the pool is not part of the state.
-/

namespace ApuBios.Memrange

open IntervalMap

/-- `struct range_entry`; `end_` is inclusive. -/
structure RangeEntry where
  begin : ℕ
  end_ : ℕ
  tag : ℕ
  deriving DecidableEq, Repr

instance : Spanned RangeEntry ℕ where
  lo := RangeEntry.begin
  hi := RangeEntry.end_
  val := RangeEntry.tag
  ext e f hlo hhi hval := by cases e; cases f; simp_all

@[simp] lemma lo_eq (e : RangeEntry) : Spanned.lo e = e.begin := rfl
@[simp] lemma hi_eq (e : RangeEntry) : Spanned.hi e = e.end_ := rfl
@[simp] lemma val_eq (e : RangeEntry) : Spanned.val e = e.tag := rfl

/-- `struct memranges`. -/
structure Memranges where
  entries : List RangeEntry
  deriving DecidableEq, Repr

/-- The loop of `merge_neighbor_entries` once `prev` is set. -/
def mergeNeighborLoop (prev : RangeEntry) : List RangeEntry → List RangeEntry
  | [] => [prev]
  | cur :: next =>
    if cur.begin ≤ Word.add 64 prev.end_ 1 ∧ prev.tag = cur.tag then
      mergeNeighborLoop { prev with end_ := cur.end_ } next
    else
      prev :: mergeNeighborLoop cur next

def mergeNeighborEntries (ranges : Memranges) : Memranges :=
  match ranges.entries with
  | [] => ranges
  | first :: rest => ⟨mergeNeighborLoop first rest⟩

/-- The loop of `remove_memranges`; `begin` moves up past the holes as entries are visited. -/
def removeLoop (begin end_ : ℕ) : List RangeEntry → List RangeEntry
  | [] => []
  | cur :: next =>
    if end_ < cur.begin then
      cur :: next
    else if cur.end_ < begin then
      cur :: removeLoop begin end_ next
    else if begin ≤ cur.begin ∧ cur.end_ ≤ end_ then
      -- full removal
      removeLoop (Word.add 64 cur.end_ 1) end_ next
    else
      let begin := if begin ≤ cur.begin then cur.begin else begin
      let tmpEnd := if cur.end_ < end_ then cur.end_ else end_
      if cur.begin < begin ∧ tmpEnd < cur.end_ then
        -- hole punched in the middle of the entry
        { cur with end_ := Word.sub 64 begin 1 } ::
          ⟨Word.add 64 end_ 1, cur.end_, cur.tag⟩ :: next
      else
        let cur := if begin = cur.begin then { cur with begin := Word.add 64 tmpEnd 1 } else cur
        let cur := if tmpEnd = cur.end_ then { cur with end_ := Word.sub 64 begin 1 } else cur
        cur :: removeLoop begin end_ next

def removeMemranges (ranges : Memranges) (begin end_ _unused : ℕ) : Memranges :=
  ⟨removeLoop begin end_ ranges.entries⟩

/-- Link a new entry in front of the first one that begins after it ends. -/
def addLoop (new : RangeEntry) : List RangeEntry → List RangeEntry
  | [] => [new]
  | cur :: next => if new.end_ < cur.begin then new :: cur :: next else cur :: addLoop new next

def mergeAddMemranges (ranges : Memranges) (begin end_ tag : ℕ) : Memranges :=
  let ranges := removeMemranges ranges begin end_ (2 ^ 32 - 1)
  mergeNeighborEntries ⟨addLoop ⟨begin, end_, tag⟩ ranges.entries⟩

def memrangesUpdateTag (ranges : Memranges) (oldTag newTag : ℕ) : Memranges :=
  mergeNeighborEntries
    ⟨ranges.entries.map fun r => if r.tag = oldTag then { r with tag := newTag } else r⟩

/-- The new entry between `prev` and `cur`, if there is a hole. -/
def fillHole (limit tag : ℕ) (prev cur : RangeEntry) : List RangeEntry :=
  if Word.add 64 prev.end_ 1 ≠ cur.begin then
    let end_ := Word.sub 64 cur.begin 1
    let end_ := if limit ≤ end_ then Word.sub 64 limit 1 else end_
    [⟨Word.add 64 prev.end_ 1, end_, tag⟩]
  else []

/-- The new entry behind the last entry that was visited. -/
def fillRest (limit tag : ℕ) (prev : RangeEntry) : List RangeEntry :=
  if Word.add 64 prev.end_ 1 < limit then
    [⟨Word.add 64 prev.end_ 1, Word.sub 64 limit 1, tag⟩]
  else []

/-- The loop of `memranges_fill_holes_up_to` once `prev` is set, and what is added behind it. -/
def fillLoop (limit tag : ℕ) (prev : RangeEntry) : List RangeEntry → List RangeEntry
  | [] => prev :: fillRest limit tag prev
  | cur :: next =>
    prev :: (fillHole limit tag prev cur ++
      if limit ≤ cur.begin then cur :: (fillRest limit tag cur ++ next)
      else fillLoop limit tag cur next)

def memrangesFillHolesUpTo (ranges : Memranges) (limit tag : ℕ) : Memranges :=
  match ranges.entries with
  | [] => mergeNeighborEntries ranges
  | first :: rest => mergeNeighborEntries ⟨fillLoop limit tag first rest⟩

/-- Apply `action` to the smallest range of whole pages that contains `[base, base + size)`. -/
def doAction (ranges : Memranges) (base size tag : ℕ)
    (action : Memranges → ℕ → ℕ → ℕ → Memranges) : Memranges :=
  let begin := Word.alignDown 64 base 4096
  let end_ := Word.add 64 (Word.add 64 begin size) (Word.sub 64 base begin)
  let end_ := Word.sub 64 (Word.alignUp 64 end_ 4096) 1
  action ranges begin end_ tag

def memrangesCreateHole (ranges : Memranges) (base size : ℕ) : Memranges :=
  doAction ranges base size (2 ^ 32 - 1) removeMemranges

def memrangesInsert (ranges : Memranges) (base size tag : ℕ) : Memranges :=
  doAction ranges base size tag mergeAddMemranges

/-! ### Runs -/

/-- A call into the module. -/
inductive Call where
  | insert (base size tag : ℕ)
  | createHole (base size : ℕ)
  | updateTag (oldTag newTag : ℕ)
  deriving DecidableEq, Repr

def Call.exec (ranges : Memranges) : Call → Memranges
  | .insert base size tag => memrangesInsert ranges base size tag
  | .createHole base size => memrangesCreateHole ranges base size
  | .updateTag oldTag newTag => memrangesUpdateTag ranges oldTag newTag

/-- The range is nonempty and ends within the 64-bit address space. -/
def Call.InBounds : Call → Prop
  | .insert base size _ => 0 < size ∧ base + size ≤ 2 ^ 64
  | .createHole base size => 0 < size ∧ base + size ≤ 2 ^ 64
  | .updateTag _ _ => True

instance (c : Call) : Decidable c.InBounds := by
  cases c <;> unfold Call.InBounds <;> infer_instance

/-- The state after a sequence of calls on an empty `struct memranges`. -/
def run (calls : List Call) : Memranges := calls.foldl Call.exec ⟨[]⟩

/-! ### The map a range list stands for -/

/-- The tag of every address that lies in some entry. -/
def Memranges.denote (ranges : Memranges) : ℕ → Option ℕ := lookup ranges.entries

/-- First address of the pages that `[base, base + size)` touches. -/
def pageBegin (base : ℕ) : ℕ := base / 4096 * 4096

/-- First address after the pages that `[base, base + size)` touches. -/
def pageEnd (base size : ℕ) : ℕ := (base + size + 4095) / 4096 * 4096

/-- What a call is for: its effect on the map from addresses to tags. -/
def Call.effect (m : ℕ → Option ℕ) : Call → ℕ → Option ℕ
  | .insert base size tag, a => if pageBegin base ≤ a ∧ a < pageEnd base size then some tag else m a
  | .createHole base size, a => if pageBegin base ≤ a ∧ a < pageEnd base size then none else m a
  | .updateTag oldTag newTag, a => if m a = some oldTag then some newTag else m a

/-- The shape every range list keeps between calls. -/
structure Memranges.IsCanonical (ranges : Memranges) : Prop where
  begin_le : ∀ e ∈ ranges.entries, e.begin ≤ e.end_
  fits : ∀ e ∈ ranges.entries, e.end_ < 2 ^ 64
  begin_page : ∀ e ∈ ranges.entries, 4096 ∣ e.begin
  end_page : ∀ e ∈ ranges.entries, 4096 ∣ e.end_ + 1
  sorted : ranges.entries.Pairwise fun e f => e.end_ < f.begin
  coalesced : ranges.entries.Pairwise fun e f => e.end_ + 1 = f.begin → e.tag ≠ f.tag

end ApuBios.Memrange
