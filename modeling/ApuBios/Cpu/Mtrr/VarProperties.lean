import ApuBios.Cpu.Mtrr.VarEntry

/-!
# Prediction and programming of the variable registers

The count is right as long as each entry is covered in the way it was counted. That is the case
unless a tag remembers a hole from the first count, and the second count, after the
write-combining entries became uncacheable, prefers no hole.
-/

namespace ApuBios.Mtrr

open Memrange

variable {above4gb : Bool} {totalMtrrs : ℕ}

/-! ### Tags -/

/-- The hole is the better way to cover the entry when UC is the default type. -/
def PrefersHole (above4gb : Bool) (r : RangeEntry) (next : Option RangeEntry) : Prop :=
  rangeEntryMtrrType r = MTRR_TYPE_WRBACK ∧ holeCount above4gb r next ≤ noHoleCount above4gb r

instance (above4gb : Bool) (r : RangeEntry) (next : Option RangeEntry) :
    Decidable (PrefersHole above4gb r next) := inferInstanceAs (Decidable (_ ∧ _))

/-- The tag that `__calc_var_mtrrs` leaves. -/
def markEntry (above4gb : Bool) (r : RangeEntry) (next : Option RangeEntry) : RangeEntry :=
  if PrefersHole above4gb r next then
    { r with tag := rangeEntryMtrrType r ||| MTRR_RANGE_UC_USE_HOLE }
  else r

def markAll (above4gb : Bool) : List RangeEntry → List RangeEntry
  | [] => []
  | r :: rest => markEntry above4gb r rest.head? :: markAll above4gb rest

lemma usesHole_iff (r : RangeEntry) : RangeEntry.UsesHole r ↔ r.tag.testBit 8 = true := by
  rw [RangeEntry.UsesHole, MTRR_RANGE_UC_USE_HOLE, Nat.and_two_pow]
  cases r.tag.testBit 8 <;> simp

/-- No hole is remembered in a tag that is only a type. -/
lemma not_usesHole {r : RangeEntry} (h : r.tag < 2 ^ 8) : ¬RangeEntry.UsesHole r := by
  rw [usesHole_iff, Nat.testBit_lt_two_pow h]
  exact Bool.false_ne_true

/-- Entries that are covered by the same registers. -/
structure SameCover (r r' : RangeEntry) : Prop where
  begin_eq : r.begin = r'.begin
  end_eq : r.end_ = r'.end_
  type_eq : rangeEntryMtrrType r = rangeEntryMtrrType r'

lemma markEntry_sameCover (above4gb : Bool) (r : RangeEntry) (next : Option RangeEntry) :
    SameCover (markEntry above4gb r next) r := by
  rw [markEntry]
  split_ifs with h
  · have htype : (MTRR_TYPE_WRBACK ||| MTRR_RANGE_UC_USE_HOLE) &&& MTRR_TAG_MASK =
        MTRR_TYPE_WRBACK := by decide
    exact ⟨rfl, rfl, by rw [h.1]; exact htype⟩
  · exact ⟨rfl, rfl, rfl⟩

lemma markEntry_usesHole (above4gb : Bool) (r : RangeEntry) (next : Option RangeEntry) :
    RangeEntry.UsesHole (markEntry above4gb r next) ↔
      PrefersHole above4gb r next ∨ RangeEntry.UsesHole r := by
  rw [markEntry]
  split_ifs with h
  · have hbit : (MTRR_TYPE_WRBACK ||| MTRR_RANGE_UC_USE_HOLE).testBit 8 = true := by decide
    rw [usesHole_iff, h.1]
    exact iff_of_true hbit (Or.inl h)
  · exact (or_iff_right h).symm

lemma noHoleCount_congr {r r' : RangeEntry} (h : SameCover r r') :
    noHoleCount above4gb r = noHoleCount above4gb r' := by
  obtain ⟨begin, end_, tag⟩ := r
  obtain ⟨begin', end', tag'⟩ := r'
  obtain ⟨rfl, rfl, htype⟩ := h
  rw [noHoleCount, calcVarMtrrsWithoutHole, htype]
  rfl

lemma holeCount_congr {r r' : RangeEntry} {next next' : Option RangeEntry} (h : SameCover r r')
    (hnext : Option.Rel SameCover next next') :
    holeCount above4gb r next = holeCount above4gb r' next' := by
  obtain ⟨begin, end_, tag⟩ := r
  obtain ⟨begin', end', tag'⟩ := r'
  obtain ⟨rfl, rfl, htype⟩ := h
  rw [holeCount, holeCount, withHole_eq, withHole_eq, htype]
  cases hnext with
  | none => rfl
  | @some n n' hn =>
    obtain ⟨-, hend, htype'⟩ := hn
    have hroom : ∀ a d, NoRoom a d ⟨begin, end_, tag⟩ (some n) ↔
        NoRoom a d ⟨begin, end_, tag'⟩ (some n') := by
      intro a d
      simp only [NoRoom, Option.mem_some_iff, exists_eq_left', htype', rangeEntryEndMtrrAddr, hend]
      rfl
    have hbeyond : ∀ a r n, ¬CoveredBeyond a r (some n) := fun a r n h => Option.some_ne_none n h.2.1
    simp only [if_neg (hbeyond _ _ _), hroom]
    rfl

lemma markAll_head (above4gb : Bool) (l : List RangeEntry) :
    Option.Rel SameCover (markAll above4gb l).head? l.head? := by
  cases l with
  | nil => exact .none
  | cons r rest => exact .some (markEntry_sameCover above4gb r rest.head?)

/-! ### Counting -/

/-- The registers that the entries need when WB is the default type. -/
def wbNeed (above4gb : Bool) : List RangeEntry → ℕ
  | [] => 0
  | r :: rest =>
    (if rangeEntryMtrrType r = MTRR_TYPE_WRBACK then 0 else noHoleCount above4gb r) +
      wbNeed above4gb rest

/-- The registers that the entries need when UC is the default type. -/
def ucNeed (above4gb : Bool) : List RangeEntry → ℕ
  | [] => 0
  | r :: rest =>
    (if rangeEntryMtrrType r = MTRR_TYPE_UNCACHEABLE then 0
      else if PrefersHole above4gb r rest.head? then holeCount above4gb r rest.head?
      else noHoleCount above4gb r) + ucNeed above4gb rest

/-- The registers that the entries take when UC is the default type. -/
def ucTaken (above4gb : Bool) : List RangeEntry → ℕ
  | [] => 0
  | r :: rest =>
    (if rangeEntryMtrrType r = MTRR_TYPE_UNCACHEABLE then 0
      else if RangeEntry.UsesHole r then holeCount above4gb r rest.head?
      else noHoleCount above4gb r) + ucTaken above4gb rest

lemma calcVarMtrrsLoop_eq (s : VarMtrrState) (l : List RangeEntry) :
    calcVarMtrrsLoop totalMtrrs s l =
      ⟨markAll s.above4gb l, wbNeed s.above4gb l, ucNeed s.above4gb l⟩ := by
  induction l with
  | nil => rfl
  | cons r rest ih =>
    obtain ⟨regs, hwb⟩ := withoutHole_spec totalMtrrs
      { s with defMtrrType := MTRR_TYPE_WRBACK, mtrrIndex := 0 } r
    obtain ⟨regs', huc⟩ := withoutHole_spec totalMtrrs
      { s with defMtrrType := MTRR_TYPE_UNCACHEABLE, mtrrIndex := 0 } r
    obtain ⟨regs'', hhole⟩ := withHole_spec totalMtrrs
      (s := { s with defMtrrType := MTRR_TYPE_UNCACHEABLE, mtrrIndex := 0 }) r rest.head? rfl
    have hlt := noHoleCount_lt s.above4gb r
    simp only [calcVarMtrrsLoop, hwb, huc, hhole, ih, Nat.zero_add, markAll, wbNeed, ucNeed]
    by_cases hback : rangeEntryMtrrType r = MTRR_TYPE_WRBACK
    · have hne : MTRR_TYPE_WRBACK ≠ MTRR_TYPE_UNCACHEABLE := by decide
      by_cases hle : holeCount s.above4gb r rest.head? ≤ noHoleCount s.above4gb r
      · have hprefers : PrefersHole s.above4gb r rest.head? := ⟨hback, hle⟩
        simp [hback, hprefers, markEntry, hne, hle]
      · have hprefers : ¬PrefersHole s.above4gb r rest.head? := fun h => hle h.2
        simp [hback, hprefers, markEntry, hne, not_le.mp hle]
    · have hprefers : ¬PrefersHole s.above4gb r rest.head? := fun h => hback h.1
      simp [hback, hprefers, markEntry, hlt]

lemma calcVarMtrrsCounts_eq (regs : ℕ → VarMtrr) (addrSpace : Memranges) (addressBits : ℕ) :
    calcVarMtrrsCounts totalMtrrs regs addrSpace above4gb addressBits =
      ⟨markAll above4gb addrSpace.entries, wbNeed above4gb addrSpace.entries,
        ucNeed above4gb addrSpace.entries⟩ :=
  calcVarMtrrsLoop_eq _ _

/-! ### Writing -/

lemma commitLoop_uc (l : List RangeEntry) {s : VarMtrrState}
    (hd : s.defMtrrType = MTRR_TYPE_UNCACHEABLE) :
    (commitLoop totalMtrrs s l).mtrrIndex = s.mtrrIndex + ucTaken s.above4gb l := by
  induction l generalizing s with
  | nil => rfl
  | cons r rest ih =>
    rw [commitLoop, ucTaken, hd]
    by_cases htype : rangeEntryMtrrType r = MTRR_TYPE_UNCACHEABLE
    · rw [if_pos htype, if_pos htype, ih hd, Nat.zero_add]
    · rw [if_neg htype, if_neg htype]
      by_cases hhole : RangeEntry.UsesHole r
      · obtain ⟨regs, heq⟩ := withHole_spec totalMtrrs r rest.head? hd
        rw [if_pos ⟨rfl, hhole⟩, if_pos hhole, heq]
        exact Eq.trans (ih (by exact hd)) (Nat.add_assoc _ _ _)
      · obtain ⟨regs, heq⟩ := withoutHole_spec totalMtrrs s r
        rw [if_neg fun h => hhole h.2, if_neg hhole, heq]
        exact Eq.trans (ih (by exact hd)) (Nat.add_assoc _ _ _)

lemma commitLoop_wb (l : List RangeEntry) {s : VarMtrrState}
    (hd : s.defMtrrType = MTRR_TYPE_WRBACK) :
    (commitLoop totalMtrrs s l).mtrrIndex = s.mtrrIndex + wbNeed s.above4gb l := by
  induction l generalizing s with
  | nil => rfl
  | cons r rest ih =>
    have hne : ¬(MTRR_TYPE_WRBACK = MTRR_TYPE_UNCACHEABLE ∧ RangeEntry.UsesHole r) :=
      fun h => absurd h.1 (by decide)
    rw [commitLoop, wbNeed, hd, if_neg hne]
    by_cases htype : rangeEntryMtrrType r = MTRR_TYPE_WRBACK
    · rw [if_pos htype, if_pos htype, ih hd, Nat.zero_add]
    · obtain ⟨regs, heq⟩ := withoutHole_spec totalMtrrs s r
      rw [if_neg htype, if_neg htype, heq]
      exact Eq.trans (ih (by exact hd)) (Nat.add_assoc _ _ _)

/-! ### Remembered holes -/

/-- Some entry is to be covered with a hole although that takes more registers. -/
def StaleHole (above4gb : Bool) : List RangeEntry → Prop
  | [] => False
  | r :: rest =>
    (RangeEntry.UsesHole r ∧ noHoleCount above4gb r < holeCount above4gb r rest.head?) ∨
      StaleHole above4gb rest

/-- Holes are for WB entries. -/
def HolesInWrback (l : List RangeEntry) : Prop :=
  ∀ r ∈ l, RangeEntry.UsesHole r → rangeEntryMtrrType r = MTRR_TYPE_WRBACK

lemma wbNeed_markAll (l : List RangeEntry) :
    wbNeed above4gb (markAll above4gb l) = wbNeed above4gb l := by
  induction l with
  | nil => rfl
  | cons r rest ih =>
    have hsame := markEntry_sameCover above4gb r rest.head?
    rw [markAll, wbNeed, wbNeed, ih, hsame.type_eq, noHoleCount_congr hsame]

/-- What one entry takes is what it was counted with, or more because of a remembered hole. -/
lemma taken_markEntry (above4gb : Bool) {r : RangeEntry} (next : Option RangeEntry)
    (h : RangeEntry.UsesHole r → rangeEntryMtrrType r = MTRR_TYPE_WRBACK) :
    (if PrefersHole above4gb r next then holeCount above4gb r next
        else noHoleCount above4gb r) ≤
      (if PrefersHole above4gb r next ∨ RangeEntry.UsesHole r then holeCount above4gb r next
        else noHoleCount above4gb r) ∧
    ((if PrefersHole above4gb r next ∨ RangeEntry.UsesHole r then holeCount above4gb r next
        else noHoleCount above4gb r) =
      (if PrefersHole above4gb r next then holeCount above4gb r next
        else noHoleCount above4gb r) ↔
      ¬(RangeEntry.UsesHole r ∧ noHoleCount above4gb r < holeCount above4gb r next)) := by
  by_cases hprefers : PrefersHole above4gb r next
  · have hle := hprefers.2
    rw [if_pos hprefers, if_pos (Or.inl hprefers)]
    exact ⟨le_rfl, iff_of_true rfl fun hstale => absurd hstale.2 (not_lt.mpr hle)⟩
  · by_cases huses : RangeEntry.UsesHole r
    · have hlt : noHoleCount above4gb r < holeCount above4gb r next :=
        not_le.mp fun hle => hprefers ⟨h huses, hle⟩
      rw [if_neg hprefers, if_pos (Or.inr huses)]
      exact ⟨hlt.le, iff_of_false hlt.ne' (not_not_intro ⟨huses, hlt⟩)⟩
    · rw [if_neg hprefers, if_neg (not_or.mpr ⟨hprefers, huses⟩)]
      exact ⟨le_rfl, iff_of_true rfl fun hstale => huses hstale.1⟩

lemma ucTaken_markAll (above4gb : Bool) {l : List RangeEntry} (h : HolesInWrback l) :
    ucNeed above4gb l ≤ ucTaken above4gb (markAll above4gb l) ∧
      (ucTaken above4gb (markAll above4gb l) = ucNeed above4gb l ↔ ¬StaleHole above4gb l) := by
  induction l with
  | nil => exact ⟨le_rfl, iff_of_true rfl id⟩
  | cons r rest ih =>
    obtain ⟨hle, hiff⟩ := ih fun r' hr' => h r' (List.mem_cons_of_mem _ hr')
    have hsame := markEntry_sameCover above4gb r rest.head?
    obtain ⟨hle', hiff'⟩ := taken_markEntry above4gb rest.head? (h r (by simp))
    simp only [markAll, ucTaken, ucNeed, hsame.type_eq, noHoleCount_congr hsame,
      holeCount_congr hsame (markAll_head above4gb rest), markEntry_usesHole, StaleHole, not_or]
    by_cases htype : rangeEntryMtrrType r = MTRR_TYPE_UNCACHEABLE
    · have hnot : ¬RangeEntry.UsesHole r := fun huses =>
        absurd (htype.symm.trans (h r (by simp) huses)) (by decide)
      rw [if_pos htype, if_pos htype]
      simp only [hnot, false_and, not_false_eq_true, true_and, Nat.zero_add]
      exact ⟨hle, hiff⟩
    · rw [if_neg htype, if_neg htype, ← hiff, ← hiff']
      refine ⟨Nat.add_le_add hle' hle, fun heq => ?_, fun heq => ?_⟩
      · omega
      · omega

/-- Merging makes no new tags. -/
lemma exists_tag_of_mem_mergeNeighborLoop {prev e : RangeEntry} {l : List RangeEntry}
    (h : e ∈ mergeNeighborLoop prev l) : ∃ r ∈ prev :: l, e.tag = r.tag := by
  induction l generalizing prev with
  | nil => exact ⟨prev, by simp, by rw [List.mem_singleton.mp h]⟩
  | cons cur next ih =>
    rw [mergeNeighborLoop] at h
    split_ifs at h with hmerge
    · obtain ⟨r, hr, htag⟩ := ih h
      rcases List.mem_cons.mp hr with rfl | hr
      · exact ⟨prev, by simp, htag⟩
      · exact ⟨r, by simp [hr], htag⟩
    · rcases List.mem_cons.mp h with rfl | h
      · exact ⟨e, by simp, rfl⟩
      · obtain ⟨r, hr, htag⟩ := ih h
        exact ⟨r, List.mem_cons_of_mem _ hr, htag⟩

lemma exists_tag_of_mem_memrangesUpdateTag {l : List RangeEntry} {oldTag newTag : ℕ}
    {e : RangeEntry} (h : e ∈ (memrangesUpdateTag ⟨l⟩ oldTag newTag).entries) :
    e.tag = newTag ∨ ∃ r ∈ l, e.tag = r.tag := by
  obtain ⟨r, hr, htag⟩ : ∃ r ∈ l.map fun r => if r.tag = oldTag then { r with tag := newTag } else r,
      e.tag = r.tag := by
    rw [memrangesUpdateTag, mergeNeighborEntries] at h
    cases hmap : l.map fun r => if r.tag = oldTag then { r with tag := newTag } else r with
    | nil =>
      rw [hmap] at h
      cases h
    | cons first rest =>
      rw [hmap] at h
      exact exists_tag_of_mem_mergeNeighborLoop h
  obtain ⟨r', hr', rfl⟩ := List.mem_map.mp hr
  split_ifs at htag with hold
  · exact Or.inl htag
  · exact Or.inr ⟨r', hr', htag⟩

/-- The tags hold a type only, as they do when the address space is built. -/
def TypesOnly (l : List RangeEntry) : Prop := ∀ r ∈ l, r.tag < 2 ^ 8

instance (l : List RangeEntry) : Decidable (TypesOnly l) := inferInstanceAs (Decidable (∀ r ∈ l, _))

lemma TypesOnly.holesInWrback {l : List RangeEntry} (h : TypesOnly l) : HolesInWrback l :=
  fun r hr huses => absurd huses (not_usesHole (h r hr))

lemma TypesOnly.not_staleHole {l : List RangeEntry} (h : TypesOnly l) :
    ¬StaleHole above4gb l := by
  induction l with
  | nil => exact id
  | cons r rest ih =>
    rintro (hr | hrest)
    · exact not_usesHole (h r (by simp)) hr.1
    · exact ih (fun r' hr' => h r' (List.mem_cons_of_mem _ hr')) hrest

lemma HolesInWrback.markAll {l : List RangeEntry} (h : HolesInWrback l) :
    HolesInWrback (markAll above4gb l) := by
  induction l with
  | nil => exact h
  | cons r rest ih =>
    intro r' hr' huses
    rcases List.mem_cons.mp hr' with rfl | hr'
    · rw [(markEntry_sameCover above4gb r rest.head?).type_eq]
      rcases (markEntry_usesHole above4gb r rest.head?).mp huses with hprefers | huses
      · exact hprefers.1
      · exact h r (by simp) huses
    · exact ih (fun r hr => h r (List.mem_cons_of_mem _ hr)) r' hr' huses

/-! ### The choice -/

/-- The address space after the first count, with the write-combining entries uncacheable. -/
def withoutWrcomb (above4gb : Bool) (addrSpace : Memranges) : Memranges :=
  memrangesUpdateTag ⟨markAll above4gb addrSpace.entries⟩ MTRR_TYPE_WRCOMB MTRR_TYPE_UNCACHEABLE

lemma withoutWrcomb_holesInWrback {addrSpace : Memranges} (h : TypesOnly addrSpace.entries) :
    HolesInWrback (withoutWrcomb above4gb addrSpace).entries := by
  intro r hr huses
  rcases exists_tag_of_mem_memrangesUpdateTag hr with htag | ⟨r', hr', htag⟩
  · refine absurd huses (not_usesHole ?_)
    rw [htag]
    decide
  · have huses' : RangeEntry.UsesHole r' := by
      rwa [RangeEntry.UsesHole, ← htag]
    rw [rangeEntryMtrrType, htag]
    exact h.holesInWrback.markAll r' hr' huses'

/-- The count for the default type that was chosen. -/
def Choice.predicted (choice : Choice) : ℕ :=
  if choice.defType = MTRR_TYPE_WRBACK then choice.counts.wbDeftypeCount
  else choice.counts.ucDeftypeCount

/-- As many registers are written as were counted, and no more than for the other type. -/
def Agrees (totalMtrrs : ℕ) (regs : ℕ → VarMtrr) (above4gb : Bool) (addressBits : ℕ)
    (choice : Choice) : Prop :=
  (commitVarMtrrs totalMtrrs regs ⟨choice.counts.entries⟩ choice.defType above4gb
      addressBits).mtrrIndex = choice.predicted ∧
    ∀ defType ∈ [MTRR_TYPE_WRBACK, MTRR_TYPE_UNCACHEABLE],
      choice.predicted ≤
        (commitVarMtrrs totalMtrrs regs ⟨choice.counts.entries⟩ defType above4gb
          addressBits).mtrrIndex

lemma commit_wb (regs : ℕ → VarMtrr) (l : List RangeEntry) (addressBits : ℕ) :
    (commitVarMtrrs totalMtrrs regs ⟨markAll above4gb l⟩ MTRR_TYPE_WRBACK above4gb
      addressBits).mtrrIndex = wbNeed above4gb l := by
  rw [commitVarMtrrs]
  refine (commitLoop_wb _ rfl).trans ?_
  rw [wbNeed_markAll]
  exact Nat.zero_add _

lemma commit_uc (regs : ℕ → VarMtrr) (l : List RangeEntry) (addressBits : ℕ) :
    (commitVarMtrrs totalMtrrs regs ⟨l⟩ MTRR_TYPE_UNCACHEABLE above4gb addressBits).mtrrIndex =
      ucTaken above4gb l := by
  rw [commitVarMtrrs]
  exact (commitLoop_uc _ rfl).trans (Nat.zero_add _)

/-- After a count of entries whose holes are in WB entries, the choice is kept unless UC is chosen
and a hole is stale. -/
lemma agrees_iff_of_counts (regs : ℕ → VarMtrr) (addressBits : ℕ) {l : List RangeEntry}
    (h : HolesInWrback l) :
    Agrees totalMtrrs regs above4gb addressBits
        ⟨⟨markAll above4gb l, wbNeed above4gb l, ucNeed above4gb l⟩,
          if wbNeed above4gb l < ucNeed above4gb l then MTRR_TYPE_WRBACK
          else MTRR_TYPE_UNCACHEABLE⟩ ↔
      ¬(ucNeed above4gb l ≤ wbNeed above4gb l ∧ StaleHole above4gb l) := by
  obtain ⟨hle, hiff⟩ := ucTaken_markAll above4gb h
  have hne : MTRR_TYPE_UNCACHEABLE ≠ MTRR_TYPE_WRBACK := by decide
  by_cases hlt : wbNeed above4gb l < ucNeed above4gb l
  · refine iff_of_true ?_ fun hstale => absurd hstale.1 (not_le.mpr hlt)
    simp only [Agrees, Choice.predicted, if_pos hlt, if_true, commit_wb, true_and,
      List.forall_mem_cons, List.not_mem_nil, false_imp_iff, implies_true, and_true, le_refl,
      commit_uc]
    omega
  · simp only [Agrees, Choice.predicted, if_neg hlt, if_neg hne, commit_wb, commit_uc,
      List.forall_mem_cons, List.not_mem_nil, false_imp_iff, implies_true, and_true, hiff, hle,
      not_lt.mp hlt, true_and]

/-- The registers that are written are those that were counted, and the default type that was
chosen takes no more than the other, unless the budget is too small for both default types, UC is
chosen once the write-combining entries are uncacheable, and a tag remembers a hole that is no
longer the better way to cover its entry. -/
theorem agrees_iff_not_staleHole (totalMtrrs : ℕ) (regs : ℕ → VarMtrr) (biosMtrrs : ℤ)
    (addrSpace : Memranges) (above4gb : Bool) (addressBits : ℕ)
    (h : TypesOnly addrSpace.entries) :
    Agrees totalMtrrs regs above4gb addressBits
        (calcVarMtrrs totalMtrrs regs biosMtrrs addrSpace above4gb addressBits) ↔
      ¬((biosMtrrs < wbNeed above4gb addrSpace.entries ∧
          biosMtrrs < ucNeed above4gb addrSpace.entries) ∧
        ucNeed above4gb (withoutWrcomb above4gb addrSpace).entries ≤
          wbNeed above4gb (withoutWrcomb above4gb addrSpace).entries ∧
        StaleHole above4gb (withoutWrcomb above4gb addrSpace).entries) := by
  simp only [calcVarMtrrs, calcVarMtrrsCounts_eq]
  by_cases hbudget : biosMtrrs < wbNeed above4gb addrSpace.entries ∧
      biosMtrrs < ucNeed above4gb addrSpace.entries
  · simp only [hbudget, true_and]
    exact agrees_iff_of_counts regs addressBits (withoutWrcomb_holesInWrback h)
  · simp only [hbudget, false_and, not_false_eq_true, iff_true]
    exact (agrees_iff_of_counts regs addressBits h.holesInWrback).mpr
      fun hstale => h.not_staleHole hstale.2

/-- Memory up to 2 GiB. -/
theorem agrees_iff_not_staleHole_memory :
    Agrees 8 (fun _ => ⟨⟨0, 0⟩, ⟨0, 0⟩⟩) false 40
      (calcVarMtrrs 8 (fun _ => ⟨⟨0, 0⟩, ⟨0, 0⟩⟩) 6
        ⟨[⟨0, 0x7fffffff, 6⟩, ⟨0x80000000, 0xffffffff, 0⟩]⟩ false 40) :=
  (agrees_iff_not_staleHole 8 _ 6 _ false 40 (by decide)).mpr fun h => absurd h.1.1 (by decide)

/-- Memory up to 65 MiB is first counted without its hole below 128 MiB, as the write-combining
entry behind it leaves no room for one. -/
theorem not_agrees_of_staleHole :
    ¬∀ (totalMtrrs : ℕ) (regs : ℕ → VarMtrr) (biosMtrrs : ℤ) (addrSpace : Memranges)
      (above4gb : Bool) (addressBits : ℕ), addrSpace.IsCanonical → TypesOnly addrSpace.entries →
        Agrees totalMtrrs regs above4gb addressBits
          (calcVarMtrrs totalMtrrs regs biosMtrrs addrSpace above4gb addressBits) := by
  intro h
  have hagrees := (h 8 (fun _ => ⟨⟨0, 0⟩, ⟨0, 0⟩⟩) 6
    ⟨[⟨0, 0x40fffff, 6⟩, ⟨0x4100000, 0xdfffffff, 1⟩, ⟨0xe0000000, 0xffffffff, 0⟩]⟩ false 40
    ⟨by decide, by decide, by decide, by decide, by decide, by decide⟩ (by decide)).1
  exact absurd hagrees (by decide +kernel)

/-! ### The registers -/

/-- The register takes part in the decoding of addresses. -/
def VarMtrr.Valid (v : VarMtrr) : Prop := v.physMask.lo &&& MTRRphysMaskValid ≠ 0

/-- What holds while the registers are written. -/
structure Written (totalMtrrs : ℕ) (s : VarMtrrState) : Prop where
  commits : s.commitMtrrs = true
  valid : ∀ i < s.mtrrIndex, i < totalMtrrs → (s.regs i).Valid

lemma calcVarMtrrLoop_written (mtrrType fuel : ℕ) {s : VarMtrrState} (base size : ℕ)
    (h : Written totalMtrrs s) :
    Written totalMtrrs (calcVarMtrrLoop totalMtrrs mtrrType fuel s base size) := by
  induction fuel generalizing s base size with
  | zero => exact h
  | succ fuel ih =>
    rw [calcVarMtrrLoop]
    split_ifs with hsize hcommits
    · exact h
    · refine ih _ _ ?_
      rw [writeVarMtrr]
      split_ifs with hfull
      · refine ⟨h.commits, fun i hi htotal => h.valid i ?_ htotal⟩
        simp only at hi
        omega
      · refine ⟨h.commits, fun i hi htotal => ?_⟩
        simp only at hi ⊢
        rcases (Nat.lt_succ_iff.mp hi).lt_or_eq with hlt | rfl
        · rw [Function.update_of_ne hlt.ne]
          exact h.valid i hlt htotal
        · rw [Function.update_self, VarMtrr.Valid, Nat.and_or_distrib_right, Nat.and_self]
          intro hzero
          exact absurd (Nat.or_eq_zero_iff.mp hzero).2 (by decide)
    · exact absurd h.commits hcommits

lemma withoutHole_written {s : VarMtrrState} (r : RangeEntry) (h : Written totalMtrrs s) :
    Written totalMtrrs (calcVarMtrrsWithoutHole totalMtrrs s r) := by
  rw [withoutHole_eq]
  split_ifs
  · exact h
  · exact calcVarMtrrLoop_written _ _ _ _ h
  · exact calcVarMtrrLoop_written _ _ _ _
      (calcVarMtrrLoop_written _ _ _ _ (calcVarMtrrLoop_written _ _ _ _ h))

lemma withHole_written {s : VarMtrrState} (r : RangeEntry) (next : Option RangeEntry)
    (h : Written totalMtrrs s) : Written totalMtrrs (calcVarMtrrsWithHole totalMtrrs s r next) := by
  rw [withHole_eq]
  split_ifs
  · exact h
  · exact calcVarMtrrLoop_written _ _ _ _ h
  · exact calcVarMtrrLoop_written _ _ _ _ h
  · exact calcVarMtrrLoop_written _ _ _ _ (calcVarMtrrLoop_written _ _ _ _ h)

lemma commitLoop_written (totalMtrrs : ℕ) (l : List RangeEntry) {s : VarMtrrState}
    (h : Written totalMtrrs s) :
    Written totalMtrrs (commitLoop totalMtrrs s l) := by
  induction l generalizing s with
  | nil => exact h
  | cons r rest ih =>
    rw [commitLoop]
    split_ifs
    · exact ih h
    · exact ih (withHole_written r rest.head? h)
    · exact ih (withoutHole_written r h)

lemma foldl_clearVarMtrr (regs : ℕ → VarMtrr) (index n i : ℕ) :
    (List.range' index n).foldl clearVarMtrr regs i =
      if index ≤ i ∧ i < index + n then clearVarMtrr regs i i else regs i := by
  induction n generalizing index regs with
  | zero => rw [if_neg (by omega), List.range'_zero, List.foldl_nil]
  | succ n ih =>
    rw [List.range'_succ, List.foldl_cons, ih]
    by_cases hi : i = index
    · subst hi
      rw [if_neg (by omega), if_pos (by omega)]
    · have hne : clearVarMtrr regs index i = regs i := Function.update_of_ne hi _ _
      have hclear : clearVarMtrr (clearVarMtrr regs index) i i = clearVarMtrr regs i i := by
        simp only [clearVarMtrr, Function.update_self, Function.update_of_ne hi]
      rw [hclear, hne]
      exact if_congr (by omega) rfl rfl

lemma not_valid_clearVarMtrr (regs : ℕ → VarMtrr) (i : ℕ) : ¬(clearVarMtrr regs i i).Valid := by
  have hmask : Word.not 32 MTRRphysMaskValid &&& MTRRphysMaskValid = 0 := by decide
  rw [clearVarMtrr, Function.update_self, VarMtrr.Valid, Nat.and_assoc, hmask, Nat.and_zero]
  exact not_not_intro rfl

/-- After `commit_var_mtrrs` the registers that were asked for are valid, as far as there are so
many, and the others are not. -/
theorem commitVarMtrrs_valid_iff (regs : ℕ → VarMtrr) (addrSpace : Memranges) (defType : ℕ)
    (addressBits : ℕ) {i : ℕ} (hi : i < totalMtrrs) :
    ((commitVarMtrrs totalMtrrs regs addrSpace defType above4gb addressBits).regs i).Valid ↔
      i < (commitVarMtrrs totalMtrrs regs addrSpace defType above4gb addressBits).mtrrIndex := by
  have hwritten := commitLoop_written totalMtrrs addrSpace.entries
    (s := ⟨above4gb, addressBits, true, 0, defType, regs⟩)
    ⟨rfl, fun i hi => absurd hi (Nat.not_lt_zero i)⟩
  simp only [commitVarMtrrs, clearRest, foldl_clearVarMtrr]
  split_ifs with hrest
  · exact iff_of_false (not_valid_clearVarMtrr _ i) (not_lt.mpr hrest.1)
  · have hlt : i < (commitLoop totalMtrrs ⟨above4gb, addressBits, true, 0, defType, regs⟩
        addrSpace.entries).mtrrIndex := by
      omega
    exact iff_of_true (hwritten.valid i hlt hi) hlt

end ApuBios.Mtrr
