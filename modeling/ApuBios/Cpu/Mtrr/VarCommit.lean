import ApuBios.Cpu.Mtrr.VarTypes

/-!
# The ranges of an entry

What the ranges that are written for one entry give to its own pages, to the pages in front of it
and to the pages behind it.
-/

namespace ApuBios.Mtrr

open Memrange

variable {above4gb : Bool} {defType m page t : ℕ} {r : RangeEntry} {next : Option RangeEntry}

/-! ### Pages of an entry -/

def RangeEntry.HasPage (r : RangeEntry) (page : ℕ) : Prop :=
  r.begin ≤ page * 4096 ∧ page * 4096 ≤ r.end_

/-- The pages that the variable registers are for. -/
def Managed (above4gb : Bool) (page : ℕ) : Prop :=
  RANGE_1MB ≤ page ∧ (above4gb = true ∨ page < RANGE_4GB)

/-- A nonempty entry of whole pages below page `2 ^ m`. -/
structure Placed (m : ℕ) (r : RangeEntry) : Prop where
  le : r.begin ≤ r.end_
  begin_page : 4096 ∣ r.begin
  end_page : 4096 ∣ r.end_ + 1
  end_le : r.end_ + 1 ≤ 4096 * 2 ^ m

lemma RANGE_1MB_eq : RANGE_1MB = 256 := by decide

lemma RANGE_4GB_eq : RANGE_4GB = 2 ^ 20 := by decide

lemma endMtrrAddr_eq (h : r.end_ + 1 < 2 ^ 44) : rangeEntryEndMtrrAddr r = (r.end_ + 1) / 4096 := by
  rw [rangeEntryEndMtrrAddr, Word.add_eq (by omega), physToRangeAddr_eq h]

lemma endMtrrAddr_top (h : r.end_ + 1 = 2 ^ 44) : rangeEntryEndMtrrAddr r = 0 := by
  rw [rangeEntryEndMtrrAddr, Word.add_eq (by omega), h]
  decide

/-- The end at 2^44 is taken for page 0. -/
lemma ignored_of_top (h : r.end_ + 1 = 2 ^ 44) : Ignored above4gb r := by
  refine Or.inl ?_
  rw [endMtrrAddr_top h]
  decide

section

variable (hm : m ≤ 32) (hplaced : Placed m r)

include hm hplaced

lemma Placed.end_lt (hignored : ¬Ignored above4gb r) : r.end_ + 1 < 2 ^ 44 := by
  have hpow : 2 ^ m ≤ 2 ^ 32 := Nat.pow_le_pow_right (by norm_num) hm
  have hle := hplaced.end_le
  by_contra hge
  exact hignored (ignored_of_top (by omega))

lemma Placed.base_eq : clippedBase r = if r.begin < 2 ^ 20 then 0 else r.begin / 4096 := by
  have hpow : 2 ^ m ≤ 2 ^ 32 := Nat.pow_le_pow_right (by norm_num) hm
  have hle := hplaced.end_le
  have hle' := hplaced.le
  rw [clippedBase, rangeEntryBaseMtrrAddr, physToRangeAddr_eq (by omega), RANGE_1MB_eq]
  exact if_congr (by omega) rfl rfl

lemma Placed.end_eq (hignored : ¬Ignored above4gb r) :
    clippedEnd above4gb r =
      if above4gb = false ∧ 2 ^ 20 < (r.end_ + 1) / 4096 then 2 ^ 20 else (r.end_ + 1) / 4096 := by
  rw [clippedEnd, endMtrrAddr_eq (hplaced.end_lt hm hignored), RANGE_4GB_eq]
  cases above4gb <;> simp

/-- The part of the entry that needs registers is not empty. -/
lemma Placed.base_lt_end (hignored : ¬Ignored above4gb r) :
    clippedBase r < clippedEnd above4gb r ∧ clippedEnd above4gb r ≤ 2 ^ m := by
  have hend := hplaced.end_lt hm hignored
  have hend_eq := hplaced.end_eq hm hignored
  have hbase_eq := hplaced.base_eq hm
  obtain ⟨hle, hbegin, hpage, hlim⟩ := hplaced
  rw [Ignored, endMtrrAddr_eq hend, RANGE_1MB_eq, RANGE_4GB_eq, not_or, not_and_or] at hignored
  obtain ⟨hlow, hhigh⟩ := hignored
  split_ifs at hend_eq hbase_eq with h₁ h₂ h₂
  · omega
  · have : clippedBase r < 2 ^ 20 := by
      rcases hhigh with hhigh | hhigh
      · simp [h₁.1] at hhigh
      · omega
    omega
  · omega
  · omega

/-- Its pages are those of the entry. -/
lemma Placed.page_iff (hignored : ¬Ignored above4gb r) (hmanaged : Managed above4gb page) :
    clippedBase r ≤ page ∧ page < clippedEnd above4gb r ↔ RangeEntry.HasPage r page := by
  have hend_eq := hplaced.end_eq hm hignored
  have hbase_eq := hplaced.base_eq hm
  obtain ⟨hle, hbegin, hpage, hlim⟩ := hplaced
  obtain ⟨hlow, hhigh⟩ := hmanaged
  rw [RANGE_1MB_eq] at hlow
  rw [RANGE_4GB_eq] at hhigh
  rw [RangeEntry.HasPage]
  split_ifs at hend_eq hbase_eq with h₁ h₂ h₂
  · rcases hhigh with hhigh | hhigh
    · simp [h₁.1] at hhigh
    · omega
  · rcases hhigh with hhigh | hhigh
    · simp [h₁.1] at hhigh
    · omega
  · omega
  · omega

end

/-! ### Ranges of an entry -/

/-- The end of the entry, rounded up for a hole. -/
def holeEnd (above4gb : Bool) (r : RangeEntry) : ℕ := Word.roundUp (clippedEnd above4gb r) 14

/-- A hole is written for the entry. -/
def HasHole (above4gb : Bool) (defType : ℕ) (r : RangeEntry) (next : Option RangeEntry) : Prop :=
  rangeEntryMtrrType r ≠ defType ∧ (defType = MTRR_TYPE_UNCACHEABLE ∧ RangeEntry.UsesHole r) ∧
    ¬Ignored above4gb r ∧ ¬CoveredBeyond above4gb r next ∧ ¬NoRoom above4gb defType r next

lemma alignUp_eq_mod {a : ℕ} (ha : a < 2 ^ 32) :
    Word.alignUp 32 a MTRR_MIN_ALIGN = Word.roundUp a 14 % 2 ^ 32 := by
  have hle : Word.roundUp a 14 ≤ 2 ^ 32 := Word.roundUp_le ha.le (by norm_num)
  rw [MTRR_MIN_ALIGN_eq]
  rcases hle.lt_or_eq with hlt | heq
  · rw [Word.alignUp_eq (by norm_num) hlt, Nat.mod_eq_of_lt hlt]
  · rw [Word.alignUp_eq_zero (by norm_num) ha heq, heq, Nat.mod_self]

lemma alignUp_end (above4gb : Bool) (r : RangeEntry) :
    Word.alignUp 32 (clippedEnd above4gb r) MTRR_MIN_ALIGN = holeEnd above4gb r % 2 ^ 32 :=
  alignUp_eq_mod (clippedEnd_lt above4gb r)

/-- A size that is calculated from an end of 2^32 is right unless it is the whole space. -/
lemma add_sub_mod {a b : ℕ} (hab : a ≤ b) (ha : a < 2 ^ 32) (hb : b ≤ 2 ^ 32) :
    a + Word.sub 32 (b % 2 ^ 32) a = if a = 0 ∧ b = 2 ^ 32 then 0 else b := by
  rcases hb.lt_or_eq with hlt | rfl
  · rw [Nat.mod_eq_of_lt hlt, Word.sub_eq hab hlt, if_neg (by omega)]
    omega
  · rw [Nat.mod_self]
    by_cases hzero : a = 0
    · subst hzero
      rw [if_pos ⟨rfl, rfl⟩]
      decide
    · rw [Word.sub_eq_wrap (by omega) ha, if_neg (by omega)]
      omega

/-- What the ranges of an entry give to the pages. -/
inductive Covering (m : ℕ) (above4gb : Bool) (defType : ℕ) (r : RangeEntry)
    (next : Option RangeEntry) (ps : List Span) : Prop
  | nothing (h : rangeEntryMtrrType r = defType ∨ Ignored above4gb r) (hps : ps = [])
  | plain (e : ℕ) (htype : rangeEntryMtrrType r ≠ defType) (hignored : ¬Ignored above4gb r)
      (hhole : ¬HasHole above4gb defType r next) (hfits : ∀ p ∈ ps, p.Fits m)
      (hle : clippedEnd above4gb r ≤ e) (he : next ≠ none → e = clippedEnd above4gb r)
      (hgives : ∀ page t, Gives ps page t ↔
        t = rangeEntryMtrrType r ∧ clippedBase r ≤ page ∧ page < e)
  | hole (h : HasHole above4gb defType r next) (hfits : ∀ p ∈ ps, p.Fits m)
      (hgives : ∀ page t, Gives ps page t ↔
        (t = rangeEntryMtrrType r ∧ ¬(clippedBase r = 0 ∧ holeEnd above4gb r = 2 ^ 32) ∧
          clippedBase r ≤ page ∧ page < holeEnd above4gb r) ∨
        (t = defType ∧ clippedEnd above4gb r ≤ page ∧ page < holeEnd above4gb r))

lemma rangeEntryMtrrType_lt (r : RangeEntry) : rangeEntryMtrrType r < 2 ^ 8 := by
  rw [rangeEntryMtrrType, MTRR_TAG_MASK, Nat.and_two_pow_sub_one_eq_mod]
  exact Nat.mod_lt _ (by norm_num)

/-- One range from the base of the entry. -/
lemma fits_and_gives_range {a e : ℕ} (hae : a ≤ e) (he : e < 2 ^ 32) (hem : e ≤ 2 ^ m)
    (r : RangeEntry) :
    (∀ p ∈ [(⟨a, Word.sub 32 e a, rangeEntryMtrrType r⟩ : Span)], p.Fits m) ∧
      ∀ page t, Gives [⟨a, Word.sub 32 e a, rangeEntryMtrrType r⟩] page t ↔
        t = rangeEntryMtrrType r ∧ a ≤ page ∧ page < e := by
  rw [Word.sub_eq hae he]
  refine ⟨fun p hp => ?_, fun page t => ?_⟩
  · obtain rfl := List.mem_singleton.mp hp
    exact ⟨by simp only; omega, by simp only; omega, rangeEntryMtrrType_lt r⟩
  · simp only [gives_cons, gives_nil, or_false, Span.Has, Nat.add_sub_of_le hae,
      eq_comm (a := t)]

section

variable (hm : m ≤ 32) (hplaced : Placed m r)

include hm hplaced

lemma Placed.noHole_covering (hignored : ¬Ignored above4gb r) :
    (∀ p ∈ noHoleSpans above4gb r, p.Fits m) ∧
      ∀ page t, Gives (noHoleSpans above4gb r) page t ↔
        t = rangeEntryMtrrType r ∧ clippedBase r ≤ page ∧ page < clippedEnd above4gb r := by
  obtain ⟨hlt, hle⟩ := hplaced.base_lt_end hm hignored
  have hc := clippedEnd_lt above4gb r
  rw [noHoleSpans, if_neg hignored]
  by_cases hsmall : Word.sub 32 (clippedEnd above4gb r) (clippedBase r) < MTRR_MIN_ALIGN
  · rw [if_pos hsmall]
    exact fits_and_gives_range hlt.le hc hle r
  · rw [if_neg hsmall]
    rw [Word.sub_eq hlt.le hc, MTRR_MIN_ALIGN_eq] at hsmall
    have hup : Word.alignUp 32 (clippedBase r) MTRR_MIN_ALIGN = Word.roundUp (clippedBase r) 14 := by
      have := Word.roundUp_lt (x := clippedBase r) (k := 14)
      rw [alignUp_eq_mod (by omega), Nat.mod_eq_of_lt (by omega)]
    rw [MTRR_MIN_ALIGN_eq] at hup
    have hdown := Word.alignDown_le (w := 32) (k := 14) (by norm_num) hc
    have hmid : Word.roundUp (clippedBase r) 14 ≤
        Word.alignDown 32 (clippedEnd above4gb r) (2 ^ 14) := by
      have := Word.roundUp_lt (x := clippedBase r) (k := 14)
      have hdvd := Word.dvd_roundUp (x := clippedBase r) (k := 14)
      rw [Word.alignDown_eq (by norm_num) hc]
      omega
    have hfront := Word.le_roundUp (x := clippedBase r) (k := 14)
    have hfront' := Word.sub_eq hfront (by omega : Word.roundUp (clippedBase r) 14 < 2 ^ 32)
    have hmid' := Word.sub_eq hmid (hdown.trans_lt hc)
    simp only [MTRR_MIN_ALIGN_eq, hup, hfront', hmid', Word.sub_eq hdown hc]
    have htype := rangeEntryMtrrType_lt r
    refine ⟨fun p hp => ?_, fun page t => ?_⟩
    · simp only [List.mem_cons, List.not_mem_nil, or_false] at hp
      rcases hp with rfl | rfl | rfl
      · exact ⟨by simp only; omega, by simp only; omega, htype⟩
      · exact ⟨by simp only; omega, by simp only; omega, htype⟩
      · exact ⟨by simp only; omega, by simp only; omega, htype⟩
    · simp only [gives_cons, gives_nil, or_false, Span.Has, ← and_or_left, eq_comm (a := t)]
      refine and_congr_right fun _ => ?_
      omega

end

/-- A block at an aligned base ends at the next power of two at the latest. -/
lemma two_pow_add_le {a k : ℕ} (hdvd : 2 ^ k ∣ a) (hpos : 0 < a) (hlt : a < 2 ^ m) :
    2 ^ k + a ≤ 2 ^ m := by
  have hkm : 2 ^ k < 2 ^ m := (Nat.le_of_dvd hpos hdvd).trans_lt hlt
  have hdvd' : 2 ^ k ∣ 2 ^ m := pow_dvd_pow 2 ((Nat.pow_lt_pow_iff_right (by norm_num)).mp hkm).le
  have hle := Nat.le_of_dvd (by omega) (Nat.dvd_sub hdvd' hdvd)
  omega

section

variable (hm : m ≤ 32) (hplaced : Placed m r)

include hm hplaced

/-- The range that is enlarged to the alignment of its base stays below the limit. -/
lemma Placed.beyond_covering (hignored : ¬Ignored above4gb r)
    (hbeyond : CoveredBeyond above4gb r next) :
    ∃ e, clippedEnd above4gb r ≤ e ∧
      (∀ p ∈ [(⟨clippedBase r, Word.sub 32 (Word.add 32 (1 <<< fls (clippedBase r)) (clippedBase r))
        (clippedBase r), rangeEntryMtrrType r⟩ : Span)], p.Fits m) ∧
      ∀ page t, Gives [⟨clippedBase r, Word.sub 32
          (Word.add 32 (1 <<< fls (clippedBase r)) (clippedBase r)) (clippedBase r),
          rangeEntryMtrrType r⟩] page t ↔
        t = rangeEntryMtrrType r ∧ clippedBase r ≤ page ∧ page < e := by
  obtain ⟨hlt, hle⟩ := hplaced.base_lt_end hm hignored
  obtain ⟨hhigh, -, hend⟩ := hbeyond
  have hpow : 2 ^ m ≤ 2 ^ 32 := Nat.pow_le_pow_right (by norm_num) hm
  rw [RANGE_4GB_eq] at hhigh
  have htop : 2 ^ fls (clippedBase r) + clippedBase r ≤ 2 ^ m :=
    two_pow_add_le (two_pow_fls_dvd _) (by omega) (by omega)
  rw [Nat.one_shiftLeft] at hend ⊢
  have hadd : 2 ^ fls (clippedBase r) + clippedBase r < 2 ^ 32 := by
    by_contra hge
    rw [Word.add, show 2 ^ fls (clippedBase r) + clippedBase r = 2 ^ 32 by omega,
      Nat.mod_self] at hend
    omega
  rw [Word.add_eq hadd] at hend ⊢
  exact ⟨_, hend, fits_and_gives_range (by omega) hadd htop r⟩

lemma Placed.hole_covering (hignored : ¬Ignored above4gb r) (h14 : 14 ≤ m) (d : ℕ)
    (hd : d < 2 ^ 8) :
    (∀ p ∈ [(⟨clippedBase r, Word.sub 32 (holeEnd above4gb r % 2 ^ 32) (clippedBase r),
        rangeEntryMtrrType r⟩ : Span), ⟨clippedEnd above4gb r,
        Word.sub 32 (holeEnd above4gb r % 2 ^ 32) (clippedEnd above4gb r), d⟩], p.Fits m) ∧
      ∀ page t, Gives [⟨clippedBase r, Word.sub 32 (holeEnd above4gb r % 2 ^ 32) (clippedBase r),
          rangeEntryMtrrType r⟩, ⟨clippedEnd above4gb r,
          Word.sub 32 (holeEnd above4gb r % 2 ^ 32) (clippedEnd above4gb r), d⟩] page t ↔
        (t = rangeEntryMtrrType r ∧ ¬(clippedBase r = 0 ∧ holeEnd above4gb r = 2 ^ 32) ∧
          clippedBase r ≤ page ∧ page < holeEnd above4gb r) ∨
        (t = d ∧ clippedEnd above4gb r ≤ page ∧ page < holeEnd above4gb r) := by
  obtain ⟨hlt, hle⟩ := hplaced.base_lt_end hm hignored
  have hc := clippedEnd_lt above4gb r
  have hpow : 2 ^ m ≤ 2 ^ 32 := Nat.pow_le_pow_right (by norm_num) hm
  have htop : holeEnd above4gb r ≤ 2 ^ m := Word.roundUp_le hle (pow_dvd_pow 2 h14)
  have hge : clippedEnd above4gb r ≤ holeEnd above4gb r := Word.le_roundUp
  have hbase := add_sub_mod (hlt.le.trans hge) (hlt.trans hc) (htop.trans hpow)
  have hend := add_sub_mod hge hc (htop.trans hpow)
  rw [if_neg (by omega)] at hend
  have htype := rangeEntryMtrrType_lt r
  refine ⟨fun p hp => ?_, fun page t => ?_⟩
  · simp only [List.mem_cons, List.not_mem_nil, or_false] at hp
    rcases hp with rfl | rfl
    · refine ⟨Word.sub_lt, ?_, htype⟩
      simp only [hbase]
      split_ifs <;> omega
    · exact ⟨Word.sub_lt, by simp only [hend]; exact htop, hd⟩
  · simp only [gives_cons, gives_nil, or_false, Span.Has, hbase, hend, eq_comm (a := t)]
    refine or_congr (and_congr_right fun _ => ?_) Iff.rfl
    split_ifs with hwhole
    · omega
    · simp only [hwhole, not_false_eq_true, true_and]

lemma Placed.entrySpans_covering (h14 : 14 ≤ m) (hdef : defType < 2 ^ 8)
    (next : Option RangeEntry) :
    Covering m above4gb defType r next (entrySpans above4gb defType r next) := by
  rw [entrySpans]
  by_cases htype : rangeEntryMtrrType r = defType
  · rw [if_pos htype]
    exact .nothing (Or.inl htype) rfl
  rw [if_neg htype]
  by_cases hignored : Ignored above4gb r
  · rw [holeSpans, noHoleSpans, if_pos hignored, if_pos hignored, ite_self]
    exact .nothing (Or.inr hignored) rfl
  obtain ⟨hlt, hle⟩ := hplaced.base_lt_end hm hignored
  by_cases huses : defType = MTRR_TYPE_UNCACHEABLE ∧ RangeEntry.UsesHole r
  · rw [if_pos huses, holeSpans, if_neg hignored]
    by_cases hbeyond : CoveredBeyond above4gb r next
    · obtain ⟨e, he, hfits, hgives⟩ := hplaced.beyond_covering hm hignored hbeyond
      rw [if_pos hbeyond]
      exact .plain e htype hignored (fun h => h.2.2.2.1 hbeyond) hfits he
        (fun h => absurd hbeyond.2.1 h) hgives
    rw [if_neg hbeyond]
    by_cases hroom : NoRoom above4gb defType r next
    · obtain ⟨hfits, hgives⟩ := fits_and_gives_range hlt.le (clippedEnd_lt above4gb r) hle r
      rw [if_pos hroom]
      exact .plain _ htype hignored (fun h => h.2.2.2.2 hroom) hfits le_rfl (fun _ => rfl) hgives
    · obtain ⟨hfits, hgives⟩ := hplaced.hole_covering hm hignored h14 defType hdef
      simp only [if_neg hroom, alignUp_end]
      exact .hole ⟨htype, huses, hignored, hbeyond, hroom⟩ hfits hgives
  · obtain ⟨hfits, hgives⟩ := hplaced.noHole_covering hm hignored
    rw [if_neg huses]
    exact .plain _ htype hignored (fun h => huses h.2.1) hfits le_rfl (fun _ => rfl) hgives

end

/-! ### Pages and ranges -/

/-- The entry has no registers of its own, as its end is taken for page 0. -/
def Lost (above4gb : Bool) (defType : ℕ) (r : RangeEntry) (next : Option RangeEntry) : Prop :=
  Ignored above4gb r ∨
    (HasHole above4gb defType r next ∧ clippedBase r = 0 ∧ holeEnd above4gb r = 2 ^ 32)

/-- The hole of the entry is over the page. -/
def HoleOver (above4gb : Bool) (defType : ℕ) (r : RangeEntry) (next : Option RangeEntry)
    (page : ℕ) : Prop :=
  HasHole above4gb defType r next ∧ clippedEnd above4gb r ≤ page ∧ page < holeEnd above4gb r

section

variable {ps : List Span} (h : Covering m above4gb defType r next ps)

include h

lemma Covering.fits : ∀ p ∈ ps, p.Fits m := by
  cases h with
  | nothing _ hps =>
    rw [hps]
    exact fun p hp => by cases hp
  | plain _ _ _ _ hfits => exact hfits
  | hole _ hfits => exact hfits

/-- A page of the entry gets the type of the entry. -/
lemma Covering.own (hpage : ¬Ignored above4gb r → clippedBase r ≤ page ∧ page < clippedEnd above4gb r) :
    Gives ps page t ↔
      t = rangeEntryMtrrType r ∧ rangeEntryMtrrType r ≠ defType ∧ ¬Lost above4gb defType r next := by
  cases h with
  | nothing hnothing hps =>
    rw [hps]
    refine iff_of_false (gives_nil page t) fun hown => ?_
    rcases hnothing with htype | hignored
    · exact hown.2.1 htype
    · exact hown.2.2 (Or.inl hignored)
  | plain e htype hignored hhole _ hle _ hgives =>
    have hlost : ¬Lost above4gb defType r next := not_or.mpr ⟨hignored, fun hl => hhole hl.1⟩
    obtain ⟨hbase, hend⟩ := hpage hignored
    rw [hgives]
    exact and_congr_right fun _ => iff_of_true ⟨hbase, hend.trans_le hle⟩ ⟨htype, hlost⟩
  | hole hhole _ hgives =>
    obtain ⟨hbase, hend⟩ := hpage hhole.2.2.1
    have hle : clippedEnd above4gb r ≤ holeEnd above4gb r := Word.le_roundUp
    rw [hgives, or_iff_left fun hover => absurd hover.2.1 (not_le.mpr hend)]
    refine and_congr_right fun _ => ?_
    constructor
    · rintro ⟨hwhole, -⟩
      exact ⟨hhole.1, not_or.mpr ⟨hhole.2.2.1, fun hl => hwhole hl.2⟩⟩
    · rintro ⟨-, hlost⟩
      exact ⟨fun hwhole => hlost (Or.inr ⟨hhole, hwhole⟩), hbase, hend.trans_le hle⟩

/-- Nothing is given in front of the entry. -/
lemma Covering.front (hpage : page < clippedBase r)
    (hlt : ¬Ignored above4gb r → clippedBase r < clippedEnd above4gb r) : ¬Gives ps page t := by
  cases h with
  | nothing _ hps =>
    rw [hps]
    exact gives_nil page t
  | plain _ _ _ _ _ _ _ hgives =>
    rw [hgives]
    omega
  | hole hhole _ hgives =>
    have := hlt hhole.2.2.1
    rw [hgives]
    omega

/-- Only a hole gives something behind the entry, and it gives the default type. -/
lemma Covering.behind (hnext : next ≠ none)
    (hpage : ¬Ignored above4gb r → clippedEnd above4gb r ≤ page) :
    (Gives ps page t → HoleOver above4gb defType r next page) ∧
      (HoleOver above4gb defType r next page → Gives ps page defType) := by
  cases h with
  | nothing hnothing hps =>
    rw [hps]
    refine ⟨fun hgives => absurd hgives (gives_nil page t), fun hover => ?_⟩
    rcases hnothing with htype | hignored
    · exact absurd htype hover.1.1
    · exact absurd hignored hover.1.2.2.1
  | plain e _ hignored hhole _ _ he hgives =>
    have hend := hpage hignored
    rw [← he hnext] at hend
    refine ⟨fun hg => ?_, fun hover => absurd hover.1 hhole⟩
    exact absurd ((hgives page t).mp hg).2.2 (not_lt.mpr hend)
  | hole hhole _ hgives =>
    have hend := hpage hhole.2.2.1
    refine ⟨fun hg => ⟨hhole, hend, ?_⟩, fun hover => (hgives page defType).mpr (Or.inr ⟨rfl, hover.2⟩)⟩
    rcases (hgives page t).mp hg with htype | hdef
    · exact htype.2.2.2
    · exact hdef.2.2

end

end ApuBios.Mtrr
