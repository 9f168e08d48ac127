import ApuBios.Cpu.Mtrr.FixedLoop

/-!
# The types of the fixed ranges

Entries are handled in the order of their addresses; behind each of them the fixed ranges below its
end have the types of the memory in them.
-/

namespace ApuBios.Mtrr

open Memrange IntervalMap

variable {wrbackBits tag fuel begin end_ i j k p q v : ℕ} {types types' : List ℕ} {t : ℕ → ℕ}
  {r : RangeEntry} {rs : List RangeEntry}

/-! ### The types below a page -/

/-- The fixed ranges that begin below the page `q` have the type of one of their pages; if the page
is in the range, it may also be uncacheable still, as are those that begin behind it. -/
structure Painted (t : ℕ → ℕ) (q : ℕ) (types : List ℕ) : Prop where
  length : types.length = 88
  past : ∀ i < 88, rangeStart (i + 1) ≤ q →
    ∃ p, rangeStart i ≤ p ∧ p < rangeStart (i + 1) ∧ types[i]? = some (t p)
  current : ∀ i < 88, rangeStart i < q → q < rangeStart (i + 1) →
    types[i]? = some 0 ∨ ∃ p, rangeStart i ≤ p ∧ p < q ∧ types[i]? = some (t p)
  ahead : ∀ i < 88, q ≤ rangeStart i → types[i]? = some 0

/-- Each fixed range has the type of one of its pages. -/
def FixedCorrect (t : ℕ → ℕ) (types : List ℕ) : Prop :=
  types.length = NUM_FIXED_RANGES ∧ ∀ i < NUM_FIXED_RANGES,
    ∃ p, rangeStart i ≤ p ∧ p < rangeStart (i + 1) ∧ types[i]? = some (t p)

lemma Painted.done (h : Painted t q types) (hrest : ∀ p, q ≤ p → p < 0x100 → t p = 0) :
    FixedCorrect t types := by
  refine ⟨h.length, fun i hi => ?_⟩
  change i < 88 at hi
  have hsucc := rangeStart_lt (show i < i + 1 by omega)
  have htop := rangeStart_le (show i + 1 ≤ 88 by omega)
  have heq : rangeStart 88 = 0x100 := rfl
  by_cases hpast : rangeStart (i + 1) ≤ q
  · exact h.past i hi hpast
  by_cases hcur : rangeStart i < q
  · rcases h.current i hi hcur (by omega) with hzero | ⟨p, hp, hlt, htype⟩
    · exact ⟨q, hcur.le, by omega, by rw [hzero, hrest q le_rfl (by omega)]⟩
    · exact ⟨p, hp, by omega, htype⟩
  · exact ⟨rangeStart i, le_rfl, hsucc,
      by rw [h.ahead i hi (by omega), hrest _ (by omega) (by omega)]⟩

/-- Behind an entry that was handled. -/
lemma Painted.entry (h : Painted t q types) (hq : q ≤ begin) (hlt : begin < end_)
    (hgap : ∀ p, q ≤ p → p < begin → t p = 0) (hin : ∀ p, begin ≤ p → p < end_ → t p = v)
    (hcovers : Covers begin end_ k) (hfull : v = 0 ∨ ∀ i, k ≤ i → end_ < rangeStart (i + 1)) :
    Painted t end_ (setTypes v (rangeOf begin) (k - rangeOf begin) types) := by
  have hk := hcovers.lt
  have hk' := hcovers.le
  have hget : ∀ i, (setTypes v (rangeOf begin) (k - rangeOf begin) types)[i]? =
      if rangeOf begin ≤ i ∧ i < k then some v else types[i]? := fun i => by
    rw [getElem?_setTypes (by rw [h.length]; omega)]
    congr 1
    exact propext ⟨fun h => ⟨h.1, by omega⟩, fun h => ⟨h.1, by omega⟩⟩
  -- a range that was set has a page of the entry
  have hset : ∀ i, rangeOf begin ≤ i → i < k →
      ∃ p, rangeStart i ≤ p ∧ p < rangeStart (i + 1) ∧ p < end_ ∧ t p = v := fun i hi hik => by
    obtain ⟨h₁, h₂⟩ := hcovers.touches i hi hik
    have hsucc := rangeStart_lt (show i < i + 1 by omega)
    exact ⟨max begin (rangeStart i), le_max_right _ _, max_lt h₂ hsucc, max_lt hlt h₁,
      hin _ (le_max_left _ _) (max_lt hlt h₁)⟩
  have hbefore : ∀ i, i < rangeOf begin → rangeStart (i + 1) ≤ begin := fun i hi =>
    (rangeStart_le hi).trans (rangeStart_rangeOf_le begin)
  have hbehind : ∀ i, k ≤ i → begin < rangeStart i := fun i hi =>
    (lt_rangeStart_rangeOf begin).trans_le (rangeStart_le (by omega))
  refine ⟨by rw [length_setTypes, h.length], fun i hi hpast => ?_, fun i hi hcur hcur' => ?_,
    fun i hi hahead => ?_⟩
  · rw [hget]
    by_cases hlow : i < rangeOf begin
    · rw [if_neg (by omega)]
      have hle := hbefore i hlow
      have hsucc := rangeStart_lt (show i < i + 1 by omega)
      by_cases hold : rangeStart (i + 1) ≤ q
      · exact h.past i hi hold
      have hpage := hgap (rangeStart (i + 1) - 1) (by omega) (by omega)
      by_cases hold' : rangeStart i < q
      · rcases h.current i hi hold' (by omega) with hzero | ⟨p, hp, hpq, htype⟩
        · exact ⟨rangeStart (i + 1) - 1, by omega, by omega, by rw [hzero, hpage]⟩
        · exact ⟨p, hp, by omega, htype⟩
      · exact ⟨rangeStart (i + 1) - 1, by omega, by omega,
          by rw [h.ahead i hi (by omega), hpage]⟩
    by_cases hmid : i < k
    · rw [if_pos ⟨by omega, hmid⟩]
      obtain ⟨p, hp, hp', -, htype⟩ := hset i (by omega) hmid
      exact ⟨p, hp, hp', by rw [htype]⟩
    · rw [if_neg (by omega)]
      have hlow' := hbehind i (by omega)
      have hsucc := rangeStart_lt (show i < i + 1 by omega)
      rcases hfull with rfl | hfull
      · exact ⟨rangeStart i, le_rfl, hsucc,
          by rw [h.ahead i hi (by omega), hin _ hlow'.le (by omega)]⟩
      · have := hfull i (by omega)
        omega
  · rw [hget]
    by_cases hlow : i < rangeOf begin
    · have := hbefore i hlow
      omega
    by_cases hmid : i < k
    · rw [if_pos ⟨by omega, hmid⟩]
      obtain ⟨p, hp, -, hp', htype⟩ := hset i (by omega) hmid
      exact Or.inr ⟨p, hp, hp', by rw [htype]⟩
    · rw [if_neg (by omega)]
      exact Or.inl (h.ahead i hi (by have := hbehind i (by omega); omega))
  · rw [hget, if_neg]
    · exact h.ahead i hi (by omega)
    · rintro ⟨hi', hik⟩
      have := (hcovers.touches i hi' hik).1
      omega

/-! ### Entries of whole pages -/

/-- Sorted entries of whole pages that end below 16 TiB. -/
structure Paged (rs : List RangeEntry) : Prop where
  begin_eq : ∀ r ∈ rs, r.begin = 4096 * rangeEntryBaseMtrrAddr r
  end_eq : ∀ r ∈ rs, r.end_ + 1 = 4096 * rangeEntryEndMtrrAddr r
  lt : ∀ r ∈ rs, rangeEntryBaseMtrrAddr r < rangeEntryEndMtrrAddr r
  sorted : rs.Pairwise fun r s => rangeEntryEndMtrrAddr r ≤ rangeEntryBaseMtrrAddr s

lemma paged_of_isCanonical {ranges : Memranges} (hcan : ranges.IsCanonical)
    (hlow : ∀ r ∈ ranges.entries, r.end_ + 1 < 2 ^ 44) : Paged ranges.entries := by
  have hbegin : ∀ r ∈ ranges.entries, r.begin = 4096 * rangeEntryBaseMtrrAddr r := fun r hr => by
    have h₁ := hcan.begin_le r hr
    have h₂ := hlow r hr
    have h₃ := hcan.begin_page r hr
    rw [rangeEntryBaseMtrrAddr, physToRangeAddr_eq (by omega)]
    omega
  have hend : ∀ r ∈ ranges.entries, r.end_ + 1 = 4096 * rangeEntryEndMtrrAddr r := fun r hr => by
    have h₂ := hlow r hr
    have h₃ := hcan.end_page r hr
    rw [rangeEntryEndMtrrAddr, Word.add_eq (by omega), physToRangeAddr_eq h₂]
    omega
  refine ⟨hbegin, hend, fun r hr => ?_, hcan.sorted.imp_of_mem fun {r s} hr hs hlt => ?_⟩
  · have h₁ := hcan.begin_le r hr
    have h₂ := hbegin r hr
    have h₃ := hend r hr
    omega
  · have h₂ := hbegin s hs
    have h₃ := hend r hr
    omega

lemma paged_cons : Paged (r :: rs) → rangeEntryBaseMtrrAddr r < rangeEntryEndMtrrAddr r ∧
    (∀ s ∈ rs, rangeEntryEndMtrrAddr r ≤ rangeEntryBaseMtrrAddr s) ∧ Paged rs := by
  rintro ⟨hbegin, hend, hlt, hsorted⟩
  rw [List.pairwise_cons] at hsorted
  exact ⟨hlt r (by simp), hsorted.1, fun s hs => hbegin s (by simp [hs]),
    fun s hs => hend s (by simp [hs]), fun s hs => hlt s (by simp [hs]), hsorted.2⟩

/-- The type of a page, as it is stored for a fixed range. -/
def pageType (wrbackBits : ℕ) (rs : List RangeEntry) (p : ℕ) : ℕ :=
  ((lookup rs (4096 * p)).map (fixedType wrbackBits)).getD MTRR_TYPE_UNCACHEABLE

lemma pageType_of_lt (h : Paged rs) (hp : ∀ s ∈ rs, p < rangeEntryBaseMtrrAddr s) :
    pageType wrbackBits rs p = 0 := by
  rw [pageType, lookup_eq_none fun s hs => Or.inl ?_]
  · rfl
  · have h₁ := hp s hs
    have h₂ := h.begin_eq s hs
    simp only [lo_eq]
    omega

lemma pageType_cons_of_mem (h : Paged (r :: rs)) (hp : rangeEntryBaseMtrrAddr r ≤ p)
    (hp' : p < rangeEntryEndMtrrAddr r) :
    pageType wrbackBits (r :: rs) p = fixedType wrbackBits r.tag := by
  have h₁ := h.begin_eq r (by simp)
  have h₂ := h.end_eq r (by simp)
  rw [pageType, lookup_cons, if_pos]
  · rfl
  · simp only [lo_eq, hi_eq]
    omega

lemma pageType_cons_of_le (h : Paged (r :: rs)) (hp : rangeEntryEndMtrrAddr r ≤ p) :
    pageType wrbackBits (r :: rs) p = pageType wrbackBits rs p := by
  have h₂ := h.end_eq r (by simp)
  rw [pageType, lookup_cons, if_neg]
  · rfl
  · simp only [lo_eq, hi_eq]
    omega

/-! ### All entries -/

/-- The end of an entry in the fixed ranges. -/
def fixedEnd (r : RangeEntry) : ℕ :=
  if 0x100 < rangeEntryEndMtrrAddr r then 0x100 else rangeEntryEndMtrrAddr r

lemma calcFixedLoop_of_le (h : 0x100 ≤ rangeEntryBaseMtrrAddr r) {descs : List FixedMtrrDesc} :
    calcFixedLoop wrbackBits fuel (r :: rs) descs types = some types := by
  rw [calcFixedLoop]
  exact if_pos h

lemma calcFixedLoop_cons (h : rangeEntryBaseMtrrAddr r < 0x100)
    (hj : j ≤ rangeOf (rangeEntryBaseMtrrAddr r)) :
    calcFixedLoop wrbackBits fuel (r :: rs) (descsAt j) types =
      (fixedLoop wrbackBits r.tag (fixedEnd r) fuel (rangeEntryBaseMtrrAddr r)
        (rangeOf (rangeEntryBaseMtrrAddr r)) (descsAt (rangeOf (rangeEntryBaseMtrrAddr r)))
        types).bind fun res => calcFixedLoop wrbackBits fuel rs res.1 res.2 := by
  obtain ⟨desc, rest, hdescs, -, hindex, -⟩ := descsAt_rangeOf h
  have hseek := seekDesc_eq h hj
  have hlast : ¬lastDescEnd ≤ rangeEntryBaseMtrrAddr r := Nat.not_le.mpr h
  rw [calcFixedLoop]
  simp only [if_neg hlast]
  rw [hseek, hdescs]
  have hend : (if lastDescEnd < rangeEntryEndMtrrAddr r then lastDescEnd
    else rangeEntryEndMtrrAddr r) = fixedEnd r := rfl
  simp only [hindex, hend]
  cases fixedLoop wrbackBits r.tag (fixedEnd r) fuel (rangeEntryBaseMtrrAddr r)
    (rangeOf (rangeEntryBaseMtrrAddr r)) (desc :: rest) types with
  | none => rfl
  | some res => rfl

/-- The entries behind a range do not change its type. -/
lemma calcFixedLoop_before (h : Paged rs) (hlength : types.length = 88)
    (hj : ∀ s ∈ rs, rangeStart j ≤ rangeEntryBaseMtrrAddr s)
    (hi : ∀ s ∈ rs, rangeEntryBaseMtrrAddr s < 0x100 → i < rangeOf (rangeEntryBaseMtrrAddr s))
    (hres : calcFixedLoop wrbackBits fuel rs (descsAt j) types = some types') :
    types'[i]? = types[i]? := by
  induction rs generalizing j types with
  | nil => rw [Option.some.inj hres]
  | cons r rs ih =>
    obtain ⟨hlt, hle, h'⟩ := paged_cons h
    by_cases hbase : rangeEntryBaseMtrrAddr r < 0x100
    · rw [calcFixedLoop_cons hbase (le_rangeOf (hj r (by simp)))] at hres
      obtain ⟨res, hloop, hres⟩ := Option.bind_eq_some_iff.mp hres
      have hend : rangeEntryBaseMtrrAddr r < fixedEnd r ∧ fixedEnd r ≤ 0x100 ∧
          fixedEnd r ≤ rangeEntryEndMtrrAddr r := by
        unfold fixedEnd
        split_ifs <;> omega
      obtain ⟨j', k, rfl, hj', hcovers, -⟩ := fixedLoop_some hend.1 hend.2.1 hloop
      have hir := hi r (by simp) hbase
      have hlen := hcovers.lt
      have hlen' := hcovers.le
      rw [ih h' (by rw [length_setTypes, hlength]) (fun s hs => ?_)
        (fun s hs => hi s (by simp [hs])) hres, getElem?_setTypes (by omega), if_neg (by omega)]
      have := hle s hs
      omega
    · rw [calcFixedLoop_of_le (by omega)] at hres
      rw [Option.some.inj hres]

/-- The loop ends with the right types exactly if each entry below 1 MiB fits. -/
lemma calcFixedLoop_iff (hfuel : 89 ≤ fuel) (h : Paged rs) (hpaint : Painted t q types)
    (hj : rangeStart j ≤ q) (hq : ∀ s ∈ rs, q ≤ rangeEntryBaseMtrrAddr s)
    (ht : ∀ p, q ≤ p → p < 0x100 → t p = pageType wrbackBits rs p) :
    (∃ types', calcFixedLoop wrbackBits fuel rs (descsAt j) types = some types' ∧
      FixedCorrect t types') ↔
    ∀ s ∈ rs, rangeEntryBaseMtrrAddr s < 0x100 →
      EntryFits wrbackBits (rangeEntryBaseMtrrAddr s) (fixedEnd s) s.tag := by
  induction rs generalizing j q types with
  | nil =>
    refine ⟨fun _ s hs => absurd hs (List.not_mem_nil), fun _ => ⟨types, rfl, hpaint.done ?_⟩⟩
    exact fun p hp hp' => ht p hp hp'
  | cons r rs ih =>
    obtain ⟨hlt, hle, h'⟩ := paged_cons h
    have hqr := hq r (by simp)
    by_cases hbase : rangeEntryBaseMtrrAddr r < 0x100
    · have hend : rangeEntryBaseMtrrAddr r < fixedEnd r ∧ fixedEnd r ≤ 0x100 ∧
          fixedEnd r ≤ rangeEntryEndMtrrAddr r := by
        unfold fixedEnd
        split_ifs <;> omega
      have hin : ∀ p, rangeEntryBaseMtrrAddr r ≤ p → p < fixedEnd r →
          t p = fixedType wrbackBits r.tag := fun p hp hp' => by
        rw [ht p (by omega) (by omega), pageType_cons_of_mem h hp (by omega)]
      have hgap : ∀ p, q ≤ p → p < rangeEntryBaseMtrrAddr r → t p = 0 := fun p hp hp' => by
        refine (ht p hp (by omega)).trans (pageType_of_lt h fun s hs => ?_)
        rcases List.mem_cons.mp hs with rfl | hs
        · exact hp'
        · have := hle s hs
          omega
      rw [calcFixedLoop_cons hbase (le_rangeOf (hj.trans hqr)), List.forall_mem_cons]
      cases hloop : fixedLoop wrbackBits r.tag (fixedEnd r) fuel (rangeEntryBaseMtrrAddr r)
          (rangeOf (rangeEntryBaseMtrrAddr r)) (descsAt (rangeOf (rangeEntryBaseMtrrAddr r)))
          types with
      | none =>
        refine ⟨fun ⟨_, hres, _⟩ => absurd hres (by simp), fun hfits => ?_⟩
        obtain ⟨res, hres⟩ := fixedLoop_of_fits types hend.1 hend.2.1 hfuel (hfits.1 hbase)
        rw [hloop] at hres
        cases hres
      | some res =>
        obtain ⟨j', k, rfl, hj', hcovers, hfull, hwithin⟩ := fixedLoop_some hend.1 hend.2.1 hloop
        rw [Option.bind_some]
        dsimp only
        have hrs : ∀ s ∈ rs, fixedEnd r ≤ rangeEntryBaseMtrrAddr s := fun s hs =>
          hend.2.2.trans (hle s hs)
        by_cases hfits : EntryFits wrbackBits (rangeEntryBaseMtrrAddr r) (fixedEnd r) r.tag
        · have hpaint' := hpaint.entry hqr hend.1 hgap hin hcovers (hfull hfits)
          rw [ih h' hpaint' hj' hrs fun p hp hp' => ?_]
          · exact ⟨fun hall => ⟨fun _ => hfits, hall⟩, fun hall => hall.2⟩
          · rw [ht p (by omega) hp', pageType_cons_of_le h]
            unfold fixedEnd at hp
            split_ifs at hp <;> omega
        · -- the range behind the last one that was set keeps the type it had
          refine ⟨fun ⟨types', hres, hcorrect⟩ => ?_, fun hall => absurd (hall.1 hbase) hfits⟩
          obtain ⟨hne, hk, hkend⟩ := hwithin hfits
          have hkbegin : rangeEntryBaseMtrrAddr r < rangeStart k :=
            (lt_rangeStart_rangeOf _).trans_le (rangeStart_le hcovers.lt)
          have hlen := hcovers.lt
          have hzero := calcFixedLoop_before (i := k) h'
            (by rw [length_setTypes, hpaint.length]) (fun s hs => hj'.trans (hrs s hs))
            (fun s hs _ => le_rangeOf (hkend.trans (hrs s hs))) hres
          rw [getElem?_setTypes (by rw [hpaint.length]; omega), if_neg (by omega),
            hpaint.ahead k hk (by omega)] at hzero
          obtain ⟨p, hp, hp', htype⟩ := hcorrect.2 k hk
          rw [hzero, hin p (by omega) (by omega)] at htype
          exact absurd (Option.some.inj htype).symm hne
    · rw [calcFixedLoop_of_le (by omega)]
      have hall : ∀ s ∈ r :: rs, ¬rangeEntryBaseMtrrAddr s < 0x100 := fun s hs => by
        rcases List.mem_cons.mp hs with rfl | hs
        · exact hbase
        · have := hle s hs
          omega
      refine ⟨fun _ s hs hlow => absurd hlow (hall s hs), fun _ => ⟨types, rfl, hpaint.done ?_⟩⟩
      intro p hp hp'
      rw [ht p hp hp']
      exact pageType_of_lt h fun s hs => by
        have := hall s hs
        omega

lemma calcFixedLoop_mono {descs : List FixedMtrrDesc} {fuel' : ℕ}
    (h : calcFixedLoop wrbackBits fuel rs descs types = some types') (hfuel : fuel ≤ fuel') :
    calcFixedLoop wrbackBits fuel' rs descs types = some types' := by
  induction rs generalizing descs types with
  | nil => exact h
  | cons r rs ih =>
    rw [calcFixedLoop] at h ⊢
    by_cases hlast : lastDescEnd ≤ rangeEntryBaseMtrrAddr r
    · simp only [if_pos hlast] at h ⊢
      exact h
    · simp only [if_neg hlast] at h ⊢
      cases hseek : seekDesc (rangeEntryBaseMtrrAddr r) descs with
      | none =>
        rw [hseek] at h
        cases h
      | some ds =>
        rw [hseek] at h
        cases ds with
        | nil => cases h
        | cons desc rest =>
          dsimp only at h ⊢
          split at h
          · cases h
          · next descs' types'' hloop =>
            rw [fixedLoop_mono hloop hfuel]
            exact ih h

lemma painted_zero (t : ℕ → ℕ) : Painted t 0 (List.replicate 88 MTRR_TYPE_UNCACHEABLE) := by
  refine ⟨List.length_replicate, fun i _ hle => ?_, fun i _ hlt => ?_, fun i hi _ => ?_⟩
  · have := rangeStart_lt (show i < i + 1 by omega)
    omega
  · omega
  · rw [List.getElem?_replicate, if_pos hi]
    rfl

/-- The loop ends for some number of rounds, and within the arrays, and leaves each fixed range with
the type of one of its pages (so that of its memory, where it has only one), exactly if each entry
below 1 MiB begins and ends between fixed ranges, or at the same offset in two of one size. -/
theorem calcFixedMtrrs_correct_iff (wrbackBits : ℕ) (physAddrSpace : Memranges)
    (hcan : physAddrSpace.IsCanonical) (hlow : ∀ r ∈ physAddrSpace.entries, r.end_ + 1 < 2 ^ 44) :
    (∃ fuel types, calcFixedMtrrs wrbackBits fuel physAddrSpace = some types ∧
      FixedCorrect (pageType wrbackBits physAddrSpace.entries) types) ↔
    ∀ r ∈ physAddrSpace.entries, rangeEntryBaseMtrrAddr r < 0x100 →
      EntryFits wrbackBits (rangeEntryBaseMtrrAddr r) (fixedEnd r) r.tag := by
  have h := paged_of_isCanonical hcan hlow
  have hiff : ∀ fuel, 89 ≤ fuel →
      ((∃ types, calcFixedMtrrs wrbackBits fuel physAddrSpace = some types ∧
        FixedCorrect (pageType wrbackBits physAddrSpace.entries) types) ↔
      ∀ r ∈ physAddrSpace.entries, rangeEntryBaseMtrrAddr r < 0x100 →
        EntryFits wrbackBits (rangeEntryBaseMtrrAddr r) (fixedEnd r) r.tag) := fun fuel hfuel =>
    calcFixedLoop_iff (j := 0) hfuel h (painted_zero _) le_rfl (fun s _ => Nat.zero_le _)
      fun p _ _ => rfl
  constructor
  · rintro ⟨fuel, types, hres, hcorrect⟩
    exact (hiff (max fuel 89) (le_max_right fuel 89)).mp
      ⟨types, calcFixedLoop_mono hres (le_max_left fuel 89), hcorrect⟩
  · exact fun hfits => ⟨89, (hiff 89 le_rfl).mpr hfits⟩

/-- Memory below 640 KiB and from 768 KiB on. -/
theorem calcFixedMtrrs_correct_iff_memory :
    ∃ fuel types, calcFixedMtrrs 0x18 fuel ⟨[⟨0, 0x9ffff, 6⟩, ⟨0xc0000, 0x7fffffff, 6⟩]⟩ =
        some types ∧
      FixedCorrect (pageType 0x18 [⟨0, 0x9ffff, 6⟩, ⟨0xc0000, 0x7fffffff, 6⟩]) types := by
  refine (calcFixedMtrrs_correct_iff 0x18 ⟨[⟨0, 0x9ffff, 6⟩, ⟨0xc0000, 0x7fffffff, 6⟩]⟩
    ⟨by decide, by decide, by decide, by decide, by decide, by decide⟩ (by decide)).mpr ?_
  unfold EntryFits
  decide

/-- The loop runs past the end of an entry that ends at 636 KiB, and out of the descriptors. -/
theorem not_correct_of_end_in_range :
    ¬∀ wrbackBits (physAddrSpace : Memranges), physAddrSpace.IsCanonical →
      ∃ fuel types, calcFixedMtrrs wrbackBits fuel physAddrSpace = some types ∧
        FixedCorrect (pageType wrbackBits physAddrSpace.entries) types := by
  intro h
  obtain ⟨fuel, types, hres, -⟩ := h 0 ⟨[⟨0, 0x9efff, 6⟩]⟩
    ⟨by decide, by decide, by decide, by decide, by decide, by decide⟩
  have hnever : ∀ k, rangeStart k ≠ 0x9f := fun k => by
    unfold rangeStart
    split_ifs <;> omega
  have hloop : fixedLoop 0 6 0x9f fuel (rangeStart 0) 0 (descsAt 0)
      (List.replicate NUM_FIXED_RANGES MTRR_TYPE_UNCACHEABLE) = none :=
    fixedLoop_none_of_aligned hnever (by decide)
  have hcons : calcFixedLoop 0 fuel [⟨0, 0x9efff, 6⟩] (descsAt 0)
      (List.replicate NUM_FIXED_RANGES MTRR_TYPE_UNCACHEABLE) = _ :=
    calcFixedLoop_cons (by decide) (by decide)
  have hnone : calcFixedMtrrs 0 fuel ⟨[⟨0, 0x9efff, 6⟩]⟩ = none := hcons.trans (by
    change (fixedLoop 0 6 0x9f fuel (rangeStart 0) 0 (descsAt 0)
      (List.replicate NUM_FIXED_RANGES MTRR_TYPE_UNCACHEABLE)).bind _ = none
    rw [hloop]
    rfl)
  rw [hnone] at hres
  cases hres

end ApuBios.Mtrr
