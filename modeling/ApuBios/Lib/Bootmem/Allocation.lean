import ApuBios.Lib.Bootmem.Regions

/-!
# Buffers taken from the memory map

`bootmem_allocate_buffer` takes the end of the last entry of RAM with room below 4 GiB. It does
so for every request unless that entry goes on to the end of the address space, whose end wraps
around to 0, or the buffer begins at 0, which the caller cannot tell from `NULL`.
-/

namespace ApuBios.Bootmem

open Memrange IntervalMap

/-- The size of a request in whole pages. -/
def pages (size : ℕ) : ℕ := Word.roundUp size 12

/-- One entry of RAM has `size` bytes from `b` on, below 4 GiB. -/
def Fits (bootmem : Memranges) (size b : ℕ) : Prop :=
  ∃ r ∈ bootmem.entries, r.tag = LB_MEM_RAM ∧ r.begin ≤ b ∧ b + size ≤ min (r.end_ + 1) maxAddr

/-- What a request of `size` bytes is for: the map afterwards and the pointer. -/
structure Allocated (bootmem : Memranges) (size : ℕ) (bootmem' : Memranges) (p : ℕ) : Prop where
  null_iff : p = 0 ↔ ¬∃ b, Fits bootmem (pages size) b
  unchanged : p = 0 → bootmem' = bootmem
  aligned : p ≠ 0 → 4096 ∣ p
  below : p ≠ 0 → p + pages size ≤ 2 ^ 32
  fits : p ≠ 0 → Fits bootmem (pages size) p
  highest : p ≠ 0 → ∀ b, Fits bootmem (pages size) b → b ≤ p
  marked : p ≠ 0 → ∀ a, bootmem'.denote a =
    if p ≤ a ∧ a < p + pages size then some LB_MEM_UNUSABLE else bootmem.denote a

/-- A request that the function can round up. -/
def Request (size : ℕ) : Prop := 0 < size ∧ size ≤ 2 ^ 32 - 4096

instance (size : ℕ) : Decidable (Request size) := inferInstanceAs (Decidable (_ ∧ _))

lemma dvd_pages (size : ℕ) : 4096 ∣ pages size := Word.dvd_roundUp (k := 12)

lemma pages_bounds {size : ℕ} (h : Request size) :
    4096 ≤ pages size ∧ pages size ≤ 2 ^ 32 - 4096 := by
  obtain ⟨hpos, hle⟩ := h
  have hge : size ≤ pages size := Word.le_roundUp
  have htop : pages size ≤ 2 ^ 32 - 4096 := Word.roundUp_le hle (by norm_num)
  have hdvd := dvd_pages size
  exact ⟨Nat.le_of_dvd (by omega) hdvd, htop⟩

lemma alignUp_eq_pages {size : ℕ} (h : Request size) : Word.alignUp 32 size 4096 = pages size := by
  have hlt := (pages_bounds h).2
  exact Word.alignUp_eq (k := 12) (by norm_num) (by rw [← pages]; omega)

/-! ### The search -/

/-- The tests that an entry has to pass. -/
def Accepts (size : ℕ) (r : RangeEntry) : Prop :=
  size ≤ rangeEntrySize r ∧ r.tag = LB_MEM_RAM ∧ r.begin < maxAddr ∧
    size ≤ Word.sub 64 (clippedEnd r) r.begin

lemma allocateLoop_cons_of_accepts {size : ℕ} {r : RangeEntry} (h : Accepts size r)
    (region : Option RangeEntry) (rest : List RangeEntry) :
    allocateLoop size region (r :: rest) = allocateLoop size (some r) rest := by
  obtain ⟨hsize, htag, hbegin, hclip⟩ := h
  rw [allocateLoop, if_neg (by omega), if_neg (not_not.mpr htag), if_neg (by omega),
    if_neg (by omega)]

lemma allocateLoop_cons_of_not {size : ℕ} {r : RangeEntry} (h : ¬Accepts size r)
    (region : Option RangeEntry) (rest : List RangeEntry) :
    allocateLoop size region (r :: rest) = allocateLoop size region rest := by
  rw [allocateLoop]
  split_ifs with h₁ h₂ h₃ h₄
  any_goals rfl
  exact absurd ⟨by omega, not_not.mp h₂, by omega, by omega⟩ h

/-- The last entry that passes is taken. -/
lemma allocateLoop_spec (size : ℕ) (region : Option RangeEntry) (l : List RangeEntry) :
    (allocateLoop size region l = region ∧ ∀ r ∈ l, ¬Accepts size r) ∨
      ∃ l₁ r l₂, l = l₁ ++ r :: l₂ ∧ allocateLoop size region l = some r ∧ Accepts size r ∧
        ∀ f ∈ l₂, ¬Accepts size f := by
  induction l generalizing region with
  | nil => exact Or.inl ⟨rfl, by simp⟩
  | cons e rest ih =>
    by_cases hacc : Accepts size e
    · rw [allocateLoop_cons_of_accepts hacc]
      rcases ih (some e) with ⟨heq, hno⟩ | ⟨l₁, r, l₂, rfl, heq, hr, hno⟩
      · exact Or.inr ⟨[], e, rest, rfl, heq, hacc, hno⟩
      · exact Or.inr ⟨e :: l₁, r, l₂, rfl, heq, hr, hno⟩
    · rw [allocateLoop_cons_of_not hacc]
      rcases ih region with ⟨heq, hno⟩ | ⟨l₁, r, l₂, rfl, heq, hr, hno⟩
      · refine Or.inl ⟨heq, fun r hr => ?_⟩
        rcases List.mem_cons.mp hr with rfl | hr
        · exact hacc
        · exact hno r hr
      · exact Or.inr ⟨e :: l₁, r, l₂, rfl, heq, hr, hno⟩

/-- For an entry that does not end at the top of the address space the tests are right. -/
lemma accepts_iff {size : ℕ} {r : RangeEntry} (hr : r.Paged) (hend : r.end_ + 1 < 2 ^ 64)
    (hsize : 0 < size) :
    Accepts size r ↔ r.tag = LB_MEM_RAM ∧ r.begin + size ≤ min (r.end_ + 1) maxAddr := by
  have hle := hr.begin_le
  have hrange : rangeEntryEnd r = r.end_ + 1 := by rw [rangeEntryEnd, Word.add_eq hend]
  have hlen : rangeEntrySize r = r.end_ + 1 - r.begin := by
    rw [rangeEntrySize, Word.sub_eq hle (by omega), Word.add_eq (by omega)]
    omega
  rw [Accepts, hlen, clippedEnd, hrange]
  by_cases hbegin : r.begin < maxAddr
  · rw [Word.sub_eq (by omega) (by omega)]
    generalize maxAddr = top at hbegin ⊢
    constructor
    · rintro ⟨-, htag, -, hclip⟩
      exact ⟨htag, by omega⟩
    · rintro ⟨htag, hclip⟩
      exact ⟨by omega, htag, hbegin, by omega⟩
  · constructor
    · rintro ⟨-, -, hlt, -⟩
      exact absurd hlt hbegin
    · rintro ⟨-, hclip⟩
      omega

/-! ### One request -/

/-- The only place for the buffer is at address 0. -/
def OnlyAtZero (bootmem : Memranges) (size : ℕ) : Prop :=
  Fits bootmem size 0 ∧ ∀ b, Fits bootmem size b → b = 0

/-- RAM that crosses 4 GiB and goes on to the end of the address space. -/
def CrossesToTheTop (bootmem : Memranges) : Prop := RamToTheTop bootmem (maxAddr - 1)

/-- The request is served as it should be. -/
def Serves (bootmem : Memranges) (size : ℕ) : Prop :=
  ¬CrossesToTheTop bootmem ∧ ¬OnlyAtZero bootmem (pages size)

/-- Taking the buffer out of the map. -/
lemma bootmemAddRange_pages {bootmem : Memranges} (h : bootmem.IsCanonical) {b size : ℕ}
    (hb : 4096 ∣ b) (hsize : 4096 ∣ size) (hpos : 0 < size) (hfit : b + size ≤ 2 ^ 64) (tag : ℕ) :
    (bootmemAddRange bootmem b size tag).IsCanonical ∧
      ∀ a, (bootmemAddRange bootmem b size tag).denote a =
        if b ≤ a ∧ a < b + size then some tag else bootmem.denote a := by
  have hbegin : pageBegin b = b := pageBegin_of_dvd hb
  have hend : pageEnd b size = b + size := by
    rw [pageEnd]
    omega
  rw [bootmemAddRange, memrangesInsert, doAction_eq hpos hfit, hbegin, hend]
  obtain ⟨hcan, hden⟩ := mergeAddMemranges_spec tag (show b ≤ b + size - 1 by omega) (by omega) hb
    (by rw [Nat.sub_add_cancel (by omega)]; exact dvd_add hb hsize) h
  refine ⟨hcan, fun a => (hden a).trans ?_⟩
  split_ifs <;> first | rfl | (exfalso; omega)

/-- Of two entries in a list the later one lies behind. -/
private lemma lt_of_split {l₁ l₂ : List RangeEntry} {r f : RangeEntry}
    (hs : Separated (l₁ ++ r :: l₂)) (hf : f ∈ l₁) : f.end_ < r.begin :=
  (List.pairwise_append.mp hs.sorted).2.2 f hf r (by simp)

section Step

variable {bootmem : Memranges} {size : ℕ}

/-- Without RAM across 4 GiB up to the top, no entry that the function looks at wraps around. -/
lemma accepts_iff_of_not_crosses (hcan : bootmem.IsCanonical) (hsize : 0 < size)
    (hno : ¬CrossesToTheTop bootmem) {r : RangeEntry} (hr : r ∈ bootmem.entries) :
    Accepts size r ↔ r.tag = LB_MEM_RAM ∧ r.begin + size ≤ min (r.end_ + 1) maxAddr := by
  obtain ⟨hcanonical, hpaged⟩ := (Memranges.isCanonical_iff _).mp hcan
  have hP := hpaged r hr
  have hfit := hP.fits
  by_cases hend : r.end_ + 1 < 2 ^ 64
  · exact accepts_iff hP hend hsize
  · have hout : ¬(r.tag = LB_MEM_RAM ∧ r.begin < maxAddr) := by
      rintro ⟨htag, hbegin⟩
      refine hno fun a hlo hhi => ?_
      rw [← htag]
      exact hcanonical.separated.lookup_mem hr (by simp only [lo_eq]; omega)
        (by simp only [hi_eq]; omega)
    constructor
    · rintro ⟨-, htag, hbegin, -⟩
      exact absurd ⟨htag, hbegin⟩ hout
    · rintro ⟨htag, hclip⟩
      exact absurd ⟨htag, by omega⟩ hout

/-- Nothing fits if no entry is accepted. -/
lemma not_fits_of_not_accepts (hcan : bootmem.IsCanonical) (hsize : 0 < size)
    (hno : ¬CrossesToTheTop bootmem) (hacc : ∀ r ∈ bootmem.entries, ¬Accepts size r) :
    ¬∃ b, Fits bootmem size b := by
  rintro ⟨b, r, hr, htag, hlo, hhi⟩
  exact hacc r hr ((accepts_iff_of_not_crosses hcan hsize hno hr).mpr ⟨htag, by omega⟩)

/-- The end of the last accepted entry is the highest place. -/
lemma fits_le_of_last (hcan : bootmem.IsCanonical) (hsize : 0 < size)
    (hno : ¬CrossesToTheTop bootmem) {l₁ l₂ : List RangeEntry} {r : RangeEntry}
    (hsplit : bootmem.entries = l₁ ++ r :: l₂) (hacc : Accepts size r)
    (hlast : ∀ f ∈ l₂, ¬Accepts size f) :
    Fits bootmem size (min (r.end_ + 1) maxAddr - size) ∧
      ∀ b, Fits bootmem size b → b ≤ min (r.end_ + 1) maxAddr - size := by
  have hs := ((Memranges.isCanonical_iff _).mp hcan).1.separated
  have hr : r ∈ bootmem.entries := by simp [hsplit]
  obtain ⟨htag, hroom⟩ := (accepts_iff_of_not_crosses hcan hsize hno hr).mp hacc
  refine ⟨⟨r, hr, htag, by omega, by omega⟩, ?_⟩
  rintro b ⟨f, hf, hftag, hlo, hhi⟩
  have hfacc := (accepts_iff_of_not_crosses hcan hsize hno hf).mpr ⟨hftag, by omega⟩
  rw [hsplit] at hs hf
  rcases List.mem_append.mp hf with hf | hf
  · have := lt_of_split hs hf
    omega
  rcases List.mem_cons.mp hf with rfl | hf
  · omega
  · exact absurd hfacc (hlast f hf)

/-- An accepted entry ends in front of the top of the address space. -/
lemma clippedEnd_of_accepts (hcan : bootmem.IsCanonical) (hno : ¬CrossesToTheTop bootmem)
    {r : RangeEntry} (hr : r ∈ bootmem.entries) (hacc : Accepts size r) :
    clippedEnd r = min (r.end_ + 1) maxAddr := by
  obtain ⟨hcanonical, hpaged⟩ := (Memranges.isCanonical_iff _).mp hcan
  have hfit := (hpaged r hr).fits
  have hend : r.end_ + 1 < 2 ^ 64 := by
    by_contra htop
    obtain ⟨-, htag, hbegin, -⟩ := hacc
    refine hno fun a hlo hhi => ?_
    rw [← htag]
    exact hcanonical.separated.lookup_mem hr (by simp only [lo_eq]; omega)
      (by simp only [hi_eq]; omega)
  rw [clippedEnd, rangeEntryEnd, Word.add_eq hend]

/-- What the function does with the entry that it has found. -/
lemma bootmemAllocateBuffer_of_some (hreq : Request size) {r : RangeEntry}
    (hloop : allocateLoop (pages size) none bootmem.entries = some r) :
    bootmemAllocateBuffer bootmem size =
      (bootmemAddRange bootmem (Word.sub 64 (clippedEnd r) (pages size)) (pages size)
        LB_MEM_UNUSABLE, Word.sub 64 (clippedEnd r) (pages size) % 2 ^ 32) := by
  simp only [bootmemAllocateBuffer, alignUp_eq_pages hreq, hloop]

lemma bootmemAllocateBuffer_of_none (hreq : Request size)
    (hloop : allocateLoop (pages size) none bootmem.entries = none) :
    bootmemAllocateBuffer bootmem size = (bootmem, 0) := by
  simp only [bootmemAllocateBuffer, alignUp_eq_pages hreq, hloop]

/-- A request that meets the condition is served. -/
lemma allocated_of_serves (hcan : bootmem.IsCanonical) (hreq : Request size)
    (h : Serves bootmem size) :
    Allocated bootmem size (bootmemAllocateBuffer bootmem size).1
      (bootmemAllocateBuffer bootmem size).2 := by
  obtain ⟨hno, hzero⟩ := h
  obtain ⟨hpos, htop⟩ := pages_bounds hreq
  have hdvd := dvd_pages size
  rcases allocateLoop_spec (pages size) none bootmem.entries with
    ⟨hloop, hacc⟩ | ⟨l₁, r, l₂, hsplit, hloop, hacc, hlast⟩
  · have hnone := not_fits_of_not_accepts hcan (by omega) hno hacc
    rw [bootmemAllocateBuffer_of_none hreq hloop]
    exact ⟨⟨fun _ => hnone, fun _ => rfl⟩, fun _ => rfl, fun hp => absurd rfl hp,
      fun hp => absurd rfl hp, fun hp => absurd rfl hp, fun hp => absurd rfl hp,
      fun hp => absurd rfl hp⟩
  · have hr : r ∈ bootmem.entries := by simp [hsplit]
    have hpage := (((Memranges.isCanonical_iff _).mp hcan).2 r hr).end_page
    have hroom := ((accepts_iff_of_not_crosses hcan (by omega) hno hr).mp hacc).2
    obtain ⟨hfits, hhighest⟩ := fits_le_of_last hcan (by omega) hno hsplit hacc hlast
    have hclip := clippedEnd_of_accepts hcan hno hr hacc
    have hle : clippedEnd r ≤ maxAddr := hclip ▸ min_le_right _ _
    have hmax : maxAddr = 2 ^ 32 := rfl
    have hsub : Word.sub 64 (clippedEnd r) (pages size) = clippedEnd r - pages size :=
      Word.sub_eq (by omega) (by omega)
    have hdvdEnd : 4096 ∣ clippedEnd r := by
      rw [hclip]
      rcases min_choice (r.end_ + 1) maxAddr with heq | heq <;> rw [heq]
      · exact hpage
      · exact Dvd.intro (2 ^ 20) rfl
    rw [bootmemAllocateBuffer_of_some hreq hloop, hsub]
    rw [← hclip] at hfits hhighest
    have hp : clippedEnd r - pages size ≠ 0 := by
      intro hp
      rw [hp] at hfits hhighest
      exact hzero ⟨hfits, fun b hb => Nat.le_zero.mp (hhighest b hb)⟩
    have hmod : (clippedEnd r - pages size) % 2 ^ 32 = clippedEnd r - pages size :=
      Nat.mod_eq_of_lt (by omega)
    have hadd := bootmemAddRange_pages hcan (Nat.dvd_sub hdvdEnd hdvd) hdvd (by omega)
      (by omega) LB_MEM_UNUSABLE
    simp only [hmod]
    exact ⟨⟨fun heq => absurd heq hp, fun hnone => absurd ⟨_, hfits⟩ hnone⟩,
      fun heq => absurd heq hp, fun _ => Nat.dvd_sub hdvdEnd hdvd, fun _ => by omega,
      fun _ => hfits, fun _ => hhighest, fun _ => hadd.2⟩

/-- A buffer that begins at 0 looks like none. -/
lemma bootmemAllocateBuffer_of_onlyAtZero (hcan : bootmem.IsCanonical) (hreq : Request size)
    (hno : ¬CrossesToTheTop bootmem) (hzero : OnlyAtZero bootmem (pages size)) :
    (bootmemAllocateBuffer bootmem size).2 = 0 := by
  obtain ⟨hpos, htop⟩ := pages_bounds hreq
  rcases allocateLoop_spec (pages size) none bootmem.entries with
    ⟨hloop, -⟩ | ⟨l₁, r, l₂, hsplit, hloop, hacc, hlast⟩
  · rw [bootmemAllocateBuffer_of_none hreq hloop]
  · have hr : r ∈ bootmem.entries := by simp [hsplit]
    have hroom := ((accepts_iff_of_not_crosses hcan (by omega) hno hr).mp hacc).2
    have hfits := (fits_le_of_last hcan (by omega) hno hsplit hacc hlast).1
    have hclip := clippedEnd_of_accepts hcan hno hr hacc
    have hmax : maxAddr = 2 ^ 32 := rfl
    have hsub : Word.sub 64 (clippedEnd r) (pages size) = clippedEnd r - pages size :=
      Word.sub_eq (by omega) (by omega)
    rw [← hclip] at hfits
    rw [bootmemAllocateBuffer_of_some hreq hloop, hsub, hzero.2 _ hfits, Nat.zero_mod]

/-- RAM across 4 GiB up to the top: the function takes the end of the address space, or
nothing. -/
lemma not_allocated_of_crosses (hcan : bootmem.IsCanonical) (hreq : Request size)
    (h : CrossesToTheTop bootmem) :
    ¬Allocated bootmem size (bootmemAllocateBuffer bootmem size).1
      (bootmemAllocateBuffer bootmem size).2 := by
  intro hall
  obtain ⟨hcanonical, hpaged⟩ := (Memranges.isCanonical_iff _).mp hcan
  have hs := hcanonical.separated
  obtain ⟨hpos, htop⟩ := pages_bounds hreq
  have hdvd := dvd_pages size
  have hmax : maxAddr = 2 ^ 32 := rfl
  obtain ⟨r, hr, hlo, hhi, htag⟩ :=
    hcanonical.exists_mem_of_const (show maxAddr - 1 ≤ 2 ^ 64 - 1 by omega) fun a hlo hhi =>
      h a hlo (by omega)
  simp only [lo_eq, hi_eq, val_eq] at hlo hhi htag
  have hrP := hpaged r hr
  have hend : r.end_ = 2 ^ 64 - 1 := by
    have := hrP.fits
    omega
  -- the entry is the last one, and the first one if it begins at 0
  have hother : ∀ f ∈ bootmem.entries, f = r ∨ f.end_ < r.begin := by
    intro f hf
    obtain ⟨l₁, l₂, hsplit⟩ := List.append_of_mem hr
    rw [hsplit] at hs hf
    rcases List.mem_append.mp hf with hf₁ | hf₂
    · exact Or.inr (lt_of_split hs hf₁)
    rcases List.mem_cons.mp hf₂ with rfl | hf₂
    · exact Or.inl rfl
    · have hbehind := (List.pairwise_cons.mp (List.pairwise_append.mp hs.sorted).2.1).1 f hf₂
      have hfP := hpaged f (by rw [hsplit]; simp [hf₂])
      have := hfP.begin_le
      have := hfP.fits
      simp only [lo_eq, hi_eq] at hbehind
      omega
  have hclip : clippedEnd r = 0 := by
    rw [clippedEnd, rangeEntryEnd, hend]
    rfl
  have haccepts : 0 < r.begin → Accepts (pages size) r := by
    intro hbegin
    refine ⟨?_, htag, by omega, ?_⟩
    · rw [rangeEntrySize, hend, Word.sub_eq (by omega) (by omega), Word.add_eq (by omega)]
      omega
    · rw [hclip, Word.sub_eq_wrap (by omega) (by omega)]
      omega
  rcases allocateLoop_spec (pages size) none bootmem.entries with
    ⟨hloop, hacc⟩ | ⟨l₁, r', l₂, hsplit, hloop, hacc, hlast⟩
  · -- nothing is found, although the last entry has room
    rw [bootmemAllocateBuffer_of_none hreq hloop] at hall
    have hbegin : r.begin = 0 := by
      by_contra hbegin
      exact hacc r hr (haccepts (by omega))
    exact hall.null_iff.mp rfl ⟨0, r, hr, htag, hbegin.le, by rw [hend]; omega⟩
  · have hr' : r' = r := by
      have hmem : r' ∈ bootmem.entries := by simp [hsplit]
      rcases hother r' hmem with heq | hlt
      · exact heq
      have hr'P := hpaged r' hmem
      have := hr'P.begin_le
      rw [hsplit] at hs hr
      rcases List.mem_append.mp hr with hr | hr
      · have := lt_of_split hs hr
        omega
      rcases List.mem_cons.mp hr with heq | hr
      · exact heq.symm
      · exact absurd (haccepts (by omega)) (hlast r hr)
    subst hr'
    rw [bootmemAllocateBuffer_of_some hreq hloop, hclip,
      Word.sub_eq_wrap (by omega) (by omega)] at hall
    have hadd := bootmemAddRange_pages hcan (b := 0 + 2 ^ 64 - pages size) (by omega) hdvd
      (by omega) (by omega) LB_MEM_UNUSABLE
    have hp : (0 + 2 ^ 64 - pages size) % 2 ^ 32 = 2 ^ 32 - pages size := by omega
    have hmarked := hall.marked (by simp only [hp]; omega) (2 ^ 64 - 1)
    simp only [hp] at hmarked
    rw [hadd.2, if_pos (by omega), if_neg (by omega), h _ (by omega) (by omega)] at hmarked
    exact absurd (Option.some.inj hmarked) (by decide)

end Step

lemma allocated_iff {bootmem : Memranges} (hcan : bootmem.IsCanonical) {size : ℕ}
    (hreq : Request size) :
    Allocated bootmem size (bootmemAllocateBuffer bootmem size).1
        (bootmemAllocateBuffer bootmem size).2 ↔ Serves bootmem size := by
  constructor
  · intro hall
    refine ⟨fun htop => not_allocated_of_crosses hcan hreq htop hall, fun hzero => ?_⟩
    have hp := mt hall.null_iff.mp (not_not.mpr ⟨0, hzero.1⟩)
    exact hp (hzero.2 _ (hall.fits hp))
  · exact allocated_of_serves hcan hreq

/-- The map stays canonical, also where the request is not served as it should be. -/
lemma bootmemAllocateBuffer_isCanonical {bootmem : Memranges} (hcan : bootmem.IsCanonical)
    {size : ℕ} (hreq : Request size) : (bootmemAllocateBuffer bootmem size).1.IsCanonical := by
  obtain ⟨hpos, htop⟩ := pages_bounds hreq
  have hdvd := dvd_pages size
  have hmax : maxAddr = 2 ^ 32 := rfl
  rcases allocateLoop_spec (pages size) none bootmem.entries with
    ⟨hloop, -⟩ | ⟨l₁, r, l₂, hsplit, hloop, ⟨-, -, hbegin, hroom⟩, -⟩
  · rw [bootmemAllocateBuffer_of_none hreq hloop]
    exact hcan
  · have hP := ((Memranges.isCanonical_iff _).mp hcan).2 r (by simp [hsplit])
    have hle := hP.begin_le
    have hfit := hP.fits
    have hpage := hP.end_page
    rw [bootmemAllocateBuffer_of_some hreq hloop]
    by_cases hend : r.end_ + 1 < 2 ^ 64
    · have hclip : clippedEnd r = min (r.end_ + 1) maxAddr := by
        rw [clippedEnd, rangeEntryEnd, Word.add_eq hend]
      rw [hclip, Word.sub_eq (by omega) (by omega)] at hroom
      rw [hclip, Word.sub_eq (by omega) (by omega)]
      exact (bootmemAddRange_pages hcan (by omega) hdvd (by omega) (by omega) _).1
    · have hclip : clippedEnd r = 0 := by
        rw [clippedEnd, rangeEntryEnd, show r.end_ = 2 ^ 64 - 1 by omega]
        rfl
      rw [hclip, Word.sub_eq_wrap (by omega) (by omega)]
      exact (bootmemAddRange_pages hcan (by omega) hdvd (by omega) (by omega) _).1

/-! ### Sequences of requests -/

/-- The map after a sequence of requests. -/
def runAllocate (bootmem : Memranges) (sizes : List ℕ) : Memranges :=
  sizes.foldl (fun m size => (bootmemAllocateBuffer m size).1) bootmem

/-- The pointer that a request gets after the requests in `before`. -/
def pointer (bootmem : Memranges) (before : List ℕ) (size : ℕ) : ℕ :=
  (bootmemAllocateBuffer (runAllocate bootmem before) size).2

/-- What a sequence of requests is for: each is served, and no two buffers overlap. -/
structure AllServed (bootmem : Memranges) (sizes : List ℕ) : Prop where
  allocated : ∀ before size after, sizes = before ++ size :: after →
    Allocated (runAllocate bootmem before) size (runAllocate bootmem (before ++ [size]))
      (pointer bootmem before size)
  disjoint : ∀ before size between size' after,
    sizes = before ++ size :: (between ++ size' :: after) →
    pointer bootmem before size ≠ 0 →
    pointer bootmem (before ++ size :: between) size' ≠ 0 →
    pointer bootmem before size + pages size ≤ pointer bootmem (before ++ size :: between) size' ∨
      pointer bootmem (before ++ size :: between) size' + pages size' ≤
        pointer bootmem before size

lemma runAllocate_append (bootmem : Memranges) (before : List ℕ) (size : ℕ) :
    runAllocate bootmem (before ++ [size]) =
      (bootmemAllocateBuffer (runAllocate bootmem before) size).1 := by
  rw [runAllocate, List.foldl_append]
  rfl

lemma runAllocate_isCanonical {bootmem : Memranges} (hcan : bootmem.IsCanonical)
    {sizes : List ℕ} (h : ∀ size ∈ sizes, Request size) :
    (runAllocate bootmem sizes).IsCanonical := by
  induction sizes using List.reverseRecOn with
  | nil => exact hcan
  | append_singleton sizes size ih =>
    rw [runAllocate_append]
    exact bootmemAllocateBuffer_isCanonical (ih fun s hs => h s (by simp [hs])) (h size (by simp))

/-- A served request leaves what is unusable. -/
lemma Allocated.unusable {bootmem bootmem' : Memranges} {size p a : ℕ}
    (h : Allocated bootmem size bootmem' p) (ha : bootmem.denote a = some LB_MEM_UNUSABLE) :
    bootmem'.denote a = some LB_MEM_UNUSABLE := by
  by_cases hp : p = 0
  · rw [h.unchanged hp, ha]
  · rw [h.marked hp]
    split_ifs
    · rfl
    · exact ha

/-- The places for a buffer are RAM. -/
lemma Fits.denote {bootmem : Memranges} (hcan : bootmem.IsCanonical) {size b a : ℕ}
    (h : Fits bootmem size b) (hlo : b ≤ a) (hhi : a < b + size) :
    bootmem.denote a = some LB_MEM_RAM := by
  obtain ⟨r, hr, htag, hbegin, hend⟩ := h
  rw [← htag]
  exact ((Memranges.isCanonical_iff _).mp hcan).1.separated.lookup_mem hr
    (by simp only [lo_eq]; omega) (by simp only [hi_eq]; omega)

section Run

variable {bootmem : Memranges} {sizes : List ℕ}

/-- What a buffer has been given stays unusable through the later requests. -/
lemma unusable_after (hall : ∀ before size after, sizes = before ++ size :: after →
      Allocated (runAllocate bootmem before) size (runAllocate bootmem (before ++ [size]))
        (pointer bootmem before size)) {before : List ℕ} {size : ℕ} {between after : List ℕ}
    (heq : sizes = before ++ size :: (between ++ after)) {a : ℕ}
    (hp : pointer bootmem before size ≠ 0) (hlo : pointer bootmem before size ≤ a)
    (hhi : a < pointer bootmem before size + pages size) :
    (runAllocate bootmem (before ++ size :: between)).denote a = some LB_MEM_UNUSABLE := by
  induction between using List.reverseRecOn generalizing after with
  | nil =>
    rw [(hall before size after heq).marked hp, if_pos ⟨hlo, hhi⟩]
  | append_singleton between size' ih =>
    have hstep := hall (before ++ size :: between) size' after (by rw [heq]; simp)
    rw [← List.cons_append, ← List.append_assoc]
    refine hstep.unusable (@ih (size' :: after) ?_)
    rw [heq]
    simp

/-- A sequence of requests is served, each one from a place of its own, if and only if every
request finds a map that meets the condition. -/
theorem allServed_iff (hcan : bootmem.IsCanonical) (hreq : ∀ size ∈ sizes, Request size) :
    AllServed bootmem sizes ↔
      ∀ before size after, sizes = before ++ size :: after →
        Serves (runAllocate bootmem before) size := by
  have hstep : ∀ before size after, sizes = before ++ size :: after →
      (Allocated (runAllocate bootmem before) size (runAllocate bootmem (before ++ [size]))
        (pointer bootmem before size) ↔ Serves (runAllocate bootmem before) size) := by
    intro before size after heq
    rw [runAllocate_append]
    refine allocated_iff (runAllocate_isCanonical hcan fun s hs => hreq s ?_) (hreq size ?_) <;>
      simp [*]
  constructor
  · intro hall before size after heq
    exact (hstep before size after heq).mp (hall.allocated before size after heq)
  · intro hserves
    have hall := fun before size after heq =>
      (hstep before size after heq).mpr (hserves before size after heq)
    refine ⟨hall, fun before size between size' after heq hp hp' => ?_⟩
    have hlater := hall (before ++ size :: between) size' after (by rw [heq]; simp)
    have hfits := hlater.fits hp'
    have hpos := (pages_bounds (hreq size (by simp [heq]))).1
    have hpos' := (pages_bounds (hreq size' (by simp [heq]))).1
    by_contra hover
    rw [not_or, not_le, not_le] at hover
    have hcan' : (runAllocate bootmem (before ++ size :: between)).IsCanonical :=
      runAllocate_isCanonical hcan fun s hs => hreq s (by rw [heq]; simp at hs ⊢; tauto)
    -- an address in both buffers would be unusable and RAM
    have hbad := unusable_after (a := max (pointer bootmem before size)
      (pointer bootmem (before ++ size :: between) size')) hall heq hp (by omega) (by omega)
    rw [hfits.denote hcan' (by omega) (by omega)] at hbad
    exact absurd (Option.some.inj hbad) (by decide)

end Run

theorem allServed_iff_straddling :
    AllServed ⟨[⟨0x1000, 0x13fffffff, 1⟩]⟩ [0x1800, 0x1000] := by
  refine (allServed_iff (@run_isCanonical [.insert 0x1000 0x13ffff000 1] (by decide))
    (by decide)).mpr fun before size after heq => ?_
  have hbefore : before = [] ∨ before = [0x1800] := by
    rcases before with _ | ⟨a, _ | ⟨b, before⟩⟩
    · exact .inl rfl
    · exact .inr (by rw [(List.cons.inj heq).1])
    · simp at heq
  have hserves : ∀ bootmem : Memranges, bootmem.denote (2 ^ 64 - 1) ≠ some LB_MEM_RAM →
      (∀ r ∈ bootmem.entries, 0 < r.begin) → Serves bootmem size := by
    refine fun bootmem htop hbegin => ⟨fun h => htop (h _ (by decide) (by decide)), fun h => ?_⟩
    obtain ⟨r, hr, -, hle, -⟩ := h.1
    exact absurd hle (hbegin r hr).not_ge
  rcases hbefore with rfl | rfl <;> exact hserves _ (by decide +kernel) (by decide +kernel)

/-- A buffer at address 0 looks like `NULL`, although the map has changed. -/
theorem not_allServed :
    Memranges.IsCanonical ⟨[⟨0x0, 0xfff, 1⟩]⟩ ∧ Request 0x1000 ∧
      (bootmemAllocateBuffer ⟨[⟨0x0, 0xfff, 1⟩]⟩ 0x1000).2 = 0 ∧
      (bootmemAllocateBuffer ⟨[⟨0x0, 0xfff, 1⟩]⟩ 0x1000).1 = ⟨[⟨0x0, 0xfff, 5⟩]⟩ ∧
      ¬AllServed ⟨[⟨0x0, 0xfff, 1⟩]⟩ [0x1000] := by
  refine ⟨@run_isCanonical [.insert 0x0 0x1000 1] (by decide), by decide, by decide, by decide,
    fun h => ?_⟩
  have hsame := (h.allocated [] 0x1000 [] rfl).unchanged (by decide)
  revert hsame
  decide

end ApuBios.Bootmem
