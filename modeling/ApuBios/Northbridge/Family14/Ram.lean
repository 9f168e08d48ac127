import ApuBios.Device.Allocator.Basic

/-!
# RAM behind the northbridge

Model of `domain_set_resources` in `northbridge/amd/agesa/family14/northbridge.c`, with
`get_dram_base_mask` and what it takes from the allocator. Bases and sizes are in KiB; RAM is not
reported in the VGA hole, and in the MMIO hole that goes up to 4 GiB.
-/

namespace ApuBios.Family14

open Allocator

def IORESOURCE_CACHEABLE : BitVec 32 := 0x00004000

/-! ### Registers -/

/-- `struct dram_base_mask_t` -/
structure DramBaseMask where
  base : ℕ
  mask : ℕ

/-- From the registers at 0x40 and 0x44. -/
def getDramBaseMask (reg40 reg44 : BitVec 32) : DramBaseMask where
  mask := (reg44.toNat &&& 0xffff0000) ||| (reg40.toNat &&& 1)
  base := reg40.toNat &&& 0x0fff0000

/-- `hole_startk`, if the register at 0xf0 has a hole. -/
def getHwMemHoleInfo (d : DramBaseMask) (hole : BitVec 32) : Option ℕ :=
  if d.mask &&& 1 ≠ 0 ∧ hole.toNat &&& 1 ≠ 0 then some ((hole.toNat &&& 0xff <<< 24) >>> 10)
  else none

/-! ### The MMIO hole -/

def tolmTest (best : Option Resource) (new : Resource) : Option Resource :=
  match best with
  | none => some new
  | some best => if new.base < best.base then some new else some best

/-- `found` are the resources that `search_bus_resources` finds on the link. -/
def myFindPciTolm (tolm : ℕ) (found : List Resource) : ℕ :=
  match found.foldl tolmTest none with
  | none => tolm
  | some min => if min.base < tolm then min.base else tolm

def pciTolm (links : List (List Resource)) : ℕ := links.foldl myFindPciTolm 0xffffffff

/-- The base of the lowest resource is rounded to 64 KiB and to 64 MiB; the hole that is set already
is taken if it starts below. -/
def mmioBasek (links : List (List Resource)) (memHole : Option ℕ) : ℕ :=
  let basek := Word.alignDown 32 (Word.alignDown 32 (pciTolm links >>> 10) (1 <<< 6)) (64 * 1024)
  match memHole with
  | none => basek
  | some holeStartk => if holeStartk < basek then holeStartk else basek

/-! ### RAM -/

/-- `ram_resource`; nothing is added for a size of zero. -/
def ramResource (index basek sizek : ℕ) : List Resource :=
  if sizek % 2 ^ 32 = 0 then []
  else [{
    base := (basek % 2 ^ 32) <<< 10
    size := (sizek % 2 ^ 32) <<< 10
    limit := 0
    flags := IORESOURCE_MEM ||| IORESOURCE_FIXED ||| IORESOURCE_STORED ||| IORESOURCE_ASSIGNED |||
      IORESOURCE_CACHEABLE
    index := index
    align := 0
    gran := 0 }]

/-- The variables of `domain_set_resources`, with the resources that were added. -/
structure Ram where
  idx : ℕ
  basek : ℕ
  sizek : ℕ
  ramtop : ℕ
  resources : List Resource

/-- `ram_resource(dev, idx, basek, sizek); idx += 0x10;` -/
def Ram.report (s : Ram) (basek sizek : ℕ) : Ram :=
  { s with resources := s.resources ++ ramResource s.idx basek sizek, idx := s.idx + 0x10 }

/-- The hole from 0xa0000 to 0xbffff. -/
def Ram.splitVga (limitk : ℕ) (s : Ram) : Ram :=
  if s.basek < 640 ∧ 768 < s.sizek then
    { s.report s.basek (640 - s.basek) with basek := 768, sizek := Word.sub 64 limitk 768 }
  else s

/-- What is below of the MMIO hole. -/
def Ram.belowMmio (mmioBasek : ℕ) (s : Ram) : Ram :=
  if s.basek ≤ mmioBasek then
    let preSizek := mmioBasek - s.basek
    if 0 < preSizek then
      { s.report s.basek preSizek with
        basek := mmioBasek
        sizek := Word.sub 64 s.sizek preSizek
        ramtop := if s.ramtop = 0 then mmioBasek * 1024 else s.ramtop }
    else { s with basek := mmioBasek }
  else s

/-- What is above. -/
def Ram.aboveMmio (mmioBasek : ℕ) (s : Ram) : Ram :=
  if Word.add 64 s.basek s.sizek ≤ 4 * 1024 * 1024 then { s with sizek := 0 }
  else
    { s with
      basek := 4 * 1024 * 1024
      sizek := Word.sub 64 s.sizek (Word.sub 32 (4 * 1024 * 1024) mmioBasek) }

/-- The region is split to accommodate the MMIO hole. -/
def Ram.splitMmio (mmioBasek limitk : ℕ) (s : Ram) : Ram :=
  if s.basek < 4 * 1024 * 1024 ∧ mmioBasek < limitk then
    (s.belowMmio mmioBasek).aboveMmio mmioBasek
  else s

/-- The RAM resources, and the top of the RAM. -/
def domainSetResources (d : DramBaseMask) (mmioBasek : ℕ) : List Resource × ℕ :=
  if d.mask &&& 1 = 0 then ([], 0)
  else
    let basek := (d.base <<< 8) >>> 10
    let limitk := ((d.mask <<< 8 ||| 0xffffff) + 1) >>> 10
    let s : Ram := ⟨0x10, basek, Word.sub 64 limitk basek, 0, []⟩
    let s := (s.splitVga limitk).splitMmio mmioBasek limitk
    let s := s.report s.basek s.sizek
    (s.resources, if s.ramtop = 0 then limitk * 1024 else s.ramtop)

/-! ### What is to be reported -/

def dramEnabled (reg40 : BitVec 32) : Prop := reg40.toNat % 2 = 1

instance (reg40 : BitVec 32) : Decidable (dramEnabled reg40) :=
  inferInstanceAs (Decidable (_ = _))

/-- Bits 35 to 24 of the base are bits 27 to 16 of the register. -/
def dramBase (reg40 : BitVec 32) : ℕ := reg40.toNat / 2 ^ 16 % 2 ^ 12 * 2 ^ 24

/-- Bits 39 to 24 of the last address are bits 31 to 16 of the register. -/
def dramLimit (reg44 : BitVec 32) : ℕ := (reg44.toNat / 2 ^ 16 + 1) * 2 ^ 24

def Holds (r : Resource) (x : ℕ) : Prop := r.base ≤ x ∧ x < r.base + r.size

def Covers (resources : List Resource) (x : ℕ) : Prop := ∃ r ∈ resources, Holds r x

/-- An address that is RAM, outside of both holes. -/
structure IsRam (reg40 reg44 : BitVec 32) (mmioBase x : ℕ) : Prop where
  enabled : dramEnabled reg40
  base : dramBase reg40 ≤ x
  limit : x < dramLimit reg44
  vga : x < 640 * 1024 ∨ 768 * 1024 ≤ x
  mmio : x < mmioBase ∨ 2 ^ 32 ≤ x

/-- The resources are disjoint, and are the RAM. -/
structure Exact (reg40 reg44 : BitVec 32) (mmioBase : ℕ) (resources : List Resource) : Prop where
  disjoint : resources.Pairwise fun r r' => ∀ x, Holds r x → ¬ Holds r' x
  union : ∀ x, Covers resources x ↔ IsRam reg40 reg44 mmioBase x

/-- DRAM neither starts in the hole and ends behind it, nor at address zero if the hole does, and
its limit is not below its base, other than in the hole. -/
structure Regular (reg40 reg44 : BitVec 32) (mmioBase : ℕ) : Prop where
  low : mmioBase = 0 → dramBase reg40 ≠ 0
  inside : ¬ (mmioBase < dramBase reg40 ∧ dramBase reg40 < 2 ^ 32 ∧ 2 ^ 32 < dramLimit reg44)
  reversed : dramLimit reg44 < dramBase reg40 →
    mmioBase < dramLimit reg44 ∧ dramBase reg40 < 2 ^ 32

variable {reg40 reg44 : BitVec 32} {b l m x i size : ℕ} {rs rs' : List Resource} {s : Ram}

/-! ### Resources -/

lemma covers_append : Covers (rs ++ rs') x ↔ Covers rs x ∨ Covers rs' x := by
  simp only [Covers, List.mem_append, or_and_right, exists_or]

lemma covers_nil : ¬ Covers [] x := fun ⟨_, hr, _⟩ => absurd hr List.not_mem_nil

lemma ramResource_zero : ramResource i b 0 = [] := if_pos rfl

/-- A size is cut to 32 bits. -/
lemma covers_ramResource_mod (hb : b < 2 ^ 32) :
    Covers (ramResource i b size) x ↔ b * 1024 ≤ x ∧ x < (b + size % 2 ^ 32) * 1024 := by
  rw [ramResource, Nat.mod_eq_of_lt hb]
  generalize size % 2 ^ 32 = z
  split_ifs with hzero
  · refine iff_of_false covers_nil ?_
    rw [hzero]
    omega
  · simp only [Covers, List.mem_singleton, exists_eq_left, Holds, Nat.shiftLeft_eq]
    constructor
    · rintro ⟨hlo, hhi⟩
      omega
    · rintro ⟨hlo, hhi⟩
      omega

lemma covers_ramResource (hb : b < 2 ^ 32) (hsize : size < 2 ^ 32) :
    Covers (ramResource i b size) x ↔ b * 1024 ≤ x ∧ x < (b + size) * 1024 := by
  rw [covers_ramResource_mod hb, Nat.mod_eq_of_lt hsize]

lemma pairwise_ramResource :
    (ramResource i b size).Pairwise fun r r' => ∀ x, Holds r x → ¬ Holds r' x := by
  rw [ramResource]
  split_ifs
  · exact .nil
  · exact List.pairwise_singleton _ _

lemma pairwise_append (hrs : rs.Pairwise fun r r' => ∀ x, Holds r x → ¬ Holds r' x)
    (hrs' : rs'.Pairwise fun r r' => ∀ x, Holds r x → ¬ Holds r' x)
    (h : ∀ x, Covers rs x → ¬ Covers rs' x) :
    (rs ++ rs').Pairwise fun r r' => ∀ x, Holds r x → ¬ Holds r' x := by
  rw [List.pairwise_append]
  exact ⟨hrs, hrs', fun r hr r' hr' x hx hx' => h x ⟨r, hr, hx⟩ ⟨r', hr', hx'⟩⟩

/-! ### Bits of the registers -/

lemma and_field (v w c : ℕ) : v &&& (2 ^ w * (2 ^ c - 1)) = v / 2 ^ w % 2 ^ c * 2 ^ w := by
  have hv : v = 2 ^ w * (v / 2 ^ w) + v % 2 ^ w := (Nat.div_add_mod v (2 ^ w)).symm
  nth_rewrite 1 [hv]
  rw [Word.and_mul_two_pow (Nat.mod_lt _ (by positivity)), Nat.and_two_pow_sub_one_eq_mod,
    Nat.mul_comm]

lemma base_eq (reg40 reg44 : BitVec 32) :
    ((getDramBaseMask reg40 reg44).base <<< 8) >>> 10 = reg40.toNat / 2 ^ 16 % 2 ^ 12 * 16384 := by
  have hmask : (0x0fff0000 : ℕ) = 2 ^ 16 * (2 ^ 12 - 1) := by norm_num
  rw [getDramBaseMask]
  dsimp only
  rw [hmask, and_field, Nat.shiftLeft_eq, Nat.shiftRight_eq_div_pow]
  omega

lemma mask_eq (reg40 reg44 : BitVec 32) :
    (getDramBaseMask reg40 reg44).mask = reg44.toNat / 2 ^ 16 * 2 ^ 16 + reg40.toNat % 2 := by
  have hmask : (0xffff0000 : ℕ) = 2 ^ 16 * (2 ^ 16 - 1) := by norm_num
  have hlt := reg44.isLt
  rw [getDramBaseMask]
  dsimp only
  rw [hmask, and_field, Nat.and_one_is_mod, Nat.mod_eq_of_lt (by omega : _ / 2 ^ 16 < 2 ^ 16),
    Nat.mul_comm, Nat.two_pow_add_eq_or_of_lt (by omega)]

lemma mask_and_one (reg40 reg44 : BitVec 32) :
    (getDramBaseMask reg40 reg44).mask &&& 1 = reg40.toNat % 2 := by
  rw [mask_eq, Nat.and_one_is_mod]
  omega

lemma limit_eq (reg40 reg44 : BitVec 32) :
    (((getDramBaseMask reg40 reg44).mask <<< 8 ||| 0xffffff) + 1) >>> 10 =
      (reg44.toNat / 2 ^ 16 + 1) * 16384 := by
  have hones : (0xffffff : ℕ) = 2 ^ 24 - 1 := by norm_num
  have hor : ((getDramBaseMask reg40 reg44).mask <<< 8 ||| 0xffffff) =
      2 ^ 24 * (reg44.toNat / 2 ^ 16) + (2 ^ 24 - 1) := by
    have hsplit : (getDramBaseMask reg40 reg44).mask <<< 8 =
        2 ^ 24 * (reg44.toNat / 2 ^ 16) + reg40.toNat % 2 * 2 ^ 8 := by
      rw [mask_eq, Nat.shiftLeft_eq]
      omega
    have hlow : reg40.toNat % 2 * 2 ^ 8 < 2 ^ 24 := by omega
    rw [hsplit, hones, Nat.two_pow_add_eq_or_of_lt hlow, Nat.or_assoc,
      Nat.two_pow_add_eq_or_of_lt (by omega)]
    rcases Nat.mod_two_eq_zero_or_one reg40.toNat with h | h <;> rw [h] <;> rfl
  rw [hor, Nat.shiftRight_eq_div_pow]
  omega

/-! ### The base of the hole -/

lemma myFindPciTolm_le (tolm : ℕ) (found : List Resource) : myFindPciTolm tolm found ≤ tolm := by
  unfold myFindPciTolm
  split
  · exact le_rfl
  · split_ifs with hlt
    · exact hlt.le
    · exact le_rfl

lemma pciTolm_lt (links : List (List Resource)) : pciTolm links < 2 ^ 32 := by
  have hle : ∀ tolm, links.foldl myFindPciTolm tolm ≤ tolm := by
    induction links with
    | nil => exact fun tolm => le_rfl
    | cons found links ih => exact fun tolm => (ih _).trans (myFindPciTolm_le tolm found)
  exact (hle 0xffffffff).trans_lt (by norm_num)

lemma hole_eq {d : DramBaseMask} {hole : BitVec 32} {holeStartk : ℕ}
    (h : getHwMemHoleInfo d hole = some holeStartk) : ∃ j < 256, holeStartk = j * 16384 := by
  have hmask : (0xff <<< 24 : ℕ) = 2 ^ 24 * (2 ^ 8 - 1) := by decide
  have hlt := hole.isLt
  rw [getHwMemHoleInfo] at h
  split_ifs at h
  refine ⟨hole.toNat / 2 ^ 24 % 2 ^ 8, Nat.mod_lt _ (by norm_num), ?_⟩
  rw [← Option.some.inj h, hmask, and_field, Nat.shiftRight_eq_div_pow]
  omega

lemma rounded_eq {x : ℕ} (hx : x < 2 ^ 22) :
    ∃ j < 256, Word.alignDown 32 (Word.alignDown 32 x (2 ^ 6)) (2 ^ 16) = j * 16384 := by
  rw [Word.alignDown_eq (by norm_num) (by omega : x < 2 ^ 32),
    Word.alignDown_eq (by norm_num) (by omega)]
  exact ⟨x / 2 ^ 6 * 2 ^ 6 / 2 ^ 16 * 4, by omega, by omega⟩

/-- The hole starts at a multiple of 16 MiB below 4 GiB. -/
lemma mmioBasek_eq (links : List (List Resource)) (d : DramBaseMask) (hole : BitVec 32) :
    ∃ j < 256, mmioBasek links (getHwMemHoleInfo d hole) = j * 16384 := by
  have hround := rounded_eq (x := pciTolm links >>> 10) (by
    have htolm := pciTolm_lt links
    rw [Nat.shiftRight_eq_div_pow]
    omega)
  unfold mmioBasek
  cases hinfo : getHwMemHoleInfo d hole with
  | none => exact hround
  | some holeStartk =>
    dsimp only
    split_ifs
    · exact hole_eq hinfo
    · exact hround

/-! ### Splitting -/

/-- What is reported last. -/
def Ram.finish (s : Ram) : List Resource := (s.report s.basek s.sizek).resources

section Splitting

variable {basek sizek limitk mmioBasek : ℕ}

lemma splitVga_low (hlow : s.basek = 0) (hsize : 768 < s.sizek) :
    s.splitVga limitk = ⟨s.idx + 0x10, 768, Word.sub 64 limitk 768, s.ramtop,
      s.resources ++ ramResource s.idx 0 640⟩ := by
  rw [Ram.splitVga, if_pos ⟨by omega, hsize⟩, hlow]
  rfl

lemma splitVga_high (h : 640 ≤ s.basek) : s.splitVga limitk = s := by
  rw [Ram.splitVga, if_neg]
  omega

/-- Nothing that was reported is taken back. -/
lemma mem_splitMmio {r : Resource} (hr : r ∈ s.resources) :
    r ∈ (s.splitMmio mmioBasek limitk).resources := by
  have hbelow : r ∈ (s.belowMmio mmioBasek).resources := by
    unfold Ram.belowMmio
    dsimp only
    split_ifs
    · exact List.mem_append_left _ hr
    · exact List.mem_append_left _ hr
    · exact hr
    · exact hr
  rw [Ram.splitMmio]
  split_ifs
  · rw [Ram.aboveMmio]
    split_ifs
    · exact hbelow
    · exact hbelow
  · exact hr

/-- A region outside of the hole, or below of it. -/
lemma splitMmio_outside (h : 4 * 1024 * 1024 ≤ s.basek ∨ limitk ≤ mmioBasek) :
    s.splitMmio mmioBasek limitk = s := by
  rw [Ram.splitMmio, if_neg]
  omega

lemma belowMmio_eq (hle : s.basek ≤ mmioBasek) (hlt : mmioBasek < limitk)
    (hsize : s.sizek = limitk - s.basek) (hlimit : limitk < 2 ^ 32) :
    (s.belowMmio mmioBasek).basek = mmioBasek ∧
      (s.belowMmio mmioBasek).sizek = limitk - mmioBasek ∧
      (s.belowMmio mmioBasek).resources =
        s.resources ++ ramResource s.idx s.basek (mmioBasek - s.basek) := by
  unfold Ram.belowMmio
  rw [if_pos hle]
  dsimp only
  by_cases hpre : 0 < mmioBasek - s.basek
  · rw [if_pos hpre, hsize]
    dsimp only
    rw [Word.sub_eq (by omega) (by omega)]
    exact ⟨rfl, by omega, rfl⟩
  · rw [if_neg hpre]
    dsimp only
    have hsame : mmioBasek - s.basek = 0 := by omega
    rw [hsame, ramResource_zero, List.append_nil]
    exact ⟨rfl, by omega, rfl⟩

/-- What is reported last, for a region that starts with the hole. -/
lemma aboveMmio_eq (hbase : s.basek = mmioBasek) (hsize : s.sizek = limitk - mmioBasek)
    (hlt : mmioBasek < limitk) (hmmio : mmioBasek < 4 * 1024 * 1024) (hlimit : limitk < 2 ^ 32) :
    (s.aboveMmio mmioBasek).finish =
      s.resources ++ ramResource s.idx (4 * 1024 * 1024) (limitk - 4 * 1024 * 1024) := by
  have hend : Word.add 64 s.basek s.sizek = limitk := by
    rw [hbase, hsize, Word.add_eq (by omega)]
    omega
  rw [Ram.aboveMmio, hend, Ram.finish]
  by_cases habove : limitk ≤ 4 * 1024 * 1024
  · have hnone : limitk - 4 * 1024 * 1024 = 0 := by omega
    rw [if_pos habove, hnone, ramResource_zero]
    simp only [Ram.report, ramResource_zero]
  · have hrest : Word.sub 64 s.sizek (Word.sub 32 (4 * 1024 * 1024) mmioBasek) =
        limitk - 4 * 1024 * 1024 := by
      rw [hsize, Word.sub_eq hmmio.le (by norm_num), Word.sub_eq (by omega) (by omega)]
      omega
    rw [if_neg habove, hrest]
    rfl

/-- A region that reaches into the hole from below. -/
lemma splitMmio_below (hle : s.basek ≤ mmioBasek) (hlt : mmioBasek < limitk)
    (hmmio : mmioBasek < 4 * 1024 * 1024) (hsize : s.sizek = limitk - s.basek)
    (hlimit : limitk < 2 ^ 32) :
    ∃ i, (s.splitMmio mmioBasek limitk).finish =
      s.resources ++ ramResource s.idx s.basek (mmioBasek - s.basek) ++
        ramResource i (4 * 1024 * 1024) (limitk - 4 * 1024 * 1024) := by
  obtain ⟨hbase', hsize', hresources⟩ := belowMmio_eq hle hlt hsize hlimit
  refine ⟨(s.belowMmio mmioBasek).idx, ?_⟩
  rw [Ram.splitMmio, if_pos ⟨hle.trans_lt hmmio, hlt⟩, aboveMmio_eq hbase' hsize' hlt hmmio hlimit,
    hresources]

/-- A region that starts in the hole. -/
lemma splitMmio_inside (hlt : mmioBasek < s.basek) (hbase : s.basek < 4 * 1024 * 1024)
    (hlimit : mmioBasek < limitk) :
    s.splitMmio mmioBasek limitk = s.aboveMmio mmioBasek := by
  rw [Ram.splitMmio, if_pos ⟨hbase, hlimit⟩, Ram.belowMmio, if_neg (not_le.mpr hlt)]

end Splitting

/-! ### Exactness -/

/-- The RAM resources for a region in KiB. -/
def ramOf (basek limitk mmioBasek : ℕ) : List Resource :=
  (((⟨0x10, basek, Word.sub 64 limitk basek, 0, []⟩ : Ram).splitVga limitk).splitMmio mmioBasek
    limitk).finish

/-- Exactness for a region in KiB. -/
def ExactIn (basek limitk mmioBasek : ℕ) (resources : List Resource) : Prop :=
  (resources.Pairwise fun r r' => ∀ x, Holds r x → ¬ Holds r' x) ∧
    ∀ x, Covers resources x ↔ basek * 1024 ≤ x ∧ x < limitk * 1024 ∧
      (x < 640 * 1024 ∨ 768 * 1024 ≤ x) ∧ (x < mmioBasek * 1024 ∨ 2 ^ 32 ≤ x)

section Exactness

variable {k n j basek sizek limitk mmioBasek : ℕ}

/-- The first 640 KiB are always reported. -/
lemma not_exactIn_zero (hn : 0 < n) (hlimit : n < 2 ^ 17) :
    ¬ ExactIn 0 (n * 16384) 0 (ramOf 0 (n * 16384) 0) := by
  rintro ⟨-, hunion⟩
  have hsize : Word.sub 64 (n * 16384) 0 = n * 16384 := Word.sub_eq (by omega) (by omega)
  have hlow : Covers (ramResource 0x10 0 640) 0 :=
    (covers_ramResource (by norm_num) (by norm_num)).mpr ⟨by norm_num, by norm_num⟩
  have hcovers : Covers (ramOf 0 (n * 16384) 0) 0 := by
    obtain ⟨r, hr, hholds⟩ := hlow
    refine ⟨r, ?_, hholds⟩
    rw [ramOf, hsize, splitVga_low rfl (by dsimp only; omega)]
    exact List.mem_append_left _ (mem_splitMmio hr)
  have hram := (hunion 0).mp hcovers
  omega

/-- Regions one behind the other. -/
lemma pairwise_regions {i₁ i₂ b₁ b₂ size₁ size₂ : ℕ} (h : b₁ + size₁ ≤ b₂)
    (hb : b₂ + size₂ < 2 ^ 32) :
    (ramResource i₁ b₁ size₁ ++ ramResource i₂ b₂ size₂).Pairwise
      fun r r' => ∀ x, Holds r x → ¬ Holds r' x := by
  refine pairwise_append pairwise_ramResource pairwise_ramResource fun x => ?_
  rw [covers_ramResource (by omega) (by omega), covers_ramResource (by omega) (by omega)]
  omega

/-- DRAM from address zero. -/
lemma exactIn_low (hn : 0 < n) (hlimit : n < 2 ^ 17) (hj : 0 < j) (hmmio : j < 256) :
    ExactIn 0 (n * 16384) (j * 16384) (ramOf 0 (n * 16384) (j * 16384)) := by
  have hsize : Word.sub 64 (n * 16384) 0 = n * 16384 := Word.sub_eq (by omega) (by omega)
  have hrest : Word.sub 64 (n * 16384) 768 = n * 16384 - 768 := Word.sub_eq (by omega) (by omega)
  rw [ramOf, hsize, splitVga_low rfl (by dsimp only; omega), hrest, List.nil_append]
  dsimp only
  by_cases hout : n ≤ j
  · rw [splitMmio_outside (.inr (by omega)), Ram.finish, Ram.report]
    dsimp only
    refine ⟨pairwise_regions (by norm_num) (by omega), fun x => ?_⟩
    rw [covers_append, covers_ramResource (by norm_num) (by norm_num),
      covers_ramResource (by norm_num) (by omega)]
    omega
  · obtain ⟨i, hsplit⟩ := @splitMmio_below
      ⟨0x20, 768, n * 16384 - 768, 0, ramResource 0x10 0 640⟩ (n * 16384) (j * 16384)
      (by dsimp only; omega) (by omega) (by omega) rfl (by omega)
    rw [hsplit]
    dsimp only
    refine ⟨pairwise_append (pairwise_regions (by norm_num) (by omega)) pairwise_ramResource
      fun x => ?_, fun x => ?_⟩
    · rw [covers_append, covers_ramResource (by norm_num) (by norm_num),
        covers_ramResource (by norm_num) (by omega), covers_ramResource (by omega) (by omega)]
      omega
    · rw [covers_append, covers_append, covers_ramResource (by norm_num) (by norm_num),
        covers_ramResource (by norm_num) (by omega), covers_ramResource (by omega) (by omega)]
      omega

/-- DRAM above the VGA hole that is not split. -/
lemma exactIn_outside (hk : 0 < k) (hlimit : n < 2 ^ 17) (hbase : k < 4096)
    (hout : 256 ≤ k ∨ n ≤ j) :
    ExactIn (k * 16384) (n * 16384) (j * 16384)
      (ramOf (k * 16384) (n * 16384) (j * 16384)) ↔ k ≤ n := by
  rw [ramOf, splitVga_high (by dsimp only; omega), splitMmio_outside (by dsimp only; omega)]
  dsimp only [Ram.finish, Ram.report]
  rw [List.nil_append]
  constructor
  · rintro ⟨-, hunion⟩
    by_contra hlt
    -- a negative size is reported
    have hcovers := hunion (k * 16384 * 1024)
    rw [covers_ramResource_mod (by omega), Word.sub_eq_wrap (by omega) (by omega)] at hcovers
    omega
  · intro hle
    rw [Word.sub_eq (by omega) (by omega)]
    refine ⟨pairwise_ramResource, fun x => ?_⟩
    rw [covers_ramResource (by omega) (by omega)]
    omega

/-- DRAM that reaches into the hole from below. -/
lemma exactIn_below (hk : 0 < k) (hlimit : n < 2 ^ 17) (hmmio : j < 256) (hle : k ≤ j)
    (hlt : j < n) :
    ExactIn (k * 16384) (n * 16384) (j * 16384)
      (ramOf (k * 16384) (n * 16384) (j * 16384)) := by
  have hsize : Word.sub 64 (n * 16384) (k * 16384) = n * 16384 - k * 16384 :=
    Word.sub_eq (by omega) (by omega)
  rw [ramOf, splitVga_high (by dsimp only; omega), hsize]
  obtain ⟨i, hsplit⟩ := @splitMmio_below
    ⟨0x10, k * 16384, n * 16384 - k * 16384, 0, []⟩ (n * 16384) (j * 16384)
    (by dsimp only; omega) (by omega) (by omega) rfl (by omega)
  rw [hsplit, List.nil_append]
  dsimp only
  refine ⟨pairwise_append pairwise_ramResource pairwise_ramResource fun x => ?_, fun x => ?_⟩
  · rw [covers_ramResource (by omega) (by omega), covers_ramResource (by omega) (by omega)]
    omega
  · rw [covers_append, covers_ramResource (by omega) (by omega),
      covers_ramResource (by omega) (by omega)]
    omega

/-- DRAM that starts in the hole: what is behind the hole is too small, or of a negative size. -/
lemma exactIn_inside (hlimit : n < 2 ^ 17) (hlt : j < k) (hbase : k < 256) (hjn : j < n) :
    ExactIn (k * 16384) (n * 16384) (j * 16384)
      (ramOf (k * 16384) (n * 16384) (j * 16384)) ↔ n ≤ 256 := by
  have hend : Word.add 64 (k * 16384) (Word.sub 64 (n * 16384) (k * 16384)) = n * 16384 := by
    rw [Word.add, Word.sub]
    omega
  rw [ramOf, splitVga_high (by dsimp only; omega),
    splitMmio_inside (by dsimp only; omega) (by dsimp only; omega) (by omega), Ram.aboveMmio]
  dsimp only
  rw [hend]
  by_cases habove : n ≤ 256
  · rw [if_pos (by omega), Ram.finish, Ram.report, ramResource_zero, List.append_nil]
    refine iff_of_true ⟨.nil, fun x => iff_of_false covers_nil ?_⟩ habove
    omega
  · rw [if_neg (by omega), Ram.finish, Ram.report, List.nil_append,
      Word.sub_eq (by omega : k * 16384 ≤ n * 16384) (by omega),
      Word.sub_eq (by omega : j * 16384 ≤ 4 * 1024 * 1024) (by omega)]
    dsimp only
    refine iff_of_false ?_ habove
    rintro ⟨-, hunion⟩
    have htop := hunion (n * 16384 * 1024 - 1)
    have hbehind := hunion (n * 16384 * 1024)
    rw [covers_ramResource_mod (by omega), Word.sub] at htop hbehind
    omega

/-- All cases, in units of 16 MiB. -/
lemma exactIn_iff (hbase : k < 4096) (hn : 0 < n) (hlimit : n < 2 ^ 17) (hmmio : j < 256) :
    ExactIn (k * 16384) (n * 16384) (j * 16384) (ramOf (k * 16384) (n * 16384) (j * 16384)) ↔
      (j = 0 → k ≠ 0) ∧ ¬ (j < k ∧ k < 256 ∧ 256 < n) ∧ (n < k → j < n ∧ k < 256) := by
  rcases Nat.eq_zero_or_pos k with rfl | hk
  · rw [Nat.zero_mul]
    rcases Nat.eq_zero_or_pos j with rfl | hj
    · rw [Nat.zero_mul]
      exact iff_of_false (not_exactIn_zero hn hlimit) fun h => h.1 rfl rfl
    · exact iff_of_true (exactIn_low hn hlimit hj hmmio) ⟨by omega, by omega, by omega⟩
  · by_cases hout : 256 ≤ k ∨ n ≤ j
    · rw [exactIn_outside hk hlimit hbase hout]
      constructor
      · intro hle
        exact ⟨by omega, by omega, by omega⟩
      · rintro ⟨-, -, hreversed⟩
        by_contra hlt
        have := hreversed (by omega)
        omega
    · obtain ⟨hk256, hjn⟩ := not_or.mp hout
      by_cases hle : k ≤ j
      · exact iff_of_true (exactIn_below hk hlimit hmmio hle (by omega))
          ⟨by omega, by omega, by omega⟩
      · rw [exactIn_inside hlimit (by omega) (by omega) (by omega)]
        constructor
        · intro habove
          exact ⟨by omega, by omega, by omega⟩
        · rintro ⟨-, hinside, -⟩
          by_contra habove
          exact hinside ⟨by omega, by omega, by omega⟩

end Exactness

lemma domainSetResources_enabled (h : dramEnabled reg40) (mmioBasek : ℕ) :
    (domainSetResources (getDramBaseMask reg40 reg44) mmioBasek).1 =
      ramOf (reg40.toNat / 2 ^ 16 % 2 ^ 12 * 16384) ((reg44.toNat / 2 ^ 16 + 1) * 16384)
        mmioBasek := by
  rw [dramEnabled] at h
  rw [domainSetResources, if_neg (by rw [mask_and_one]; omega)]
  dsimp only
  rw [base_eq, limit_eq]
  rfl

lemma domainSetResources_disabled (h : ¬ dramEnabled reg40) (mmioBasek : ℕ) :
    (domainSetResources (getDramBaseMask reg40 reg44) mmioBasek).1 = [] := by
  rw [dramEnabled] at h
  rw [domainSetResources, if_pos (by rw [mask_and_one]; omega)]

section Units

variable {k n j : ℕ}

lemma exact_iff_exactIn (henabled : dramEnabled reg40) (hbase : dramBase reg40 = k * 2 ^ 24)
    (hlimit : dramLimit reg44 = n * 2 ^ 24) :
    Exact reg40 reg44 (j * 16384 * 1024) rs ↔
      ExactIn (k * 16384) (n * 16384) (j * 16384) rs := by
  have hram : ∀ x, IsRam reg40 reg44 (j * 16384 * 1024) x ↔
      k * 16384 * 1024 ≤ x ∧ x < n * 16384 * 1024 ∧ (x < 640 * 1024 ∨ 768 * 1024 ≤ x) ∧
        (x < j * 16384 * 1024 ∨ 2 ^ 32 ≤ x) := by
    intro x
    constructor
    · rintro ⟨-, hlo, hhi, hvga, hmmio⟩
      exact ⟨by omega, by omega, hvga, hmmio⟩
    · rintro ⟨hlo, hhi, hvga, hmmio⟩
      exact ⟨henabled, by omega, by omega, hvga, hmmio⟩
  constructor
  · rintro ⟨hdisjoint, hunion⟩
    exact ⟨hdisjoint, fun x => (hunion x).trans (hram x)⟩
  · rintro ⟨hdisjoint, hunion⟩
    exact ⟨hdisjoint, fun x => (hunion x).trans (hram x).symm⟩

/-- Regularity in units of 16 MiB. -/
lemma regular_iff (hbase : dramBase reg40 = k * 2 ^ 24) (hlimit : dramLimit reg44 = n * 2 ^ 24) :
    Regular reg40 reg44 (j * 16384 * 1024) ↔
      (j = 0 → k ≠ 0) ∧ ¬ (j < k ∧ k < 256 ∧ 256 < n) ∧ (n < k → j < n ∧ k < 256) := by
  constructor
  · rintro ⟨hlow, hinside, hreversed⟩
    refine ⟨fun hzero => ?_, fun ⟨h₁, h₂, h₃⟩ => ?_, fun hlt => ?_⟩
    · have := hlow (by omega)
      omega
    · exact hinside ⟨by omega, by omega, by omega⟩
    · have := hreversed (by omega)
      exact ⟨by omega, by omega⟩
  · rintro ⟨hlow, hinside, hreversed⟩
    refine ⟨fun hzero => ?_, fun ⟨h₁, h₂, h₃⟩ => ?_, fun hlt => ?_⟩
    · have := hlow (by omega)
      omega
    · exact hinside ⟨by omega, by omega, by omega⟩
    · have := hreversed (by omega)
      exact ⟨by omega, by omega⟩

end Units

/-- What is reported is the RAM exactly if the DRAM is regular. -/
theorem exact_iff (reg40 reg44 hole : BitVec 32) (links : List (List Resource)) :
    Exact reg40 reg44
        (mmioBasek links (getHwMemHoleInfo (getDramBaseMask reg40 reg44) hole) * 1024)
        (domainSetResources (getDramBaseMask reg40 reg44)
          (mmioBasek links (getHwMemHoleInfo (getDramBaseMask reg40 reg44) hole))).1 ↔
      (dramEnabled reg40 → Regular reg40 reg44
        (mmioBasek links (getHwMemHoleInfo (getDramBaseMask reg40 reg44) hole) * 1024)) := by
  obtain ⟨j, hj, hmmio⟩ := mmioBasek_eq links (getDramBaseMask reg40 reg44) hole
  rw [hmmio]
  have hbase : dramBase reg40 = reg40.toNat / 2 ^ 16 % 2 ^ 12 * 2 ^ 24 := rfl
  have hlimit : dramLimit reg44 = (reg44.toNat / 2 ^ 16 + 1) * 2 ^ 24 := rfl
  have hk : reg40.toNat / 2 ^ 16 % 2 ^ 12 < 4096 := Nat.mod_lt _ (by norm_num)
  have hpos : 0 < reg44.toNat / 2 ^ 16 + 1 := Nat.succ_pos _
  have hn : reg44.toNat / 2 ^ 16 + 1 < 2 ^ 17 := by
    have hlt := reg44.isLt
    omega
  by_cases henabled : dramEnabled reg40
  · rw [domainSetResources_enabled henabled, exact_iff_exactIn henabled hbase hlimit,
      exactIn_iff hk hpos hn hj, regular_iff hbase hlimit]
    exact ⟨fun h _ => h, fun h => h henabled⟩
  · rw [domainSetResources_disabled henabled]
    exact iff_of_true ⟨.nil, fun x => iff_of_false covers_nil fun h => henabled h.enabled⟩
      fun h => absurd h henabled

/-- A resource at 3 GiB. -/
def highResource : Resource where
  base := 0xc0000000
  size := 0x1000000
  limit := 0xffffffff
  flags := IORESOURCE_MEM
  index := 0x10
  align := 24
  gran := 24

/-- DRAM from 3.5 GiB to 8 GiB: the last 512 MiB are not reported. -/
theorem not_exact_highBase :
    ¬ Exact 0x00e00001 0x01ff0000
      (mmioBasek [[highResource]] (getHwMemHoleInfo (getDramBaseMask 0x00e00001 0x01ff0000) 0) *
        1024)
      (domainSetResources (getDramBaseMask 0x00e00001 0x01ff0000)
        (mmioBasek [[highResource]]
          (getHwMemHoleInfo (getDramBaseMask 0x00e00001 0x01ff0000) 0))).1 := by
  intro h
  have hram : IsRam 0x00e00001 0x01ff0000
      (mmioBasek [[highResource]] (getHwMemHoleInfo (getDramBaseMask 0x00e00001 0x01ff0000) 0) *
        1024) 0x1ffffffff :=
    ⟨by decide, by decide, by decide, .inr (by decide), .inr (by decide)⟩
  have hlist : (domainSetResources (getDramBaseMask 0x00e00001 0x01ff0000)
      (mmioBasek [[highResource]]
        (getHwMemHoleInfo (getDramBaseMask 0x00e00001 0x01ff0000) 0))).1 =
      ramResource 0x10 (4 * 1024 * 1024) (7 * 512 * 1024) := by decide
  have hcovers := (h.union _).mpr hram
  rw [hlist, covers_ramResource (by norm_num) (by norm_num)] at hcovers
  omega

end ApuBios.Family14
