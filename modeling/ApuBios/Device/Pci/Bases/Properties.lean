import ApuBios.Device.Pci.Bases.Basic

/-!
# One resource for each register

The bits that move are those that are writable. So the loop finds the lowest bit of the address, and
each register that is implemented gets one resource, if its attributes are constant and its size is one
that its type allows.
-/

namespace ApuBios.PciBases

open Allocator

/-! ### What is to hold -/

/-- A register: the constant bits of its low half, and the bits that are writable. -/
structure Register where
  index : ℕ
  attr : BitVec 32
  writable : BitVec 64
  deriving DecidableEq

/-- The register that starts at an index. -/
def register (c : Config) (index : ℕ) : Register where
  index := index
  attr := c.value index &&& ~~~c.writable index
  writable :=
    if is64 (c.value index &&& ~~~c.writable index) then
      (c.writable index).setWidth 64 ||| (c.writable (index + 4)).setWidth 64 <<< 32
    else
      (c.writable index).setWidth 64

/-- The registers that are implemented, in `n` slots. No value means that a 64-bit register starts in
the last slot. -/
def registers (c : Config) : (n : ℕ) → (index : ℕ) → Option (List Register)
  | 0, _ => some []
  | n + 1, index =>
    if (register c index).writable = 0 then
      registers c n (index + 4)
    else if is64 (register c index).attr then
      match n with
      | 0 => none
      | n + 1 => (registers c n (index + 8)).map (register c index :: ·)
    else
      (registers c n (index + 4)).map (register c index :: ·)

namespace Register

variable (r : Register)

def Io : Prop := r.attr &&& PCI_BASE_ADDRESS_SPACE_IO ≠ 0

instance : Decidable r.Io := inferInstanceAs (Decidable (_ ≠ _))

/-- `type` of a memory register -/
def memType : BitVec 32 := r.attr &&& PCI_BASE_ADDRESS_MEM_LIMIT_MASK

/-- The lowest bit of the address. -/
def addressStart : ℕ := if r.Io then 2 else 4

/-- The lowest bit of the address that is writable. -/
def Lowest (k : ℕ) : Prop :=
  r.addressStart ≤ k ∧ r.writable.getLsbD k = true ∧
    ∀ j < k, r.addressStart ≤ j → r.writable.getLsbD j = false

/-- The highest address that the type allows. -/
def typeLimit : ℕ :=
  if r.Io then 0xffff
  else if r.memType = PCI_BASE_ADDRESS_MEM_LIMIT_32 then 0xffffffff
  else if r.memType = PCI_BASE_ADDRESS_MEM_LIMIT_1M then 0x000fffff
  else 0xffffffffffffffff

/-- What the attributes state. -/
def flags : BitVec 32 :=
  if r.Io then IORESOURCE_IO
  else
    IORESOURCE_MEM |||
      (if r.attr &&& PCI_BASE_ADDRESS_MEM_PREFETCH ≠ 0 then IORESOURCE_PREFETCH else 0) |||
      (if r.memType = PCI_BASE_ADDRESS_MEM_LIMIT_64 then IORESOURCE_PCI64 else 0)

/-- The attribute bits are constant, the type is none that is reserved, and the size is none that the
type does not allow. -/
structure Prescribed : Prop where
  attr : ∀ j < r.addressStart, r.writable.getLsbD j = false
  type : r.Io ∨ r.memType ≠ PCI_BASE_ADDRESS_MEM_LIMIT_MASK
  fits : ∀ k, r.Lowest k → 2 ^ k ≤ r.typeLimit + 1

/-- The resource of a register. -/
structure Describes (res : Resource) : Prop where
  index : res.index = r.index
  size : ∃ k, r.Lowest k ∧ res.size = 2 ^ k ∧ res.align = k ∧ res.gran = k
  writable : res.limit ≤ r.writable.toNat ||| (res.size - 1)
  type : res.limit ≤ r.typeLimit
  room : res.size - 1 ≤ res.limit
  flags : res.flags = r.flags

end Register

/-- The registers are as before, and for each one that is implemented there is one resource. -/
def Reads (c : Config) (l : List Resource) (howmany : ℕ) (regs : List Register) : Prop :=
  ∃ news, pciReadBases c l howmany = some (c, compactResources l ++ news) ∧
    List.Forall₂ Register.Describes regs news

variable {c : Config} {l : List Resource} {r : Register} {index reg n k j : ℕ} {moving : BitVec 64}
  {res : Resource}

/-! ### Probing -/

lemma read_write (v : BitVec 32) :
    (c.write reg v).read reg = (v &&& c.writable reg) ||| (c.read reg &&& ~~~c.writable reg) := by
  change Function.update c.value reg _ reg = _
  rw [Function.update_self]
  rfl

/-- Writing to a register again is as if it had been written once. -/
lemma write_write (v w : BitVec 32) : (c.write reg v).write reg w = c.write reg w := by
  have hheld : (w &&& c.writable reg) ||| ((c.write reg v).read reg &&& ~~~c.writable reg) =
      (w &&& c.writable reg) ||| (c.read reg &&& ~~~c.writable reg) := by
    rw [read_write]
    apply BitVec.eq_of_getLsbD_eq
    intro i hi
    simp only [BitVec.getLsbD_or, BitVec.getLsbD_and, BitVec.getLsbD_not, hi, decide_true,
      Bool.true_and]
    cases (c.writable reg).getLsbD i <;> simp
  change Config.mk _ _ = Config.mk _ _
  congr 1
  change Function.update (Function.update c.value reg _) reg _ = Function.update c.value reg _
  rw [Function.update_idem]
  exact congrArg (Function.update c.value reg) hheld

/-- A register that gets its own value is as before. -/
lemma write_read : c.write reg (c.read reg) = c := by
  have hheld : (c.read reg &&& c.writable reg) ||| (c.read reg &&& ~~~c.writable reg) =
      c.value reg := by
    rw [← BitVec.and_or_distrib_left, BitVec.or_not_self, BitVec.and_allOnes]
    rfl
  change Config.mk (Function.update c.value reg _) _ = c
  rw [show (c.read reg &&& c.writable reg) ||| (c.value reg &&& ~~~c.writable reg) = c.value reg from
    hheld, Function.update_eq_self]

/-- The bits that move are those that are writable, and the register is restored. -/
lemma pciMovingConfig32_eq (c : Config) (reg : ℕ) :
    pciMovingConfig32 c reg = (c.writable reg, c) := by
  unfold pciMovingConfig32
  dsimp only
  have hones : (0xffffffff : BitVec 32) = BitVec.allOnes 32 := rfl
  rw [write_write, write_write, write_read, read_write, read_write, hones]
  congr 1
  apply BitVec.eq_of_getLsbD_eq
  intro i hi
  simp only [BitVec.getLsbD_xor, BitVec.getLsbD_or, BitVec.getLsbD_and, BitVec.getLsbD_not,
    BitVec.getLsbD_allOnes, hi, decide_true, Bool.true_and]
  cases (c.writable reg).getLsbD i <;> cases (c.read reg).getLsbD i <;> simp

/-! ### The size -/

/-- The lowest bit that is writable. -/
def LowestBit (moving : BitVec 64) (k : ℕ) : Prop :=
  moving.getLsbD k = true ∧ ∀ j < k, moving.getLsbD j = false

lemma exists_lowestBit (h : moving ≠ 0) : ∃ k, LowestBit moving k := by
  have hbit : ∃ k, moving.getLsbD k = true := by
    by_contra hnone
    push Not at hnone
    apply h
    apply BitVec.eq_of_getLsbD_eq
    intro i _
    simpa using hnone i
  refine ⟨Nat.find hbit, Nat.find_spec hbit, ?_⟩
  intro j hj
  simpa using Nat.find_min hbit hj

/-- The loop shifts up to the lowest bit that moves. -/
lemma sizeLoop_eq (h : LowestBit moving k) (hj : j ≤ k) (hfuel : k < n + j) :
    sizeLoop moving n (BitVec.twoPow 64 j) j = some (BitVec.twoPow 64 k, k) := by
  have hk : k < 64 := BitVec.lt_of_getLsbD h.1
  induction n generalizing j with
  | zero => exact absurd hfuel (by omega)
  | succ n ih =>
    rw [sizeLoop, BitVec.and_twoPow]
    rcases Nat.lt_or_eq_of_le hj with hlt | rfl
    · have hnext : BitVec.twoPow 64 j <<< 1 = BitVec.twoPow 64 (j + 1) := by
        rw [BitVec.twoPow_eq, BitVec.twoPow_eq, BitVec.shiftLeft_add]
      have hzero : 0#64 = (0 : BitVec 64) := rfl
      rw [h.2 j hlt, if_neg Bool.false_ne_true, if_pos hzero, hnext, ih hlt (by omega)]
    · have hne : ¬BitVec.twoPow 64 j = 0 := by
        intro hzero
        have hbit := congrArg BitVec.toNat hzero
        rw [BitVec.toNat_twoPow_of_lt hk] at hbit
        exact absurd hbit (Nat.two_pow_pos j).ne'
      rw [h.1, if_pos rfl, if_neg hne]

lemma sizeResource_eq (h : LowestBit moving k) (res : Resource) :
    sizeResource moving res =
      some ({ res with size := 2 ^ k, align := k, gran := k, limit := moving.toNat ||| (2 ^ k - 1) },
        moving.toNat ||| (2 ^ k - 1)) := by
  have hk : k < 64 := BitVec.lt_of_getLsbD h.1
  have hne : moving ≠ 0 := by
    rintro rfl
    simp [LowestBit] at h
  have hsize : (BitVec.twoPow 64 k).toNat = 2 ^ k := BitVec.toNat_twoPow_of_lt hk
  have hmask : (BitVec.twoPow 64 k - 1).toNat = 2 ^ k - 1 := by
    rw [BitVec.toNat_sub_of_le, hsize]
    · rfl
    · rw [BitVec.le_def, hsize]
      exact Nat.one_le_two_pow
  have hloop : sizeLoop moving 64 1 0 = some (BitVec.twoPow 64 k, k) :=
    sizeLoop_eq (j := 0) h (Nat.zero_le k) (by omega)
  rw [sizeResource, if_neg hne, hloop]
  simp only [Option.map_some, BitVec.toNat_or, hsize, hmask]

/-! ### The type -/

/-- What a register that is as prescribed gets. -/
def Register.resource (r : Register) (k : ℕ) : Resource where
  base := 0
  size := 2 ^ k
  limit := min r.typeLimit (r.writable.toNat ||| (2 ^ k - 1))
  flags := r.flags
  index := r.index
  align := k
  gran := k

lemma and_attrMask (attr : BitVec 32) :
    attr &&& PCI_BASE_ADDRESS_MEM_ATTR_MASK &&& PCI_BASE_ADDRESS_MEM_PREFETCH =
        attr &&& PCI_BASE_ADDRESS_MEM_PREFETCH ∧
      attr &&& PCI_BASE_ADDRESS_MEM_ATTR_MASK &&& PCI_BASE_ADDRESS_MEM_LIMIT_MASK =
        attr &&& PCI_BASE_ADDRESS_MEM_LIMIT_MASK := by
  rw [BitVec.and_assoc, BitVec.and_assoc]
  exact ⟨rfl, rfl⟩

/-- The two bits of the type. -/
lemma memType_cases (r : Register) :
    r.memType = PCI_BASE_ADDRESS_MEM_LIMIT_32 ∨ r.memType = PCI_BASE_ADDRESS_MEM_LIMIT_1M ∨
      r.memType = PCI_BASE_ADDRESS_MEM_LIMIT_64 ∨ r.memType = PCI_BASE_ADDRESS_MEM_LIMIT_MASK := by
  have hmask : PCI_BASE_ADDRESS_MEM_LIMIT_MASK = BitVec.twoPow 32 1 ||| BitVec.twoPow 32 2 := rfl
  rw [Register.memType, hmask, BitVec.and_or_distrib_left, BitVec.and_twoPow, BitVec.and_twoPow]
  cases r.attr.getLsbD 1 <;> cases r.attr.getLsbD 2 <;> decide

/-- The type of a register that is not reserved gives its flags and its limit. -/
lemma typeResource_eq (hwritable : r.writable ≠ 0)
    (htype : r.Io ∨ r.memType ≠ PCI_BASE_ADDRESS_MEM_LIMIT_MASK) (hflags : res.flags = 0) :
    typeResource r.writable r.attr res = { res with flags := r.flags, limit := r.typeLimit } := by
  rw [typeResource, if_neg hwritable, Register.flags, Register.typeLimit]
  by_cases hio : r.Io
  · have hio' : r.attr &&& PCI_BASE_ADDRESS_SPACE_IO ≠ 0 := hio
    rw [if_pos hio, if_pos hio, if_pos hio', hflags]
    rfl
  · have hio' : ¬r.attr &&& PCI_BASE_ADDRESS_SPACE_IO ≠ 0 := hio
    have hmem : r.attr &&& PCI_BASE_ADDRESS_MEM_LIMIT_MASK = r.memType := rfl
    have htype' := htype.resolve_left hio
    have h1M : ¬PCI_BASE_ADDRESS_MEM_LIMIT_1M = PCI_BASE_ADDRESS_MEM_LIMIT_32 := by decide
    have h32 : ¬PCI_BASE_ADDRESS_MEM_LIMIT_32 = PCI_BASE_ADDRESS_MEM_LIMIT_64 := by decide
    have h1M' : ¬PCI_BASE_ADDRESS_MEM_LIMIT_1M = PCI_BASE_ADDRESS_MEM_LIMIT_64 := by decide
    rw [if_neg hio, if_neg hio, if_neg hio']
    simp only [(and_attrMask r.attr).1, (and_attrMask r.attr).2, hmem, hflags]
    rcases memType_cases r with h | h | h | h
    · simp only [h, if_true, if_neg h32]
      split_ifs <;> rfl
    · simp only [h, if_true, if_neg h1M, if_neg h1M']
      split_ifs <;> rfl
    · simp only [h, if_true, if_neg (Ne.symm h32), if_neg (Ne.symm h1M')]
      split_ifs <;> rfl
    · exact absurd h htype'

/-! ### One register -/

/-- The resource of a register that is as prescribed describes it. -/
lemma describes_resource (hprescribed : r.Prescribed) (h : LowestBit r.writable k) :
    r.Describes (r.resource k) := by
  have hstart : r.addressStart ≤ k := by
    by_contra hlt
    have hconst := hprescribed.attr k (by omega)
    rw [h.1] at hconst
    cases hconst
  have hlowest : r.Lowest k := ⟨hstart, h.1, fun j hj _ => h.2 j hj⟩
  have hfits := hprescribed.fits k hlowest
  refine ⟨rfl, ⟨k, hlowest, rfl, rfl, rfl⟩, min_le_right _ _, min_le_left _ _, ?_, rfl⟩
  exact le_min (by change 2 ^ k - 1 ≤ _; omega) Nat.right_le_or

lemma compactResources_append (l : List Resource) (res : Resource) :
    compactResources (compactResources l ++ [res]) =
      compactResources l ++ if res.flags = 0 then [] else [res] := by
  rw [compactResources, List.filter_append, compactResources, List.filter_filter]
  split_ifs with h
  · simp [h]
  · simpa using h

lemma newResource_of_new (h : ∀ res ∈ compactResources l, res.index ≠ index) :
    newResource l index =
      (compactResources l ++ [initValues index zeroResource], (compactResources l).length) := by
  have hfind : (compactResources l).findIdx? (fun r => r.index == index) = none := by
    rw [List.findIdx?_eq_none_iff]
    intro res hres
    simpa using h res hres
  unfold newResource
  simp only [hfind]

/-- What is left of the values that the bits that move and the attributes give. -/
def limited (x : Resource × ℕ) (r : Register) : Resource :=
  let resource := typeResource r.writable r.attr x.1
  if resource.limit > x.2 then { resource with limit := x.2 } else resource

/-- The registers are as before, and the resource is at the end of the list. -/
lemma pciGetResource_eq (h : ∀ res ∈ compactResources l, res.index ≠ index) :
    pciGetResource c l index =
      (sizeResource (register c index).writable (initValues index zeroResource)).map fun x =>
        (c, compactResources l ++ [limited x (register c index)], limited x (register c index)) := by
  have hget : ((compactResources l ++ [initValues index zeroResource])[(compactResources l).length]?).getD
      zeroResource = initValues index zeroResource := by
    rw [List.getElem?_append_right le_rfl, Nat.sub_self]
    rfl
  have hset : ∀ res, (compactResources l ++ [initValues index zeroResource]).set
      (compactResources l).length res = compactResources l ++ [res] := by
    intro res
    rw [List.set_append_right _ _ le_rfl, Nat.sub_self]
    rfl
  unfold pciGetResource
  simp only [newResource_of_new h, hget, hset, pciMovingConfig32_eq, register, Config.read]
  cases is64 (c.value index &&& ~~~c.writable index) with
  | true => rfl
  | false => rfl

/-- A register without writable bits gives a resource without flags. -/
lemma pciGetResource_of_zero (h : ∀ res ∈ compactResources l, res.index ≠ index)
    (hzero : (register c index).writable = 0) :
    ∃ res, pciGetResource c l index = some (c, compactResources l ++ [res], res) ∧ res.flags = 0 := by
  rw [pciGetResource_eq h, sizeResource, if_pos hzero]
  refine ⟨_, rfl, ?_⟩
  rw [limited, typeResource, if_pos hzero]
  split_ifs <;> rfl

/-- A register as prescribed gives its resource. -/
lemma pciGetResource_of_prescribed (h : ∀ res ∈ compactResources l, res.index ≠ index)
    (hbit : LowestBit (register c index).writable k) (hprescribed : (register c index).Prescribed) :
    pciGetResource c l index = some (c, compactResources l ++ [(register c index).resource k],
      (register c index).resource k) := by
  have hne : (register c index).writable ≠ 0 := by
    intro hzero
    rw [hzero] at hbit
    simp [LowestBit] at hbit
  have hlimited : limited ({ initValues index zeroResource with
      size := 2 ^ k, align := k, gran := k, limit := (register c index).writable.toNat ||| (2 ^ k - 1) },
      (register c index).writable.toNat ||| (2 ^ k - 1)) (register c index) =
        (register c index).resource k := by
    rw [limited, typeResource_eq hne hprescribed.type rfl, Register.resource]
    split_ifs with hlimit
    · rw [min_eq_right (by exact hlimit.le)]
      rfl
    · rw [min_eq_left (by simpa using hlimit)]
      rfl
  rw [pciGetResource_eq h, sizeResource_eq hbit, Option.map_some, hlimited]

/-- The flag of a register with two slots. -/
lemma has_pci64 (r : Register) (k : ℕ) : (r.resource k).has IORESOURCE_PCI64 = is64 r.attr := by
  have hmem : r.attr &&& PCI_BASE_ADDRESS_MEM_LIMIT_MASK = r.memType := rfl
  change (r.flags &&& IORESOURCE_PCI64 != 0) = _
  rw [Register.flags, is64, hmem]
  by_cases hio : r.Io
  · have hio' : ¬r.attr &&& PCI_BASE_ADDRESS_SPACE_IO = 0 := hio
    rw [if_pos hio]
    simp only [hio', false_and, decide_false]
    rfl
  · have hio' : r.attr &&& PCI_BASE_ADDRESS_SPACE_IO = 0 := not_not.mp hio
    rw [if_neg hio]
    simp only [hio', true_and]
    split_ifs with hprefetch htype htype <;> simp only [htype, decide_true, decide_false] <;> rfl

/-! ### All registers -/

lemma registers_of_zero (h : (register c index).writable = 0) :
    registers c (n + 1) index = registers c n (index + 4) := by
  rw [registers.eq_def]
  exact if_pos h

lemma registers_of_not_is64 (h : (register c index).writable ≠ 0)
    (h64 : ¬is64 (register c index).attr) :
    registers c (n + 1) index = (registers c n (index + 4)).map (register c index :: ·) := by
  rw [registers.eq_def]
  exact (if_neg h).trans (if_neg h64)

/-- One round of the loop, whose resource is at the end of the list. -/
lemma readBasesLoop_step {stop fuel : ℕ} (hstop : index < stop)
    (h : pciGetResource c l index = some (c, compactResources l ++ [res], res)) :
    readBasesLoop stop (fuel + 1) index c l =
      readBasesLoop stop fuel (index + if res.has IORESOURCE_PCI64 then 8 else 4) c
        (compactResources l ++ [res]) := by
  rw [readBasesLoop, if_pos hstop, h, Option.bind_some]

/-- The resource of a register that is implemented is not dropped. -/
lemma compactResources_resource (l : List Resource) (r : Register) (k : ℕ) :
    compactResources (compactResources l ++ [r.resource k]) =
      compactResources l ++ [r.resource k] := by
  have hflags : (r.resource k).flags ≠ 0 := by
    change r.flags ≠ 0
    rw [Register.flags]
    split_ifs <;> decide
  rw [compactResources_append, if_neg hflags]

/-- What the loop does from an index on: the resources of the registers are added to the list. -/
def LoopReads (c : Config) (l : List Resource) (stop fuel index : ℕ) (regs : List Register) : Prop :=
  ∃ l' news, readBasesLoop stop fuel index c l = some (c, l') ∧
    compactResources l' = compactResources l ++ news ∧ List.Forall₂ Register.Describes regs news

/-- The resource of a register without writable bits is dropped again. -/
lemma loopReads_of_zero {stop fuel : ℕ} {regs : List Register} (hstop : index < stop)
    (hfirst : ∀ res ∈ compactResources l, res.index ≠ index)
    (hzero : (register c index).writable = 0)
    (h : ∀ l', compactResources l' = compactResources l →
      LoopReads c l' stop fuel (index + 4) regs) :
    LoopReads c l stop (fuel + 1) index regs := by
  obtain ⟨res, hget, hflags⟩ := pciGetResource_of_zero hfirst hzero
  have hpci : res.has IORESOURCE_PCI64 = false := by
    rw [Resource.has, hflags]
    rfl
  have hlist : compactResources (compactResources l ++ [res]) = compactResources l := by
    rw [compactResources_append, if_pos hflags, List.append_nil]
  obtain ⟨l', news, hloop, hcompact, hnews⟩ := h _ hlist
  refine ⟨l', news, ?_, hcompact.trans (by rw [hlist]), hnews⟩
  rw [readBasesLoop_step hstop hget, hpci]
  exact hloop

/-- The resource of a register that is implemented comes before those of the later ones. -/
lemma loopReads_cons {stop fuel : ℕ} {regs : List Register} (hstop : index < stop)
    (hfirst : ∀ res ∈ compactResources l, res.index ≠ index)
    (hne : (register c index).writable ≠ 0) (hprescribed : (register c index).Prescribed)
    (h : ∀ res, res.index = index → ∀ l', compactResources l' = compactResources l ++ [res] →
      LoopReads c l' stop fuel (index + if is64 (register c index).attr then 8 else 4) regs) :
    LoopReads c l stop (fuel + 1) index (register c index :: regs) := by
  obtain ⟨k, hbit⟩ := exists_lowestBit hne
  have hget := pciGetResource_of_prescribed hfirst hbit hprescribed
  have hlist := compactResources_resource l (register c index) k
  obtain ⟨l', news, hloop, hcompact, hnews⟩ := h ((register c index).resource k) rfl _ hlist
  refine ⟨l', (register c index).resource k :: news, ?_, ?_,
    .cons (describes_resource hprescribed hbit) hnews⟩
  · rw [readBasesLoop_step hstop hget, has_pci64]
    exact hloop
  · rw [hcompact, hlist, List.append_assoc, List.singleton_append]

lemma first_of_new (hnew : ∀ res ∈ l, ∀ i < n + 1, res.index ≠ index + i * 4) :
    ∀ res ∈ l, res.index ≠ index := by
  intro res hres
  simpa using hnew res hres 0 (Nat.succ_pos n)

/-- No resource has an index of the later registers if none had one before. -/
lemma new_of_append (m : ℕ) (hm : 0 < m) (hnew : ∀ res ∈ l, ∀ i < n + m, res.index ≠ index + i * 4)
    (hres : res.index = index) : ∀ res' ∈ l ++ [res], ∀ i < n, res'.index ≠ index + m * 4 + i * 4 := by
  intro res' hres' i hi
  rw [List.mem_append, List.mem_singleton] at hres'
  rcases hres' with hres' | rfl
  · have hother := hnew res' hres' (i + m) (by omega)
    omega
  · omega

/-- The loop adds the resources of the registers. -/
lemma readBasesLoop_spec {fuel : ℕ} {regs : List Register} (hregs : registers c n index = some regs)
    (hprescribed : ∀ r ∈ regs, r.Prescribed) (hfuel : n ≤ fuel)
    (hnew : ∀ res ∈ compactResources l, ∀ i < n, res.index ≠ index + i * 4) :
    LoopReads c l (index + n * 4) fuel index regs := by
  induction n, index using registers.induct c generalizing l regs fuel with
  | case1 index =>
    obtain rfl := Option.some.inj hregs
    refine ⟨l, [], ?_, (List.append_nil _).symm, .nil⟩
    cases fuel <;> rw [readBasesLoop, if_neg (by omega)]
  | case2 n index hzero ih =>
    rw [registers_of_zero hzero] at hregs
    obtain ⟨fuel, rfl⟩ : ∃ m, fuel = m + 1 := ⟨fuel - 1, by omega⟩
    apply loopReads_of_zero (by omega) (first_of_new hnew) hzero
    intro l' hl'
    rw [show index + n.succ * 4 = index + 4 + n * 4 by omega]
    apply ih hregs hprescribed (by omega)
    rw [hl']
    intro res hres i hi
    have hother := hnew res hres (i + 1) (by omega)
    omega
  | case3 index hzero h64 =>
    rw [registers, if_neg hzero, if_pos h64] at hregs
    cases hregs
  | case4 index hzero h64 n ih =>
    rw [registers, if_neg hzero, if_pos h64] at hregs
    obtain ⟨regs, hlast, rfl⟩ := Option.map_eq_some_iff.mp hregs
    obtain ⟨fuel, rfl⟩ : ∃ m, fuel = m + 1 := ⟨fuel - 1, by omega⟩
    apply loopReads_cons (by omega) (first_of_new hnew) hzero (hprescribed _ List.mem_cons_self)
    intro res hres l' hl'
    rw [h64, if_pos rfl, show index + n.succ.succ * 4 = index + 8 + n * 4 by omega]
    apply ih hlast (fun r hr => hprescribed r (List.mem_cons_of_mem _ hr)) (by omega)
    rw [hl']
    exact new_of_append 2 two_pos hnew hres
  | case5 n index hzero h64 ih =>
    rw [registers_of_not_is64 hzero h64] at hregs
    obtain ⟨regs, hlast, rfl⟩ := Option.map_eq_some_iff.mp hregs
    obtain ⟨fuel, rfl⟩ : ∃ m, fuel = m + 1 := ⟨fuel - 1, by omega⟩
    apply loopReads_cons (by omega) (first_of_new hnew) hzero (hprescribed _ List.mem_cons_self)
    intro res hres l' hl'
    rw [if_neg h64, show index + n.succ * 4 = index + 4 + n * 4 by omega]
    apply ih hlast (fun r hr => hprescribed r (List.mem_cons_of_mem _ hr)) (by omega)
    rw [hl']
    exact new_of_append 1 one_pos hnew hres

/-! ### The device -/

/-- The bases of a device whose registers are as prescribed. -/
theorem pciReadBases_spec (c : Config) (l : List Resource) (howmany : ℕ) (regs : List Register)
    (hregs : registers c howmany PCI_BASE_ADDRESS_0 = some regs)
    (hprescribed : ∀ r ∈ regs, r.Prescribed)
    (hnew : ∀ res ∈ compactResources l, ∀ i < howmany, res.index ≠ PCI_BASE_ADDRESS_0 + i * 4) :
    Reads c l howmany regs := by
  obtain ⟨l', news, hloop, hcompact, hnews⟩ :=
    readBasesLoop_spec hregs hprescribed le_rfl hnew
  refine ⟨news, ?_, hnews⟩
  rw [pciReadBases, hloop, Option.map_some, ← hcompact]

/-- A register is as prescribed if a bit of its address is one that the type allows as a size. -/
lemma prescribed_of_bit (hattr : ∀ j < r.addressStart, r.writable.getLsbD j = false)
    (htype : r.Io ∨ r.memType ≠ PCI_BASE_ADDRESS_MEM_LIMIT_MASK) (hstart : r.addressStart ≤ k)
    (hbit : r.writable.getLsbD k = true) (hk : 2 ^ k ≤ r.typeLimit + 1) : r.Prescribed := by
  refine ⟨hattr, htype, ?_⟩
  intro j hj
  have hle : j ≤ k := by
    by_contra hlt
    have hzero := hj.2.2 k (by omega) hstart
    rw [hbit] at hzero
    cases hzero
  exact (Nat.pow_le_pow_right two_pos hle).trans hk

/-- A register of 64 bits with an address space of 4 GiB, so that no bit of its low half is writable,
and an I/O register of 256 ports. -/
def wideConfig : Config where
  value reg := if reg = 0x10 then 0x0000000c else if reg = 0x18 then 0x00003001 else 0
  writable reg := if reg = 0x14 then 0xffffffff else if reg = 0x18 then 0x0000ff00 else 0

theorem pciReadBases_spec_wide :
    Reads wideConfig [] 3
      [⟨0x10, 0x0000000c, 0xffffffff00000000⟩, ⟨0x18, 0x00000001, 0x000000000000ff00⟩] := by
  apply pciReadBases_spec wideConfig [] 3 _ (by decide) _ (by simp [compactResources])
  intro r hr
  simp only [List.mem_cons, List.not_mem_nil, or_false] at hr
  rcases hr with rfl | rfl
  · exact prescribed_of_bit (k := 32) (by decide) (by decide) (by decide) (by decide) (by decide)
  · exact prescribed_of_bit (k := 8) (by decide) (by decide) (by decide) (by decide) (by decide)

/-! ### Registers that are not as prescribed -/

/-- A device with one register. -/
def single (value writable : BitVec 32) : Config where
  value reg := if reg = 0x10 then value else 0
  writable reg := if reg = 0x10 then writable else 0

lemma resources_of_reads {howmany : ℕ} {regs : List Register} (h : Reads c l howmany regs) :
    ∃ news, (pciReadBases c l howmany).map Prod.snd = some (compactResources l ++ news) ∧
      List.Forall₂ Register.Describes regs news := by
  obtain ⟨news, hread, hnews⟩ := h
  exact ⟨news, by rw [hread, Option.map_some], hnews⟩

lemma describes_of_reads (h : Reads c [] 1 [r])
    (hread : (pciReadBases c [] 1).map Prod.snd = some [res]) : r.Describes res := by
  obtain ⟨news, hread', hnews⟩ := resources_of_reads h
  obtain rfl : [res] = news := Option.some.inj (hread.symm.trans hread')
  exact (List.forall₂_cons.mp hnews).1

/-- The writable bit below the address of the first is taken for the size, the type of the second is
reserved, the third has more ports than there are, and the fourth is larger than the 1 MiB of its type. -/
theorem not_reads :
    (registers (single 0 0xfffffff8) 1 0x10 = some [⟨0x10, 0, 0xfffffff8⟩] ∧
      ¬Reads (single 0 0xfffffff8) [] 1 [⟨0x10, 0, 0xfffffff8⟩]) ∧
    (registers (single 6 0xfffff000) 1 0x10 = some [⟨0x10, 6, 0xfffff000⟩] ∧
      ¬Reads (single 6 0xfffff000) [] 1 [⟨0x10, 6, 0xfffff000⟩]) ∧
    (registers (single 1 0xfffe0000) 1 0x10 = some [⟨0x10, 1, 0xfffe0000⟩] ∧
      ¬Reads (single 1 0xfffe0000) [] 1 [⟨0x10, 1, 0xfffe0000⟩]) ∧
    (registers (single 2 0xffe00000) 1 0x10 = some [⟨0x10, 2, 0xffe00000⟩] ∧
      ¬Reads (single 2 0xffe00000) [] 1 [⟨0x10, 2, 0xffe00000⟩]) := by
  refine ⟨⟨by decide, ?_⟩, ⟨by decide, ?_⟩, ⟨by decide, ?_⟩, by decide, ?_⟩
  · intro h
    have hread : (pciReadBases (single 0 0xfffffff8) [] 1).map Prod.snd =
        some [⟨0, 8, 0xffffffff, IORESOURCE_MEM, 0x10, 3, 3⟩] := by decide
    obtain ⟨k, ⟨hstart, -, -⟩, hsize, -⟩ := (describes_of_reads h hread).size
    have hk : 2 ^ 4 ≤ 2 ^ k := Nat.pow_le_pow_right two_pos hstart
    exact absurd (hk.trans_eq hsize.symm) (by decide)
  · intro h
    have hread : (pciReadBases (single 6 0xfffff000) [] 1).map Prod.snd = some [] := by decide
    obtain ⟨news, hread', hnews⟩ := resources_of_reads h
    obtain rfl : [] = news := Option.some.inj (hread.symm.trans hread')
    cases hnews
  · intro h
    have hread : (pciReadBases (single 1 0xfffe0000) [] 1).map Prod.snd =
        some [⟨0, 0x20000, 0xffff, IORESOURCE_IO, 0x10, 17, 17⟩] := by decide
    exact absurd (describes_of_reads h hread).room (by decide)
  · intro h
    have hread : (pciReadBases (single 2 0xffe00000) [] 1).map Prod.snd =
        some [⟨0, 0x200000, 0xfffff, IORESOURCE_MEM, 0x10, 21, 21⟩] := by decide
    exact absurd (describes_of_reads h hread).room (by decide)

end ApuBios.PciBases
