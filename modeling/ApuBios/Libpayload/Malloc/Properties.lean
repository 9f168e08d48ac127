import ApuBios.Libpayload.Malloc.Basic
import ApuBios.Library.Tiling

/-!
# The chain of blocks

Once the first block has been asked for, the headers in memory form a chain that tiles the heap
(`Chain`). `alloc` and `free` keep the chain, leave no two neighbours free, and the used blocks of the
chain are those that are kept for the program (`InOrder`).
-/

namespace ApuBios.Malloc

open Tiling Transition
open Word (ofInt toInt)

/-! ### Headers -/

private lemma magic_eq : MAGIC = 2 ^ 57 * 84 := by decide

private lemma flag_eq : FLAG_FREE = 2 ^ 57 * 1 := by decide

private lemma maxSize_eq : MAX_SIZE = 2 ^ 57 - 1 := by decide

private lemma makeHeader_eq {n c f : ℕ} (hn : n < 2 ^ 57) (hf : MAGIC ||| f = 2 ^ 57 * c) :
    makeHeader n f = 2 ^ 57 * c + n := by
  rw [makeHeader, Word.ofInt_eq (by omega), maxSize_eq, Nat.and_two_pow_sub_one_eq_mod,
    Nat.mod_eq_of_lt hn, hf, Nat.two_pow_add_eq_or_of_lt hn]

lemma freeBlock_eq {n : ℕ} (hn : n < 2 ^ 57) : freeBlock n = 2 ^ 57 * 85 + n :=
  makeHeader_eq hn (by decide)

lemma usedBlock_eq {n : ℕ} (hn : n < 2 ^ 57) : usedBlock n = 2 ^ 57 * 84 + n :=
  makeHeader_eq hn (by decide)

private lemma sizeOfHeader_add {n : ℕ} (hn : n < 2 ^ 57) (c : ℕ) :
    sizeOfHeader (2 ^ 57 * c + n) = n := by
  rw [sizeOfHeader, maxSize_eq, Nat.and_two_pow_sub_one_eq_mod, Nat.mul_add_mod,
    Nat.mod_eq_of_lt hn]

/-- A block of the chain. -/
structure Block where
  addr : ℕ
  size : ℕ
  used : Bool
  size_pos : 0 < size
  size_aligned : 8 ∣ size

namespace Block

variable (b : Block)

/-- The header together with the data. -/
def span : ℕ := HDRSIZE + b.size

/-- The address of the data. -/
def data : ℕ := b.addr + HDRSIZE

def header : ℕ := if b.used then usedBlock b.size else freeBlock b.size

variable {b}

lemma header_eq (h : b.size < 2 ^ 57) :
    b.header = 2 ^ 57 * (if b.used then 84 else 85) + b.size := by
  rw [header, usedBlock_eq h, freeBlock_eq h]
  split_ifs <;> rfl

lemma header_lt (h : b.size < 2 ^ 57) : b.header < 256 ^ HDRSIZE := by
  rw [header_eq h, show (256 : ℕ) ^ HDRSIZE = 2 ^ 64 by decide]
  split_ifs <;> omega

lemma sizeOfHeader_header (h : b.size < 2 ^ 57) : sizeOfHeader b.header = b.size := by
  rw [header_eq h, sizeOfHeader_add h]

lemma hasMagic_header (h : b.size < 2 ^ 57) : hasMagic b.header = true := by
  rw [header_eq h, hasMagic, magic_eq, Word.and_mul_two_pow h]
  cases b.used <;> decide

lemma isFree_header (h : b.size < 2 ^ 57) : isFree b.header = !b.used := by
  rw [header_eq h, isFree, show MAGIC ||| FLAG_FREE = 2 ^ 57 * 85 by decide,
    Word.and_mul_two_pow h]
  cases b.used <;> decide

lemma header_and_flag (h : b.size < 2 ^ 57) : b.header &&& FLAG_FREE ≠ 0 ↔ b.used = false := by
  rw [header_eq h, flag_eq, Word.and_mul_two_pow h]
  cases b.used <;> decide

end Block

/-! ### Chains -/

variable {r : Region}

/-- The headers in `m` from `a` up to the end of the heap are those of `bs`. -/
structure Chain (r : Region) (m : Mem) (a : ℕ) (bs : List Block) : Prop where
  start_le : r.hstart ≤ a
  tiles : Tiles Block.addr Block.span a bs r.hend
  header : ∀ b ∈ bs, readHeader m b.addr = b.header

/-- Of two neighbours one is used. -/
def NoTwoFree (bs : List Block) : Prop := bs.IsChain fun b c => b.used ∨ c.used

namespace Chain

variable {m m' : Mem} {a : ℕ} {b c : Block} {bs cs : List Block}

lemma bounds (h : Chain r m a bs) (hb : b ∈ bs) :
    r.hstart ≤ b.addr ∧ b.addr + HDRSIZE + b.size ≤ r.hend := by
  have hbounds := h.tiles.mem_bounds hb
  have hstart := h.start_le
  simp only [Block.span] at hbounds
  omega

lemma size_lt (h : Chain r m a bs) (hb : b ∈ bs) : b.size < 2 ^ 31 := by
  have := h.bounds hb
  have := r.size_lt
  omega

lemma size_lt' (h : Chain r m a bs) (hb : b ∈ bs) : b.size < 2 ^ 57 := by
  have := h.size_lt hb
  omega

lemma tail (h : Chain r m a (b :: bs)) : Chain r m (b.addr + HDRSIZE + b.size) bs := by
  obtain ⟨rfl, htiles⟩ := h.tiles
  have hstart := h.start_le
  exact ⟨by omega, by rwa [Block.span, ← Nat.add_assoc] at htiles,
    fun c hc => h.header c (List.mem_cons_of_mem _ hc)⟩

/-- Only the headers matter. -/
lemma congr (h : Chain r m a bs)
    (hm : ∀ b ∈ bs, ∀ x, b.addr ≤ x → x < b.addr + HDRSIZE → m' x = m x) : Chain r m' a bs := by
  refine ⟨h.start_le, h.tiles, fun b hb => ?_⟩
  rw [← h.header b hb]
  exact Mem.readLE_congr (hm b hb)

/-- What is written into the data of one block changes no header. -/
lemma congr_data (h : Chain r m a bs) (hb : b ∈ bs)
    (hm : ∀ x, x < b.data ∨ b.data + b.size ≤ x → m' x = m x) : Chain r m' a bs := by
  refine h.congr fun c hc x hle hlt => hm x ?_
  rcases h.tiles.eq_or_disjoint hb hc with rfl | hdisj
  · exact Or.inl hlt
  · simp only [Block.span] at hdisj
    simp only [Block.data]
    omega

lemma length_le (h : Chain r m a bs) : a + 16 * bs.length ≤ r.hend := by
  induction bs generalizing a with
  | nil =>
    have : a = r.hend := h.tiles
    simp [this]
  | cons b bs ih =>
    have hb : b.addr = a := h.tiles.1
    have htail := ih h.tail
    obtain ⟨k, hk⟩ := b.size_aligned
    have := b.size_pos
    simp only [List.length_cons, HDRSIZE] at htail ⊢
    omega

end Chain

lemma readHeader_writeHeader_same {m : Mem} {p hdr : ℕ} (h : hdr < 256 ^ HDRSIZE) :
    readHeader (writeHeader m p hdr) p = hdr :=
  Mem.readLE_writeLE h

lemma readHeader_writeHeader_disjoint {m : Mem} {p q hdr : ℕ}
    (h : p + HDRSIZE ≤ q ∨ q + HDRSIZE ≤ p) :
    readHeader (writeHeader m q hdr) p = readHeader m p :=
  Mem.readLE_writeLE_disjoint h

lemma writeHeader_frame {m : Mem} {p hdr x : ℕ} (h : x < p ∨ p + HDRSIZE ≤ x) :
    writeHeader m p hdr x = m x :=
  Mem.writeLE_frame h

/-! ### Allocating -/

/-- A size that was asked for is refused, or rounded up to a multiple of eight. -/
lemma alignSize_cases {size : ℕ} (hsize : size < 2 ^ 32) :
    (alignSize (toInt 32 size) = 0 ∨ ofInt 64 (alignSize (toInt 32 size)) > MAX_SIZE) ∨
      ∃ n : ℕ, alignSize (toInt 32 size) = n ∧ size ≤ n ∧ 8 ∣ n ∧ 0 < n ∧ n < 2 ^ 31 := by
  have hle : Word.roundUp size 3 ≤ 2 ^ 32 := Word.roundUp_le hsize.le (by norm_num)
  rw [alignSize, Word.ofInt_toInt, Word.ofInt_eq hsize, show HDRSIZE = 2 ^ 3 from rfl]
  rcases hle.eq_or_lt with heq | hlt
  · rw [Word.alignUp_eq_zero (by norm_num) hsize heq]
    exact Or.inl (Or.inl rfl)
  rw [Word.alignUp_eq (by norm_num) hlt]
  by_cases hsmall : Word.roundUp size 3 < 2 ^ 31
  · rw [Word.toInt_eq (by omega)]
    rcases Nat.eq_zero_or_pos (Word.roundUp size 3) with hzero | hpos
    · exact Or.inl (Or.inl (by rw [hzero, Nat.cast_zero]))
    · exact Or.inr ⟨_, rfl, Word.le_roundUp, Word.dvd_roundUp, hpos, hsmall⟩
  · have hneg : (Word.roundUp size 3 : ℤ) - (2 ^ 32 : ℕ) =
        ((2 ^ 64 - 2 ^ 32 + Word.roundUp size 3 : ℕ) : ℤ) - (2 ^ 64 : ℕ) := by omega
    rw [Word.toInt_eq_sub (by omega) hlt, hneg, ofInt, Int.sub_emod_right, maxSize_eq]
    refine Or.inl (Or.inr ?_)
    rw [← ofInt, Word.ofInt_eq (by omega)]
    omega

/-- The size of the block that is needed for `size` bytes. -/
def needed (size : ℕ) : ℕ := (alignSize (toInt 32 size)).toNat

lemma needed_spec {size : ℕ} (hsize : size < 2 ^ 32) (hasks : Asks size) :
    alignSize (toInt 32 size) = needed size ∧ size ≤ needed size ∧ 8 ∣ needed size ∧
      0 < needed size ∧ needed size < 2 ^ 31 := by
  obtain ⟨n, hn, hspec⟩ := (alignSize_cases hsize).resolve_left hasks
  have hneeded : needed size = n := by rw [needed, hn, Int.toNat_natCast]
  rw [hneeded]
  exact ⟨hn, hspec⟩

/-- The memory after a block of `n` bytes is taken from the free block `x`. -/
def placed (m : Mem) (x : Block) (n : ℕ) : Mem :=
  if HDRSIZE + n < x.size then
    writeHeader (writeHeader m x.addr (usedBlock n)) (x.addr + HDRSIZE + n)
      (freeBlock (x.size - (HDRSIZE + n) : ℕ))
  else
    writeHeader m x.addr (usedBlock x.size)

/-- The search takes the first free block that is large enough. -/
lemma allocLoop_spec {m : Mem} {a n : ℕ} {bs : List Block} (fuel : ℕ) (h : Chain r m a bs)
    (hne : bs ≠ []) (hfuel : bs.length ≤ fuel) (hn : n < 2 ^ 31) :
    (allocLoop r n m a fuel = some (m, 0) ∧ ∀ b ∈ bs, b.used = false → b.size < n) ∨
      ∃ pre x post, bs = pre ++ x :: post ∧ (∀ y ∈ pre, y.used = false → y.size < n) ∧
        x.used = false ∧ n ≤ x.size ∧
        allocLoop r n m a fuel = some (placed m x n, x.data) := by
  induction bs generalizing a fuel with
  | nil => exact absurd rfl hne
  | cons b bs ih =>
    obtain ⟨fuel, rfl⟩ : ∃ k, fuel = k + 1 := ⟨fuel - 1, by simp at hfuel; omega⟩
    obtain rfl : b.addr = a := h.tiles.1
    have hb : b ∈ b :: bs := by simp
    have hbound := h.bounds hb
    have hend := r.hend_lt
    have hsize := h.size_lt hb
    have hsize' := h.size_lt' hb
    have hint : toInt 32 (b.size : ℤ) = b.size := Word.toInt_eq (by omega)
    have hpanic : ¬(¬hasMagic b.header ∨ (b.size : ℤ) = 0) := by
      have := b.size_pos
      rw [Block.hasMagic_header hsize']
      simp
      omega
    simp only [allocLoop, h.header b hb, Block.sizeOfHeader_header hsize', hint, if_neg hpanic,
      Block.header_and_flag hsize']
    by_cases hfit : b.used = false ∧ (n : ℤ) ≤ b.size
    · refine Or.inr ⟨[], b, bs, rfl, by simp, hfit.1, by exact_mod_cast hfit.2, ?_⟩
      have hle : n ≤ b.size := by exact_mod_cast hfit.2
      have hnptr : ofInt 32 ((b.addr : ℤ) + HDRSIZE + n) = b.addr + HDRSIZE + n :=
        Word.ofInt_eq (a := b.addr + HDRSIZE + n) (by omega)
      have hdata : ofInt 32 ((b.addr : ℤ) + HDRSIZE) = b.data :=
        Word.ofInt_eq (a := b.addr + HDRSIZE) (by omega)
      rw [if_pos hfit, hnptr, hdata, placed]
      by_cases hsplit : HDRSIZE + n < b.size
      · have hcast : (b.size : ℤ) - (HDRSIZE + n) = (b.size - (HDRSIZE + n) : ℕ) := by omega
        have hrest : toInt 32 ((b.size : ℤ) - (HDRSIZE + n)) = (b.size - (HDRSIZE + n) : ℕ) := by
          rw [hcast]
          exact Word.toInt_eq (by omega)
        rw [if_pos hsplit, hrest, if_pos (by omega)]
      · have hrest : toInt 32 ((b.size : ℤ) - (HDRSIZE + n)) = (b.size : ℤ) - (HDRSIZE + n) := by
          refine Int.bmod_eq_of_le ?_ ?_ <;> simp only [HDRSIZE] at hsplit ⊢ <;> omega
        rw [if_neg hsplit, hrest, if_neg (by omega)]
    · have hnext : ofInt 32 ((b.addr : ℤ) + HDRSIZE + b.size) = b.addr + HDRSIZE + b.size :=
        Word.ofInt_eq (a := b.addr + HDRSIZE + b.size) (by omega)
      have hsmall : b.used = false → b.size < n := by
        intro hfree
        by_contra hle
        exact hfit ⟨hfree, by omega⟩
      rw [if_neg hfit, hnext]
      rcases List.eq_nil_or_concat bs with rfl | ⟨_, _, hcons⟩
      · have hlast : b.addr + HDRSIZE + b.size = r.hend := h.tail.tiles
        rw [if_neg (by omega)]
        exact Or.inl ⟨rfl, by simpa using hsmall⟩
      · have hne' : bs ≠ [] := by simp [hcons]
        have hmore : b.addr + HDRSIZE + b.size < r.hend := by
          have := h.tail.length_le
          have := List.length_pos_iff.mpr hne'
          omega
        rw [if_pos hmore]
        rcases ih fuel h.tail hne' (by simpa using hfuel) with
          ⟨hnone, hall⟩ | ⟨pre, x, post, rfl, hpre, hx⟩
        · exact Or.inl ⟨hnone, by simpa using ⟨hsmall, hall⟩⟩
        · exact Or.inr ⟨b :: pre, x, post, rfl, by simpa using ⟨hsmall, hpre⟩, hx⟩

namespace NoTwoFree

variable {pre post : List Block} {x b : Block}

lemma append_used (hb : b.used = true) :
    NoTwoFree (pre ++ b :: post) ↔ NoTwoFree pre ∧ NoTwoFree post := by
  simp [NoTwoFree, List.isChain_append, List.isChain_cons, hb]

lemma cons_used (hb : b.used = true) : NoTwoFree (b :: post) ↔ NoTwoFree post := by
  simp [NoTwoFree, List.isChain_cons, hb]

lemma left (h : NoTwoFree (pre ++ post)) : NoTwoFree pre := (List.isChain_append.mp h).1

lemma right (h : NoTwoFree (pre ++ post)) : NoTwoFree post := (List.isChain_append.mp h).2.1

lemma tail (h : NoTwoFree (b :: post)) : NoTwoFree post := (List.isChain_cons.mp h).2

lemma of_head (h : NoTwoFree (x :: post)) (hb : b.used = x.used) : NoTwoFree (b :: post) := by
  simpa only [NoTwoFree, List.isChain_cons, hb] using h

end NoTwoFree

/-- Blocks of the chain may be replaced by others of the same extent. -/
lemma Chain.replace {m m' : Mem} {a c d : ℕ} {pre xs ys post : List Block}
    (h : Chain r m a (pre ++ (xs ++ post))) (hpre : Tiles Block.addr Block.span a pre c)
    (hxs : Tiles Block.addr Block.span c xs d) (hys : Tiles Block.addr Block.span c ys d)
    (hheader : ∀ y ∈ ys, readHeader m' y.addr = y.header)
    (hframe : ∀ z, z < c ∨ d ≤ z → m' z = m z) : Chain r m' a (pre ++ (ys ++ post)) := by
  have hpost : Tiles Block.addr Block.span d post r.hend := by
    obtain ⟨c', hpre', hrest⟩ := tiles_append.mp h.tiles
    obtain ⟨d', hxs', hpost⟩ := tiles_append.mp hrest
    obtain rfl : c' = c := hpre'.sum_len.symm.trans hpre.sum_len
    obtain rfl : d' = d := hxs'.sum_len.symm.trans hxs.sum_len
    exact hpost
  refine ⟨h.start_le, tiles_append.mpr ⟨c, hpre, tiles_append.mpr ⟨d, hys, hpost⟩⟩, ?_⟩
  intro b hb
  rcases List.mem_append.mp hb with hb | hb
  · have hbound := (hpre.mem_bounds hb).2
    rw [← h.header b (List.mem_append_left _ hb)]
    refine Mem.readLE_congr fun z _ hz => hframe z (Or.inl ?_)
    simp only [Block.span] at hbound
    omega
  rcases List.mem_append.mp hb with hb | hb
  · exact hheader b hb
  · have hbound := (hpost.mem_bounds hb).1
    rw [← h.header b (List.mem_append_right _ (List.mem_append_right _ hb))]
    exact Mem.readLE_congr fun z hz _ => hframe z (Or.inr (by omega))

/-- The blocks that a free block becomes when `n` bytes are taken from it. -/
private lemma placed_blocks {m : Mem} {n : ℕ} {x : Block} (hsize : x.size < 2 ^ 57)
    (hle : n ≤ x.size) (hpos : 0 < n) (hn : 8 ∣ n) :
    ∃ b rest, b.used = true ∧ b.addr = x.addr ∧ n ≤ b.size ∧
      Tiles Block.addr Block.span x.addr (b :: rest) (x.addr + x.span) ∧
      (rest = [] ∨ ∃ y, rest = [y] ∧ y.used = false) ∧
      (∀ y ∈ b :: rest, readHeader (placed m x n) y.addr = y.header) ∧
      ∀ z, (∀ y ∈ b :: rest, z < y.addr ∨ y.addr + HDRSIZE ≤ z) → placed m x n z = m z := by
  by_cases hsplit : HDRSIZE + n < x.size
  · -- what is left becomes a free block
    let b : Block := ⟨x.addr, n, true, hpos, hn⟩
    let y : Block := ⟨x.addr + HDRSIZE + n, x.size - (HDRSIZE + n), false, by omega,
      Nat.dvd_sub x.size_aligned (Nat.dvd_add (Nat.dvd_refl 8) hn)⟩
    have hy : y.header < 256 ^ HDRSIZE := Block.header_lt (by simp only [y]; omega)
    have hb : b.header < 256 ^ HDRSIZE := Block.header_lt (by simp only [b]; omega)
    have hm : placed m x n = writeHeader (writeHeader m b.addr b.header) y.addr y.header := by
      simp [placed, hsplit, b, y, Block.header]
    have hne : b.addr + HDRSIZE ≤ y.addr := by simp only [b, y]; omega
    rw [hm]
    refine ⟨b, [y], rfl, rfl, le_rfl, ?_, Or.inr ⟨y, rfl, rfl⟩, ?_, ?_⟩
    · refine ⟨rfl, ?_, ?_⟩ <;> simp only [tiles_nil, b, y, Block.span] <;> omega
    · intro z hz
      simp only [List.mem_cons, List.not_mem_nil, or_false] at hz
      rcases hz with rfl | rfl
      · rw [readHeader_writeHeader_disjoint (Or.inl hne), readHeader_writeHeader_same hb]
      · exact readHeader_writeHeader_same hy
    · intro z hz
      rw [writeHeader_frame (hz y (by simp)), writeHeader_frame (hz b (by simp))]
  · let b : Block := ⟨x.addr, x.size, true, x.size_pos, x.size_aligned⟩
    have hb : b.header < 256 ^ HDRSIZE := Block.header_lt hsize
    have hm : placed m x n = writeHeader m b.addr b.header := by
      simp [placed, hsplit, b, Block.header]
    rw [hm]
    refine ⟨b, [], rfl, rfl, hle, by simp [b, Block.span], Or.inl rfl, ?_, ?_⟩
    · intro z hz
      obtain rfl := List.mem_singleton.mp hz
      exact readHeader_writeHeader_same hb
    · intro z hz
      exact writeHeader_frame (hz b (by simp))

/-- Taking a block from a free one that is large enough keeps the chain, and changes memory
inside the free block only. -/
lemma placed_spec {m : Mem} {n : ℕ} {pre post : List Block} {x : Block}
    (h : Chain r m r.hstart (pre ++ x :: post)) (hfree : x.used = false) (hle : n ≤ x.size)
    (hpos : 0 < n) (hn : 8 ∣ n) (htwo : NoTwoFree (pre ++ x :: post)) :
    ∃ b rest, Chain r (placed m x n) r.hstart (pre ++ (b :: rest) ++ post) ∧
      NoTwoFree (pre ++ (b :: rest) ++ post) ∧ b.used = true ∧ b.addr = x.addr ∧ n ≤ b.size ∧
      (∀ y ∈ rest, y.used = false) ∧
      Tiles Block.addr Block.span x.addr (b :: rest) (x.addr + x.span) ∧
      ∀ z, (∀ y ∈ b :: rest, z < y.addr ∨ y.addr + HDRSIZE ≤ z) → placed m x n z = m z := by
  obtain ⟨b, rest, hb, haddr, hnb, htiles, hrest, hheader, hframe⟩ :=
    placed_blocks (m := m) (h.size_lt' (show x ∈ pre ++ x :: post by simp)) hle hpos hn
  obtain ⟨c, hpre, rfl, -⟩ := tiles_append.mp h.tiles
  have hwithin : ∀ z, z < x.addr ∨ x.addr + x.span ≤ z → placed m x n z = m z := by
    intro z hz
    refine hframe z fun y hy => ?_
    have := htiles.mem_bounds hy
    simp only [Block.span] at this hz
    omega
  refine ⟨b, rest, ?_, ?_, hb, haddr, hnb, ?_, htiles, hframe⟩
  · rw [List.append_assoc]
    have hx : Tiles Block.addr Block.span x.addr [x] (x.addr + x.span) := ⟨rfl, rfl⟩
    exact h.replace hpre hx htiles hheader hwithin
  · rw [List.append_assoc, List.cons_append, NoTwoFree.append_used hb]
    refine ⟨htwo.left, ?_⟩
    rcases hrest with rfl | ⟨y, rfl, hy⟩
    · exact htwo.right.tail
    · exact htwo.right.of_head (by rw [hy, hfree])
  · rcases hrest with rfl | ⟨y, rfl, hy⟩
    · simp
    · simpa using hy

/-! ### Freeing -/

private lemma dvd_of_tiles {a c : ℕ} {bs : List Block} (h : Tiles Block.addr Block.span a bs c) :
    8 ∣ c - a := by
  have hsum := h.sum_len
  have hdvd : 8 ∣ (bs.map Block.span).sum := by
    refine List.dvd_sum fun n hn => ?_
    obtain ⟨b, -, rfl⟩ := List.mem_map.mp hn
    exact Nat.dvd_add (Nat.dvd_refl 8) b.size_aligned
  rwa [← hsum, Nat.add_sub_cancel_left]

/-- The inner loop runs over all free blocks that follow. -/
lemma absorb_spec {m : Mem} {a : ℕ} {bs : List Block} (size fuel : ℕ) (h : Chain r m a bs)
    (hfuel : bs.length < fuel) (hsize : size + (r.hend - a) < 2 ^ 32) :
    ∃ pre post m' c, bs = pre ++ post ∧ (∀ b ∈ pre, b.used = false) ∧
      (∀ b ∈ post.head?, b.used = true) ∧ Tiles Block.addr Block.span a pre c ∧
      absorb r m a size fuel = some (m', c, size + (c - a)) ∧
      ∀ z, (∀ b ∈ pre, z < b.addr ∨ b.addr + HDRSIZE ≤ z) → m' z = m z := by
  induction fuel generalizing m a size bs with
  | zero => omega
  | succ fuel ih =>
    have hend := r.hend_lt
    cases bs with
    | nil =>
      have hlast : a = r.hend := h.tiles
      refine ⟨[], [], m, a, rfl, by simp, by simp, rfl, ?_, fun _ _ => rfl⟩
      rw [absorb, if_neg (by omega), Nat.sub_self, Nat.add_zero]
    | cons b bs =>
      obtain rfl : b.addr = a := h.tiles.1
      have hb : b ∈ b :: bs := by simp
      have hbound := h.bounds hb
      have hsize' := h.size_lt' hb
      have hmore : b.addr < r.hend := by
        have := b.size_pos
        omega
      simp only [absorb, if_pos hmore, h.header b hb, Block.isFree_header hsize',
        Block.sizeOfHeader_header hsize']
      by_cases hused : b.used = true
      · refine ⟨[], b :: bs, m, b.addr, rfl, by simp, by simp [hused], rfl, ?_, fun _ _ => rfl⟩
        rw [if_pos (by simp [hused]), Nat.sub_self, Nat.add_zero]
      · have hfree : b.used = false := by simpa using hused
        have hnext : ofInt 32 ((b.addr : ℤ) + (HDRSIZE + b.size)) = b.addr + HDRSIZE + b.size := by
          rw [← Nat.cast_add, ← Nat.cast_add, Word.ofInt_eq (by omega), Nat.add_assoc]
        have htotal : ofInt 32 ((size : ℤ) + (b.size + HDRSIZE)) = size + (HDRSIZE + b.size) := by
          rw [← Nat.cast_add, ← Nat.cast_add, Word.ofInt_eq (by omega), Nat.add_comm b.size]
        have htail : Chain r (writeHeader m b.addr 0) (b.addr + HDRSIZE + b.size) bs := by
          refine h.tail.congr fun c hc z hle _ => writeHeader_frame (Or.inr ?_)
          have := (h.tail.tiles.mem_bounds hc).1
          omega
        rw [if_neg (by simp [hfree]), hnext, htotal]
        obtain ⟨pre, post, m', c, rfl, hpre, hpost, htiles, heq, hframe⟩ :=
          ih (size + (HDRSIZE + b.size)) htail (by simpa using hfuel) (by omega)
        refine ⟨b :: pre, post, m', c, rfl, by simpa [hfree] using hpre, hpost,
          ⟨rfl, by rwa [Block.span, ← Nat.add_assoc]⟩, ?_, fun z hz => ?_⟩
        · have := htiles.le
          rw [heq, show size + (HDRSIZE + b.size) + (c - (b.addr + HDRSIZE + b.size)) =
            size + (c - b.addr) by omega]
        · rw [hframe z fun d hd => hz d (by simp [hd]), writeHeader_frame (hz b (by simp))]

/-- What `_consolidate` makes of the chain `bs`: free neighbours are joined, the used blocks stay,
and only headers of free blocks are written. -/
structure Consolidated (r : Region) (m m' : Mem) (a : ℕ) (bs bs' : List Block) : Prop where
  chain : Chain r m' a bs'
  noTwoFree : NoTwoFree bs'
  used : bs'.filter (·.used) = bs.filter (·.used)
  head : (∀ b ∈ bs.head?, b.used = true) → ∀ b ∈ bs'.head?, b.used = true
  frame : ∀ z, (∀ b ∈ bs, b.used = false → z < b.addr ∨ b.addr + HDRSIZE ≤ z) → m' z = m z

namespace Consolidated

variable {m m' m₁ : Mem} {c : ℕ} {b joined : Block} {bs bs' pre post : List Block}

/-- A used block stays in front of what becomes of the rest. -/
private lemma cons_used (h : Chain r m b.addr (b :: bs)) (hused : b.used = true)
    (hc : Consolidated r m m' (b.addr + HDRSIZE + b.size) bs bs') :
    Consolidated r m m' b.addr (b :: bs) (b :: bs') := by
  have hheader : readHeader m' b.addr = b.header := by
    rw [← h.header b (by simp)]
    refine Mem.readLE_congr fun z _ hlt => hc.frame z fun d hd _ => Or.inl ?_
    have := (h.tail.tiles.mem_bounds hd).1
    omega
  refine ⟨⟨h.start_le, ⟨rfl, ?_⟩, ?_⟩, (NoTwoFree.cons_used hused).mpr hc.noTwoFree, ?_,
    by simp [hused], fun z hz => hc.frame z fun d hd => hz d (by simp [hd])⟩
  · rw [Block.span, ← Nat.add_assoc]
    exact hc.chain.tiles
  · intro d hd
    rcases List.mem_cons.mp hd with rfl | hd
    · exact hheader
    · exact hc.chain.header d hd
  · rw [List.filter_cons_of_pos hused, List.filter_cons_of_pos hused, hc.used]

/-- A free block and the free blocks behind it become one. -/
private lemma cons_joined (h : Chain r m b.addr (b :: (pre ++ post))) (hfree : b.used = false)
    (hpre : ∀ d ∈ pre, d.used = false) (hpost : ∀ d ∈ post.head?, d.used = true)
    (hframe : ∀ z, (∀ d ∈ pre, z < d.addr ∨ d.addr + HDRSIZE ≤ z) → m₁ z = m z)
    (haddr : joined.addr = b.addr) (hjoined : joined.used = false)
    (hend : b.addr + joined.span = c) (hle : c ≤ r.hend)
    (hc : Consolidated r (writeHeader m₁ b.addr joined.header) m' c post bs')
    (hpostTiles : Tiles Block.addr Block.span c post r.hend) :
    Consolidated r m m' b.addr (b :: (pre ++ post)) (joined :: bs') := by
  have hsize : joined.size < 2 ^ 57 := by
    have := r.hend_lt
    simp only [Block.span] at hend
    omega
  have hkeep : readHeader m' b.addr =
      readHeader (writeHeader m₁ b.addr joined.header) b.addr := by
    refine Mem.readLE_congr fun z _ hlt => hc.frame z fun d hd _ => Or.inl ?_
    have := (hpostTiles.mem_bounds hd).1
    simp only [Block.span] at hend
    omega
  refine ⟨⟨h.start_le, ⟨haddr, hend ▸ hc.chain.tiles⟩, ?_⟩, ?_, ?_, by simp [hfree],
    fun z hz => ?_⟩
  · intro d hd
    rcases List.mem_cons.mp hd with rfl | hd
    · rw [haddr, hkeep, readHeader_writeHeader_same (Block.header_lt hsize)]
    · exact hc.chain.header d hd
  · refine List.isChain_cons.mpr ⟨fun d hd => Or.inr ?_, hc.noTwoFree⟩
    exact hc.head hpost d hd
  · have hdrop : pre.filter (·.used) = [] := by simpa [List.filter_eq_nil_iff] using hpre
    rw [List.filter_cons_of_neg (by simp [hjoined]), List.filter_cons_of_neg (by simp [hfree]),
      List.filter_append, hdrop, List.nil_append, hc.used]
  · rw [hc.frame z fun d hd => hz d (by simp [hd]), writeHeader_frame (hz b (by simp) hfree),
      hframe z fun d hd => hz d (by simp [hd]) (hpre d hd)]

end Consolidated

lemma consolidateLoop_spec {m : Mem} {a : ℕ} {bs : List Block} (fuel : ℕ) (h : Chain r m a bs)
    (hfuel : bs.length < fuel) (hlen : bs.length < r.hend - r.hstart) :
    ∃ m' bs', consolidateLoop r m a fuel = some m' ∧ Consolidated r m m' a bs bs' := by
  induction fuel generalizing m a bs with
  | zero => omega
  | succ fuel ih =>
    have hend := r.hend_lt
    cases bs with
    | nil =>
      have hlast : a = r.hend := h.tiles
      exact ⟨m, [], by rw [consolidateLoop, if_neg (by omega)],
        ⟨h, .nil, rfl, fun _ => by simp, fun _ _ => rfl⟩⟩
    | cons b bs =>
      obtain rfl : b.addr = a := h.tiles.1
      have hb : b ∈ b :: bs := by simp
      have hbound := h.bounds hb
      have hsize := h.size_lt' hb
      have hpos := b.size_pos
      have hnext : ofInt 32 ((b.addr : ℤ) + (HDRSIZE + b.size)) = b.addr + HDRSIZE + b.size := by
        rw [← Nat.cast_add, ← Nat.cast_add, Word.ofInt_eq (by omega), Nat.add_assoc]
      simp only [consolidateLoop, if_pos (show b.addr < r.hend by omega), h.header b hb,
        Block.isFree_header hsize, Block.sizeOfHeader_header hsize, hnext]
      simp only [List.length_cons] at hfuel hlen
      by_cases hused : b.used = true
      · rw [if_pos (by simp [hused])]
        obtain ⟨m', bs', heq, hc⟩ := ih h.tail (by omega) (by omega)
        exact ⟨m', b :: bs', heq, hc.cons_used h hused⟩
      · have hfree : b.used = false := by simpa using hused
        rw [if_neg (by simp [hfree]), Word.ofInt_eq (by omega)]
        obtain ⟨pre, post, m₁, c, rfl, hpre, hpost, htiles, heq, hframe⟩ :=
          absorb_spec b.size (r.hend - r.hstart) h.tail (by omega) (by omega)
        have hle := htiles.le
        have hpostTiles : Tiles Block.addr Block.span c post r.hend := by
          obtain ⟨c', hpre', hrest⟩ := tiles_append.mp h.tail.tiles
          rwa [← hpre'.sum_len.symm.trans htiles.sum_len]
        let joined : Block := ⟨b.addr, b.size + (c - (b.addr + HDRSIZE + b.size)), false,
          by omega, Nat.dvd_add b.size_aligned (dvd_of_tiles htiles)⟩
        have hspan : b.addr + joined.span = c := by
          simp only [joined, Block.span]
          omega
        have hheader : freeBlock (b.size + (c - (b.addr + HDRSIZE + b.size)) : ℕ) =
          joined.header := rfl
        have hrest : Chain r (writeHeader m₁ b.addr joined.header) c post := by
          refine ⟨by have := h.start_le; omega, hpostTiles, fun d hd => ?_⟩
          have hdc := (hpostTiles.mem_bounds hd).1
          rw [readHeader_writeHeader_disjoint (Or.inr (by omega)),
            ← h.tail.header d (List.mem_append_right _ hd)]
          refine Mem.readLE_congr fun z hz _ => hframe z fun e he => Or.inr ?_
          have := (htiles.mem_bounds he).2
          simp only [Block.span] at this
          omega
        rw [List.length_append] at hfuel hlen
        obtain ⟨m', bs', heq', hc⟩ := ih hrest (by omega) (by omega)
        refine ⟨m', joined :: bs', by simp only [heq, hheader, heq'], ?_⟩
        exact hc.cons_joined h hfree hpre hpost hframe rfl rfl hspan hpostTiles.le hpostTiles

/-- Freeing the used block `b` makes it free and joins free neighbours. -/
lemma free_spec {m : Mem} {b : Block} {pre post : List Block}
    (h : Chain r m r.hstart (pre ++ b :: post)) (hused : b.used = true) :
    ∃ m' bs', free r m b.data = some m' ∧ Chain r m' r.hstart bs' ∧ NoTwoFree bs' ∧
      bs'.filter (·.used) = (pre ++ post).filter (·.used) ∧
      ∀ z, (∀ d ∈ pre ++ b :: post, d.used = false ∨ d = b → z < d.addr ∨ d.addr + HDRSIZE ≤ z) →
        m' z = m z := by
  have hb : b ∈ pre ++ b :: post := by simp
  have hbound := h.bounds hb
  have hsize := h.size_lt' hb
  have hend := r.hend_lt
  have hpos := b.size_pos
  have hptr : ofInt 32 ((b.data : ℤ) - HDRSIZE) = b.addr := by
    rw [show (b.data : ℤ) - HDRSIZE = b.addr by simp [Block.data], Word.ofInt_eq (by omega)]
  let freed : Block := ⟨b.addr, b.size, false, hpos, b.size_aligned⟩
  have hfreed : freeBlock b.size = freed.header := rfl
  obtain ⟨c, hpre, rfl, -⟩ := tiles_append.mp h.tiles
  have hchain : Chain r (writeHeader m b.addr freed.header) r.hstart (pre ++ ([freed] ++ post)) := by
    have hx : Tiles Block.addr Block.span b.addr [b] (b.addr + b.span) := ⟨rfl, rfl⟩
    refine h.replace hpre hx ⟨rfl, rfl⟩ ?_ fun z hz => writeHeader_frame ?_
    · intro y hy
      obtain rfl := List.mem_singleton.mp hy
      exact readHeader_writeHeader_same (Block.header_lt hsize)
    · simp only [Block.span] at hz
      omega
  have hlen := hchain.length_le
  have hroom := r.room
  obtain ⟨m', bs', heq, hc⟩ := consolidateLoop_spec (r.hend - r.hstart) hchain (by omega) (by omega)
  refine ⟨m', bs', ?_, hc.chain, hc.noTwoFree, ?_, fun z hz => ?_⟩
  · simp only [free, hptr, h.header b hb, Block.hasMagic_header hsize,
      Block.header_and_flag hsize, Block.sizeOfHeader_header hsize, hfreed]
    rw [if_neg (by omega), if_neg (by simp), if_neg (by simp [hused]), consolidate, heq]
  · rw [hc.used]
    simp [List.filter_append, freed]
  · rw [hc.frame z fun d hd hfree => ?_, writeHeader_frame (hz b hb (Or.inr rfl))]
    simp only [List.singleton_append, List.mem_append, List.mem_cons] at hd
    rcases hd with hd | rfl | hd
    · exact hz d (by simp [hd]) (Or.inl hfree)
    · exact hz b hb (Or.inr rfl)
    · exact hz d (by simp [hd]) (Or.inl hfree)

/-! ### Calls -/

/-- The used block `b` was taken for `size` bytes, and nothing in use was touched. -/
structure Allocated (r : Region) (m m' : Mem) (bs bs' : List Block) (b : Block) (size : ℕ) :
    Prop where
  chain : Chain r m' r.hstart bs'
  noTwoFree : NoTwoFree bs'
  mem_used : ∀ d, d ∈ bs' ∧ d.used = true ↔ d = b ∨ d ∈ bs ∧ d.used = true
  used : b.used = true
  size_le : size ≤ b.size
  fresh : ∀ d ∈ bs, d.used = true → d.addr ≠ b.addr
  frame : ∀ d ∈ bs, d.used = true → ∀ z, d.addr ≤ z → z < d.addr + d.span → m' z = m z

/-- `alloc` on a heap that has been set up takes the first free block that is large enough. -/
lemma alloc_first {m : Mem} {bs : List Block} {size : ℕ} (h : Chain r m r.hstart bs)
    (hsize : size < 2 ^ 32) :
    (alloc r m (toInt 32 size) = some (m, 0) ∧
        (Asks size → ∀ b ∈ bs, b.used = false → b.size < needed size)) ∨
      ∃ pre x post, Asks size ∧ bs = pre ++ x :: post ∧
        (∀ y ∈ pre, y.used = false → y.size < needed size) ∧ x.used = false ∧
        needed size ≤ x.size ∧
        alloc r m (toInt 32 size) = some (placed m x (needed size), x.data) := by
  by_cases hasks : Asks size
  swap
  · have hrefused := hasks
    rw [Asks, not_not] at hrefused
    exact .inl ⟨by rw [alloc, if_pos hrefused], fun h => absurd h hasks⟩
  obtain ⟨hlen, -, -, -, hlt⟩ := needed_spec hsize hasks
  have hne : bs ≠ [] := by
    rintro rfl
    have : r.hstart = r.hend := h.tiles
    have := r.room
    omega
  obtain ⟨first, rest, rfl⟩ := List.exists_cons_of_ne_nil hne
  have haddr : first.addr = r.hstart := h.tiles.1
  have hmagic : hasMagic (readHeader m r.hstart) = true := by
    rw [← haddr, h.header first (by simp), Block.hasMagic_header (h.size_lt' (by simp))]
  have halloc : alloc r m (toInt 32 size) =
      allocLoop r (needed size) m r.hstart (r.hend - r.hstart) := by
    rw [Asks, hlen] at hasks
    simp only [alloc, hlen, if_neg hasks, hmagic, if_true]
  have hlength := h.length_le
  rw [halloc]
  rcases allocLoop_spec (r.hend - r.hstart) h hne (by omega) hlt with
    ⟨hnone, hall⟩ | ⟨pre, x, post, heq, hpre, hfree, hfit, hsome⟩
  · exact .inl ⟨hnone, fun _ => hall⟩
  · exact .inr ⟨pre, x, post, hasks, heq, hpre, hfree, hfit, hsome⟩

/-- `alloc` on a heap that has been set up. -/
lemma alloc_chain {m : Mem} {bs : List Block} {size : ℕ} (h : Chain r m r.hstart bs)
    (htwo : NoTwoFree bs) (hsize : size < 2 ^ 32) :
    alloc r m (toInt 32 size) = some (m, 0) ∨
      ∃ m' bs' b, alloc r m (toInt 32 size) = some (m', b.data) ∧
        Allocated r m m' bs bs' b size := by
  rcases alloc_first h hsize with
    ⟨hnone, -⟩ | ⟨pre, x, post, hasks, heq, -, hfree, hfit, hsome⟩
  · exact Or.inl hnone
  obtain ⟨-, hle, hn, hpos, -⟩ := needed_spec hsize hasks
  rw [heq] at h htwo ⊢
  obtain ⟨b, rest', hchain, htwo', hb, hbx, hnb, hrest, htiles, hframe⟩ :=
    placed_spec h hfree hfit hpos hn htwo
  have hx : x ∈ pre ++ x :: post := by simp
  refine Or.inr ⟨placed m x (needed size), _, b, ?_, hchain, htwo', fun d => ?_, hb, hle.trans hnb,
    fun d hd hused heq => ?_, fun d hd hused z hz hz' => hframe z fun y hy => ?_⟩
  · rw [hsome, Block.data, Block.data, hbx]
  · simp only [List.mem_append, List.mem_cons]
    constructor
    · rintro ⟨(hd | rfl | hd) | hd, hused⟩
      · exact Or.inr ⟨Or.inl hd, hused⟩
      · exact Or.inl rfl
      · simp [hrest d hd] at hused
      · exact Or.inr ⟨Or.inr (Or.inr hd), hused⟩
    · rintro (rfl | ⟨hd | rfl | hd, hused⟩)
      · exact ⟨by simp, hb⟩
      · exact ⟨by simp [hd], hused⟩
      · simp [hfree] at hused
      · exact ⟨by simp [hd], hused⟩
  · have := d.size_pos
    have := x.size_pos
    rcases h.tiles.eq_or_disjoint hd hx with rfl | hdisj
    · simp [hfree] at hused
    · simp only [Block.span] at hdisj
      omega
  · have hwithin := htiles.mem_bounds hy
    rcases h.tiles.eq_or_disjoint hd hx with rfl | hdisj
    · simp [hfree] at hused
    · simp only [Block.span] at hdisj hwithin hz'
      omega

/-- The heap as `setup` leaves it. -/
private lemma setup_chain {m : Mem} :
    ∃ b : Block, b.used = false ∧
      Chain r (setup m r.hstart (toInt 32 (r.hend - r.hstart - HDRSIZE))) r.hstart [b] := by
  have hroom := r.room
  have hlt := r.size_lt
  have hcast : (r.hend : ℤ) - r.hstart - HDRSIZE = (r.hend - r.hstart - HDRSIZE : ℕ) := by omega
  let b : Block := ⟨r.hstart, r.hend - r.hstart - HDRSIZE, false, by omega,
    Nat.dvd_sub (Nat.dvd_sub r.hend_aligned r.hstart_aligned) (Nat.dvd_refl 8)⟩
  have hb : b.header < 256 ^ HDRSIZE := Block.header_lt (by simp only [b]; omega)
  have hheader : freeBlock (toInt 32 (r.hend - r.hstart - HDRSIZE)) = b.header := by
    rw [hcast, Word.toInt_eq (by omega)]
    rfl
  refine ⟨b, rfl, le_rfl, ⟨rfl, ?_⟩, fun c hc => ?_⟩
  · simp only [tiles_nil, b, Block.span]
    omega
  · obtain rfl := List.mem_singleton.mp hc
    rw [setup, hheader]
    exact readHeader_writeHeader_same hb

/-- The first call that asks for a block sets the heap up. -/
lemma alloc_untouched {m : Mem} (size : ℕ) (hm : hasMagic (readHeader m r.hstart) = false) :
    (¬Asks size ∧ alloc r m (toInt 32 size) = some (m, 0)) ∨
      (Asks size ∧ ∃ (m' : Mem) (b : Block), b.used = false ∧ Chain r m' r.hstart [b] ∧
        alloc r m (toInt 32 size) = alloc r m' (toInt 32 size)) := by
  by_cases hasks : Asks size
  · obtain ⟨b, hb, hchain⟩ := setup_chain (r := r) (m := m)
    have haddr : b.addr = r.hstart := hchain.tiles.1
    have hb' : b ∈ [b] := by simp
    have hmagic := Block.hasMagic_header (hchain.size_lt' hb')
    rw [← hchain.header b hb', haddr] at hmagic
    refine Or.inr ⟨hasks, _, b, hb, hchain, ?_⟩
    rw [Asks] at hasks
    simp only [alloc, if_neg hasks, hm, hmagic, if_true, Bool.false_eq_true, if_false]
  · refine Or.inl ⟨hasks, ?_⟩
    rw [Asks, not_not] at hasks
    rw [alloc, if_pos hasks]

/-! ### Programs -/

/-- The used blocks of the chain are those that are kept for the program. -/
structure Tracks (held : List LiveBlock) (bs : List Block) : Prop where
  block : ∀ l ∈ held, ∃ b ∈ bs, b.used = true ∧ b.data = l.ptr ∧ l.size ≤ b.size
  known : ∀ b ∈ bs, b.used = true → ∃ l ∈ held, l.ptr = b.data
  nodup : held.Pairwise fun k l => k.ptr ≠ l.ptr

/-- The heap has been set up, and its chain is in order. -/
def InOrder (r : Region) (s : Heap) : Prop :=
  ∃ bs, Chain r s.mem r.hstart bs ∧ NoTwoFree bs ∧ Tracks s.held bs

lemma release_eq {held : List LiveBlock} {ptr : ℕ} (h : ∀ l ∈ held, l.ptr ≠ ptr) :
    release held ptr = held :=
  List.filter_eq_self.mpr fun l hl => by simpa using h l hl

namespace Tracks

variable {m m' : Mem} {held : List LiveBlock} {bs bs' : List Block} {b : Block} {size : ℕ}

/-- The pointer to a block is not null. -/
lemma ptr_ne_zero (h : Tracks held bs) {l : LiveBlock} (hl : l ∈ held) : l.ptr ≠ 0 := by
  obtain ⟨b, -, -, hdata, -⟩ := h.block l hl
  rw [← hdata, Block.data, HDRSIZE]
  omega

/-- The program records the block it was given. -/
lemma record (h : Tracks held bs) (ha : Allocated r m m' bs bs' b size) :
    Tracks (record held size (m', b.data)).held bs' := by
  have hb := (ha.mem_used b).mpr (Or.inl rfl)
  have hne : b.data ≠ 0 := by simp [Block.data, HDRSIZE]
  simp only [Malloc.record, if_neg hne]
  refine ⟨fun l hl => ?_, fun d hd hused => ?_, List.pairwise_cons.mpr ⟨fun l hl => ?_, h.nodup⟩⟩
  · rcases List.mem_cons.mp hl with rfl | hl
    · exact ⟨b, hb.1, hb.2, rfl, ha.size_le⟩
    · obtain ⟨d, hd, hused, hdata, hle⟩ := h.block l hl
      exact ⟨d, ((ha.mem_used d).mpr (Or.inr ⟨hd, hused⟩)).1, hused, hdata, hle⟩
  · rcases (ha.mem_used d).mp ⟨hd, hused⟩ with rfl | ⟨hd, hused⟩
    · exact ⟨_, List.mem_cons_self, rfl⟩
    · obtain ⟨l, hl, hdata⟩ := h.known d hd hused
      exact ⟨l, List.mem_cons_of_mem _ hl, hdata⟩
  · obtain ⟨d, hd, hused, hdata, -⟩ := h.block l hl
    have := ha.fresh d hd hused
    simp only [Block.data] at hdata ⊢
    omega

/-- The program forgets the block that was freed. -/
lemma release {pre post : List Block} (h : Tracks held (pre ++ b :: post))
    (hc : Chain r m r.hstart (pre ++ b :: post))
    (hused : bs'.filter (·.used) = (pre ++ post).filter (·.used)) :
    Tracks (release held b.data) bs' := by
  have hmem : ∀ d, d ∈ bs' ∧ d.used = true ↔ d ∈ pre ++ post ∧ d.used = true := by
    intro d
    rw [← List.mem_filter, ← List.mem_filter, hused]
  have hapart : ∀ d ∈ pre ++ post, d.addr ≠ b.addr := by
    intro d hd
    have hpair := hc.tiles.pairwise
    rw [List.pairwise_append, List.pairwise_cons] at hpair
    have := d.size_pos
    have := b.size_pos
    rcases List.mem_append.mp hd with hd | hd
    · have := hpair.2.2 d hd b (by simp)
      simp only [Block.span] at this
      omega
    · have := hpair.2.1.1 d hd
      simp only [Block.span] at this
      omega
  refine ⟨fun l hl => ?_, fun d hd hd' => ?_, h.nodup.filter _⟩
  · rw [Malloc.release, List.mem_filter] at hl
    obtain ⟨d, hd, hd', hdata, hle⟩ := h.block l hl.1
    have hdb : d ≠ b := by
      rintro rfl
      simp [hdata] at hl
    have hd : d ∈ pre ++ post := by
      simp only [List.mem_append, List.mem_cons] at hd ⊢
      tauto
    exact ⟨d, ((hmem d).mpr ⟨hd, hd'⟩).1, hd', hdata, hle⟩
  · obtain ⟨hd, hd'⟩ := (hmem d).mp ⟨hd, hd'⟩
    obtain ⟨l, hl, hdata⟩ := h.known d (by simp only [List.mem_append, List.mem_cons] at hd ⊢; tauto) hd'
    have hne : l.ptr ≠ b.data := by
      have := hapart d hd
      simp only [Block.data] at hdata ⊢
      omega
    exact ⟨l, List.mem_filter.mpr ⟨hl, by simpa using hne⟩, hdata⟩

lemma used_iff (h : Tracks held bs) (hc : Chain r m r.hstart bs) (hb : b ∈ bs) :
    b.used = true ↔ ∃ l ∈ held, l.ptr = b.data := by
  refine ⟨h.known b hb, ?_⟩
  rintro ⟨l, hl, hdata⟩
  obtain ⟨d, hd, hused, hdata', -⟩ := h.block l hl
  rw [hdata] at hdata'
  rcases hc.tiles.eq_or_disjoint hb hd with rfl | hdisj
  · exact hused
  · have := b.size_pos
    have := d.size_pos
    simp only [Block.data, Block.span] at hdata' hdisj
    omega

/-- A block that is held is aligned, and at least as large as asked for. -/
lemma block_of_live (h : Tracks held bs) (hc : Chain r m r.hstart bs) {l : LiveBlock}
    (hl : l ∈ held) : 8 ∣ l.ptr ∧ ∃ b ∈ bs, b.data = l.ptr ∧ l.size ≤ b.size := by
  obtain ⟨b, hb, -, hdata, hle⟩ := h.block l hl
  refine ⟨?_, b, hb, hdata, hle⟩
  obtain ⟨pre, post, rfl⟩ := List.append_of_mem hb
  obtain ⟨c, hpre, rfl, -⟩ := tiles_append.mp hc.tiles
  have haddr : b.addr = r.hstart + (b.addr - r.hstart) := by
    have := hpre.le
    omega
  rw [← hdata, Block.data, haddr]
  exact Nat.dvd_add (Nat.dvd_add r.hstart_aligned (dvd_of_tiles hpre)) (Nat.dvd_refl 8)

lemma disjoint (h : Tracks held bs) (hc : Chain r m r.hstart bs) :
    held.Pairwise fun k l => k.ptr + k.size ≤ l.ptr ∨ l.ptr + l.size ≤ k.ptr := by
  refine h.nodup.imp_of_mem fun {k l} hk hl hne => ?_
  obtain ⟨b, hb, -, hbk, hkle⟩ := h.block k hk
  obtain ⟨d, hd, -, hdl, hlle⟩ := h.block l hl
  simp only [Block.data] at hbk hdl
  rcases hc.tiles.eq_or_disjoint hb hd with rfl | hdisj
  · omega
  · simp only [Block.span] at hdisj
    omega

end Tracks

namespace InOrder

variable {s : Heap} {size : ℕ}

/-- Storing into a block that is held keeps the heap in order. -/
lemma write (h : InOrder r s) {l : LiveBlock} (hl : l ∈ s.held) {m' : Mem}
    (hm : ∀ x, x < l.ptr ∨ l.ptr + l.size ≤ x → m' x = s.mem x) : InOrder r ⟨m', s.held⟩ := by
  obtain ⟨bs, hchain, htwo, htracks⟩ := h
  obtain ⟨b, hb, -, hdata, hle⟩ := htracks.block l hl
  refine ⟨bs, hchain.congr_data hb fun x hx => hm x ?_, htwo, htracks⟩
  omega

lemma alloc (h : InOrder r s) (hsize : size < 2 ^ 32) :
    ∃ res, alloc r s.mem (toInt 32 size) = some res ∧ InOrder r (record s.held size res) := by
  obtain ⟨bs, hchain, htwo, htracks⟩ := h
  rcases alloc_chain hchain htwo hsize with hnone | ⟨m', bs', b, hsome, ha⟩
  · exact ⟨_, hnone, bs, hchain, htwo, htracks⟩
  · refine ⟨_, hsome, bs', ?_, ha.noTwoFree, htracks.record ha⟩
    have hne : b.data ≠ 0 := by simp [Block.data, HDRSIZE]
    simpa only [record, if_neg hne] using ha.chain

lemma free (h : InOrder r s) {l : LiveBlock} (hl : l ∈ s.held) :
    ∃ m', free r s.mem l.ptr = some m' ∧ InOrder r ⟨m', release s.held l.ptr⟩ := by
  obtain ⟨bs, hchain, htwo, htracks⟩ := h
  obtain ⟨b, hb, hused, hdata, -⟩ := htracks.block l hl
  obtain ⟨pre, post, rfl⟩ := List.append_of_mem hb
  obtain ⟨m', bs', heq, hchain', htwo', hfilter, -⟩ := free_spec hchain hused
  rw [← hdata]
  exact ⟨m', heq, bs', hchain', htwo', htracks.release hchain hfilter⟩

lemma alloc_frame (h : InOrder r s) (hsize : size < 2 ^ 32) {res : Mem × ℕ}
    (heq : Malloc.alloc r s.mem (toInt 32 size) = some res) {l : LiveBlock} (hl : l ∈ s.held)
    {x : ℕ} (hle : l.ptr ≤ x) (hlt : x < l.ptr + l.size) : res.1 x = s.mem x := by
  obtain ⟨bs, hchain, htwo, htracks⟩ := h
  rcases alloc_chain hchain htwo hsize with hnone | ⟨m', bs', b, hsome, ha⟩
  · rw [Option.some.inj (heq.symm.trans hnone)]
  · rw [Option.some.inj (heq.symm.trans hsome)]
    obtain ⟨d, hd, hused, hdata, hsize'⟩ := htracks.block l hl
    refine ha.frame d hd hused x ?_ ?_
    · simp only [Block.data] at hdata
      omega
    · simp only [Block.data, Block.span] at hdata ⊢
      omega

lemma free_frame (h : InOrder r s) {l : LiveBlock} (hl : l ∈ s.held) {m' : Mem}
    (heq : Malloc.free r s.mem l.ptr = some m') {k : LiveBlock} (hk : k ∈ s.held)
    (hne : k.ptr ≠ l.ptr) {x : ℕ} (hle : k.ptr ≤ x) (hlt : x < k.ptr + k.size) :
    m' x = s.mem x := by
  obtain ⟨bs, hchain, htwo, htracks⟩ := h
  obtain ⟨b, hb, hused, hdata, -⟩ := htracks.block l hl
  obtain ⟨e, he, hused', hdata', hsize⟩ := htracks.block k hk
  obtain ⟨pre, post, rfl⟩ := List.append_of_mem hb
  obtain ⟨m₁, bs', heq', -, -, -, hframe⟩ := free_spec hchain hused
  rw [hdata] at heq'
  obtain rfl := Option.some.inj (heq.symm.trans heq')
  refine hframe x fun d hd hd' => ?_
  simp only [Block.data] at hdata hdata'
  rcases hchain.tiles.eq_or_disjoint he hd with rfl | hdisj
  · rcases hd' with hfree | rfl
    · simp [hfree] at hused'
    · exact absurd (hdata'.symm.trans hdata) hne
  · simp only [Block.span] at hdisj
    omega

lemma bounds (h : InOrder r s) {l : LiveBlock} (hl : l ∈ s.held) :
    r.hstart + HDRSIZE ≤ l.ptr ∧ l.ptr + l.size ≤ r.hend := by
  obtain ⟨bs, hchain, -, htracks⟩ := h
  obtain ⟨b, hb, -, hdata, hle⟩ := htracks.block l hl
  have hbounds := hchain.bounds hb
  simp only [Block.data] at hdata
  omega

lemma disjoint (h : InOrder r s) :
    s.held.Pairwise fun k l => k.ptr + k.size ≤ l.ptr ∨ l.ptr + l.size ≤ k.ptr := by
  obtain ⟨bs, hchain, -, htracks⟩ := h
  exact htracks.disjoint hchain

/-- The order of the blocks does not matter. -/
lemma perm (h : InOrder r s) {held : List LiveBlock} (hperm : s.held.Perm held) :
    InOrder r ⟨s.mem, held⟩ := by
  obtain ⟨bs, hchain, htwo, htracks⟩ := h
  refine ⟨bs, hchain, htwo, fun l hl => htracks.block l (hperm.mem_iff.mpr hl), fun b hb hused => ?_,
    (hperm.pairwise_iff fun h => Ne.symm h).mp htracks.nodup⟩
  obtain ⟨l, hl, hdata⟩ := htracks.known b hb hused
  exact ⟨l, hperm.mem_iff.mp hl, hdata⟩

/-- There is no room for more blocks. -/
lemma length_le (h : InOrder r s) : 16 * s.held.length ≤ r.hend - r.hstart := by
  obtain ⟨bs, hchain, -, htracks⟩ := h
  have hnodup : (s.held.map LiveBlock.ptr).Nodup := List.pairwise_map.mpr htracks.nodup
  have hsub : s.held.map LiveBlock.ptr ⊆ bs.map Block.data := by
    intro p hp
    obtain ⟨l, hl, rfl⟩ := List.mem_map.mp hp
    obtain ⟨b, hb, -, hdata, -⟩ := htracks.block l hl
    exact List.mem_map.mpr ⟨b, hb, hdata⟩
  have hle := (List.subperm_of_subset hnodup hsub).length_le
  rw [List.length_map, List.length_map] at hle
  have := hchain.length_le
  omega

/-- The header in front of a block that is held. -/
lemma readHeader_live (h : InOrder r s) {l : LiveBlock} (hl : l ∈ s.held) :
    hasMagic (readHeader s.mem (ofInt 32 (l.ptr - HDRSIZE))) = true := by
  obtain ⟨bs, hchain, -, htracks⟩ := h
  obtain ⟨b, hb, -, hdata, -⟩ := htracks.block l hl
  have hbound := hchain.bounds hb
  have hend := r.hend_lt
  have haddr : ofInt 32 ((l.ptr : ℤ) - HDRSIZE) = b.addr := by
    rw [← hdata, show (b.data : ℤ) - HDRSIZE = b.addr by simp [Block.data],
      Word.ofInt_eq (by omega)]
  rw [haddr, hchain.header b hb, Block.hasMagic_header (hchain.size_lt' hb)]

end InOrder

/-- The null pointer lies in front of every heap. -/
lemma free_null {m : Mem} : free r m 0 = some m := by
  have hptr : ofInt 32 (((0 : ℕ) : ℤ) - HDRSIZE) = 2 ^ 32 - 8 := by
    norm_num [ofInt, HDRSIZE]
    rfl
  have hend := r.hend_lt
  have haligned := r.hend_aligned
  rw [free, hptr, if_pos (by omega)]

/-- A heap that has been set up and not used yet. -/
lemma inOrder_of_single {m : Mem} {b : Block} (hb : b.used = false)
    (hchain : Chain r m r.hstart [b]) : InOrder r ⟨m, []⟩ := by
  refine ⟨[b], hchain, List.isChain_singleton b, by simp, fun d hd hused => ?_, .nil⟩
  obtain rfl := List.mem_singleton.mp hd
  simp [hb] at hused

end ApuBios.Malloc
