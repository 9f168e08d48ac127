import ApuBios.Lib.Cbfs.Basic

/-!
# Loading a stage

Model of `cbfs_decompress` in `src/lib/cbfs_core.c` and of `cbfs_load_stage` in `src/lib/cbfs.c`.
-/

namespace ApuBios.Cbfs

def CBFS_COMPRESS_NONE : ℕ := 0
def CBFS_COMPRESS_LZMA : ℕ := 1

/-- `sizeof(struct cbfs_stage)`, which is packed -/
def sizeofCbfsStage : ℕ := 28

/-- `(void *) -1` -/
def INVALID_ENTRY : ℕ := 0xffffffff

/-- The fields of `struct cbfs_stage` at an address. -/
def stageCompression (m : Mem) (stage : ℕ) : ℕ := m.readLE stage 4
def stageEntry (m : Mem) (stage : ℕ) : ℕ := m.readLE (stage + 4) 8
def stageLoad (m : Mem) (stage : ℕ) : ℕ := m.readLE (stage + 12) 8
def stageLen (m : Mem) (stage : ℕ) : ℕ := m.readLE (stage + 20) 4
def stageMemlen (m : Mem) (stage : ℕ) : ℕ := m.readLE (stage + 24) 4

/-- A decompressor, with the number of bytes that it returns. -/
abbrev Decompressor := Mem → (src dst : ℕ) → ℕ × Mem

/-- The case of `CBFS_COMPRESS_NONE`: single bytes up to an aligned source, then the rest. What is
returned is the length that is left then. -/
def copyAligned : (len src dst : ℕ) → Mem → ℕ × Mem
  | 0, src, dst, m => (0, m.memmove dst src 0)
  | len + 1, src, dst, m =>
    if src % 4 ≠ 0 then
      copyAligned len (Word.add 32 src 1) (Word.add 32 dst 1) (Function.update m dst (m src))
    else (len + 1, m.memmove dst src (len + 1))

/-- `cbfs_decompress` -/
def cbfsDecompress (ulzma : Decompressor) (m : Mem) (algo src dst len : ℕ) : ℕ × Mem :=
  if algo = CBFS_COMPRESS_NONE then copyAligned len src dst m
  else if algo = CBFS_COMPRESS_LZMA then ulzma m src dst
  else (0, m)

/-- `cbfs_load_stage` for the pointer that `cbfs_get_file_content` returns. -/
def cbfsLoadStage (ulzma : Decompressor) (m : Mem) (stage : ℕ) : ℕ × Mem :=
  if stage = 0 then (INVALID_ENTRY, m)
  else
    let final := cbfsDecompress ulzma m (stageCompression m stage)
      (Word.add 32 stage sizeofCbfsStage) (stageLoad m stage % 2 ^ 32) (stageLen m stage)
    if final.1 = 0 then (INVALID_ENTRY, final.2)
    else
      (stageEntry final.2 stage % 2 ^ 32,
        final.2.memset (Word.add 32 (stageLoad final.2 stage % 2 ^ 32) final.1) 0
          (Word.sub 32 (stageMemlen final.2 stage) final.1))

/-! ### Copying -/

/-- The bytes that are copied one at a time. -/
def head (src len : ℕ) : ℕ := min len ((4 - src % 4) % 4)

/-- All bytes are copied, but those in front of the aligned ones are not counted. -/
lemma copyAligned_eq (len : ℕ) {src dst : ℕ} {m : Mem} (hsrc : src + len ≤ 2 ^ 32)
    (hdst : dst + len ≤ 2 ^ 32) (hapart : src + len ≤ dst ∨ dst + len ≤ src) :
    copyAligned len src dst m = (len - head src len, m.memmove dst src len) := by
  induction len generalizing src dst m with
  | zero =>
    rw [copyAligned, Nat.zero_sub]
  | succ len ih =>
    rw [copyAligned]
    by_cases haligned : src % 4 = 0
    · have hhead : head src (len + 1) = 0 := by
        rw [head, haligned]
        exact Nat.min_zero _
      rw [if_neg (not_not.2 haligned), hhead, Nat.sub_zero]
    · rw [if_pos haligned]
      cases len with
      | zero =>
        have hhead : head src 1 = 1 := by
          rw [head]
          omega
        rw [copyAligned, hhead, Nat.sub_self, ← Mem.memmove_succ hapart, Mem.memmove_zero,
          Mem.memmove_zero]
      | succ len =>
        have hhead : head src (len + 2) = head (src + 1) (len + 1) + 1 := by
          rw [head, head]
          omega
        have hwrap : Word.add 32 src 1 = src + 1 ∧ Word.add 32 dst 1 = dst + 1 := by
          rw [Word.add, Word.add]
          omega
        rw [hwrap.1, hwrap.2, ih (by omega) (by omega) (by omega), hhead,
          Mem.memmove_succ hapart]
        congr 1
        omega

/-- Nothing is copied on its own exactly from an aligned source. -/
lemma sub_head_eq {src len : ℕ} : len - head src len = len ↔ src % 4 = 0 ∨ len = 0 := by
  rw [head]
  omega

/-! ### Stages -/

/-- A stage that is stored without compression, apart from where it is loaded, and with memory for
all of its bytes. -/
structure Stored (m : Mem) (stage : ℕ) : Prop where
  notNull : stage ≠ 0
  plain : stageCompression m stage = CBFS_COMPRESS_NONE
  source : stage + sizeofCbfsStage + stageLen m stage ≤ 2 ^ 32
  target : stageLoad m stage % 2 ^ 32 + stageMemlen m stage ≤ 2 ^ 32
  room : stageLen m stage ≤ stageMemlen m stage
  apart : stage + sizeofCbfsStage + stageLen m stage ≤ stageLoad m stage % 2 ^ 32 ∨
    stageLoad m stage % 2 ^ 32 + stageMemlen m stage ≤ stage

/-- The copy is complete and so is its count, and the memory of the stage holds what is stored,
followed by zeros; everything else is as before. -/
structure Loaded (ulzma : Decompressor) (m : Mem) (stage : ℕ) : Prop where
  count : (cbfsDecompress ulzma m (stageCompression m stage) (stage + sizeofCbfsStage)
    (stageLoad m stage % 2 ^ 32) (stageLen m stage)).1 = stageLen m stage
  copied : (cbfsDecompress ulzma m (stageCompression m stage) (stage + sizeofCbfsStage)
    (stageLoad m stage % 2 ^ 32) (stageLen m stage)).2 =
      m.memmove (stageLoad m stage % 2 ^ 32) (stage + sizeofCbfsStage) (stageLen m stage)
  loaded : ∀ i < stageMemlen m stage,
    (cbfsLoadStage ulzma m stage).2 (stageLoad m stage % 2 ^ 32 + i) =
      if i < stageLen m stage then m (stage + sizeofCbfsStage + i) else 0
  others : ∀ a, a < stageLoad m stage % 2 ^ 32 ∨
      stageLoad m stage % 2 ^ 32 + stageMemlen m stage ≤ a →
    (cbfsLoadStage ulzma m stage).2 a = m a

variable {ulzma : Decompressor} {m : Mem} {stage : ℕ}

lemma Stored.decompress (ulzma : Decompressor) (h : Stored m stage) :
    cbfsDecompress ulzma m (stageCompression m stage) (stage + sizeofCbfsStage)
        (stageLoad m stage % 2 ^ 32) (stageLen m stage) =
      (stageLen m stage - head (stage + sizeofCbfsStage) (stageLen m stage),
        m.memmove (stageLoad m stage % 2 ^ 32) (stage + sizeofCbfsStage) (stageLen m stage)) := by
  have hroom := h.room
  have htarget := h.target
  have hapart := h.apart
  rw [cbfsDecompress, if_pos h.plain]
  exact copyAligned_eq _ h.source (by omega) (by omega)

/-- The header of the stage is not touched by the copy. -/
lemma Stored.header (h : Stored m stage) {p k : ℕ} (hp : stage ≤ p)
    (hk : p + k ≤ stage + sizeofCbfsStage) :
    (m.memmove (stageLoad m stage % 2 ^ 32) (stage + sizeofCbfsStage) (stageLen m stage)).readLE p k
      = m.readLE p k := by
  have hroom := h.room
  have hapart := h.apart
  exact Mem.readLE_memmove_disjoint (by omega)

/-- What is loaded when the copy counts all bytes. -/
lemma Stored.load (h : Stored m stage) (hsome : stageLen m stage ≠ 0)
    (haligned : (stage + sizeofCbfsStage) % 4 = 0) :
    (cbfsLoadStage ulzma m stage).2 =
      (m.memmove (stageLoad m stage % 2 ^ 32) (stage + sizeofCbfsStage) (stageLen m stage)).memset
        (stageLoad m stage % 2 ^ 32 + stageLen m stage) 0
        (stageMemlen m stage - stageLen m stage) := by
  have hsource := h.source
  have htarget := h.target
  have hroom := h.room
  have hstart : Word.add 32 stage sizeofCbfsStage = stage + sizeofCbfsStage := by
    rw [Word.add]
    omega
  have hfinal := h.decompress ulzma
  rw [sub_head_eq.2 (Or.inl haligned)] at hfinal
  have hload : stageLoad (m.memmove (stageLoad m stage % 2 ^ 32) (stage + sizeofCbfsStage)
      (stageLen m stage)) stage = stageLoad m stage :=
    h.header (by omega) (by rw [sizeofCbfsStage]; omega)
  have hmemlen : stageMemlen (m.memmove (stageLoad m stage % 2 ^ 32) (stage + sizeofCbfsStage)
      (stageLen m stage)) stage = stageMemlen m stage :=
    h.header (by omega) (by rw [sizeofCbfsStage])
  have hzero : Word.add 32 (stageLoad m stage % 2 ^ 32) (stageLen m stage) =
      stageLoad m stage % 2 ^ 32 + stageLen m stage ∨ stageMemlen m stage = stageLen m stage := by
    rw [Word.add]
    omega
  have hrest : Word.sub 32 (stageMemlen m stage) (stageLen m stage) =
      stageMemlen m stage - stageLen m stage := by
    rw [Word.sub]
    omega
  rw [cbfsLoadStage, if_neg h.notNull, hstart]
  dsimp only
  rw [hfinal, if_neg hsome]
  dsimp only
  rw [hload, hmemlen, hrest]
  rcases hzero with hzero | hzero
  · rw [hzero]
  · rw [hzero, Nat.sub_self]
    funext a
    rw [Mem.memset_frame (by omega), Mem.memset_frame (by omega)]

lemma Stored.load_empty (h : Stored m stage) (hnone : stageLen m stage = 0) :
    (cbfsLoadStage ulzma m stage).2 = m := by
  rw [cbfsLoadStage, if_neg h.notNull]
  dsimp only
  rw [hnone, cbfsDecompress, if_pos h.plain, copyAligned, if_pos rfl, Mem.memmove_zero]

/-- For every stored stage, the copy and its count are complete and the memory is the stored image
and zeros, if and only if the image is aligned and not empty, or it is empty and the memory is zero
already. -/
theorem loaded_iff (ulzma : Decompressor) (m : Mem) (stage : ℕ) (h : Stored m stage) :
    Loaded ulzma m stage ↔
      ((stage + sizeofCbfsStage) % 4 = 0 ∧ stageLen m stage ≠ 0) ∨
        (stageLen m stage = 0 ∧
          ∀ i < stageMemlen m stage, m (stageLoad m stage % 2 ^ 32 + i) = 0) := by
  have hfinal := h.decompress ulzma
  constructor
  · rintro ⟨hcount, _, hloaded, _⟩
    rw [hfinal] at hcount
    by_cases hnone : stageLen m stage = 0
    · refine Or.inr ⟨hnone, fun i hi => ?_⟩
      have hbyte := hloaded i hi
      rwa [h.load_empty hnone, hnone, if_neg (Nat.not_lt_zero i)] at hbyte
    · exact Or.inl ⟨(sub_head_eq.1 hcount).resolve_right hnone, hnone⟩
  · rintro (⟨haligned, hsome⟩ | ⟨hnone, hzero⟩)
    · have hroom := h.room
      refine ⟨by rw [hfinal]; exact sub_head_eq.2 (Or.inl haligned), by rw [hfinal], ?_, ?_⟩
      · intro i hi
        rw [h.load hsome haligned]
        by_cases hstored : i < stageLen m stage
        · rw [if_pos hstored, Mem.memset_frame (by omega), Mem.memmove_read hstored]
        · rw [if_neg hstored, Mem.memset, if_pos ⟨by omega, by omega⟩]
      · intro a ha
        rw [h.load hsome haligned, Mem.memset_frame (by omega), Mem.memmove_frame (by omega)]
    · refine ⟨by rw [hfinal, hnone, Nat.zero_sub], by rw [hfinal], ?_, ?_⟩
      · intro i hi
        rw [h.load_empty hnone, hnone, if_neg (Nat.not_lt_zero i), hzero i hi]
      · intro a _
        rw [h.load_empty hnone]

/-- A stage of four bytes and no more, two bytes behind a multiple of four. -/
def unalignedStage : Mem := fun a =>
  if a = 0xfff00002 + 14 then 0x10        -- loaded at 0x100000
  else if a = 0xfff00002 + 20 then 4      -- four bytes are stored
  else if a = 0xfff00002 + 24 then 4      -- and the stage has four bytes
  else if a = 0xfff00002 + 28 then 0xaa
  else if a = 0xfff00002 + 29 then 0xbb
  else if a = 0xfff00002 + 30 then 0xcc
  else if a = 0xfff00002 + 31 then 0xdd
  else 0

/-- Of the four bytes two are zeroed again. -/
theorem not_loaded_unaligned : Stored unalignedStage 0xfff00002 ∧
    ¬ Loaded (fun m _ _ => (0, m)) unalignedStage 0xfff00002 := by
  refine ⟨⟨by decide, by decide, by decide, by decide, by decide, by decide⟩, ?_⟩
  rintro ⟨hcount, _, _, _⟩
  exact absurd hcount (by decide)

/-- The same stage at a multiple of four. -/
theorem loaded_iff_aligned :
    Loaded (fun m _ _ => (0, m)) (fun a => unalignedStage (a + 2)) 0xfff00000 :=
  (loaded_iff _ _ _ ⟨by decide, by decide, by decide, by decide, by decide, by decide⟩).2
    (Or.inl ⟨by decide, by decide⟩)

end ApuBios.Cbfs
