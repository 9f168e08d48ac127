import ApuBios.Lib.SelfBoot.Loaded
import ApuBios.Lib.SelfBoot.Order

/-!
# Payloads that are loaded as they should be

The lemmas about the parts are put together for the segments of a payload, with the bounce buffer
that is taken from the memory map after the destinations have been taken out of it.
-/

namespace ApuBios.SelfBoot

open Memrange Bootmem

variable {env : Env} {bootmem : Memranges} {buffer total : ℕ} {m : Mem} {seg part : Segment}

/-! ### The parts of a segment -/

/-- A segment with which nothing goes wrong but, perhaps, that it is not cleared. -/
structure SegmentFits (env : Env) (buffer total : ℕ) (seg : Segment) : Prop where
  plain : Plain seg
  src_le : seg.srcaddr + seg.filesz ≤ 2 ^ 32
  coded : Coded env seg
  clear : ∀ a, seg.dstaddr ≤ a → a < seg.end_ → a < buffer ∨ buffer + total ≤ a
  room : overlapsCoreboot env seg = true →
    seg.end_ + (env.image.lbEnd - env.image.lbStart) ≤ total + env.image.lbStart
  front : overlapsCoreboot env seg = true → seg.compression ≠ CBFS_COMPRESS_NONE →
    env.image.lbStart ≤ buffer + seg.dstaddr
  side : overlapsCoreboot env seg = true → Aside env buffer

lemma byteAt_of_none (h : seg.compression = CBFS_COMPRESS_NONE) (i : ℕ) :
    byteAt env seg i = if i < seg.filesz then env.rom (seg.srcaddr + i) else 0 := by
  rw [byteAt, fileBytes, h, if_neg (show CBFS_COMPRESS_NONE ≠ CBFS_COMPRESS_LZMA by decide)]
  by_cases hfile : seg.filesz = 0
  · rw [if_pos hfile, if_neg (by omega)]
    rfl
  · rw [if_neg hfile]
    split_ifs with hi
    · rw [List.getElem?_eq_getElem (by rwa [Mem.length_slice]), Mem.getElem_slice]
      rfl
    · rw [List.getElem?_eq_none (by rw [Mem.length_slice]; omega)]
      rfl

/-- The bytes of a part are bytes of the segment. -/
lemma byteAt_cut {i j n : ℕ} (hsrc : seg.srcaddr + seg.filesz ≤ 2 ^ 32)
    (h : seg.compression = CBFS_COMPRESS_NONE)
    (hj : j < n) : byteAt env (seg.cut i n) j = byteAt env seg (i + j) := by
  have hnone : (seg.cut i n).compression = CBFS_COMPRESS_NONE := h
  have hfilesz : (seg.cut i n).filesz = min n (seg.filesz - i) := rfl
  rw [byteAt_of_none h, byteAt_of_none hnone]
  by_cases hfile : i + j < seg.filesz
  · have hsrcaddr : (seg.cut i n).srcaddr = seg.srcaddr + i := Word.add_eq (by omega)
    rw [if_pos (by omega), if_pos hfile, hsrcaddr, Nat.add_assoc]
  · rw [if_neg (by omega), if_neg hfile]

/-- The parts of a segment that is cut. -/
lemma mem_parts_of_cut (hcut : overlapsCoreboot env seg = true ∧ seg.compression = CBFS_COMPRESS_NONE)
    (hplain : Plain seg) (hpart : part ∈ parts env seg) :
    ∃ i n, part = seg.cut i n ∧ i + n ≤ seg.memsz := by
  obtain ⟨hinside, hinside'⟩ := hplain.overlaps_iff.mp hcut.1
  have hlt := env.image.lt
  have hend : seg.end_ = seg.dstaddr + seg.memsz := rfl
  rw [parts, if_pos hcut, List.mem_append, List.mem_cons] at hpart
  rcases hpart with hpart | rfl | hpart
  · rw [early] at hpart
    split_ifs at hpart
    · exact ⟨_, _, List.mem_singleton.mp hpart, by omega⟩
    · exact absurd hpart List.not_mem_nil
  · exact ⟨_, _, rfl, by omega⟩
  · rw [late] at hpart
    split_ifs at hpart
    · exact ⟨_, _, List.mem_singleton.mp hpart, by omega⟩
    · exact absurd hpart List.not_mem_nil

/-- Each byte of a segment is in one of its parts. -/
lemma exists_part (hsrc : seg.srcaddr + seg.filesz ≤ 2 ^ 32) {i : ℕ}
    (hi : i < seg.memsz) :
    ∃ part ∈ parts env seg, ∃ j < part.memsz, part.dstaddr + j = seg.dstaddr + i ∧
      byteAt env part j = byteAt env seg i := by
  by_cases hcut : overlapsCoreboot env seg = true ∧ seg.compression = CBFS_COMPRESS_NONE
  · have hlt := env.image.lt
    have hend : seg.end_ = seg.dstaddr + seg.memsz := rfl
    rw [parts, if_pos hcut]
    by_cases hearly : seg.dstaddr + i < env.image.lbStart
    · refine ⟨seg.cut 0 (env.image.lbStart - seg.dstaddr), ?_, i, ?_, ?_, ?_⟩
      · rw [early, if_pos (by omega)]
        simp
      · simp only [Segment.cut]
        omega
      · rfl
      · rw [byteAt_cut hsrc hcut.2 (by omega), Nat.zero_add]
    · by_cases hlate : env.image.lbEnd ≤ seg.dstaddr + i
      · refine ⟨seg.cut (env.image.lbEnd - seg.dstaddr) (seg.end_ - env.image.lbEnd), ?_,
          i - (env.image.lbEnd - seg.dstaddr), ?_, ?_, ?_⟩
        · rw [late, if_pos (by omega)]
          simp
        · simp only [Segment.cut]
          omega
        · simp only [Segment.cut]
          omega
        · rw [byteAt_cut hsrc hcut.2 (by omega)]
          congr 1
          omega
      · refine ⟨middle env seg, by simp, i - (env.image.lbStart - seg.dstaddr), ?_, ?_, ?_⟩
        · simp only [middle, Segment.cut]
          omega
        · simp only [middle, Segment.cut]
          omega
        · rw [middle, byteAt_cut hsrc hcut.2 (by omega)]
          congr 1
          omega
  · rw [parts, if_neg hcut]
    exact ⟨seg, List.mem_singleton_self _, i, hi, rfl, rfl⟩

/-- The parts of a segment lie in it. -/
lemma part_within (hplain : Plain seg) (hpart : part ∈ parts env seg) :
    Plain part ∧ seg.dstaddr ≤ part.dstaddr ∧ part.end_ ≤ seg.end_ := by
  by_cases hcut : overlapsCoreboot env seg = true ∧ seg.compression = CBFS_COMPRESS_NONE
  · obtain ⟨i, n, rfl, hle⟩ := mem_parts_of_cut hcut hplain hpart
    refine ⟨hplain.cut hle, Nat.le_add_right _ _, ?_⟩
    simp only [Segment.end_, Segment.cut]
    omega
  · rw [parts, if_neg hcut] at hpart
    obtain rfl := List.mem_singleton.mp hpart
    exact ⟨hplain, le_rfl, le_rfl⟩

/-- The parts of a segment lie one behind the other. -/
lemma pairwise_parts (hplain : Plain seg) : (parts env seg).Pairwise Apart := by
  by_cases hcut : overlapsCoreboot env seg = true ∧ seg.compression = CBFS_COMPRESS_NONE
  · obtain ⟨hdst, hend, -⟩ := overlaps_middle hplain hcut.1
    have hearly : ∀ part ∈ early env seg, part.end_ ≤ env.image.lbStart := by
      intro part hpart
      rw [early] at hpart
      split_ifs at hpart with hstart
      · rw [List.mem_singleton.mp hpart]
        simp only [Segment.end_, Segment.cut]
        omega
      · exact absurd hpart List.not_mem_nil
    have hlate : ∀ part ∈ late env seg, env.image.lbEnd ≤ part.dstaddr := by
      intro part hpart
      rw [late] at hpart
      split_ifs at hpart
      · rw [List.mem_singleton.mp hpart]
        simp only [Segment.cut]
        omega
      · exact absurd hpart List.not_mem_nil
    have hlt := env.image.lt
    rw [parts, if_pos hcut, List.pairwise_append, List.pairwise_cons]
    refine ⟨?_, ⟨fun part hpart a hlo hhi hin => ?_, ?_⟩, ?_⟩
    · rw [early]
      split_ifs
      · exact List.pairwise_singleton _ _
      · exact .nil
    · have := hlate part hpart
      omega
    · rw [late]
      split_ifs
      · exact List.pairwise_singleton _ _
      · exact .nil
    · intro part hpart part' hpart' a hlo hhi hin
      have hfront := hearly part hpart
      rcases List.mem_cons.mp hpart' with rfl | hpart'
      · omega
      · have := hlate part' hpart'
        omega
  · rw [parts, if_neg hcut]
    exact List.pairwise_singleton _ _

/-- A part fits if its segment does. -/
lemma SegmentFits.partFits (h : SegmentFits env buffer total seg) (hpart : part ∈ parts env seg) :
    PartFits env buffer total part := by
  obtain ⟨hplain, hlo, hhi⟩ := part_within h.plain hpart
  have hclear : ∀ a, part.dstaddr ≤ a → a < part.end_ → a < buffer ∨ buffer + total ≤ a :=
    fun a ha ha' => h.clear a (by omega) (by omega)
  by_cases hcut : overlapsCoreboot env seg = true ∧ seg.compression = CBFS_COMPRESS_NONE
  · have hnone : part.compression = CBFS_COMPRESS_NONE := by
      obtain ⟨i, n, rfl, -⟩ := mem_parts_of_cut hcut h.plain hpart
      exact hcut.2
    have hroom := h.room hcut.1
    refine ⟨hplain, fun _ => .inl hnone, hclear, fun _ => by omega, fun hoverlap => ?_⟩
    -- only the part on coreboot overlaps it
    rw [parts, if_pos hcut, List.mem_append, List.mem_cons] at hpart
    rcases hpart with hpart | rfl | hpart
    · rw [(overlaps_early h.plain hcut.1 hpart).2] at hoverlap
      cases hoverlap
    · have := (overlaps_middle h.plain hcut.1).1
      omega
    · rw [(overlaps_late h.plain hcut.1 hpart).2] at hoverlap
      cases hoverlap
  · rw [parts, if_neg hcut] at hpart
    obtain rfl := List.mem_singleton.mp hpart
    exact ⟨hplain, h.coded, hclear, h.room, fun hoverlap => h.front hoverlap fun hnone =>
      hcut ⟨hoverlap, hnone⟩⟩

/-- The parts of segments that are apart are apart. -/
lemma pairwise_flatMap_parts {segs : List Segment} (hplain : ∀ seg ∈ segs, Plain seg)
    (hapart : segs.Pairwise Apart) : (segs.flatMap (parts env)).Pairwise Apart := by
  rw [List.pairwise_flatMap]
  refine ⟨fun seg hseg => pairwise_parts (hplain seg hseg), ?_⟩
  refine hapart.imp_of_mem fun {seg seg'} hseg hseg' h part hpart part' hpart' a hlo hhi hin => ?_
  obtain ⟨-, hlo', hhi'⟩ := part_within (hplain seg hseg) hpart
  obtain ⟨-, hlo'', hhi''⟩ := part_within (hplain seg' hseg') hpart'
  exact h a (by omega) (by omega) ⟨by omega, by omega⟩

/-! ### The jump -/

lemma movsl_frame {dst src count a : ℕ} (h : a < dst ∨ dst + 4 * count ≤ a) :
    movsl m dst src count a = m a := by
  induction count generalizing m dst src with
  | zero => rfl
  | succ count ih =>
    rw [movsl, ih (by omega), Mem.writeBytes_frame (by rw [Mem.length_slice]; omega)]

lemma movsl_read {dst src count i : ℕ} (h : dst + 4 * count ≤ src ∨ src + 4 * count ≤ dst)
    (hi : i < 4 * count) : movsl m dst src count (dst + i) = m (src + i) := by
  induction count generalizing m dst src i with
  | zero => omega
  | succ count ih =>
    rw [movsl]
    by_cases hfirst : i < 4
    · rw [movsl_frame (by omega), Mem.writeBytes_read (by rwa [Mem.length_slice]),
        Mem.getElem_slice]
    · obtain ⟨j, rfl⟩ := Nat.exists_eq_add_of_le (not_lt.mp hfirst)
      rw [← Nat.add_assoc, ← Nat.add_assoc, ih (by omega) (by omega),
        Mem.writeBytes_frame (by rw [Mem.length_slice]; omega)]

/-- `jmp_payload` puts every byte where it belongs. -/
lemma jmpPayload_read {a : ℕ} (hb : BufferFits env buffer total)
    (haligned : 4 ∣ env.image.lbEnd - env.image.lbStart)
    (hside : env.image.lbStart ≤ a → a < env.image.lbEnd → Aside env buffer)
    (ha : a < buffer ∨ buffer + total ≤ a) :
    jmpPayload env m buffer a = m (loc env buffer a) := by
  have hfits := hb.fits
  have hroom := hb.room
  have hlt := env.image.lt
  have hsize : 4 * ((env.image.lbEnd - env.image.lbStart) / 4) =
      env.image.lbEnd - env.image.lbStart := Nat.mul_div_cancel' haligned
  have hcopy : Word.add 32 buffer (env.image.lbEnd - env.image.lbStart) =
      buffer + (env.image.lbEnd - env.image.lbStart) := Word.add_eq (by omega)
  rw [jmpPayload, hcopy, loc]
  split_ifs with himage
  · have hapart := hside himage.1 himage.2
    rw [Aside] at hapart
    obtain ⟨i, rfl⟩ := Nat.exists_eq_add_of_le himage.1
    rw [movsl_read (by omega) (by omega), movsl_frame (by omega), Nat.add_sub_cancel_left]
  · rw [movsl_frame (by omega), movsl_frame (by omega)]

/-! ### The bounce buffer -/

/-- The destinations are taken out of the memory map, and the end of what overlaps coreboot is
found. -/
lemma reserveLoop_spec (env : Env) {segs : List Segment} (hcan : bootmem.IsCanonical) (high : ℕ)
    (hsegs : ∀ seg ∈ segs, Plain seg ∧ 0 < seg.memsz) :
    (reserveLoop env bootmem high segs).1.IsCanonical ∧
      (∀ a, (reserveLoop env bootmem high segs).1.denote a = some LB_MEM_RAM →
        bootmem.denote a = some LB_MEM_RAM ∧
          ∀ seg ∈ segs, ¬(seg.dstaddr ≤ a ∧ a < seg.end_)) ∧
      high ≤ (reserveLoop env bootmem high segs).2 ∧
      (∀ seg ∈ segs, overlapsCoreboot env seg = true →
        seg.end_ ≤ (reserveLoop env bootmem high segs).2) ∧
      ((reserveLoop env bootmem high segs).2 = high ∨
        ∃ seg ∈ segs, overlapsCoreboot env seg = true ∧
          (reserveLoop env bootmem high segs).2 = seg.end_) := by
  induction segs generalizing bootmem high with
  | nil => exact ⟨hcan, fun a ha => ⟨ha, by simp⟩, le_rfl, by simp, .inl rfl⟩
  | cons seg rest ih =>
    rw [List.forall_mem_cons] at hsegs
    obtain ⟨⟨hplain, hpos⟩, hrest⟩ := hsegs
    have hend := hplain.end_lt
    have hmem : seg.end_ = seg.dstaddr + seg.memsz := rfl
    obtain ⟨hcan', hden⟩ := Call.exec_spec
      (show (Call.insert seg.dstaddr seg.memsz LB_MEM_UNUSABLE).InBounds from ⟨hpos, by omega⟩) hcan
    rw [reserveLoop, hplain.end_eq, bootmemAddRange]
    obtain ⟨hcan'', hram, hle, hover, hlast⟩ := ih hcan'
      (if overlapsCoreboot env seg = true ∧ high < seg.end_ then seg.end_ else high) hrest
    rw [Call.exec] at hcan'' hram hle hover hlast hden
    refine ⟨hcan'', fun a ha => ?_, ?_, ?_, ?_⟩
    · obtain ⟨hold, hout⟩ := hram a ha
      rw [hden, Call.effect] at hold
      split_ifs at hold with hin
      · exact absurd (Option.some.inj hold) (by decide)
      · refine ⟨hold, List.forall_mem_cons.mpr ⟨fun hin' => hin ?_, hout⟩⟩
        have hbegin := pageBegin_le seg.dstaddr
        rw [pageEnd]
        omega
    · refine le_trans ?_ hle
      split_ifs <;> omega
    · refine List.forall_mem_cons.mpr ⟨fun hoverlap => le_trans ?_ hle, hover⟩
      split_ifs with hhigh
      · exact le_rfl
      · by_contra hlt
        exact hhigh ⟨hoverlap, by omega⟩
    · rcases hlast with hlast | ⟨seg', hseg', hoverlap, hlast⟩
      · rw [hlast]
        split_ifs with hhigh
        · exact .inr ⟨seg, by simp, hhigh.1, rfl⟩
        · exact .inl rfl
      · exact .inr ⟨seg', by simp [hseg'], hoverlap, hlast⟩

/-- The segments of a payload: their data is in the flash, uncompressed or compressed as a whole, and
they have no address in common. -/
structure Payload (env : Env) (segs : List Segment) : Prop where
  src_le : ∀ seg ∈ segs, seg.srcaddr + seg.filesz ≤ 2 ^ 32
  coded : ∀ seg ∈ segs, Coded env seg
  apart : segs.Pairwise Apart

/-- No segment is empty or reaches 4 GiB; the bounce buffer can be had as it is asked for, and what is
copied from it does not overlap coreboot; and what is moved around hits no segment. -/
structure Suits (env : Env) (buffer : ℕ) (segs : List Segment) : Prop where
  nonempty : ∀ seg ∈ segs, 0 < seg.memsz
  below : ∀ seg ∈ segs, seg.end_ < 2 ^ 32
  image : 2 * (env.image.lbEnd - env.image.lbStart) ≤ 2 ^ 32 - 4096
  request : ∀ seg ∈ segs, overlapsCoreboot env seg = true →
    seg.end_ - env.image.lbStart + (env.image.lbEnd - env.image.lbStart) ≤ 2 ^ 32 - 4096
  side : ∀ seg ∈ segs, overlapsCoreboot env seg = true → Aside env buffer
  front : ∀ seg ∈ segs, overlapsCoreboot env seg = true →
    seg.compression ≠ CBFS_COMPRESS_NONE → env.image.lbStart ≤ buffer + seg.dstaddr
  harmless : Harmless env buffer (segs.flatMap (parts env))

/-- The buffer is large enough, and clear of the segments. -/
lemma exists_total {segs : List Segment} (hcan : bootmem.IsCanonical)
    (hno : ¬CrossesToTheTop bootmem) (hplain : ∀ seg ∈ segs, Plain seg)
    (hpayload : Payload env segs) (hsuits : Suits env (bounceBuffer env bootmem segs) segs)
    (hbuffer : bounceBuffer env bootmem segs ≠ 0) :
    ∃ total, BufferFits env (bounceBuffer env bootmem segs) total ∧
      ∀ seg ∈ segs, SegmentFits env (bounceBuffer env bootmem segs) total seg := by
  obtain ⟨hcan', hram, hhigh, hover, hlast⟩ :=
    reserveLoop_spec env hcan env.image.lbEnd fun seg hseg => ⟨hplain seg hseg,
      hsuits.nonempty seg hseg⟩
  have hlt := env.image.lt
  have hfits := env.image.fits
  have himage := hsuits.image
  generalize hreserved : reserveLoop env bootmem env.image.lbEnd segs = reserved at *
  -- the size that is asked for
  have hsize : reserved.2 < 2 ^ 32 ∧
      reserved.2 - env.image.lbStart + (env.image.lbEnd - env.image.lbStart) ≤ 2 ^ 32 - 4096 := by
    rcases hlast with hlast | ⟨seg, hseg, hoverlap, hlast⟩
    · rw [hlast]
      omega
    · have := hsuits.request seg hseg hoverlap
      have := (hplain seg hseg).end_lt
      rw [hlast]
      omega
  have hrequest : Request (reserved.2 - env.image.lbStart +
      (env.image.lbEnd - env.image.lbStart)) := ⟨by omega, hsize.2⟩
  have heq : bounceBuffer env bootmem segs = (bootmemAllocateBuffer reserved.1
      (reserved.2 - env.image.lbStart + (env.image.lbEnd - env.image.lbStart))).2 := by
    rw [bounceBuffer, hreserved, getBounceBuffer, Word.sub_eq (by omega) hsize.1,
      Word.add_eq (by omega)]
  -- the request is served
  have hserves : Serves reserved.1 (reserved.2 - env.image.lbStart +
      (env.image.lbEnd - env.image.lbStart)) := by
    have hno' : ¬CrossesToTheTop reserved.1 := fun hcross =>
      hno fun a hlo hhi => (hram a (hcross a hlo hhi)).1
    refine ⟨hno', fun hzero => hbuffer ?_⟩
    rw [heq]
    exact bootmemAllocateBuffer_of_onlyAtZero hcan' hrequest hno' hzero
  have halloc := allocated_of_serves hcan' hrequest hserves
  rw [← heq] at halloc
  have hge : reserved.2 - env.image.lbStart + (env.image.lbEnd - env.image.lbStart) ≤
      pages (reserved.2 - env.image.lbStart + (env.image.lbEnd - env.image.lbStart)) :=
    Word.le_roundUp
  refine ⟨_, ⟨halloc.below hbuffer, by omega⟩, fun seg hseg => ?_⟩
  refine ⟨hplain seg hseg, hpayload.src_le seg hseg, hpayload.coded seg hseg,
    fun a hlo hhi => ?_, fun hoverlap => ?_, hsuits.front seg hseg, hsuits.side seg hseg⟩
  · by_contra hin
    have hden := (halloc.fits hbuffer).denote hcan' (a := a) (by omega) (by omega)
    exact (hram a hden).2 seg hseg ⟨hlo, hhi⟩
  · have := hover seg hseg hoverlap
    omega

/-! ### Running `selfload` -/

/-- The segment is in memory as it should be. -/
def InPlace (env : Env) (m : Mem) (seg : Segment) : Prop :=
  ∀ i < seg.memsz, m (seg.dstaddr + i) = byteAt env seg i

/-- A segment is in place after the jump if and only if its parts have been loaded right. -/
lemma inPlace_iff_right (hb : BufferFits env buffer total)
    (haligned : 4 ∣ env.image.lbEnd - env.image.lbStart) (h : SegmentFits env buffer total seg) :
    InPlace env (jmpPayload env m buffer) seg ↔ Right env buffer m seg := by
  refine forall₂_congr fun i hi => ?_
  have hend : seg.end_ = seg.dstaddr + seg.memsz := rfl
  rw [jmpPayload_read hb haligned (fun hlo hhi => h.side ?_) (h.clear _ (by omega) (by omega))]
  rw [h.plain.overlaps_iff]
  omega

lemma right_of_parts (hsrc : seg.srcaddr + seg.filesz ≤ 2 ^ 32)
    (h : ∀ part ∈ parts env seg, Right env buffer m part) : Right env buffer m seg := by
  intro i hi
  obtain ⟨part, hpart, j, hj, haddr, hbyte⟩ := exists_part hsrc hi
  rw [← haddr, ← hbyte]
  exact h part hpart j hj

/-- The byte of a part is the byte of the segment. -/
lemma right_part (hplain : Plain seg) (hsrc : seg.srcaddr + seg.filesz ≤ 2 ^ 32)
    (h : Right env buffer m seg) (hpart : part ∈ parts env seg) : Right env buffer m part := by
  by_cases hcut : overlapsCoreboot env seg = true ∧ seg.compression = CBFS_COMPRESS_NONE
  · obtain ⟨i, n, rfl, hle⟩ := mem_parts_of_cut hcut hplain hpart
    intro j hj
    have hj' : j < n := hj
    rw [byteAt_cut hsrc hcut.2 hj', ← h (i + j) (by omega), ← Nat.add_assoc]
    rfl
  · rw [parts, if_neg hcut] at hpart
    rwa [List.mem_singleton.mp hpart]

/-- A segment of a payload does not stop the loop. -/
lemma Payload.decision_eq {segs : List Segment} (h : Payload env segs) (hseg : seg ∈ segs)
    (hpos : 0 < seg.memsz) : decision env seg = none := by
  rw [decision]
  split_ifs with hfile hlzma hempty hnone
  · rfl
  · rcases h.coded seg hseg hfile with hnone | ⟨-, hlen⟩
    · exact absurd (hnone.symm.trans hlzma) (by decide)
    · rw [hempty, List.length_nil] at hlen
      omega
  · rfl
  · rfl
  · rcases h.coded seg hseg hfile with hnone' | ⟨hlzma', -⟩
    · exact absurd hnone' hnone
    · exact absurd hlzma' hlzma

/-- What is in memory after the segments of a payload have been loaded. -/
lemma inPlace_foldl_iff {segs : List Segment} (hb : BufferFits env buffer total)
    (haligned : 4 ∣ env.image.lbEnd - env.image.lbStart) (hsegs : segs.Pairwise Apart)
    (hfits : ∀ seg ∈ segs, SegmentFits env buffer total seg)
    (hharmless : Harmless env buffer (segs.flatMap (parts env))) :
    (∀ m, ∀ seg ∈ segs, InPlace env (jmpPayload env
        ((segs.flatMap (parts env)).foldl (loadPart env buffer) m) buffer) seg) ↔
      Backed (segs.flatMap (parts env)) := by
  have hps : ∀ part ∈ segs.flatMap (parts env), PartFits env buffer total part := by
    intro part hpart
    obtain ⟨seg, hseg, hpart⟩ := List.mem_flatMap.mp hpart
    exact (hfits seg hseg).partFits hpart
  have hapart : (segs.flatMap (parts env)).Pairwise Apart :=
    pairwise_flatMap_parts (fun seg hseg => (hfits seg hseg).plain) hsegs
  constructor
  · -- a part without bytes in the file keeps what was there
    intro h part hpart hpos hbare
    obtain ⟨seg, hseg, hpart'⟩ := List.mem_flatMap.mp hpart
    have hright := (inPlace_iff_right hb haligned (hfits seg hseg)).mp (h (fun _ => 1) seg hseg)
    have hzero := right_part (hfits seg hseg).plain (hfits seg hseg).src_le hright hpart' 0
      (Nat.pos_of_ne_zero hpos)
    rw [foldl_bare hb hps hapart hharmless hpart hbare (Nat.pos_of_ne_zero hpos), byteAt, fileBytes,
      if_pos hbare] at hzero
    exact absurd hzero (by decide)
  · intro hbacked m seg hseg
    rw [inPlace_iff_right hb haligned (hfits seg hseg)]
    refine right_of_parts (hfits seg hseg).src_le fun part hpart => ?_
    exact foldl_right hb hps hbacked hapart hharmless part (List.mem_flatMap.mpr ⟨seg, hseg, hpart⟩)

lemma Describes.plain {r : CbfsPayloadSegment} (h : Describes env r seg) (hend : seg.end_ < 2 ^ 32) :
    Plain seg := by
  refine ⟨hend, ?_, ?_⟩
  · cases h with
    | loadable =>
      rw [newSegment_filesz]
      exact min_le_right _ _
    | bss => exact Nat.zero_le _
  · cases h <;> exact Word.add_lt

lemma Payload.perm {segs segs' : List Segment} (h : Payload env segs) (hperm : segs.Perm segs') :
    Payload env segs' := by
  refine ⟨fun seg hseg => h.src_le seg ?_, fun seg hseg => h.coded seg ?_,
    (hperm.pairwise_iff Apart.symm).mp h.apart⟩ <;>
    exact hperm.mem_iff.mpr hseg

/-- The segments that the table describes. -/
def segmentsOf (env : Env) (records : List CbfsPayloadSegment) : List Segment :=
  (beforeLast records).filterMap (describe env)

variable {records : List CbfsPayloadSegment} {last : CbfsPayloadSegment}

lemma loadOrder_perm (env : Env) (hlast : lastRecord records = some last) :
    (loadOrder env records).Perm (segmentsOf env records) := by
  obtain ⟨segments, hbuild, hperm, -⟩ := buildLoop_sorted env [] hlast
  rw [loadOrder, buildSelfSegmentList, hbuild, Option.map_some, Option.getD_some, builtOf_segments]
  exact hperm

/-- For a payload that is accepted the memory is that of the loop. -/
lemma exists_loadLoop_of_selfload (haccepted : Accepted env bootmem records) {fuel entry : ℕ}
    {m' : Mem} (h : selfload env bootmem fuel m records = some (entry, m')) :
    ∃ result, loadLoop env (bounceBuffer env bootmem (loadOrder env records)) fuel m
      (loadOrder env records) = some (result, m') := by
  obtain ⟨last, hlast, -, -⟩ := haccepted.entry
  have hallowed : ¬∃ seg ∈ loadOrder env records, ¬Allowed bootmem seg := by
    push Not
    exact haccepted.allowed
  simp only [selfload, (buildSelfSegmentList_eq hlast).1, Option.bind_some,
    if_neg (builtOf_result_ne _ _), builtOf_segments, loadSelfSegments, if_neg hallowed,
    if_neg haccepted.buffer] at h
  obtain ⟨⟨result, m''⟩, hload, hresult⟩ := Option.map_eq_some_iff.mp h
  refine ⟨result, ?_⟩
  rw [hload]
  dsimp only at hresult
  split_ifs at hresult <;> rw [(Prod.mk.inj hresult).2]

/-- When `selfload` has returned an entry and the buffer has been copied over coreboot, every segment
is in memory as it should be, whatever was there before, if and only if there are bytes in the file
for each part in which a segment is loaded. The size of coreboot is a multiple of four by the linker
script. -/
theorem inPlace_iff (env : Env) {bootmem : Memranges} {records : List CbfsPayloadSegment}
    (hcan : bootmem.IsCanonical) (hno : ¬CrossesToTheTop bootmem)
    (haligned : 4 ∣ env.image.lbEnd - env.image.lbStart)
    (haccepted : Accepted env bootmem records) (hpayload : Payload env (segmentsOf env records))
    (hsuits : Suits env (bounceBuffer env bootmem (loadOrder env records))
      (loadOrder env records)) :
    (∀ fuel m entry m', selfload env bootmem fuel m records = some (entry, m') →
        ∀ seg ∈ segmentsOf env records, InPlace env
          (jmpPayload env m' (bounceBuffer env bootmem (loadOrder env records))) seg) ↔
      Backed ((segmentsOf env records).flatMap (parts env)) := by
  obtain ⟨last, hlast, -, -⟩ := haccepted.entry
  have hperm := loadOrder_perm env hlast
  have hpayload' := hpayload.perm hperm.symm
  have hplain : ∀ seg ∈ loadOrder env records, Plain seg := by
    intro seg hseg
    obtain ⟨r, -, hr⟩ := ((buildSelfSegmentList_eq hlast).2 seg).mp hseg
    exact hr.plain (hsuits.below seg hseg)
  obtain ⟨total, hb, hfits⟩ := exists_total hcan hno hplain hpayload' hsuits haccepted.buffer
  have hbacked : Backed ((segmentsOf env records).flatMap (parts env)) ↔
      Backed ((loadOrder env records).flatMap (parts env)) := by
    simp only [Backed, List.mem_flatMap, hperm.mem_iff]
  have hl : ∀ seg ∈ loadOrder env records, Plain seg ∧ decision env seg = none ∧
      (overlapsCoreboot env seg = true → Aside env _) := fun seg hseg =>
    ⟨hplain seg hseg, hpayload'.decision_eq hseg (hsuits.nonempty seg hseg), hsuits.side seg hseg⟩
  rw [hbacked, ← inPlace_foldl_iff hb haligned hpayload'.apart hfits hsuits.harmless]
  constructor
  · intro h m seg hseg
    obtain ⟨fuel, ⟨entry, m'⟩, hrun⟩ := (@selfload_spec env bootmem m _ _ hlast).1
    obtain ⟨result, hload⟩ := exists_loadLoop_of_selfload haccepted hrun
    rw [← loadLoop_eq_foldl hb hl hload]
    exact h fuel m entry m' hrun seg (hperm.mem_iff.mp hseg)
  · intro h fuel m entry m' hrun seg hseg
    obtain ⟨result, hload⟩ := exists_loadLoop_of_selfload haccepted hrun
    rw [loadLoop_eq_foldl hb hl hload]
    exact h m seg (hperm.mem_iff.mpr hseg)

/-- Two pages of code, the first in front of coreboot and the second in it. -/
def lowCode : CbfsPayloadSegment := ⟨PAYLOAD_SEGMENT_CODE, 0, 56, 0xff000, 0x2000, 0x2000⟩

def lowTable : List CbfsPayloadSegment :=
  [lowCode, ⟨PAYLOAD_SEGMENT_ENTRY, 0, 0, 0xff000, 0, 0⟩]

lemma ram_isCanonical : ram.IsCanonical := @run_isCanonical [.insert 0x0 0x80000000 1] (by decide)

lemma not_crossesToTheTop_ram : ¬CrossesToTheTop ram := fun h =>
  absurd (h (2 ^ 63) (by decide) (by decide)) (by decide)

theorem inPlace_iff_lowTable :
    Accepted flash ram lowTable ∧
      ∀ fuel m entry m', selfload flash ram fuel m lowTable = some (entry, m') →
        InPlace flash (jmpPayload flash m' 0x7ff80000) (newSegment flash lowCode) := by
  have horder : loadOrder flash lowTable = [newSegment flash lowCode] := by decide
  have hsegments : segmentsOf flash lowTable = [newSegment flash lowCode] := by decide
  have hbuffer : bounceBuffer flash ram (loadOrder flash lowTable) = 0x7ff80000 := by
    rw [horder]
    decide +kernel
  have hparts : [newSegment flash lowCode].flatMap (parts flash) =
      [⟨0xff000, 0xffc00038, 0x1000, 0x1000, 0⟩, ⟨0x100000, 0xffc01038, 0x1000, 0x1000, 0⟩] := by
    decide
  have haccepted : Accepted flash ram lowTable := by
    refine ⟨⟨_, rfl, rfl, by decide⟩, ?_, by rw [hbuffer]; decide, ?_⟩
    · rw [horder]
      decide +kernel
    · rw [horder]
      rintro (hfails | ⟨-, hfalse⟩)
      · exact absurd hfails.compression (by decide)
      · exact hfalse
  have hpayload : Payload flash (segmentsOf flash lowTable) := by
    rw [hsegments]
    exact ⟨by decide, fun seg hseg _ => .inl (by rw [List.mem_singleton.mp hseg]; rfl),
      List.pairwise_singleton _ _⟩
  have hstray : ∀ part ∈ [newSegment flash lowCode].flatMap (parts flash), ∀ x,
      ¬Strays flash 0x7ff80000 part x := by
    rw [hparts]
    rintro part hpart x ⟨-, hstray⟩
    rcases List.mem_pair.mp hpart with rfl | rfl
    · rw [if_neg (by decide)] at hstray
      exact absurd hstray.1 (by decide)
    · rw [if_pos (by decide)] at hstray
      exact absurd hstray.1 (by decide)
  have hsuits : Suits flash (bounceBuffer flash ram (loadOrder flash lowTable))
      (loadOrder flash lowTable) := by
    rw [hbuffer, horder]
    refine ⟨by decide, by decide, by decide, by decide, fun _ _ _ => .inr (by decide), by decide,
      fun part hpart i _ => hstray part hpart _, ?_, fun _ _ _ part' hpart' i _ => hstray part' hpart' _⟩
    exact List.pairwise_iff_forall_sublist.mpr fun h i _ =>
      hstray _ (h.subset (by simp)) _
  have h := (inPlace_iff flash ram_isCanonical not_crossesToTheTop_ram (by decide) haccepted
    hpayload hsuits).mpr (by
      rw [hsegments, hparts]
      rintro part hpart -
      rcases List.mem_pair.mp hpart with rfl | rfl <;> decide)
  rw [hbuffer, hsegments] at h
  exact ⟨haccepted, by simpa using h⟩

/-- A page of code. -/
def code : CbfsPayloadSegment := ⟨PAYLOAD_SEGMENT_CODE, 0, 84, 0x400000, 0x1000, 0x1000⟩

/-- The page behind it, which has to be zero. -/
def bss : CbfsPayloadSegment := ⟨PAYLOAD_SEGMENT_BSS, 0, 0, 0x401000, 0, 0x1000⟩

def codeAndBss : List CbfsPayloadSegment :=
  [code, bss, ⟨PAYLOAD_SEGMENT_ENTRY, 0, 0, 0x400000, 0, 0⟩]

/-- The page behind the code keeps what was in it. -/
theorem not_inPlace_bss :
    Accepted flash ram codeAndBss ∧ Payload flash (segmentsOf flash codeAndBss) ∧
      ∃ fuel entry m', selfload flash ram fuel (fun _ => 1) codeAndBss = some (entry, m') ∧
        entry ≠ 0 ∧ ¬InPlace flash (jmpPayload flash m'
          (bounceBuffer flash ram (loadOrder flash codeAndBss))) (newBss flash bss) := by
  have horder : loadOrder flash codeAndBss = [newSegment flash code, newBss flash bss] := by decide
  have hsegments : segmentsOf flash codeAndBss = [newSegment flash code, newBss flash bss] := by
    decide
  have hbuffer : bounceBuffer flash ram (loadOrder flash codeAndBss) = 0x7ff80000 := by
    rw [horder]
    decide +kernel
  have haccepted : Accepted flash ram codeAndBss := by
    refine ⟨⟨_, rfl, rfl, by decide⟩, ?_, by rw [hbuffer]; decide, ?_⟩
    · rw [horder]
      decide +kernel
    · rw [horder]
      rintro (hfails | ⟨-, hfails | ⟨-, hfalse⟩⟩)
      · exact absurd hfails.compression (by decide)
      · exact absurd hfails.compression (by decide)
      · exact hfalse
  have hpayload : Payload flash (segmentsOf flash codeAndBss) := by
    rw [hsegments]
    refine ⟨by decide, fun seg hseg hfile => ?_, List.pairwise_pair.mpr fun a hlo hhi hin => ?_⟩
    · rcases List.mem_pair.mp hseg with rfl | rfl
      · exact .inl rfl
      · exact absurd rfl hfile
    · have hend : (newSegment flash code).end_ = (newBss flash bss).dstaddr := by decide
      omega
  obtain ⟨⟨fuel, ⟨entry, m'⟩, hrun⟩, hspec⟩ :=
    @selfload_spec flash ram (fun _ => 1) codeAndBss _ rfl
  refine ⟨haccepted, hpayload, fuel, entry, m', hrun, (hspec _ _ _ hrun).mpr haccepted, ?_⟩
  have hb : BufferFits flash 0x7ff80000 0x80000 := ⟨by decide, by decide⟩
  have happart : ∀ seg ∈ [newSegment flash code, newBss flash bss],
      overlapsCoreboot flash seg = false := by
    decide
  have hplain : ∀ seg ∈ [newSegment flash code, newBss flash bss], Plain seg := by
    intro seg hseg
    rcases List.mem_pair.mp hseg with rfl | rfl <;> exact ⟨by decide, by decide, by decide⟩
  have hcode : PartFits flash 0x7ff80000 0x80000 (newSegment flash code) := by
    have hend : (newSegment flash code).end_ = 0x401000 := by decide
    refine ⟨hplain _ (by simp), fun _ => .inl rfl, fun a _ hhi => .inl (by omega), fun h => ?_,
      fun _ => by decide⟩
    rw [happart _ (by simp)] at h
    cases h
  obtain ⟨result, hload⟩ := exists_loadLoop_of_selfload haccepted hrun
  rw [hbuffer, horder] at hload
  have hm : m' = loadPart flash 0x7ff80000 (fun _ => 1) (newSegment flash code) := by
    have hbare : (newBss flash bss).filesz = 0 := rfl
    rw [loadLoop_eq_foldl hb (fun seg hseg => ⟨hplain seg hseg, ?_, fun h => ?_⟩) hload,
      flatMap_parts happart, List.foldl_cons, List.foldl_cons, List.foldl_nil,
      loadPart_of_bare hbare]
    · rcases List.mem_pair.mp hseg with rfl | rfl <;> rfl
    · rw [happart seg hseg] at h
      cases h
  intro hinplace
  have hone : loadPart flash 0x7ff80000 (fun _ => 1) (newSegment flash code) 0x401000 = 1 := by
    refine loadPart_apart_frame hb hcode (happart _ (by simp)) (fun i hi => ?_) (by decide) ?_
    · have hi' : i < 0x1000 := hi
      rw [loc_of_apart hcode.plain (happart _ (by simp)) hi]
      have hdst : (newSegment flash code).dstaddr = 0x400000 := by decide
      omega
    · rintro ⟨-, hstray⟩
      rw [if_neg (by decide)] at hstray
      exact absurd hstray.1 (by decide)
  have hzero := hinplace 0 (by decide)
  rw [hbuffer, jmpPayload_read hb (by decide) (fun _ h => absurd h (by decide)) (.inl (by decide)),
    hm] at hzero
  exact absurd (hone.symm.trans hzero) (by decide)

end ApuBios.SelfBoot
