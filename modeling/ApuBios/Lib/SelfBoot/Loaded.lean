import ApuBios.Lib.SelfBoot.Parts
import ApuBios.Lib.Bootmem.Allocation

/-!
# What is in memory when the payload starts

A segment without file bytes is not cleared, and neither is a part without file bytes that a segment
is cut into. Apart from that each segment is in memory as it should be, unless what the loop moves
around hits another one (`foldl_right`, `foldl_bare`).
-/

namespace ApuBios.SelfBoot

open Memrange Bootmem

variable {env : Env} {buffer total : ℕ} {m : Mem} {seg part : Segment}

/-! ### The contents of a segment -/

/-- The bytes that the file has for a segment. -/
def fileBytes (env : Env) (seg : Segment) : List UInt8 :=
  if seg.filesz = 0 then []
  else if seg.compression = CBFS_COMPRESS_LZMA then env.ulzma seg.srcaddr
  else env.rom.slice seg.srcaddr seg.filesz

/-- Byte `i` of a segment: behind the bytes of the file there are zeros. -/
def byteAt (env : Env) (seg : Segment) (i : ℕ) : UInt8 := ((fileBytes env seg)[i]?).getD 0

/-- What is in the file is not compressed, or is the whole segment when it is decompressed. -/
def Coded (env : Env) (seg : Segment) : Prop :=
  seg.filesz ≠ 0 → seg.compression = CBFS_COMPRESS_NONE ∨
    seg.compression = CBFS_COMPRESS_LZMA ∧ (env.ulzma seg.srcaddr).length = seg.memsz

/-- The segment at its own destination. -/
def filled (env : Env) (m : Mem) (seg : Segment) : Mem := fun a =>
  if seg.dstaddr ≤ a ∧ a < seg.end_ then byteAt env seg (a - seg.dstaddr) else m a

lemma loadSegment_of_bare (h : seg.filesz = 0) : (loadSegment env m buffer seg).2 = m := by
  rw [loadSegment, if_pos h]

lemma length_fileBytes (hplain : Plain seg) (hcoded : Coded env seg) (hfile : seg.filesz ≠ 0) :
    (fileBytes env seg).length ≠ 0 ∧ (fileBytes env seg).length ≤ seg.memsz := by
  have hle := hplain.filesz_le
  rw [fileBytes, if_neg hfile]
  rcases hcoded hfile with hnone | ⟨hlzma, hlen⟩
  · rw [hnone, if_neg (by decide), Mem.length_slice]
    exact ⟨hfile, hle⟩
  · rw [if_pos hlzma, hlen]
    exact ⟨by omega, le_rfl⟩

lemma byteAt_of_le {i : ℕ} (h : (fileBytes env seg).length ≤ i) : byteAt env seg i = 0 := by
  rw [byteAt, List.getElem?_eq_none h, Option.getD_none]

/-- The bytes of the file with the zeros behind them. -/
lemma filled_eq (hplain : Plain seg) (hcoded : Coded env seg) (hfile : seg.filesz ≠ 0) :
    (if seg.dstaddr + (fileBytes env seg).length < seg.end_ then
        (m.writeBytes seg.dstaddr (fileBytes env seg)).memset
          (seg.dstaddr + (fileBytes env seg).length) 0
          (seg.end_ - (seg.dstaddr + (fileBytes env seg).length))
      else m.writeBytes seg.dstaddr (fileBytes env seg)) = filled env m seg := by
  have hlen := (length_fileBytes hplain hcoded hfile).2
  have hend : seg.end_ = seg.dstaddr + seg.memsz := rfl
  have hfront : ∀ a, seg.dstaddr ≤ a → a < seg.dstaddr + (fileBytes env seg).length →
      (m.writeBytes seg.dstaddr (fileBytes env seg)) a = byteAt env seg (a - seg.dstaddr) := by
    intro a hlo hhi
    rw [Mem.writeBytes, if_pos hlo, byteAt, List.getElem?_eq_getElem (by omega)]
    rfl
  by_cases hmiddle : seg.dstaddr + (fileBytes env seg).length < seg.end_
  · rw [if_pos hmiddle]
    funext a
    rw [filled]
    split_ifs with ha
    · by_cases hfile : a < seg.dstaddr + (fileBytes env seg).length
      · rw [Mem.memset_frame (.inl hfile), hfront a ha.1 hfile]
      · rw [byteAt_of_le (by omega), Mem.memset, if_pos (by omega)]
    · rw [Mem.memset_frame (by omega), Mem.writeBytes_frame (by omega)]
  · rw [if_neg hmiddle]
    funext a
    rw [filled]
    split_ifs with ha
    · exact hfront a ha.1 (by omega)
    · exact Mem.writeBytes_frame (by omega)

/-- The bytes are written, and zeros behind them, before anything is moved. -/
lemma loadSegment_filled (hplain : Plain seg) (hcoded : Coded env seg) (hfile : seg.filesz ≠ 0) :
    (loadSegment env m buffer seg).2 =
      moveAround env (filled env m seg) buffer seg.dstaddr seg.end_ := by
  obtain ⟨hlen, hle⟩ := length_fileBytes hplain hcoded hfile
  have hend := hplain.end_lt
  have hmem : seg.end_ = seg.dstaddr + seg.memsz := rfl
  have hcopied : (if seg.compression = CBFS_COMPRESS_LZMA then
        some ((env.ulzma seg.srcaddr).length, m.writeBytes seg.dstaddr (env.ulzma seg.srcaddr))
      else if seg.compression = CBFS_COMPRESS_NONE then
        some (seg.filesz, m.writeBytes seg.dstaddr (env.rom.slice seg.srcaddr seg.filesz))
      else none) =
      some ((fileBytes env seg).length, m.writeBytes seg.dstaddr (fileBytes env seg)) := by
    rw [fileBytes, if_neg hfile]
    rcases hcoded hfile with hnone | ⟨hlzma, -⟩
    · rw [if_neg (by rw [hnone]; decide), if_pos hnone, if_neg (by rw [hnone]; decide),
        Mem.length_slice]
    · rw [if_pos hlzma, if_pos hlzma]
  have hmiddle : Word.add 32 seg.dstaddr (fileBytes env seg).length =
      seg.dstaddr + (fileBytes env seg).length := Word.add_eq (by omega)
  rw [loadSegment, if_neg hfile]
  simp only [hcopied, if_neg hlen, hmiddle, hplain.end_eq, filled_eq hplain hcoded hfile]

/-! ### Loading a part -/

/-- Where the byte for an address is until the bounce buffer is copied over coreboot. -/
def loc (env : Env) (buffer a : ℕ) : ℕ :=
  if env.image.lbStart ≤ a ∧ a < env.image.lbEnd then buffer + (a - env.image.lbStart) else a

/-- The part of the buffer behind the place for what overwrites coreboot. -/
def Tail (env : Env) (buffer total x : ℕ) : Prop :=
  buffer + (env.image.lbEnd - env.image.lbStart) ≤ x ∧ x < buffer + total

/-- What is written elsewhere: below the buffer, when a compressed segment begins in front of
coreboot, and behind coreboot, when a part that is not moved lies above the buffer. -/
def Strays (env : Env) (buffer : ℕ) (part : Segment) (x : ℕ) : Prop :=
  part.filesz ≠ 0 ∧
    if overlapsCoreboot env part = true then
      part.dstaddr < env.image.lbStart ∧ buffer + part.dstaddr ≤ x + env.image.lbStart ∧ x < buffer
    else
      buffer + (env.image.lbEnd - env.image.lbStart) < part.end_ ∧ env.image.lbEnd ≤ x ∧
        x < env.image.lbEnd + (part.end_ - (buffer + (env.image.lbEnd - env.image.lbStart)))

/-- A part with which nothing goes wrong but, perhaps, that it is not cleared. -/
structure PartFits (env : Env) (buffer total : ℕ) (part : Segment) : Prop where
  plain : Plain part
  coded : Coded env part
  clear : ∀ a, part.dstaddr ≤ a → a < part.end_ → a < buffer ∨ buffer + total ≤ a
  room : overlapsCoreboot env part = true →
    part.end_ + (env.image.lbEnd - env.image.lbStart) ≤ total + env.image.lbStart
  front : overlapsCoreboot env part = true → env.image.lbStart ≤ buffer + part.dstaddr

/-- The bytes of a part are where they should be. -/
def Right (env : Env) (buffer : ℕ) (m : Mem) (part : Segment) : Prop :=
  ∀ i < part.memsz, m (loc env buffer (part.dstaddr + i)) = byteAt env part i

lemma loadPart_of_bare (h : part.filesz = 0) : loadPart env buffer m part = m := by
  apply loadSegment_of_bare
  rw [place]
  split_ifs <;> exact h

/-- Moving around what does not begin below the buffer. -/
lemma moveAround_of_apart {dest end_ : ℕ} (hb : BufferFits env buffer total)
    (h : ¬(dest < buffer ∧ buffer < end_)) (hend : end_ < 2 ^ 32) :
    moveAround env m buffer dest end_ =
      if buffer + (env.image.lbEnd - env.image.lbStart) < end_ then
        m.memcpy env.image.lbEnd (buffer + (env.image.lbEnd - env.image.lbStart))
          (end_ - (buffer + (env.image.lbEnd - env.image.lbStart)))
      else m := by
  have hfits := hb.fits
  have hroom := hb.room
  have hlt := env.image.lt
  have hfrom : Word.add 32 buffer (env.image.lbEnd - env.image.lbStart) =
      buffer + (env.image.lbEnd - env.image.lbStart) := Word.add_eq (by omega)
  rw [moveAround]
  dsimp only
  rw [hfrom]
  by_cases hbehind : buffer < end_
  · rw [if_pos hbehind, if_neg (fun hdest => h ⟨hdest, hbehind⟩)]
    split_ifs with hsuffix
    · rw [Word.sub_eq hsuffix.le hend]
    · rfl
  · rw [if_neg hbehind, if_neg (by omega)]

lemma loc_of_apart (hplain : Plain part) (h : overlapsCoreboot env part = false) {i : ℕ}
    (hi : i < part.memsz) : loc env buffer (part.dstaddr + i) = part.dstaddr + i := by
  have hend : part.end_ = part.dstaddr + part.memsz := rfl
  rw [← Bool.not_eq_true, hplain.overlaps_iff] at h
  rw [loc, if_neg (by omega)]

lemma place_memsz : (place env buffer part).memsz = part.memsz := by
  rw [place]
  split_ifs <;> rfl

lemma place_filesz : (place env buffer part).filesz = part.filesz := by
  rw [place]
  split_ifs <;> rfl

lemma byteAt_place {i : ℕ} : byteAt env (place env buffer part) i = byteAt env part i := by
  rw [place]
  split_ifs <;> rfl

lemma coded_place (h : Coded env part) : Coded env (place env buffer part) := by
  rw [place]
  split_ifs
  · exact h
  · exact h

/-- Where a part is placed nothing wraps around. -/
lemma plain_place (hb : BufferFits env buffer total) (hp : PartFits env buffer total part) :
    Plain (place env buffer part) := by
  cases hoverlap : overlapsCoreboot env part with
  | false => rw [place_of_apart hoverlap]; exact hp.plain
  | true =>
    have hinside := hp.plain.overlaps_iff.mp hoverlap
    have hend : part.end_ = part.dstaddr + part.memsz := rfl
    have hfront := hp.front hoverlap
    have hroom := hp.room hoverlap
    have hfits := hb.fits
    have hlt := env.image.lt
    have hdst := place_dstaddr hb hoverlap hfront (by omega)
    refine ⟨?_, ?_, ?_⟩
    · rw [Segment.end_, hdst, place_memsz]
      omega
    · rw [place_filesz, place_memsz]
      exact hp.plain.filesz_le
    · rw [place, if_pos hoverlap]
      exact hp.plain.src_lt

/-- What is moved there strays. -/
lemma strays_of_moved (happart : overlapsCoreboot env part = false) (hfile : part.filesz ≠ 0) {x : ℕ}
    (hend : buffer + (env.image.lbEnd - env.image.lbStart) < part.end_)
    (hlo : env.image.lbEnd ≤ x) (hhi : x < env.image.lbEnd +
      (part.end_ - (buffer + (env.image.lbEnd - env.image.lbStart)))) :
    Strays env buffer part x := by
  refine ⟨hfile, ?_⟩
  rw [happart, if_neg Bool.false_ne_true]
  exact ⟨hend, hlo, hhi⟩

section Apart

variable (hb : BufferFits env buffer total) (hp : PartFits env buffer total part)
  (happart : overlapsCoreboot env part = false)

include hb hp happart

/-- A part that does not overlap coreboot is written, and perhaps moved to where it does not
belong. -/
lemma loadPart_apart (m : Mem) (hfile : part.filesz ≠ 0) :
    loadPart env buffer m part =
      if buffer + (env.image.lbEnd - env.image.lbStart) < part.end_ then
        (filled env m part).memcpy env.image.lbEnd
          (buffer + (env.image.lbEnd - env.image.lbStart))
          (part.end_ - (buffer + (env.image.lbEnd - env.image.lbStart)))
      else filled env m part := by
  rw [loadPart, place_of_apart happart, loadSegment_filled hp.plain hp.coded hfile]
  apply moveAround_of_apart hb _ hp.plain.end_lt
  rintro ⟨hdest, hend⟩
  have hclear := hp.clear buffer hdest.le hend
  have hroom := hb.room
  have hlt := env.image.lt
  omega

lemma loadPart_apart_frame {x : ℕ} (hx : ∀ i < part.memsz, x ≠ loc env buffer (part.dstaddr + i))
    (hfile : part.filesz ≠ 0) (hstray : ¬Strays env buffer part x) :
    loadPart env buffer m part x = m x := by
  have hfilled : filled env m part x = m x := by
    rw [filled, if_neg]
    rintro ⟨hlo, hhi⟩
    rw [Segment.end_] at hhi
    refine hx (x - part.dstaddr) (by omega) ?_
    rw [loc_of_apart hp.plain happart (by omega)]
    omega
  rw [loadPart_apart hb hp happart m hfile]
  split_ifs with hend
  · rw [Mem.memcpy_frame, hfilled]
    by_contra hmoved
    exact hstray (strays_of_moved happart hfile hend (by omega) (by omega))
  · exact hfilled

lemma loadPart_apart_right (hfile : part.filesz ≠ 0)
    (hstray : ∀ i < part.memsz, ¬Strays env buffer part (loc env buffer (part.dstaddr + i))) :
    Right env buffer (loadPart env buffer m part) part := by
  intro i hi
  have hloc : loc env buffer (part.dstaddr + i) = part.dstaddr + i :=
    loc_of_apart hp.plain happart hi
  have hfilled : filled env m part (part.dstaddr + i) = byteAt env part i := by
    rw [filled, if_pos, Nat.add_sub_cancel_left]
    rw [Segment.end_]
    omega
  have hown := hstray i hi
  rw [hloc] at hown ⊢
  rw [loadPart_apart hb hp happart m hfile]
  split_ifs with hend
  · rw [Mem.memcpy_frame, hfilled]
    by_contra hmoved
    exact hown (strays_of_moved happart hfile hend (by omega) (by omega))
  · exact hfilled

end Apart

section Overlapping

variable (hb : BufferFits env buffer total) (hp : PartFits env buffer total part)
  (hoverlap : overlapsCoreboot env part = true)

include hb hp hoverlap

/-- A segment that overlaps coreboot is moved around from where it is placed. -/
lemma loadPart_overlapping (m : Mem) (hfile : part.filesz ≠ 0) :
    loadPart env buffer m part =
      let m := filled env m (place env buffer part)
      let m :=
        if part.dstaddr < env.image.lbStart then
          m.memcpy part.dstaddr (buffer + part.dstaddr - env.image.lbStart)
            (env.image.lbStart - part.dstaddr)
        else m
      if env.image.lbEnd < part.end_ then
        m.memcpy env.image.lbEnd (buffer + (env.image.lbEnd - env.image.lbStart))
          (part.end_ - env.image.lbEnd)
      else m := by
  have hplain := plain_place hb hp
  obtain ⟨hlo, hhi⟩ := hp.plain.overlaps_iff.mp hoverlap
  have hfront := hp.front hoverlap
  have hroom := hp.room hoverlap
  have hfits := hb.fits
  have hlt := env.image.lt
  have hmem : part.end_ = part.dstaddr + part.memsz := rfl
  have hdst := place_dstaddr hb hoverlap hfront (by omega)
  have hend : (place env buffer part).end_ = buffer + part.end_ - env.image.lbStart := by
    rw [Segment.end_, hdst, place_memsz]
    omega
  have hfrom : Word.add 32 buffer (env.image.lbEnd - env.image.lbStart) =
      buffer + (env.image.lbEnd - env.image.lbStart) := Word.add_eq (by omega)
  rw [loadPart, loadSegment_filled hplain (coded_place hp.coded) (by rwa [place_filesz]), moveAround,
    hdst, hend]
  dsimp only
  rw [hfrom, if_pos (show buffer < buffer + part.end_ - env.image.lbStart by omega)]
  by_cases hprefix : part.dstaddr < env.image.lbStart
  · have hamount : Word.sub 32 buffer (buffer + part.dstaddr - env.image.lbStart) =
        env.image.lbStart - part.dstaddr := by
      rw [Word.sub_eq (by omega) (by omega)]
      omega
    have hto : Word.sub 32 env.image.lbStart (env.image.lbStart - part.dstaddr) = part.dstaddr := by
      have hlb := env.image.fits
      rw [Word.sub_eq (by omega) (by omega)]
      omega
    rw [if_pos (show buffer + part.dstaddr - env.image.lbStart < buffer by omega), if_pos hprefix,
      hamount, hto]
    by_cases hsuffix : env.image.lbEnd < part.end_
    · rw [if_pos (by omega), if_pos hsuffix, Word.sub_eq (by omega) (by omega)]
      congr 1
      omega
    · rw [if_neg (by omega), if_neg hsuffix]
  · rw [if_neg (show ¬buffer + part.dstaddr - env.image.lbStart < buffer by omega), if_neg hprefix]
    by_cases hsuffix : env.image.lbEnd < part.end_
    · rw [if_pos (by omega), if_pos hsuffix, Word.sub_eq (by omega) (by omega)]
      congr 1
      omega
    · rw [if_neg (by omega), if_neg hsuffix]

lemma loadPart_overlapping_frame {x : ℕ}
    (hx : ∀ i < part.memsz, x ≠ loc env buffer (part.dstaddr + i)) (hfile : part.filesz ≠ 0)
    (hstray : ¬Strays env buffer part x) (htail : ¬Tail env buffer total x) :
    loadPart env buffer m part x = m x := by
  obtain ⟨hlo, hhi⟩ := hp.plain.overlaps_iff.mp hoverlap
  have hfront := hp.front hoverlap
  have hroom := hp.room hoverlap
  have hlt := env.image.lt
  have hmem : part.end_ = part.dstaddr + part.memsz := rfl
  have hdst := place_dstaddr hb hoverlap hfront (by omega)
  have hend : (place env buffer part).end_ = buffer + part.end_ - env.image.lbStart := by
    rw [Segment.end_, hdst, place_memsz]
    omega
  -- the address is not in the part itself
  have hout : ¬((part.dstaddr ≤ x ∧ x < env.image.lbStart) ∨
      (env.image.lbEnd ≤ x ∧ x < part.end_)) := by
    intro hin
    refine hx (x - part.dstaddr) (by omega) ?_
    rw [loc, if_neg (by omega)]
    omega
  have hbuffer : ¬((place env buffer part).dstaddr ≤ x ∧ x < (place env buffer part).end_) := by
    rw [hdst, hend]
    rintro ⟨hxlo, hxhi⟩
    by_cases hbelow : x < buffer
    · refine hstray ⟨hfile, ?_⟩
      rw [if_pos hoverlap]
      omega
    · by_cases hbehind : buffer + (env.image.lbEnd - env.image.lbStart) ≤ x
      · exact htail ⟨hbehind, by omega⟩
      · refine hx (x + env.image.lbStart - buffer - part.dstaddr) (by omega) ?_
        rw [loc, if_pos (by omega)]
        omega
  rw [loadPart_overlapping hb hp hoverlap m hfile]
  dsimp only
  split_ifs
  · rw [Mem.memcpy_frame (by omega), Mem.memcpy_frame (by omega), filled, if_neg hbuffer]
  · rw [Mem.memcpy_frame (by omega), filled, if_neg hbuffer]
  · rw [Mem.memcpy_frame (by omega), filled, if_neg hbuffer]
  · rw [filled, if_neg hbuffer]

lemma loadPart_overlapping_right (hfile : part.filesz ≠ 0)
    (hstray : ∀ i < part.memsz, ¬Strays env buffer part (loc env buffer (part.dstaddr + i))) :
    Right env buffer (loadPart env buffer m part) part := by
  obtain ⟨hlo, hhi⟩ := hp.plain.overlaps_iff.mp hoverlap
  have hfront := hp.front hoverlap
  have hroom := hp.room hoverlap
  have hbroom := hb.room
  have hlt := env.image.lt
  have hmem : part.end_ = part.dstaddr + part.memsz := rfl
  have hdst := place_dstaddr hb hoverlap hfront (by omega)
  have hend : (place env buffer part).end_ = buffer + part.end_ - env.image.lbStart := by
    rw [Segment.end_, hdst, place_memsz]
    omega
  -- the bytes in the buffer, and below and behind it
  have hfilled : ∀ i < part.memsz, filled env m (place env buffer part)
      (buffer + part.dstaddr - env.image.lbStart + i) = byteAt env part i := by
    intro i hi
    rw [filled, hdst, hend, if_pos (by omega), byteAt_place, Nat.add_sub_cancel_left]
  have hclear : ∀ a, buffer ≤ a → a < buffer + total → ¬(part.dstaddr ≤ a ∧ a < part.end_) := by
    rintro a hlo' hhi' ⟨hlo'', hhi''⟩
    have := hp.clear a hlo'' hhi''
    omega
  intro i hi
  rw [loadPart_overlapping hb hp hoverlap m hfile]
  dsimp only
  by_cases hbefore : part.dstaddr + i < env.image.lbStart
  · -- in front of coreboot, where it is moved to from below the buffer
    have hloc : ∀ j, part.dstaddr + j < env.image.lbStart →
        loc env buffer (part.dstaddr + j) = part.dstaddr + j := fun j hj => if_neg (by omega)
    have hout : ∀ j < part.memsz, part.dstaddr + j < env.image.lbStart →
        ¬(buffer + part.dstaddr ≤ part.dstaddr + j + env.image.lbStart ∧
          part.dstaddr + j < buffer) := by
      rintro j hj hj' ⟨hbelow, hbelow'⟩
      refine hstray j hj ⟨hfile, ?_⟩
      rw [if_pos hoverlap, hloc j hj']
      exact ⟨by omega, hbelow, hbelow'⟩
    have hfirst := hout 0 (by omega) (by omega)
    have hlast := hout (env.image.lbStart - part.dstaddr - 1) (by omega) (by omega)
    have hval := hfilled i hi
    rw [if_pos (show part.dstaddr < env.image.lbStart by omega), hloc i hbefore]
    have hmoved : ((filled env m (place env buffer part)).memcpy part.dstaddr
        (buffer + part.dstaddr - env.image.lbStart) (env.image.lbStart - part.dstaddr))
          (part.dstaddr + i) = byteAt env part i := by
      rw [Mem.memcpy_read (by omega) (by omega), hval]
    split_ifs
    · rw [Mem.memcpy_frame (by omega), hmoved]
    · exact hmoved
  · by_cases hbehind : env.image.lbEnd ≤ part.dstaddr + i
    · -- behind coreboot, where it is moved to from the end of the buffer
      have hloc : loc env buffer (part.dstaddr + i) = part.dstaddr + i := if_neg (by omega)
      have hbuffer := hclear buffer le_rfl (by omega)
      have hlast := hclear (buffer + total - 1) (by omega) (by omega)
      have hfirst := hp.clear env.image.lbEnd (by omega) (by omega)
      have hval := hfilled i hi
      have haddr : buffer + part.dstaddr - env.image.lbStart + i =
          buffer + (env.image.lbEnd - env.image.lbStart) +
            (part.dstaddr + i - env.image.lbEnd) := by omega
      have hin := hclear (buffer + (env.image.lbEnd - env.image.lbStart) +
        (part.dstaddr + i - env.image.lbEnd)) (by omega) (by omega)
      rw [haddr] at hval
      have hdest : part.dstaddr + i = env.image.lbEnd + (part.dstaddr + i - env.image.lbEnd) := by
        omega
      rw [if_pos (show env.image.lbEnd < part.end_ by omega), hloc, hdest,
        Mem.memcpy_read (by omega) (by omega)]
      split_ifs
      · rw [Mem.memcpy_frame (by omega), hval]
      · exact hval
    · -- on coreboot
      have hloc : loc env buffer (part.dstaddr + i) =
          buffer + (part.dstaddr + i - env.image.lbStart) := if_pos (by omega)
      have hin := hclear (buffer + (part.dstaddr + i - env.image.lbStart)) (by omega) (by omega)
      have hval := hfilled i hi
      have haddr : buffer + part.dstaddr - env.image.lbStart + i =
          buffer + (part.dstaddr + i - env.image.lbStart) := by omega
      rw [haddr] at hval
      rw [hloc]
      split_ifs
      · rw [Mem.memcpy_frame (by omega), Mem.memcpy_frame (by omega), hval]
      · rw [Mem.memcpy_frame (by omega), hval]
      · rw [Mem.memcpy_frame (by omega), hval]
      · exact hval

end Overlapping

lemma loadPart_frame {x : ℕ} (hb : BufferFits env buffer total) (hp : PartFits env buffer total part)
    (hx : ∀ i < part.memsz, x ≠ loc env buffer (part.dstaddr + i))
    (hstray : ¬Strays env buffer part x) (htail : ¬Tail env buffer total x) :
    loadPart env buffer m part x = m x := by
  by_cases hfile : part.filesz = 0
  · rw [loadPart_of_bare hfile]
  · cases hoverlap : overlapsCoreboot env part with
    | false => exact loadPart_apart_frame hb hp hoverlap hx hfile hstray
    | true => exact loadPart_overlapping_frame hb hp hoverlap hx hfile hstray htail

lemma loadPart_right (hb : BufferFits env buffer total) (hp : PartFits env buffer total part)
    (hfile : part.filesz ≠ 0)
    (hstray : ∀ i < part.memsz, ¬Strays env buffer part (loc env buffer (part.dstaddr + i))) :
    Right env buffer (loadPart env buffer m part) part := by
  cases hoverlap : overlapsCoreboot env part with
  | false => exact loadPart_apart_right hb hp hoverlap hfile hstray
  | true => exact loadPart_overlapping_right hb hp hoverlap hfile hstray

/-! ### Loading all parts -/

/-- The destinations have no address in common. -/
def Apart (seg seg' : Segment) : Prop :=
  ∀ a, seg.dstaddr ≤ a → a < seg.end_ → ¬(seg'.dstaddr ≤ a ∧ a < seg'.end_)

lemma Apart.symm {seg seg' : Segment} (h : Apart seg seg') : Apart seg' seg :=
  fun a hlo hhi hin => h a hin.1 hin.2 ⟨hlo, hhi⟩

/-- What strays hits neither a part that has been loaded nor one that is never written. -/
structure Harmless (env : Env) (buffer : ℕ) (parts : List Segment) : Prop where
  self : ∀ part ∈ parts, ∀ i < part.memsz,
    ¬Strays env buffer part (loc env buffer (part.dstaddr + i))
  later : parts.Pairwise fun part part' => ∀ i < part.memsz,
    ¬Strays env buffer part' (loc env buffer (part.dstaddr + i))
  bare : ∀ part ∈ parts, part.filesz = 0 → ∀ part' ∈ parts, ∀ i < part.memsz,
    ¬Strays env buffer part' (loc env buffer (part.dstaddr + i))

/-- Each part has bytes in the file. -/
def Backed (parts : List Segment) : Prop := ∀ part ∈ parts, part.memsz ≠ 0 → part.filesz ≠ 0

variable {ps : List Segment}

lemma not_tail_loc (hb : BufferFits env buffer total) (hp : PartFits env buffer total part) {i : ℕ}
    (hi : i < part.memsz) : ¬Tail env buffer total (loc env buffer (part.dstaddr + i)) := by
  have hclear := hp.clear (part.dstaddr + i) (Nat.le_add_right _ _) (Nat.add_lt_add_left hi _)
  have hroom := hb.room
  have hlt := env.image.lt
  rintro ⟨hlo, hhi⟩
  rw [loc] at hlo hhi
  split_ifs at hlo hhi with himage
  · omega
  · omega

/-- Bytes of different parts are at different places. -/
lemma loc_ne (hb : BufferFits env buffer total) {part' : Segment}
    (hp : PartFits env buffer total part) (hp' : PartFits env buffer total part')
    (h : Apart part part') {i j : ℕ} (hi : i < part.memsz) (hj : j < part'.memsz) :
    loc env buffer (part.dstaddr + i) ≠ loc env buffer (part'.dstaddr + j) := by
  have hclear := hp.clear (part.dstaddr + i) (Nat.le_add_right _ _) (Nat.add_lt_add_left hi _)
  have hclear' := hp'.clear (part'.dstaddr + j) (Nat.le_add_right _ _) (Nat.add_lt_add_left hj _)
  have hroom := hb.room
  have hne : part.dstaddr + i ≠ part'.dstaddr + j := by
    intro heq
    refine h _ (Nat.le_add_right _ _) (Nat.add_lt_add_left hi _) ?_
    rw [heq]
    exact ⟨Nat.le_add_right _ _, Nat.add_lt_add_left hj _⟩
  rw [loc, loc]
  split_ifs <;> omega

lemma foldl_frame {x : ℕ} (hb : BufferFits env buffer total)
    (hps : ∀ part ∈ ps, PartFits env buffer total part)
    (hx : ∀ part ∈ ps, ∀ i < part.memsz, x ≠ loc env buffer (part.dstaddr + i))
    (hstray : ∀ part ∈ ps, ¬Strays env buffer part x) (htail : ¬Tail env buffer total x) :
    ps.foldl (loadPart env buffer) m x = m x := by
  induction ps generalizing m with
  | nil => rfl
  | cons part rest ih =>
    rw [List.forall_mem_cons] at hps hx hstray
    rw [List.foldl_cons, ih hps.2 hx.2 hstray.2]
    exact loadPart_frame hb hps.1 hx.1 hstray.1 htail

/-- Each part is right when it has been loaded, and what is loaded later leaves it alone. -/
lemma foldl_right (hb : BufferFits env buffer total)
    (hps : ∀ part ∈ ps, PartFits env buffer total part) (hbacked : Backed ps)
    (hapart : ps.Pairwise Apart) (hharmless : Harmless env buffer ps) :
    ∀ part ∈ ps, Right env buffer (ps.foldl (loadPart env buffer) m) part := by
  induction ps generalizing m with
  | nil => simp
  | cons part rest ih =>
    obtain ⟨hself, hlater, hbare⟩ := hharmless
    have hfits := List.forall_mem_cons.mp hps
    have hback := List.forall_mem_cons.mp hbacked
    rw [List.forall_mem_cons] at hself
    rw [List.pairwise_cons] at hapart hlater
    refine List.forall_mem_cons.mpr ⟨?_, ?_⟩
    · intro i hi
      have hright := loadPart_right (m := m) hb hfits.1 (hback.1 (by omega)) hself.1 i hi
      rw [List.foldl_cons, foldl_frame hb hfits.2, hright]
      · intro part' hpart' j hj
        exact loc_ne hb hfits.1 (hfits.2 part' hpart') (hapart.1 part' hpart') hi hj
      · exact fun part' hpart' => hlater.1 part' hpart' i hi
      · exact not_tail_loc hb hfits.1 hi
    · refine ih hfits.2 hback.2 hapart.2 ⟨hself.2, hlater.2, fun p hp hfile p' hp' => ?_⟩
      exact hbare p (List.mem_cons_of_mem _ hp) hfile p' (List.mem_cons_of_mem _ hp')

/-- What has no bytes in the file is not written at all. -/
lemma foldl_bare (hb : BufferFits env buffer total)
    (hps : ∀ part ∈ ps, PartFits env buffer total part)
    (hapart : ps.Pairwise Apart) (hharmless : Harmless env buffer ps) (hmem : part ∈ ps)
    (hbare : part.filesz = 0) {i : ℕ} (hi : i < part.memsz) :
    ps.foldl (loadPart env buffer) m (loc env buffer (part.dstaddr + i)) =
      m (loc env buffer (part.dstaddr + i)) := by
  obtain ⟨before, after, rfl⟩ := List.append_of_mem hmem
  have hfits := hps part hmem
  have hpair := List.pairwise_middle (fun h => Apart.symm h) |>.mp hapart
  rw [List.pairwise_cons] at hpair
  have hframe : ∀ qs : List Segment, (∀ p ∈ qs, p ∈ before ++ after) → ∀ m' : Mem,
      qs.foldl (loadPart env buffer) m' (loc env buffer (part.dstaddr + i)) =
        m' (loc env buffer (part.dstaddr + i)) := by
    intro qs hqs m'
    have hin : ∀ p ∈ qs, p ∈ before ++ part :: after := by
      intro p hp
      have hp' := hqs p hp
      simp only [List.mem_append, List.mem_cons] at hp' ⊢
      tauto
    apply foldl_frame hb fun p hp => hps p (hin p hp)
    · intro p hp j hj
      exact loc_ne hb hfits (hps p (hin p hp)) (hpair.1 p (hqs p hp)) hi hj
    · exact fun p hp => hharmless.bare part hmem hbare p (hin p hp) i hi
    · exact not_tail_loc hb hfits hi
  rw [List.foldl_append, List.foldl_cons, hframe after (fun p hp => by simp [hp]),
    loadPart_of_bare hbare, hframe before fun p hp => by simp [hp]]

end ApuBios.SelfBoot
