import ApuBios.Lib.SelfBoot.Properties

/-!
# The parts of a segment

Coreboot cuts an uncompressed segment into the part in front of it, the part that would overwrite it
and the part behind it. What the loop does with the memory is to load the parts of all segments one
after the other, those that would overwrite coreboot in the bounce buffer (`loadLoop_eq_foldl`).
-/

namespace ApuBios.SelfBoot

open Memrange Bootmem

variable {env : Env} {buffer : ℕ} {m : Mem} {seg part : Segment} {i n : ℕ}

/-- The `n` bytes of a segment from its byte `i` on. -/
def Segment.cut (seg : Segment) (i n : ℕ) : Segment :=
  { seg with
    dstaddr := seg.dstaddr + i
    srcaddr := Word.add 32 seg.srcaddr i
    memsz := n
    filesz := min n (seg.filesz - i) }

/-- The end of the destination. -/
def Segment.end_ (seg : Segment) : ℕ := seg.dstaddr + seg.memsz

/-- No address of the segment wraps around. -/
structure Plain (seg : Segment) : Prop where
  end_lt : seg.end_ < 2 ^ 32
  filesz_le : seg.filesz ≤ seg.memsz
  src_lt : seg.srcaddr < 2 ^ 32

lemma Plain.end_eq (h : Plain seg) : Word.add 32 seg.dstaddr seg.memsz = seg.end_ :=
  Word.add_eq h.end_lt

lemma Plain.overlaps_iff (h : Plain seg) :
    overlapsCoreboot env seg = true ↔
      env.image.lbStart < seg.end_ ∧ seg.dstaddr < env.image.lbEnd := by
  rw [overlapsCoreboot_iff, h.end_eq]

lemma Segment.cut_zero (hfile : seg.filesz ≤ seg.memsz) (hsrc : seg.srcaddr < 2 ^ 32) :
    seg.cut 0 seg.memsz = seg := by
  have hsrc : Word.add 32 seg.srcaddr 0 = seg.srcaddr := Word.add_eq hsrc
  rw [Segment.cut, Nat.add_zero, Nat.sub_zero, hsrc, min_eq_right hfile]

lemma Plain.cut_zero (h : Plain seg) : seg.cut 0 seg.memsz = seg :=
  Segment.cut_zero h.filesz_le h.src_lt

lemma Plain.cut (h : Plain seg) (hn : i + n ≤ seg.memsz) : Plain (seg.cut i n) := by
  have hend := h.end_lt
  simp only [Segment.end_] at hend
  refine ⟨?_, min_le_left _ _, Word.add_lt⟩
  simp only [Segment.end_, Segment.cut]
  omega

/-! ### Cutting -/

/-- The part in front of coreboot. -/
def early (env : Env) (seg : Segment) : List Segment :=
  if seg.dstaddr < env.image.lbStart then [seg.cut 0 (env.image.lbStart - seg.dstaddr)] else []

/-- The part that would overwrite coreboot. -/
def middle (env : Env) (seg : Segment) : Segment :=
  seg.cut (env.image.lbStart - seg.dstaddr)
    (min seg.end_ env.image.lbEnd - max seg.dstaddr env.image.lbStart)

/-- The part behind coreboot. -/
def late (env : Env) (seg : Segment) : List Segment :=
  if env.image.lbEnd < seg.end_ then
    [seg.cut (env.image.lbEnd - seg.dstaddr) (seg.end_ - env.image.lbEnd)]
  else []

/-- The parts in which a segment is loaded. -/
def parts (env : Env) (seg : Segment) : List Segment :=
  if overlapsCoreboot env seg = true ∧ seg.compression = CBFS_COMPRESS_NONE then
    early env seg ++ middle env seg :: late env seg
  else [seg]

/-- The part where it is loaded. -/
def place (env : Env) (buffer : ℕ) (part : Segment) : Segment :=
  if overlapsCoreboot env part = true then
    { part with
      dstaddr := Word.add 32 buffer (Word.sub 32 part.dstaddr env.image.lbStart) }
  else part

lemma splitEarly_eq (h : Plain seg) (hoverlap : overlapsCoreboot env seg = true)
    (hstart : seg.dstaddr < env.image.lbStart) :
    splitEarly env seg = (seg.cut 0 (env.image.lbStart - seg.dstaddr),
      seg.cut (env.image.lbStart - seg.dstaddr)
        (seg.memsz - (env.image.lbStart - seg.dstaddr))) := by
  have hend := h.end_lt
  have hfile := h.filesz_le
  have hlt := env.image.lt
  have hfits := env.image.fits
  have hinside := (h.overlaps_iff.mp hoverlap).1
  simp only [Segment.end_] at hend hinside
  have hlen : Word.sub 32 env.image.lbStart seg.dstaddr = env.image.lbStart - seg.dstaddr :=
    Word.sub_eq hstart.le (by omega)
  have hrest : Word.sub 32 seg.memsz (env.image.lbStart - seg.dstaddr) =
      seg.memsz - (env.image.lbStart - seg.dstaddr) := Word.sub_eq (by omega) (by omega)
  have hdst : Word.add 32 seg.dstaddr (env.image.lbStart - seg.dstaddr) =
      seg.dstaddr + (env.image.lbStart - seg.dstaddr) := Word.add_eq (by omega)
  have hsrc : Word.add 32 seg.srcaddr 0 = seg.srcaddr := Word.add_eq h.src_lt
  have hsubfile : env.image.lbStart - seg.dstaddr < seg.filesz →
      Word.sub 32 seg.filesz (env.image.lbStart - seg.dstaddr) =
        seg.filesz - (env.image.lbStart - seg.dstaddr) :=
    fun hlt => Word.sub_eq hlt.le (by omega)
  simp only [splitEarly, hlen, hrest, hdst, Segment.cut, hsrc, Prod.mk.injEq, Segment.mk.injEq,
    true_and, and_true, Nat.add_zero]
  constructor
  · split_ifs <;> omega
  · split_ifs with hfile'
    · rw [hsubfile hfile']
      omega
    · omega

lemma splitLate_eq (h : Plain seg) (hinside : seg.dstaddr ≤ env.image.lbEnd)
    (hend : env.image.lbEnd < seg.end_) :
    splitLate env seg = (seg.cut 0 (env.image.lbEnd - seg.dstaddr),
      seg.cut (env.image.lbEnd - seg.dstaddr) (seg.end_ - env.image.lbEnd)) := by
  have hend' := h.end_lt
  have hfile := h.filesz_le
  have hfits := env.image.fits
  simp only [Segment.end_] at hend hend'
  have hlen : Word.sub 32 env.image.lbEnd seg.dstaddr = env.image.lbEnd - seg.dstaddr :=
    Word.sub_eq hinside (by omega)
  have hrest : Word.sub 32 seg.memsz (env.image.lbEnd - seg.dstaddr) =
      seg.end_ - env.image.lbEnd := by
    rw [Word.sub_eq (by omega) (by omega), Segment.end_]
    omega
  have hdst : Word.add 32 seg.dstaddr (env.image.lbEnd - seg.dstaddr) =
      seg.dstaddr + (env.image.lbEnd - seg.dstaddr) := Word.add_eq (by omega)
  have hsrc : Word.add 32 seg.srcaddr 0 = seg.srcaddr := Word.add_eq h.src_lt
  have hsubfile : env.image.lbEnd - seg.dstaddr < seg.filesz →
      Word.sub 32 seg.filesz (env.image.lbEnd - seg.dstaddr) =
        seg.filesz - (env.image.lbEnd - seg.dstaddr) :=
    fun hlt => Word.sub_eq hlt.le (by omega)
  simp only [splitLate, hlen, hrest, hdst, Segment.cut, hsrc, Prod.mk.injEq, Segment.mk.injEq,
    true_and, and_true, Nat.add_zero, Segment.end_]
  constructor
  · split_ifs <;> omega
  · split_ifs with hfile'
    · rw [hsubfile hfile']
      omega
    · omega

lemma cut_cut {j k : ℕ} (h : j + k ≤ n) : (seg.cut i n).cut j k = seg.cut (i + j) k := by
  simp only [Segment.cut, Word.add, Segment.mk.injEq, true_and, and_true]
  refine ⟨?_, ?_, ?_⟩ <;> omega

/-- What is left of a segment without the part in front of coreboot. -/
lemma early_eq (h : Plain seg) (hoverlap : overlapsCoreboot env seg = true)
    (hnone : seg.compression = CBFS_COMPRESS_NONE) :
    (if seg.compression = CBFS_COMPRESS_NONE ∧ seg.dstaddr < env.image.lbStart then
        (some (splitEarly env seg).1, (splitEarly env seg).2) else (none, seg)) =
      ((early env seg).head?, seg.cut (env.image.lbStart - seg.dstaddr)
        (seg.memsz - (env.image.lbStart - seg.dstaddr))) := by
  by_cases hstart : seg.dstaddr < env.image.lbStart
  · rw [if_pos ⟨hnone, hstart⟩, splitEarly_eq h hoverlap hstart, early, if_pos hstart]
    rfl
  · rw [if_neg (fun hsplit => hstart hsplit.2), early, if_neg hstart,
      Nat.sub_eq_zero_of_le (not_lt.mp hstart), Nat.sub_zero, h.cut_zero]
    rfl

lemma overlaps_middle (h : Plain seg) (hoverlap : overlapsCoreboot env seg = true) :
    (middle env seg).dstaddr = max seg.dstaddr env.image.lbStart ∧
      (middle env seg).end_ = min seg.end_ env.image.lbEnd ∧
      overlapsCoreboot env (middle env seg) = true := by
  obtain ⟨hend, hinside⟩ := h.overlaps_iff.mp hoverlap
  have hlt := env.image.lt
  have hfits := env.image.fits
  have hend' := h.end_lt
  have hle : seg.dstaddr ≤ seg.end_ := Nat.le_add_right _ _
  have hdst : (middle env seg).dstaddr = max seg.dstaddr env.image.lbStart := by
    simp only [middle, Segment.cut]
    omega
  have hmid : (middle env seg).end_ = min seg.end_ env.image.lbEnd := by
    rw [Segment.end_, hdst]
    simp only [middle, Segment.cut]
    omega
  refine ⟨hdst, hmid, ?_⟩
  rw [overlapsCoreboot_iff, Word.add_eq (by rw [← Segment.end_, hmid]; omega), ← Segment.end_,
    hmid, hdst]
  omega

/-- The parts in front of coreboot and behind it do not overlap it. -/
lemma overlaps_early (h : Plain seg) (hoverlap : overlapsCoreboot env seg = true)
    (hpart : part ∈ early env seg) : Plain part ∧ overlapsCoreboot env part = false := by
  have hinside := (h.overlaps_iff.mp hoverlap).1
  rw [early] at hpart
  split_ifs at hpart with hstart
  · obtain rfl := List.mem_singleton.mp hpart
    have hcut : Plain (seg.cut 0 (env.image.lbStart - seg.dstaddr)) := h.cut (by
      simp only [Segment.end_] at hinside
      omega)
    refine ⟨hcut, ?_⟩
    rw [← Bool.not_eq_true, hcut.overlaps_iff]
    simp only [Segment.end_, Segment.cut]
    omega
  · exact absurd hpart List.not_mem_nil

lemma overlaps_late (h : Plain seg) (hoverlap : overlapsCoreboot env seg = true)
    (hpart : part ∈ late env seg) : Plain part ∧ overlapsCoreboot env part = false := by
  have hinside := (h.overlaps_iff.mp hoverlap).2
  rw [late] at hpart
  split_ifs at hpart with hend
  · obtain rfl := List.mem_singleton.mp hpart
    have hcut : Plain (seg.cut (env.image.lbEnd - seg.dstaddr) (seg.end_ - env.image.lbEnd)) :=
      h.cut (by
        simp only [Segment.end_] at hend ⊢
        omega)
    refine ⟨hcut, ?_⟩
    rw [← Bool.not_eq_true, hcut.overlaps_iff]
    simp only [Segment.cut]
    omega
  · exact absurd hpart List.not_mem_nil

/-- A segment that is not cut is moved if it overlaps coreboot. -/
lemma relocateSegment_of_whole (buffer : ℕ)
    (h : ¬(overlapsCoreboot env seg = true ∧ seg.compression = CBFS_COMPRESS_NONE)) :
    relocateSegment env buffer seg = ⟨none, place env buffer seg, none⟩ := by
  rw [relocateSegment, place]
  cases hoverlap : overlapsCoreboot env seg with
  | false => simp only [Bool.false_eq_true, if_true, if_false]
  | true =>
    have hnone : seg.compression ≠ CBFS_COMPRESS_NONE := fun hnone => h ⟨hoverlap, hnone⟩
    simp only [hnone, Bool.true_eq_false, false_and, if_false, if_true]

/-- A segment that is cut leaves its parts. -/
lemma relocateSegment_of_cut (buffer : ℕ) (h : Plain seg) (hoverlap : overlapsCoreboot env seg = true)
    (hnone : seg.compression = CBFS_COMPRESS_NONE) :
    relocateSegment env buffer seg =
      ⟨(early env seg).head?, place env buffer (middle env seg), (late env seg).head?⟩ := by
  obtain ⟨hdst, hend, hover⟩ := overlaps_middle h hoverlap
  obtain ⟨hinside, hinside'⟩ := h.overlaps_iff.mp hoverlap
  have hlt := env.image.lt
  have hmem : seg.end_ = seg.dstaddr + seg.memsz := rfl
  rw [relocateSegment, hoverlap, if_neg (by simp)]
  dsimp only
  rw [early_eq h hoverlap hnone]
  -- what is left of the segment is cut again
  generalize hrest : seg.cut (env.image.lbStart - seg.dstaddr)
    (seg.memsz - (env.image.lbStart - seg.dstaddr)) = rest
  have hplain : Plain rest := hrest ▸ h.cut (by omega)
  have hrdst : rest.dstaddr = max seg.dstaddr env.image.lbStart := by
    rw [← hrest]
    simp only [Segment.cut]
    omega
  have hrend : rest.end_ = seg.end_ := by
    rw [Segment.end_, hrdst, ← hrest]
    simp only [Segment.cut]
    omega
  have hrnone : rest.compression = CBFS_COMPRESS_NONE := by
    rw [← hrest]
    exact hnone
  have hcut : (rest.compression = CBFS_COMPRESS_NONE ∧
      env.image.lbEnd < Word.add 32 seg.dstaddr seg.memsz) ↔ env.image.lbEnd < seg.end_ := by
    rw [h.end_eq]
    exact and_iff_right hrnone
  have hcuts : ∀ j k, j + k ≤ seg.memsz - (env.image.lbStart - seg.dstaddr) →
      rest.cut j k = seg.cut (env.image.lbStart - seg.dstaddr + j) k := by
    intro j k hjk
    rw [← hrest, cut_cut hjk]
  dsimp only
  by_cases hlate : env.image.lbEnd < seg.end_
  · have hlen : env.image.lbEnd - max seg.dstaddr env.image.lbStart =
        min seg.end_ env.image.lbEnd - max seg.dstaddr env.image.lbStart := by omega
    have hbehind : env.image.lbStart - seg.dstaddr +
        (env.image.lbEnd - max seg.dstaddr env.image.lbStart) =
          env.image.lbEnd - seg.dstaddr := by omega
    rw [if_pos (hcut.mpr hlate), splitLate_eq hplain (by omega) (by omega), late, if_pos hlate,
      hcuts _ _ (by omega), hcuts _ _ (by omega), hrend, hrdst, Nat.add_zero, hbehind, hlen,
      ← middle, place, if_pos hover]
    rfl
  · have hmiddle : middle env seg = rest := by
      rw [middle, ← hrest]
      congr 1
      omega
    rw [if_neg (fun hsplit => hlate (hcut.mp hsplit)), late, if_neg hlate, place, if_pos hover,
      hmiddle]
    rfl

/-! ### The loop -/

/-- The bounce buffer has room for coreboot twice. -/
structure BufferFits (env : Env) (buffer total : ℕ) : Prop where
  fits : buffer + total ≤ 2 ^ 32
  room : 2 * (env.image.lbEnd - env.image.lbStart) ≤ total

/-- What is copied over coreboot does not overlap it. -/
def Aside (env : Env) (buffer : ℕ) : Prop :=
  buffer + (env.image.lbEnd - env.image.lbStart) ≤ env.image.lbStart ∨ env.image.lbEnd ≤ buffer

/-- A part is loaded where it is placed. -/
def loadPart (env : Env) (buffer : ℕ) (m : Mem) (part : Segment) : Mem :=
  (loadSegment env m buffer (place env buffer part)).2

variable {total : ℕ} {l : List Segment}

lemma decision_place : decision env (place env buffer seg) = decision env seg := by
  rw [place]
  split_ifs <;> rfl

lemma place_of_apart (h : overlapsCoreboot env seg = false) : place env buffer seg = seg := by
  rw [place, h, if_neg Bool.false_ne_true]

lemma parts_of_apart (h : overlapsCoreboot env seg = false) : parts env seg = [seg] := by
  rw [parts, if_neg (fun hcut => by rw [h] at hcut; exact Bool.false_ne_true hcut.1)]

lemma place_dstaddr (hb : BufferFits env buffer total) (h : overlapsCoreboot env part = true)
    (hfront : env.image.lbStart ≤ buffer + part.dstaddr)
    (hin : part.dstaddr ≤ env.image.lbEnd) :
    (place env buffer part).dstaddr = buffer + part.dstaddr - env.image.lbStart := by
  have hfits := hb.fits
  have hroom := hb.room
  have hlt := env.image.lt
  have hlb := env.image.fits
  rw [place, if_pos h]
  dsimp only
  by_cases hstart : env.image.lbStart ≤ part.dstaddr
  · rw [Word.sub_eq hstart (by omega), Word.add_eq (by omega)]
    omega
  · rw [Word.sub_eq_wrap (by omega) (by omega), Word.add_eq_wrap (by omega) (by omega)]
    omega

/-- The part that would overwrite coreboot lies in the bounce buffer. -/
lemma place_middle (hb : BufferFits env buffer total) (hside : Aside env buffer) (h : Plain seg)
    (hoverlap : overlapsCoreboot env seg = true) :
    Plain (place env buffer (middle env seg)) ∧
      overlapsCoreboot env (place env buffer (middle env seg)) = false := by
  obtain ⟨hdst, hend, hover⟩ := overlaps_middle h hoverlap
  obtain ⟨hinside, hinside'⟩ := h.overlaps_iff.mp hoverlap
  have hlt := env.image.lt
  have hfits := env.image.fits
  have hbfits := hb.fits
  have hroom := hb.room
  have hmem : seg.end_ = seg.dstaddr + seg.memsz := rfl
  have hmid : Plain (middle env seg) := h.cut (by omega)
  have hplaced := place_dstaddr hb hover (by omega) (by omega)
  have hsize : (place env buffer (middle env seg)).memsz = (middle env seg).memsz := by
    rw [place, if_pos hover]
  have hpend : (place env buffer (middle env seg)).end_ =
      buffer + (min seg.end_ env.image.lbEnd - env.image.lbStart) := by
    rw [Segment.end_] at hend
    rw [Segment.end_, hplaced, hsize]
    omega
  have hplain : Plain (place env buffer (middle env seg)) := by
    refine ⟨?_, ?_, ?_⟩
    · rw [hpend]
      omega
    · rw [place, if_pos hover]
      exact hmid.filesz_le
    · rw [place, if_pos hover]
      exact hmid.src_lt
  refine ⟨hplain, ?_⟩
  rw [← Bool.not_eq_true, hplain.overlaps_iff, hpend, hplaced, hdst]
  rcases hside with hapart | hapart
  · omega
  · omega

lemma loadSegment_of_decision (h : decision env seg = none) :
    loadSegment env m buffer (place env buffer seg) = (none, loadPart env buffer m seg) := by
  have hfst := @loadSegment_fst env buffer m (place env buffer seg)
  rw [decision_place, h] at hfst
  exact Prod.ext hfst rfl

lemma flatMap_parts (h : ∀ seg ∈ l, overlapsCoreboot env seg = false) :
    l.flatMap (parts env) = l := by
  induction l with
  | nil => rfl
  | cons seg rest ih =>
    rw [List.forall_mem_cons] at h
    rw [List.flatMap_cons, parts_of_apart h.1, ih h.2]
    rfl

lemma early_cases (env : Env) (seg : Segment) :
    early env seg = [] ∨ ∃ new, early env seg = [new] := by
  rw [early]
  split_ifs
  · exact .inr ⟨_, rfl⟩
  · exact .inl rfl

lemma toList_head?_late : (late env seg).head?.toList = late env seg := by
  rw [late]
  split_ifs <;> rfl

lemma compression_early (h : part ∈ early env seg) : part.compression = seg.compression := by
  rw [early] at h
  split_ifs at h
  · rw [List.mem_singleton.mp h]
    rfl
  · exact absurd h List.not_mem_nil

lemma compression_late (h : part ∈ late env seg) : part.compression = seg.compression := by
  rw [late] at h
  split_ifs at h
  · rw [List.mem_singleton.mp h]
    rfl
  · exact absurd h List.not_mem_nil

/-- The loop loads the parts of the segments, one after the other. -/
lemma loadLoop_eq_foldl {fuel : ℕ} {result : ℤ} {m' : Mem} (hb : BufferFits env buffer total)
    (hl : ∀ seg ∈ l, Plain seg ∧ decision env seg = none ∧
      (overlapsCoreboot env seg = true → Aside env buffer))
    (h : loadLoop env buffer fuel m l = some (result, m')) :
    m' = (l.flatMap (parts env)).foldl (loadPart env buffer) m := by
  induction fuel generalizing m l with
  | zero =>
    cases l with
    | nil => exact (Prod.mk.inj (Option.some.inj h)).2.symm
    | cons seg rest => cases h
  | succ fuel ih =>
    cases l with
    | nil => exact (Prod.mk.inj (Option.some.inj h)).2.symm
    | cons seg rest =>
      rw [List.forall_mem_cons] at hl
      obtain ⟨⟨hplain, hdecision, hside⟩, hrest⟩ := hl
      rw [loadLoop] at h
      rw [List.flatMap_cons, List.foldl_append]
      by_cases hcut : overlapsCoreboot env seg = true ∧ seg.compression = CBFS_COMPRESS_NONE
      · obtain ⟨hoverlap, hnone⟩ := hcut
        rw [relocateSegment_of_cut buffer hplain hoverlap hnone] at h
        rw [parts, if_pos ⟨hoverlap, hnone⟩]
        have hmid := place_middle hb (hside hoverlap) hplain hoverlap
        have hmidDecision : decision env (middle env seg) = none := decision_of_none hnone
        have hlate : ∀ part ∈ late env seg, Plain part ∧ decision env part = none ∧
            (overlapsCoreboot env part = true → Aside env buffer) := by
          intro part hpart
          refine ⟨(overlaps_late hplain hoverlap hpart).1, decision_of_none ?_, fun _ => hside hoverlap⟩
          rw [compression_late hpart, hnone]
        have hlateParts : (late env seg).flatMap (parts env) = late env seg :=
          flatMap_parts fun part hpart => (overlaps_late hplain hoverlap hpart).2
        dsimp only at h
        rw [toList_head?_late] at h
        have hbehind : ∀ part ∈ late env seg ++ rest, Plain part ∧ decision env part = none ∧
            (overlapsCoreboot env part = true → Aside env buffer) :=
          List.forall_mem_append.mpr ⟨hlate, hrest⟩
        rcases early_cases env seg with hearly | ⟨new, hearly⟩
        · rw [hearly, List.head?_nil] at h
          dsimp only at h
          rw [loadSegment_of_decision hmidDecision] at h
          rw [hearly, List.nil_append, List.foldl_cons, ih hbehind h, List.flatMap_append,
            List.foldl_append, hlateParts]
        · have hnew : new ∈ early env seg := by simp [hearly]
          have hnewPlain := overlaps_early hplain hoverlap hnew
          have hnewDecision : decision env new = none := by
            apply decision_of_none
            rw [compression_early hnew, hnone]
          rw [hearly, List.head?_cons] at h
          dsimp only at h
          have hall : ∀ part ∈ new :: place env buffer (middle env seg) :: (late env seg ++ rest),
              Plain part ∧ decision env part = none ∧
                (overlapsCoreboot env part = true → Aside env buffer) := by
            refine List.forall_mem_cons.mpr ⟨⟨hnewPlain.1, hnewDecision, fun _ => hside hoverlap⟩, ?_⟩
            refine List.forall_mem_cons.mpr ⟨⟨hmid.1, ?_, fun _ => hside hoverlap⟩, hbehind⟩
            rw [decision_place, hmidDecision]
          have hplaced : loadPart env buffer (loadPart env buffer m new)
              (place env buffer (middle env seg)) =
                loadPart env buffer (loadPart env buffer m new) (middle env seg) := by
            rw [loadPart, place_of_apart hmid.2, ← loadPart]
          rw [ih hall h, hearly, List.flatMap_cons, List.flatMap_cons, List.flatMap_append,
            parts_of_apart hnewPlain.2, parts_of_apart hmid.2, hlateParts]
          simp only [List.foldl_append, List.foldl_cons, List.foldl_nil, hplaced]
      · rw [relocateSegment_of_whole buffer hcut] at h
        rw [parts, if_neg hcut]
        dsimp only at h
        rw [loadSegment_of_decision hdecision] at h
        exact ih hrest h

end ApuBios.SelfBoot
