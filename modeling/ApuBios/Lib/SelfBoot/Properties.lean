import ApuBios.Lib.SelfBoot.Basic

/-!
# Payloads that are not loaded

`selfload` tells a payload that cannot be loaded from one that can by the values 0, 1 and -1 of two
helpers, and takes -1 for success. What the loop that loads the segments returns depends on the
list of segments only, however they are split and moved.
-/

namespace ApuBios.SelfBoot

open Memrange Bootmem

variable {env : Env} {bootmem : Memranges} {buffer : ℕ} {m : Mem} {seg : Segment}

/-! ### The result for one segment -/

/-- What a segment makes the loop return, if anything. -/
def decision (env : Env) (seg : Segment) : Option ℤ :=
  if seg.filesz = 0 then none
  else if seg.compression = CBFS_COMPRESS_LZMA then
    if env.ulzma seg.srcaddr = [] then some 0 else none
  else if seg.compression = CBFS_COMPRESS_NONE then none
  else some (-1)

/-- What the loop returns for a list of segments. -/
def verdict (env : Env) : List Segment → ℤ
  | [] => 1
  | seg :: rest => (decision env seg).getD (verdict env rest)

lemma loadSegment_fst : (loadSegment env m buffer seg).1 = decision env seg := by
  rw [loadSegment, decision]
  by_cases hfile : seg.filesz = 0
  · rw [if_pos hfile, if_pos hfile]
  · rw [if_neg hfile, if_neg hfile]
    by_cases hlzma : seg.compression = CBFS_COMPRESS_LZMA
    · simp only [if_pos hlzma, List.length_eq_zero_iff]
      split_ifs <;> rfl
    · by_cases hnone : seg.compression = CBFS_COMPRESS_NONE
      · simp only [if_neg hlzma, if_pos hnone, if_neg hfile]
      · simp only [if_neg hlzma, if_neg hnone]

lemma decision_of_none (h : seg.compression = CBFS_COMPRESS_NONE) : decision env seg = none := by
  have hne : CBFS_COMPRESS_NONE ≠ CBFS_COMPRESS_LZMA := by decide
  rw [decision, h, if_neg hne, if_pos rfl, ite_self]

/-! ### Relocation -/

/-- Addresses and sizes fit 32 bits. -/
structure Sized (seg : Segment) : Prop where
  dstaddr : seg.dstaddr < 2 ^ 32
  memsz : seg.memsz < 2 ^ 32

lemma overlapsCoreboot_iff : overlapsCoreboot env seg = true ↔
    env.image.lbStart < Word.add 32 seg.dstaddr seg.memsz ∧ seg.dstaddr < env.image.lbEnd := by
  simp [overlapsCoreboot]

/-- An upper bound for the rounds that a segment takes. -/
def weight (env : Env) (seg : Segment) : ℕ :=
  if overlapsCoreboot env seg = true then 3 * seg.memsz + 1 else 1

lemma weight_le : weight env seg ≤ 3 * seg.memsz + 1 := by
  rw [weight]
  split_ifs <;> omega

lemma one_le_weight : 1 ≤ weight env seg := by
  rw [weight]
  split_ifs <;> omega

lemma weight_of_not_overlaps (h : overlapsCoreboot env seg = false) : weight env seg = 1 := by
  rw [weight, h, if_neg Bool.false_ne_true]

/-- A piece that was cut off, or what is left without one. -/
structure Piece (env : Env) (new : Segment) : Prop where
  sized : Sized new
  apart : overlapsCoreboot env new = false
  decision_eq : decision env new = none

/-- What is left of a segment that a piece was cut off from. -/
structure Rest (env : Env) (seg rest : Segment) : Prop where
  sized : Sized rest
  decision_eq : decision env rest = decision env seg
  compression_eq : rest.compression = seg.compression
  memsz_le : rest.memsz ≤ seg.memsz
  inside : rest.dstaddr < env.image.lbEnd

lemma splitEarly_spec (hsized : Sized seg) (hoverlap : overlapsCoreboot env seg = true)
    (hnone : seg.compression = CBFS_COMPRESS_NONE) (hstart : seg.dstaddr < env.image.lbStart) :
    Piece env (splitEarly env seg).1 ∧ Rest env seg (splitEarly env seg).2 ∧
      (splitEarly env seg).2.memsz < seg.memsz ∧
      Word.add 32 (splitEarly env seg).2.dstaddr (splitEarly env seg).2.memsz =
        Word.add 32 seg.dstaddr seg.memsz := by
  obtain ⟨hd, hm⟩ := hsized
  have hlt := env.image.lt
  have hfits := env.image.fits
  obtain ⟨hend, hstart'⟩ := overlapsCoreboot_iff.mp hoverlap
  have hdecision : decision env seg = none := decision_of_none hnone
  have hlen : Word.sub 32 env.image.lbStart seg.dstaddr = env.image.lbStart - seg.dstaddr :=
    Word.sub_eq hstart.le (by omega)
  rw [Word.add] at hend
  have hle : env.image.lbStart - seg.dstaddr < seg.memsz := by omega
  have hrest : Word.sub 32 seg.memsz (env.image.lbStart - seg.dstaddr) =
      seg.memsz - (env.image.lbStart - seg.dstaddr) := Word.sub_eq hle.le hm
  have hdst : Word.add 32 seg.dstaddr (env.image.lbStart - seg.dstaddr) = env.image.lbStart := by
    rw [Word.add_eq (by omega)]
    omega
  simp only [splitEarly, hlen, hrest, hdst]
  refine ⟨⟨⟨hd, by simp only; omega⟩, ?_, decision_of_none hnone⟩,
    ⟨⟨by simp only; omega, by simp only; omega⟩, ?_, rfl, by simp only; omega, hlt⟩,
    by omega, ?_⟩
  · rw [← Bool.not_eq_true, overlapsCoreboot_iff]
    simp only [hdst]
    omega
  · rw [hdecision]
    exact decision_of_none hnone
  · rw [Word.add, Word.add]
    omega

lemma splitLate_spec (hsized : Sized seg) (hnone : seg.compression = CBFS_COMPRESS_NONE)
    (hinside : seg.dstaddr < env.image.lbEnd)
    (hend : env.image.lbEnd < Word.add 32 seg.dstaddr seg.memsz) :
    Rest env seg (splitLate env seg).1 ∧ Piece env (splitLate env seg).2 := by
  obtain ⟨hd, hm⟩ := hsized
  have hfits := env.image.fits
  have hdecision : decision env seg = none := decision_of_none hnone
  have hlen : Word.sub 32 env.image.lbEnd seg.dstaddr = env.image.lbEnd - seg.dstaddr :=
    Word.sub_eq hinside.le hfits
  rw [Word.add] at hend
  have hle : env.image.lbEnd - seg.dstaddr < seg.memsz := by omega
  have hdst : Word.add 32 seg.dstaddr (env.image.lbEnd - seg.dstaddr) = env.image.lbEnd := by
    rw [Word.add_eq (by omega)]
    omega
  simp only [splitLate, hlen, hdst]
  refine ⟨⟨⟨hd, by simp only; omega⟩, ?_, rfl, by simp only; omega, hinside⟩,
    ⟨⟨hfits, Word.sub_lt⟩, ?_, decision_of_none hnone⟩⟩
  · rw [hdecision]
    exact decision_of_none hnone
  · rw [← Bool.not_eq_true, overlapsCoreboot_iff]
    exact fun h => absurd h.2 (lt_irrefl _)

lemma Rest.refl (hsized : Sized seg) (hinside : seg.dstaddr < env.image.lbEnd) :
    Rest env seg seg := ⟨hsized, rfl, rfl, le_rfl, hinside⟩

/-- What `relocate_segment` does to a segment. -/
structure RelocatedSpec (env : Env) (seg : Segment) (r : Relocated) : Prop where
  sized : Sized r.seg
  decision_eq : decision env r.seg = decision env seg
  before : ∀ new ∈ r.before, Piece env new ∧ 3 * r.seg.memsz + 3 < weight env seg
  after : ∀ new ∈ r.after, Piece env new ∧ 1 < weight env seg

lemma early_spec (hsized : Sized seg) (hoverlap : overlapsCoreboot env seg = true) :
    ∃ before rest,
      (if seg.compression = CBFS_COMPRESS_NONE ∧ seg.dstaddr < env.image.lbStart then
        (some (splitEarly env seg).1, (splitEarly env seg).2) else (none, seg)) = (before, rest) ∧
      Rest env seg rest ∧ (∀ new ∈ before, Piece env new ∧ rest.memsz < seg.memsz) ∧
      Word.add 32 rest.dstaddr rest.memsz = Word.add 32 seg.dstaddr seg.memsz := by
  have hinside := (overlapsCoreboot_iff.mp hoverlap).2
  split_ifs with hsplit
  · obtain ⟨hpiece, hrest, hlt, hend⟩ := splitEarly_spec hsized hoverlap hsplit.1 hsplit.2
    refine ⟨_, _, rfl, hrest, fun new hnew => ?_, hend⟩
    obtain rfl := Option.some.inj hnew
    exact ⟨hpiece, hlt⟩
  · exact ⟨_, _, rfl, .refl hsized hinside, by simp, rfl⟩

lemma late_spec {end_ : ℕ} (hsized : Sized seg) (hinside : seg.dstaddr < env.image.lbEnd)
    (hend : Word.add 32 seg.dstaddr seg.memsz = end_) :
    ∃ rest after,
      (if seg.compression = CBFS_COMPRESS_NONE ∧ env.image.lbEnd < end_ then
        ((splitLate env seg).1, some (splitLate env seg).2) else (seg, none)) = (rest, after) ∧
      Rest env seg rest ∧ ∀ new ∈ after, Piece env new ∧ 0 < seg.memsz := by
  split_ifs with hsplit
  · obtain ⟨hrest, hpiece⟩ := splitLate_spec hsized hsplit.1 hinside (hend ▸ hsplit.2)
    refine ⟨_, _, rfl, hrest, fun new hnew => ?_⟩
    obtain rfl := Option.some.inj hnew
    refine ⟨hpiece, Nat.pos_of_ne_zero fun hzero => ?_⟩
    have hend' := hsplit.2
    rw [← hend, hzero, Word.add_eq (by have := hsized.dstaddr; omega)] at hend'
    omega
  · exact ⟨_, _, rfl, .refl hsized hinside, by simp⟩

lemma relocateSegment_spec (env : Env) (buffer : ℕ) (hsized : Sized seg) :
    RelocatedSpec env seg (relocateSegment env buffer seg) := by
  rw [relocateSegment]
  cases hoverlap : overlapsCoreboot env seg with
  | false => exact ⟨hsized, rfl, by simp, by simp⟩
  | true =>
    have hweight : weight env seg = 3 * seg.memsz + 1 := by rw [weight, if_pos hoverlap]
    obtain ⟨before, rest, hearly, hrest, hbefore, hend⟩ := early_spec hsized hoverlap
    obtain ⟨rest', after, hlate, hrest', hafter⟩ := late_spec hrest.sized hrest.inside hend
    simp only [hearly, hlate, Bool.true_eq_false, if_false]
    refine ⟨⟨Word.add_lt, hrest'.sized.memsz⟩, hrest'.decision_eq.trans hrest.decision_eq, ?_, ?_⟩
    · intro new hnew
      obtain ⟨hpiece, hlt⟩ := hbefore new hnew
      have := hrest'.memsz_le
      exact ⟨hpiece, by simp only; omega⟩
    · intro new hnew
      obtain ⟨hpiece, hpos⟩ := hafter new hnew
      have := hrest.memsz_le
      exact ⟨hpiece, by omega⟩

/-! ### The loop -/

lemma verdict_cons_piece {new : Segment} {rest : List Segment} (h : Piece env new) :
    verdict env (new :: rest) = verdict env rest := by
  rw [verdict, h.decision_eq, Option.getD_none]

lemma verdict_after {after : Option Segment} {rest : List Segment}
    (h : ∀ new ∈ after, Piece env new) : verdict env (after.toList ++ rest) = verdict env rest := by
  cases after with
  | none => rfl
  | some new => exact verdict_cons_piece (h new rfl)

lemma RelocatedSpec.sized_append {r : Relocated} (h : RelocatedSpec env seg r)
    {rest : List Segment} (hrest : ∀ seg ∈ rest, Sized seg) :
    ∀ seg ∈ r.after.toList ++ rest, Sized seg := by
  intro seg' hseg'
  rcases List.mem_append.mp hseg' with hafter | hmem
  · exact (h.after seg' (Option.mem_toList.mp hafter)).1.sized
  · exact hrest seg' hmem

/-- Whatever the loop returns is the verdict on the list. -/
lemma loadLoop_eq_some {fuel : ℕ} {l : List Segment} {result : ℤ} {m' : Mem}
    (hsized : ∀ seg ∈ l, Sized seg) (h : loadLoop env buffer fuel m l = some (result, m')) :
    result = verdict env l := by
  induction fuel generalizing m l with
  | zero =>
    cases l with
    | nil => rw [verdict, ← (Prod.mk.inj (Option.some.inj h)).1]
    | cons seg rest => cases h
  | succ fuel ih =>
    cases l with
    | nil => rw [verdict, ← (Prod.mk.inj (Option.some.inj h)).1]
    | cons seg rest =>
      rw [List.forall_mem_cons] at hsized
      have hspec := relocateSegment_spec env buffer hsized.1
      rw [loadLoop] at h
      generalize relocateSegment env buffer seg = r at h hspec
      have hrest := hspec.sized_append hsized.2
      have hverdict := @verdict_after env _ rest fun new hnew => (hspec.after new hnew).1
      cases hbefore : r.before with
      | some new =>
        rw [hbefore] at h
        have hpiece := (hspec.before new hbefore).1
        have hall : ∀ seg ∈ new :: r.seg :: (r.after.toList ++ rest), Sized seg :=
          List.forall_mem_cons.mpr ⟨hpiece.sized, List.forall_mem_cons.mpr ⟨hspec.sized, hrest⟩⟩
        rw [ih hall h, verdict_cons_piece hpiece, verdict, verdict, hverdict, hspec.decision_eq]
      | none =>
        rw [hbefore] at h
        have hfst := @loadSegment_fst env buffer m r.seg
        rw [hspec.decision_eq] at hfst
        rw [verdict]
        rcases hload : loadSegment env m buffer r.seg with ⟨_ | result', m''⟩
        · rw [hload] at h hfst
          rw [← hfst, Option.getD_none, ← hverdict]
          exact ih hrest h
        · rw [hload] at h hfst
          rw [← hfst, Option.getD_some]
          exact (Prod.mk.inj (Option.some.inj h)).1.symm

/-- The new segment behind takes one round. -/
lemma RelocatedSpec.weight_after {r : Relocated} (h : RelocatedSpec env seg r) :
    (r.after.toList.map (weight env)).sum ≤ 1 ∧
      (r.after.toList.map (weight env)).sum < weight env seg := by
  cases hafter : r.after with
  | none => exact ⟨Nat.zero_le _, one_le_weight⟩
  | some new =>
    obtain ⟨hpiece, hlt⟩ := h.after new hafter
    simp only [Option.toList_some, List.map_singleton, List.sum_singleton,
      weight_of_not_overlaps hpiece.apart]
    exact ⟨le_rfl, hlt⟩

/-- The loop comes to its end. -/
lemma exists_loadLoop {l : List Segment} (buffer : ℕ) (m : Mem)
    (hsized : ∀ seg ∈ l, Sized seg) :
    ∃ fuel r, loadLoop env buffer fuel m l = some r := by
  induction hn : (l.map (weight env)).sum using Nat.strong_induction_on generalizing l m with
  | _ n ih =>
    cases l with
    | nil => exact ⟨0, _, rfl⟩
    | cons seg rest =>
      rw [List.forall_mem_cons] at hsized
      have hspec := relocateSegment_spec env buffer hsized.1
      rw [List.map_cons, List.sum_cons] at hn
      have hrest := hspec.sized_append hsized.2
      obtain ⟨hafter, hafter'⟩ := hspec.weight_after
      cases hbefore : (relocateSegment env buffer seg).before with
      | some new =>
        -- the new segment is loaded next, and what is left of this one after it
        obtain ⟨hpiece, hlt⟩ := hspec.before new hbefore
        have hseg := @weight_le env (relocateSegment env buffer seg).seg
        obtain ⟨fuel, r, hfuel⟩ := ih _ (by
            simp only [List.map_cons, List.sum_cons, List.map_append, List.sum_append,
              weight_of_not_overlaps hpiece.apart]
            omega) m
          (List.forall_mem_cons.mpr ⟨hpiece.sized, List.forall_mem_cons.mpr ⟨hspec.sized, hrest⟩⟩)
          rfl
        exact ⟨fuel + 1, r, by rw [loadLoop, hbefore]; exact hfuel⟩
      | none =>
        rcases hload : loadSegment env m buffer (relocateSegment env buffer seg).seg with
          ⟨_ | result, m'⟩
        · obtain ⟨fuel, r, hfuel⟩ := ih _ (by
            simp only [List.map_append, List.sum_append]
            omega) m' hrest rfl
          exact ⟨fuel + 1, r, by rw [loadLoop, hbefore, hload]; exact hfuel⟩
        · exact ⟨1, _, by rw [loadLoop, hbefore, hload]⟩

/-! ### The list -/

/-- The record ends the table: it is the entry, or of a type that is not known. -/
def IsLast (r : CbfsPayloadSegment) : Prop :=
  r.type ≠ PAYLOAD_SEGMENT_PARAMS ∧ r.type ≠ PAYLOAD_SEGMENT_CODE ∧
    r.type ≠ PAYLOAD_SEGMENT_DATA ∧ r.type ≠ PAYLOAD_SEGMENT_BSS

instance (r : CbfsPayloadSegment) : Decidable (IsLast r) := inferInstanceAs (Decidable (_ ∧ _))

def lastRecord (records : List CbfsPayloadSegment) : Option CbfsPayloadSegment :=
  records.find? fun r => IsLast r

def beforeLast (records : List CbfsPayloadSegment) : List CbfsPayloadSegment :=
  records.takeWhile fun r => ¬IsLast r

def Loadable (r : CbfsPayloadSegment) : Prop :=
  r.type = PAYLOAD_SEGMENT_CODE ∨ r.type = PAYLOAD_SEGMENT_DATA

instance (r : CbfsPayloadSegment) : Decidable (Loadable r) := inferInstanceAs (Decidable (_ ∨ _))

/-- The segment that a record describes. -/
inductive Describes (env : Env) (r : CbfsPayloadSegment) : Segment → Prop where
  | loadable (h : Loadable r) : Describes env r (newSegment env r)
  | bss (h : r.type = PAYLOAD_SEGMENT_BSS) : Describes env r (newBss env r)

lemma Describes.sized {r : CbfsPayloadSegment} (h : Describes env r seg) : Sized seg := by
  have hdst := Nat.mod_lt r.loadAddr.toNat (by norm_num : 0 < 2 ^ 32)
  cases h with
  | loadable => exact ⟨hdst, r.memLen.toNat_lt⟩
  | bss => exact ⟨hdst, r.memLen.toNat_lt⟩

lemma mem_insertSegment {new : Segment} {behind : CbfsPayloadSegment} {list : List Segment} :
    seg ∈ insertSegment new behind list ↔ seg = new ∨ seg ∈ list := by
  rw [insertSegment]
  split_ifs
  · exact List.mem_cons
  · rw [List.mem_append, List.mem_singleton, or_comm]

lemma beforeLast_cons {r : CbfsPayloadSegment} {rest : List CbfsPayloadSegment} (h : ¬IsLast r) :
    beforeLast (r :: rest) = r :: beforeLast rest := by
  rw [beforeLast, List.takeWhile_cons, if_pos (by simpa using h), beforeLast]

lemma describes_loadable_iff {r : CbfsPayloadSegment} (h : Loadable r) :
    Describes env r seg ↔ seg = newSegment env r := by
  refine ⟨?_, fun heq => heq ▸ .loadable h⟩
  rintro (hload | hbss)
  · rfl
  · rcases h with h | h <;> exact absurd (h.symm.trans hbss) (by decide)

lemma describes_bss_iff {r : CbfsPayloadSegment} (h : r.type = PAYLOAD_SEGMENT_BSS) :
    Describes env r seg ↔ seg = newBss env r := by
  refine ⟨?_, fun heq => heq ▸ .bss h⟩
  rintro (hload | hbss)
  · rcases hload with hload | hload <;> exact absurd (h.symm.trans hload) (by decide)
  · rfl

/-- What the loop leaves in `entry` and returns. -/
def builtOf (last : CbfsPayloadSegment) (segments : List Segment) : Built :=
  if last.type = PAYLOAD_SEGMENT_ENTRY then ⟨segments, last.loadAddr.toNat % 2 ^ 32, 1⟩
  else ⟨segments, 0, -1⟩

lemma builtOf_result_ne (last : CbfsPayloadSegment) (segments : List Segment) :
    (builtOf last segments).result ≠ 0 := by
  rw [builtOf]
  split_ifs <;> norm_num

lemma builtOf_segments (last : CbfsPayloadSegment) (segments : List Segment) :
    (builtOf last segments).segments = segments := by
  rw [builtOf]
  split_ifs <;> rfl

lemma builtOf_entry_ne_iff {last : CbfsPayloadSegment} {segments : List Segment} :
    (builtOf last segments).entry ≠ 0 ↔
      last.type = PAYLOAD_SEGMENT_ENTRY ∧ last.loadAddr.toNat % 2 ^ 32 ≠ 0 := by
  rw [builtOf]
  split_ifs with htype
  · simp only [htype, true_and]
  · simp [htype]

/-- The segment that a record describes, if there is one. -/
def describe (env : Env) (r : CbfsPayloadSegment) : Option Segment :=
  if Loadable r then some (newSegment env r)
  else if r.type = PAYLOAD_SEGMENT_BSS then some (newBss env r)
  else none

lemma describe_eq_some {r : CbfsPayloadSegment} : describe env r = some seg ↔ Describes env r seg := by
  rw [describe]
  split_ifs with hload hbss
  · rw [describes_loadable_iff hload, Option.some.injEq, eq_comm]
  · rw [describes_bss_iff hbss, Option.some.injEq, eq_comm]
  · refine iff_of_false (by simp) ?_
    rintro (h | h)
    · exact hload h
    · exact hbss h

lemma describe_last {r : CbfsPayloadSegment} (h : IsLast r) : describe env r = none := by
  obtain ⟨-, hcode, hdata, hbss⟩ := h
  rw [describe, if_neg (by rw [Loadable]; tauto), if_neg hbss]

/-- The list after the segment of a record has been put into it. -/
def insertRecord (env : Env) (r behind : CbfsPayloadSegment) (list : List Segment) :
    List Segment :=
  match describe env r with
  | some new => insertSegment new behind list
  | none => list

lemma buildLoop_last (list : List Segment) {r : CbfsPayloadSegment} (h : IsLast r)
    (rest : List CbfsPayloadSegment) : buildLoop env list (r :: rest) = some (builtOf r list) := by
  obtain ⟨hparams, hcode, hdata, hbss⟩ := h
  rw [buildLoop.eq_def]
  simp only [hparams, hcode, hdata, hbss, or_self, if_false, builtOf]
  split_ifs <;> rfl

lemma buildLoop_cons (list : List Segment) {r : CbfsPayloadSegment} (h : ¬IsLast r)
    (behind : CbfsPayloadSegment) (rest : List CbfsPayloadSegment) :
    buildLoop env list (r :: behind :: rest) =
      buildLoop env (insertRecord env r behind list) (behind :: rest) := by
  by_cases hparams : r.type = PAYLOAD_SEGMENT_PARAMS
  · have hload : ¬Loadable r := by
      rw [Loadable, hparams]
      decide
    rw [buildLoop, if_pos hparams, insertRecord, describe, if_neg hload, hparams, if_neg (by decide)]
  · rw [buildLoop, if_neg hparams, insertRecord, describe]
    by_cases hload : Loadable r
    · rw [if_pos hload, if_pos (show _ ∨ _ from hload)]
    · have hbss : r.type = PAYLOAD_SEGMENT_BSS := by
        unfold IsLast at h
        unfold Loadable at hload
        tauto
      rw [if_neg hload, if_neg (show ¬(_ ∨ _) from hload), if_pos hbss, if_pos hbss]

lemma mem_insertRecord {r behind : CbfsPayloadSegment} {list : List Segment} :
    seg ∈ insertRecord env r behind list ↔ seg ∈ list ∨ Describes env r seg := by
  rw [insertRecord, ← describe_eq_some]
  cases describe env r with
  | none => simp
  | some new => rw [mem_insertSegment, Option.some.injEq, or_comm, eq_comm]

/-- The records in front of the last one are taken one after the other. -/
@[elab_as_elim]
lemma lastRecord_induction {last : CbfsPayloadSegment} {P : List CbfsPayloadSegment → Prop}
    (hend : ∀ rest, IsLast last → P (last :: rest))
    (hstep : ∀ r behind rest, ¬IsLast r → lastRecord (behind :: rest) = some last →
      P (behind :: rest) → P (r :: behind :: rest))
    {records : List CbfsPayloadSegment} (hlast : lastRecord records = some last) : P records := by
  induction records with
  | nil => cases hlast
  | cons r rest ih =>
    rw [lastRecord, List.find?_cons] at hlast
    by_cases hr : IsLast r
    · simp only [hr, decide_true, Option.some.injEq] at hlast
      subst hlast
      exact hend rest hr
    · simp only [hr, decide_false] at hlast
      cases rest with
      | nil => cases hlast
      | cons behind rest => exact hstep r behind rest hr hlast (ih hlast)

lemma beforeLast_last {r : CbfsPayloadSegment} (h : IsLast r) (rest : List CbfsPayloadSegment) :
    beforeLast (r :: rest) = [] := by
  rw [beforeLast, List.takeWhile_cons, if_neg (by simpa using h)]

/-- The segments are those that the records in front of the last one describe. -/
lemma buildLoop_eq (list : List Segment) {records : List CbfsPayloadSegment}
    {last : CbfsPayloadSegment} (hlast : lastRecord records = some last) :
    ∃ segments, buildLoop env list records = some (builtOf last segments) ∧
      ∀ seg, seg ∈ segments ↔ seg ∈ list ∨ ∃ r ∈ beforeLast records, Describes env r seg := by
  revert list
  refine lastRecord_induction ?_ ?_ hlast
  · intro rest hr list
    exact ⟨list, buildLoop_last list hr rest, by simp [beforeLast_last hr]⟩
  · intro r behind rest hr _ ih list
    obtain ⟨segments, hbuild, hmem⟩ := ih (insertRecord env r behind list)
    refine ⟨segments, by rw [buildLoop_cons list hr, hbuild], fun seg => ?_⟩
    rw [hmem, mem_insertRecord, beforeLast_cons hr, List.exists_mem_cons_iff, or_assoc]

/-- The segments in the order in which they are loaded. -/
def loadOrder (env : Env) (records : List CbfsPayloadSegment) : List Segment :=
  ((buildSelfSegmentList env records).map Built.segments).getD []

lemma buildSelfSegmentList_eq {records : List CbfsPayloadSegment} {last : CbfsPayloadSegment}
    (hlast : lastRecord records = some last) :
    buildSelfSegmentList env records = some (builtOf last (loadOrder env records)) ∧
      ∀ seg, seg ∈ loadOrder env records ↔ ∃ r ∈ beforeLast records, Describes env r seg := by
  obtain ⟨segments, hbuild, hmem⟩ := @buildLoop_eq env [] _ _ hlast
  have horder : loadOrder env records = segments := by
    rw [loadOrder, buildSelfSegmentList, hbuild, builtOf]
    split_ifs <;> rfl
  rw [horder]
  exact ⟨hbuild, fun seg => by rw [hmem]; simp⟩

/-! ### What is loaded -/

/-- The decompression of a segment fails. -/
structure Fails (env : Env) (seg : Segment) : Prop where
  filesz : seg.filesz ≠ 0
  compression : seg.compression = CBFS_COMPRESS_LZMA
  error : env.ulzma seg.srcaddr = []

/-- The compression of a segment is not known. -/
structure UnknownCompression (seg : Segment) : Prop where
  filesz : seg.filesz ≠ 0
  not_none : seg.compression ≠ CBFS_COMPRESS_NONE
  not_lzma : seg.compression ≠ CBFS_COMPRESS_LZMA

/-- A decompression fails before a segment of unknown compression is met. -/
def FailsFirst (env : Env) : List Segment → Prop
  | [] => False
  | seg :: rest => Fails env seg ∨ (¬UnknownCompression seg ∧ FailsFirst env rest)

lemma decision_eq_zero : decision env seg = some 0 ↔ Fails env seg := by
  rw [decision]
  constructor
  · intro h
    split_ifs at h with hfile hlzma herror
    · exact ⟨hfile, hlzma, herror⟩
    · cases h
  · rintro ⟨hfile, hlzma, herror⟩
    rw [if_neg hfile, if_pos hlzma, if_pos herror]

lemma decision_eq_neg (env : Env) : decision env seg = some (-1) ↔ UnknownCompression seg := by
  rw [decision]
  constructor
  · intro h
    split_ifs at h with hfile hlzma herror hnone
    · cases h
    · exact ⟨hfile, hnone, hlzma⟩
  · rintro ⟨hfile, hnone, hlzma⟩
    rw [if_neg hfile, if_neg hlzma, if_neg hnone]

lemma decision_cases (env : Env) (seg : Segment) :
    decision env seg = none ∨ decision env seg = some 0 ∨ decision env seg = some (-1) := by
  rw [decision]
  split_ifs <;> simp

lemma verdict_eq_zero {l : List Segment} : verdict env l = 0 ↔ FailsFirst env l := by
  induction l with
  | nil => exact iff_of_false (by simp [verdict]) id
  | cons seg rest ih =>
    rw [verdict, FailsFirst, ← ih, ← decision_eq_zero, ← decision_eq_neg env]
    rcases decision_cases env seg with h | h | h <;> simp [h]

/-- Nothing but a segment of unknown compression keeps the payload from being loaded. -/
structure Accepted (env : Env) (bootmem : Memranges) (records : List CbfsPayloadSegment) :
    Prop where
  entry : ∃ last, lastRecord records = some last ∧ last.type = PAYLOAD_SEGMENT_ENTRY ∧
    last.loadAddr.toNat % 2 ^ 32 ≠ 0
  allowed : ∀ seg ∈ loadOrder env records, Allowed bootmem seg
  buffer : bounceBuffer env bootmem (loadOrder env records) ≠ 0
  decompresses : ¬FailsFirst env (loadOrder env records)

/-- `selfload` ends, and returns an entry exactly for the payloads that are accepted. -/
lemma selfload_spec (m : Mem) {records : List CbfsPayloadSegment} {last : CbfsPayloadSegment}
    (hlast : lastRecord records = some last) :
    (∃ fuel r, selfload env bootmem fuel m records = some r) ∧
      ∀ fuel p m', selfload env bootmem fuel m records = some (p, m') →
        (p ≠ 0 ↔ Accepted env bootmem records) := by
  obtain ⟨hbuild, hmem⟩ := @buildSelfSegmentList_eq env _ _ hlast
  have hsized : ∀ seg ∈ loadOrder env records, Sized seg := by
    intro seg hseg
    obtain ⟨r, -, hr⟩ := (hmem seg).mp hseg
    exact hr.sized
  simp only [selfload, hbuild, Option.bind_some, if_neg (builtOf_result_ne _ _),
    builtOf_segments, loadSelfSegments]
  by_cases hallowed : ∀ seg ∈ loadOrder env records, Allowed bootmem seg
  · have hnone : ¬∃ seg ∈ loadOrder env records, ¬Allowed bootmem seg := by
      push Not
      exact hallowed
    simp only [if_neg hnone]
    by_cases hbuffer : bounceBuffer env bootmem (loadOrder env records) = 0
    · simp only [if_pos hbuffer]
      refine ⟨⟨0, _, rfl⟩, fun fuel p m' h => ?_⟩
      obtain rfl : 0 = p := (Prod.mk.inj (Option.some.inj h)).1
      exact iff_of_false (fun hne => hne rfl) fun haccepted => haccepted.buffer hbuffer
    · simp only [if_neg hbuffer]
      refine ⟨?_, fun fuel p m' h => ?_⟩
      · obtain ⟨fuel, r, hload⟩ := exists_loadLoop
          (bounceBuffer env bootmem (loadOrder env records)) m hsized
        exact ⟨fuel, _, by rw [hload, Option.map_some]⟩
      · obtain ⟨⟨result, m''⟩, hload, hresult⟩ := Option.map_eq_some_iff.mp h
        have hverdict := loadLoop_eq_some hsized hload
        subst hverdict
        by_cases hzero : verdict env (loadOrder env records) = 0
        · rw [if_pos hzero] at hresult
          obtain rfl : 0 = p := (Prod.mk.inj hresult).1
          exact iff_of_false (fun hne => hne rfl)
            fun haccepted => haccepted.decompresses (verdict_eq_zero.mp hzero)
        · rw [if_neg hzero] at hresult
          obtain rfl : (builtOf last (loadOrder env records)).entry = p :=
            (Prod.mk.inj hresult).1
          rw [builtOf_entry_ne_iff]
          constructor
          · rintro ⟨htype, hentry⟩
            exact ⟨⟨last, hlast, htype, hentry⟩, hallowed, hbuffer,
              fun hfails => hzero (verdict_eq_zero.mpr hfails)⟩
          · intro haccepted
            obtain ⟨last', hlast', hentry⟩ := haccepted.entry
            rwa [← Option.some.inj (hlast.symm.trans hlast')] at hentry
  · have hsome : ∃ seg ∈ loadOrder env records, ¬Allowed bootmem seg := by
      push Not at hallowed
      exact hallowed
    simp only [if_pos hsome]
    refine ⟨⟨0, _, rfl⟩, fun fuel p m' h => ?_⟩
    obtain rfl : 0 = p := (Prod.mk.inj (Option.some.inj h)).1
    exact iff_of_false (fun hne => hne rfl) fun haccepted => hallowed haccepted.allowed

/-! ### Payloads that have to be refused -/

/-- A record that is loaded, with a compression that is not known. -/
structure BadCompression (r : CbfsPayloadSegment) : Prop where
  loadable : Loadable r
  memLen : r.memLen ≠ 0
  not_none : r.compression.toNat ≠ CBFS_COMPRESS_NONE
  not_lzma : r.compression.toNat ≠ CBFS_COMPRESS_LZMA

/-- The destination is neither usable memory nor below 1 MiB. -/
structure BadDestination (bootmem : Memranges) (r : CbfsPayloadSegment) : Prop where
  type : Loadable r ∨ r.type = PAYLOAD_SEGMENT_BSS
  memLen : r.memLen ≠ 0
  not_ram : ¬InUsableRam bootmem r.loadAddr.toNat r.memLen.toNat
  not_low : ¬r.loadAddr.toNat + r.memLen.toNat ≤ oneMeg

/-- A record of which the decompression fails. -/
structure BadDecompression (env : Env) (r : CbfsPayloadSegment) : Prop where
  loadable : Loadable r
  fails : Fails env (newSegment env r)

/-- In front of the entry there is something that cannot be loaded. -/
def Bad (env : Env) (bootmem : Memranges) (records : List CbfsPayloadSegment) : Prop :=
  ∃ last, lastRecord records = some last ∧
    (last.type ≠ PAYLOAD_SEGMENT_ENTRY ∨
      ∃ r ∈ beforeLast records,
        BadCompression r ∨ BadDestination bootmem r ∨ BadDecompression env r)

/-- `selfload` returns `NULL` for a payload that cannot be loaded. -/
def Rejects (env : Env) (bootmem : Memranges) (m : Mem) (records : List CbfsPayloadSegment) :
    Prop :=
  Bad env bootmem records → ∃ fuel m', selfload env bootmem fuel m records = some (0, m')

lemma exists_unknownCompression {l : List Segment} (hmem : seg ∈ l) (hfails : Fails env seg)
    (h : ¬FailsFirst env l) : ∃ seg' ∈ l, UnknownCompression seg' := by
  induction l with
  | nil => cases hmem
  | cons first rest ih =>
    rw [FailsFirst, not_or, not_and] at h
    by_cases hunknown : UnknownCompression first
    · exact ⟨first, by simp, hunknown⟩
    · rcases List.mem_cons.mp hmem with rfl | hmem
      · exact absurd hfails h.1
      · obtain ⟨seg', hseg', hunknown'⟩ := ih hmem (h.2 hunknown)
        exact ⟨seg', List.mem_cons_of_mem _ hseg', hunknown'⟩

lemma newSegment_filesz (r : CbfsPayloadSegment) :
    (newSegment env r).filesz = min r.len.toNat r.memLen.toNat := by
  rw [newSegment]
  split_ifs with hlt
  · exact (Nat.min_eq_right (UInt32.lt_iff_toNat_lt.mp hlt).le).symm
  · exact (Nat.min_eq_left (not_lt.mp fun h => hlt (UInt32.lt_iff_toNat_lt.mpr h))).symm

/-- Only a record has a compression that is not known. -/
lemma Describes.badCompression {r : CbfsPayloadSegment} (h : Describes env r seg)
    (hunknown : UnknownCompression seg) : BadCompression r := by
  obtain ⟨hfile, hnone, hlzma⟩ := hunknown
  cases h with
  | loadable hload =>
    refine ⟨hload, fun hzero => hfile ?_, hnone, hlzma⟩
    rw [newSegment_filesz, hzero, UInt32.toNat_zero, Nat.min_zero]
  | bss => exact absurd rfl hfile

/-- A payload is refused exactly if what it is to be refused for is not a compression or a
destination that the checks let through. -/
theorem rejects_iff (env : Env) (bootmem : Memranges) (m : Mem)
    (records : List CbfsPayloadSegment) :
    Rejects env bootmem m records ↔
      ¬(Accepted env bootmem records ∧
        ∃ r ∈ beforeLast records, BadCompression r ∨ BadDestination bootmem r) := by
  constructor
  · rintro hrejects ⟨haccepted, r, hr, hbad⟩
    obtain ⟨last, hlast, -⟩ := haccepted.entry
    obtain ⟨fuel, m', hselfload⟩ :=
      hrejects ⟨last, hlast, .inr ⟨r, hr, by tauto⟩⟩
    exact ((selfload_spec m hlast).2 fuel 0 m' hselfload).mpr haccepted rfl
  · rintro h ⟨last, hlast, hbad⟩
    obtain ⟨⟨fuel, ⟨p, m'⟩, hselfload⟩, hspec⟩ :=
      @selfload_spec env bootmem m _ _ hlast
    by_cases hp : p = 0
    · exact ⟨fuel, m', by rw [hselfload, hp]⟩
    exfalso
    have haccepted := (hspec fuel p m' hselfload).mp hp
    rcases hbad with htype | ⟨r, hr, hbad⟩
    · obtain ⟨last', hlast', hentry, -⟩ := haccepted.entry
      rw [Option.some.inj (hlast.symm.trans hlast')] at htype
      exact htype hentry
    · rcases hbad with hcompression | hdestination | hdecompression
      · exact h ⟨haccepted, r, hr, .inl hcompression⟩
      · exact h ⟨haccepted, r, hr, .inr hdestination⟩
      · -- the loop came to a segment of unknown compression before the one that fails
        have hmem := (@buildSelfSegmentList_eq env _ _ hlast).2
        obtain ⟨seg, hseg, hunknown⟩ := exists_unknownCompression
          ((hmem _).mpr ⟨r, hr, .loadable hdecompression.loadable⟩) hdecompression.fails
          haccepted.decompresses
        obtain ⟨r', hr', hdescribes⟩ := (hmem seg).mp hseg
        exact h ⟨haccepted, r', hr', .inl (hdescribes.badCompression hunknown)⟩

/-- 2 GiB of memory, and coreboot at 1 MiB. -/
def ram : Memranges := ⟨[⟨0, 0x7fffffff, LB_MEM_RAM⟩]⟩

def flash : Env where
  image := ⟨0x100000, 0x140000, by norm_num, by norm_num⟩
  firstSegment := 0xffc00000
  rom := fun _ => 0
  ulzma := fun _ => []
  garbage := fun _ => 0

/-- A page of code of compression 2. -/
def oddCode : CbfsPayloadSegment := ⟨PAYLOAD_SEGMENT_CODE, 2, 56, 0x400000, 0x1000, 0x1000⟩

def oddlyCompressed : List CbfsPayloadSegment :=
  [oddCode, ⟨PAYLOAD_SEGMENT_ENTRY, 0, 0, 0x400000, 0, 0⟩]

/-- The -1 for the compression is taken for success. -/
theorem not_rejects_oddlyCompressed : ¬∀ env bootmem m records, Rejects env bootmem m records := by
  intro h
  have horder : loadOrder flash oddlyCompressed = [newSegment flash oddCode] := by decide
  have haccepted : Accepted flash ram oddlyCompressed := by
    refine ⟨⟨_, rfl, rfl, by decide⟩, ?_, ?_, ?_⟩
    · rw [horder]
      decide +kernel
    · rw [horder]
      decide +kernel
    · rw [horder]
      rintro (hfails | ⟨-, hfalse⟩)
      · exact absurd hfails.compression (by decide)
      · exact hfalse
  have hbad : Bad flash ram oddlyCompressed :=
    ⟨_, rfl, .inr ⟨oddCode, by decide, .inl ⟨.inl rfl, by decide, by decide, by decide⟩⟩⟩
  obtain ⟨fuel, m', hnull⟩ := h flash ram (fun _ => 0) oddlyCompressed hbad
  exact ((selfload_spec _ rfl).2 fuel 0 m' hnull).mpr haccepted rfl

/-- A destination that the checks let through is bad only if it does not fit 32 bits. -/
theorem not_badDestination {env : Env} {bootmem : Memranges} {r : CbfsPayloadSegment}
    {seg : Segment} (hcan : bootmem.IsCanonical) (hdescribes : Describes env r seg)
    (hfit : r.loadAddr.toNat + r.memLen.toNat < 2 ^ 32) (hallowed : Allowed bootmem seg) :
    ¬BadDestination bootmem r := by
  rintro ⟨-, -, hram, hlow⟩
  have hdst : seg.dstaddr = r.loadAddr.toNat ∧ seg.memsz = r.memLen.toNat := by
    cases hdescribes <;> exact ⟨Nat.mod_eq_of_lt (by omega), rfl⟩
  rw [Allowed, hdst.1, hdst.2] at hallowed
  rcases hallowed with htargets | ⟨-, hend⟩
  · exact hram (inUsableRam_of_targets hcan (by omega) htargets)
  · rw [Word.add_eq hfit] at hend
    exact hlow hend

end ApuBios.SelfBoot
