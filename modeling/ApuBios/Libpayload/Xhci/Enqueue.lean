import ApuBios.Library.Tiling
import ApuBios.Libpayload.Xhci.Ring

/-!
# Transfer descriptors of the XHCI driver

A buffer is cut at the 64 KiB boundaries, and one block is queued for each piece.
-/

namespace ApuBios.Xhci

open Usb Tiling

variable {tr tr₀ tr' : TransferRing} {trb : Trb} {trbs : List Trb}
variable {p pcs ep mps dir total sent start length packets residue trbCount fuel : ℕ}

/-! ### One block -/

/-- How many bytes from `start` on do not cross a 64 KiB boundary. -/
def room (start : ℕ) : ℕ := 0x10000 - start % 0x10000

lemma curLength_eq (start : ℕ) :
    Word.sub 32 (Word.alignDown 32 (Word.add 32 start 0x10000) 0x10000) start = room start := by
  have halign := Word.alignDown_eq (w := 32) (k := 16) (x := Word.add 32 start 0x10000) (by norm_num)
    Word.add_lt
  rw [show (0x10000 : ℕ) = 2 ^ 16 from rfl] at halign ⊢
  rw [halign, Word.sub, Word.add, room]
  omega

/-- A block for the `len` bytes from `start` on, with the number of packets after it, and whether it
is the last one. -/
structure Describes (trb : Trb) (start len packets : ℕ) (last : Prop) [Decidable last] : Prop where
  ptrLow : trb.ptrLow = start % 2 ^ 32
  tl : trb.get .tl = len
  tds : trb.get .tds = packets % 32
  ch : trb.get .ch = if last then 0 else 1
  ioc : trb.get .ioc = if last then 1 else 0
  tt : trb.get .tt ≠ trbLink

lemma describes_fillTrb {len : ℕ} {dataStage : Bool} (hlen : len ≤ 0x10000) :
    Describes (fillTrb pcs start len packets dataStage dir length) start len packets (length = 0) := by
  set cleared : Trb := { clearTrb pcs with ptrLow := virtToPhys start } with hcleared
  have hzero (tok : Tok) (h : tok ≠ .c) : cleared.get tok = 0 := clearTrb_get pcs h
  set sized := (cleared.set .tl len).set .tds packets with hsized
  set typed := if dataStage then (sized.set .dir dir).set .tt trbDataStage else sized.set .tt trbNormal
    with htyped
  have hkept (tok : Tok) (hdir : tok.Apart .dir) (htt : tok.Apart .tt) : typed.get tok = sized.get tok := by
    rw [htyped]
    split
    · rw [Trb.get_set_of_apart htt, Trb.get_set_of_apart hdir]
    · rw [Trb.get_set_of_apart htt]
  have hptr : typed.ptrLow = start % 2 ^ 32 := by
    rw [htyped, hsized, hcleared]
    split <;> simp
  have htl : typed.get .tl = len := by
    rw [hkept .tl (by decide) (by decide), hsized, Trb.get_set_of_apart (by decide), Trb.get_set_self]
    exact Nat.mod_eq_of_lt (by simp only [Tok.field]; omega)
  have htds : typed.get .tds = packets % 32 := by
    rw [hkept .tds (by decide) (by decide), hsized, Trb.get_set_self]
    rfl
  have hch : typed.get .ch = 0 := by
    rw [hkept .ch (by decide) (by decide), hsized, Trb.get_set_of_apart (by decide),
      Trb.get_set_of_apart (by decide), hzero .ch (by decide)]
  have hioc : typed.get .ioc = 0 := by
    rw [hkept .ioc (by decide) (by decide), hsized, Trb.get_set_of_apart (by decide),
      Trb.get_set_of_apart (by decide), hzero .ioc (by decide)]
  have htt : typed.get .tt ≠ trbLink := by
    rw [htyped]
    split <;> rw [Trb.get_set_self] <;> decide
  have hfill : fillTrb pcs start len packets dataStage dir length =
      if length = 0 then typed.set .ioc 1 else typed.set .ch 1 := rfl
  rw [hfill]
  split
  · rename_i hlast
    refine ⟨Trb.set_ptrLow.trans hptr, ?_, ?_, ?_, ?_, ?_⟩
    · rw [Trb.get_set_of_apart (by decide), htl]
    · rw [Trb.get_set_of_apart (by decide), htds]
    · rw [Trb.get_set_of_apart (by decide), hch, if_pos hlast]
    · rw [Trb.get_set_self, if_pos hlast]
      rfl
    · rw [Trb.get_set_of_apart (by decide)]
      exact htt
  · rename_i hlast
    refine ⟨Trb.set_ptrLow.trans hptr, ?_, ?_, ?_, ?_, ?_⟩
    · rw [Trb.get_set_of_apart (by decide), htl]
    · rw [Trb.get_set_of_apart (by decide), htds]
    · rw [Trb.get_set_self, if_neg hlast]
      rfl
    · rw [Trb.get_set_of_apart (by decide), hioc, if_neg hlast]
    · rw [Trb.get_set_of_apart (by decide)]
      exact htt

/-- The cycle bit does not matter. -/
lemma Describes.set_c {len v : ℕ} {last : Prop} [Decidable last]
    (h : Describes trb start len packets last) :
    Describes (trb.set .c v) start len packets last := by
  obtain ⟨hptr, htl, htds, hch, hioc, htt⟩ := h
  refine ⟨Trb.set_ptrLow.trans hptr, ?_, ?_, ?_, ?_, ?_⟩
  · rw [Trb.get_set_of_apart (by decide), htl]
  · rw [Trb.get_set_of_apart (by decide), htds]
  · rw [Trb.get_set_of_apart (by decide), hch]
  · rw [Trb.get_set_of_apart (by decide), hioc]
  · rw [Trb.get_set_of_apart (by decide)]
    exact htt

/-! ### The pieces of the buffer -/

/-- The bytes of a block. -/
def Trb.len (trb : Trb) : ℕ := trb.get .tl

/-- All blocks but the last one have the chain bit, and the last one alone interrupts. -/
def Chained (trbs : List Trb) : Prop := ∀ (i : ℕ) (hi : i < trbs.length),
  trbs[i].get .ch = (if i + 1 = trbs.length then 0 else 1) ∧
    trbs[i].get .ioc = (if i + 1 = trbs.length then 1 else 0)

/-- No block crosses a 64 KiB boundary. -/
def Within (trbs : List Trb) : Prop := ∀ trb ∈ trbs, trb.ptrLow % 0x10000 + trb.len ≤ 0x10000

/-- How many packets of a buffer of `total` bytes are left after the first `sent` bytes, and none
after all of them. -/
def packetsLeft (mps total sent : ℕ) : ℕ :=
  if sent = total then 0 else (total + mps - 1) / mps - sent / mps

/-- Each block has the number of packets that are left after it, `sent` bytes being sent before. -/
def SizesRight (mps total : ℕ) : ℕ → List Trb → Prop
  | _, [] => True
  | sent, trb :: trbs => trb.get .tds = packetsLeft mps total (sent + trb.len) ∧
      SizesRight mps total (sent + trb.len) trbs

/-- The number of packets after the first block fits into the field, and a buffer that ends at a
64 KiB boundary ends with a whole packet. -/
def SizesFit (mps total sent start length : ℕ) : Prop :=
  (length ≤ room start ∨ (total + mps - 1) / mps - (sent + room start) / mps < 32) ∧
    ((start + length) % 0x10000 = 0 → mps ∣ total)

lemma chained_singleton (h : Describes trb start length packets (0 = 0)) : Chained [trb] := by
  intro i hi
  obtain rfl : i = 0 := by simpa using hi
  exact ⟨h.ch, h.ioc⟩

lemma chained_cons {last : Prop} [Decidable last] (h : Describes trb start length packets last)
    (hlast : ¬last) (hne : trbs ≠ []) (htrbs : Chained trbs) : Chained (trb :: trbs) := by
  have hpos := List.length_pos_iff.mpr hne
  intro i hi
  rcases i with _ | i
  · have hmore : 0 + 1 ≠ (trb :: trbs).length := by
      rw [List.length_cons]
      omega
    rw [if_neg hmore, if_neg hmore, List.getElem_cons_zero, h.ch, h.ioc, if_neg hlast, if_neg hlast]
    exact ⟨rfl, rfl⟩
  · rw [List.getElem_cons_succ]
    simpa using htrbs i (by simpa using hi)

/-! ### Counting packets -/

/-- The packets that are begun with `x` bytes and with the residue of the bytes before. -/
lemma carry_div (hmps : 0 < mps) (x : ℕ) :
    sent / mps + (sent % mps + x) / mps = (sent + x) / mps := by
  have hsplit : sent + x = sent % mps + x + mps * (sent / mps) := by
    have := Nat.mod_add_div sent mps
    omega
  rw [hsplit, Nat.add_mul_div_left _ _ hmps, Nat.add_comm]

/-- The packets that are left at the end of the buffer, which is one if the last one is a short one. -/
lemma packets_last (hmps : 0 < mps) :
    ((total + mps - 1) / mps - total / mps) % 32 = 0 ↔ mps ∣ total := by
  have hdiv := Nat.mod_add_div total mps
  have hmod := Nat.mod_lt total hmps
  set q := total / mps with hq
  have hround : (total + mps - 1) / mps = q + (total % mps + mps - 1) / mps := by
    have hsplit : total + mps - 1 = total % mps + mps - 1 + mps * q := by omega
    rw [hsplit, Nat.add_mul_div_left _ _ hmps, Nat.add_comm]
  rw [hround, Nat.add_sub_cancel_left, Nat.dvd_iff_mod_eq_zero]
  rcases Nat.eq_zero_or_pos (total % mps) with hzero | hpos
  · rw [hzero, Nat.zero_add, Nat.div_eq_of_lt (by omega)]
  · have hone : (total % mps + mps - 1) / mps = 1 := by
      rw [Nat.div_eq_iff hmps]
      omega
    rw [hone]
    omega

/-- A block that ends inside of 64 KiB is the last one and has no packets after it. -/
lemma sizesRight_short (h : Describes trb start length 0 (0 = 0)) (htotal : sent + length = total)
    (hempty : length = 0 → sent = 0) (hlt : length < room start) :
    SizesRight mps total sent [trb] ↔ SizesFit mps total sent start length := by
  have hright : SizesRight mps total sent [trb] := by
    refine ⟨?_, trivial⟩
    rw [Trb.len, h.tl, h.tds, packetsLeft, if_pos htotal]
  have hfit : SizesFit mps total sent start length := by
    refine ⟨Or.inl hlt.le, fun hmod => ?_⟩
    rw [room] at hlt
    have hzero : length = 0 := by omega
    rw [← htotal, hempty hzero, hzero]
    exact dvd_zero mps
  exact iff_of_true hright hfit

/-- A last block that ends at a boundary has the right size if it ends with a whole packet. -/
lemma sizesRight_exact (hmps : 0 < mps) (h : Describes trb start length packets (0 = 0))
    (hpackets : packets = (total + mps - 1) / mps - (sent + length) / mps)
    (htotal : sent + length = total) (heq : length = room start) :
    SizesRight mps total sent [trb] ↔ SizesFit mps total sent start length := by
  have hboundary : (start + length) % 0x10000 = 0 := by
    rw [heq, room]
    omega
  simp only [SizesRight, SizesFit, Trb.len, h.tl, h.tds, packetsLeft, hpackets, htotal, if_true,
    packets_last hmps, heq.le, true_or, true_and, and_true, hboundary, forall_const]

/-- Before the last block, the number of packets has to fit into the field. -/
lemma sizesRight_long {last : Prop} [Decidable last]
    (h : Describes trb start (room start) packets last)
    (hpackets : packets = (total + mps - 1) / mps - (sent + room start) / mps)
    (htotal : sent + length = total) (hlt : room start < length)
    (ih : SizesRight mps total (sent + room start) trbs ↔
      SizesFit mps total (sent + room start) (Word.add 32 start (room start)) (length - room start)) :
    SizesRight mps total sent (trb :: trbs) ↔ SizesFit mps total sent start length := by
  have hnext : Word.add 32 start (room start) % 0x10000 = 0 := by
    rw [Word.add, room]
    omega
  have hroom : room (Word.add 32 start (room start)) = 0x10000 := by
    rw [room, hnext]
  have hend : (Word.add 32 start (room start) + (length - room start)) % 0x10000 =
      (start + length) % 0x10000 := by
    rw [Nat.add_mod, hnext, Nat.zero_add, Nat.mod_mod]
    rw [room] at hlt ⊢
    omega
  have hleft : packetsLeft mps total (sent + room start) = packets := by
    rw [packetsLeft, if_neg (by omega), hpackets]
  have hmono : (sent + room start) / mps ≤ (sent + room start + 0x10000) / mps :=
    Nat.div_le_div_right (Nat.le_add_right ..)
  rw [SizesRight, Trb.len, h.tl, ih, h.tds, hleft, SizesFit, SizesFit, hroom, hend, ← hpackets]
  refine ⟨fun hall => ⟨Or.inr ?_, hall.2.2⟩, fun hall => ?_⟩
  · have := hall.1
    omega
  · have hfits : packets < 32 := hall.1.resolve_left (by omega)
    exact ⟨Nat.mod_eq_of_lt hfits, Or.inr (by omega), hall.2⟩

/-! ### One block in the buffer -/

lemma Describes.tiles {len : ℕ} {last : Prop} [Decidable last] (h : Describes trb start len packets last) :
    TilesMod Trb.ptrLow Trb.len (2 ^ 32) start [trb] (start + len) := by
  refine ⟨h.ptrLow, ?_⟩
  rw [Trb.len, h.tl]
  rfl

/-- The blocks behind a block, whose address may have wrapped around. -/
lemma Describes.tiles_cons {len rest : ℕ} {last : Prop} [Decidable last] {trbs : List Trb}
    (h : Describes trb start len packets last)
    (htiles : TilesMod Trb.ptrLow Trb.len (2 ^ 32) (Word.add 32 start len) trbs (Word.add 32 start len + rest)) :
    TilesMod Trb.ptrLow Trb.len (2 ^ 32) start (trb :: trbs) (start + len + rest) := by
  refine ⟨h.ptrLow, ?_⟩
  rw [Trb.len, h.tl]
  exact htiles.of_mod

/-- A block that is no longer than the room does not cross a boundary. -/
lemma Describes.within_cons {len : ℕ} {last : Prop} [Decidable last] {trbs : List Trb}
    (h : Describes trb start len packets last) (hle : len ≤ room start) (htrbs : Within trbs) :
    Within (trb :: trbs) := by
  have hmod : start % 2 ^ 32 % 0x10000 = start % 0x10000 := Nat.mod_mod_of_dvd start ⟨2 ^ 16, rfl⟩
  refine List.forall_mem_cons.mpr ⟨?_, htrbs⟩
  rw [h.ptrLow, Trb.len, h.tl, hmod]
  rw [room] at hle
  omega

lemma Describes.within {len : ℕ} {last : Prop} [Decidable last] (h : Describes trb start len packets last)
    (hle : len ≤ room start) : Within [trb] :=
  h.within_cons hle fun _ hmem => absurd hmem List.not_mem_nil

/-! ### The whole buffer -/

lemma tdLoop_short (hmore : length ≠ 0 ∨ trbCount = 0) (hlt : length < room start) :
    tdLoop ep mps dir (fuel + 1) tr start length packets residue trbCount =
      (enqueueTrb fuel (tr.modify tr.cur fun _ =>
        fillTrb tr.pcs start length 0 (trbCount = 0 ∧ ep = 1) dir 0)).bind fun tr =>
          tdLoop ep mps dir fuel tr (Word.add 32 start length) 0 0 residue (trbCount + 1) := by
  rw [tdLoop, if_pos hmore]
  simp only [curLength_eq, decide_eq_true hlt, if_true]

lemma tdLoop_full (hmore : length ≠ 0 ∨ trbCount = 0) (hle : room start ≤ length) :
    tdLoop ep mps dir (fuel + 1) tr start length packets residue trbCount =
      (enqueueTrb fuel (tr.modify tr.cur fun _ =>
        fillTrb tr.pcs start (room start) (packets - (residue + room start) / mps)
          (trbCount = 0 ∧ ep = 1) dir (length - room start))).bind fun tr =>
            tdLoop ep mps dir fuel tr (Word.add 32 start (room start)) (length - room start)
              (packets - (residue + room start) / mps) ((residue + room start) % mps) (trbCount + 1) := by
  have hshort : decide (length < room start) = false := decide_eq_false (by omega)
  rw [tdLoop, if_pos hmore]
  simp only [curLength_eq, hshort, if_neg Bool.false_ne_true]

lemma tdLoop_done (hfuel : 0 < fuel) :
    tdLoop ep mps dir fuel tr start 0 packets residue (trbCount + 1) = some tr := by
  obtain ⟨fuel, rfl⟩ := Nat.exists_eq_succ_of_ne_zero hfuel.ne'
  rw [tdLoop, if_neg (by simp)]

/-- The loop ends within `k` blocks if what is left of the buffer extends into as many pieces. -/
lemma tdLoop_queued (ep dir : ℕ) (hmps : 0 < mps) (hp : p < 31) (k : ℕ) {queued : List Trb}
    (htr : Queued tr₀ p queued tr) (hk : 0 < k) (hroom : queued.length + k ≤ 31)
    (hpieces : start % 0x10000 + length ≤ 0x10000 * k) (htotal : sent + length = total)
    (hempty : length = 0 → trbCount = 0 ∧ sent = 0) :
    ∃ tr' trbs, (∀ fuel, k + 2 ≤ fuel → tdLoop ep mps dir fuel tr start length
        ((total + mps - 1) / mps - sent / mps) (sent % mps) trbCount = some tr') ∧
      Queued tr₀ p (queued ++ trbs) tr' ∧ trbs ≠ [] ∧
      TilesMod Trb.ptrLow Trb.len (2 ^ 32) start trbs (start + length) ∧
      Within trbs ∧ Chained trbs ∧
      (SizesRight mps total sent trbs ↔ SizesFit mps total sent start length) := by
  induction k generalizing tr queued start length sent trbCount with
  | zero => exact absurd hk (lt_irrefl 0)
  | succ k ih =>
    have hmore : length ≠ 0 ∨ trbCount = 0 := by
      by_cases hzero : length = 0
      · exact Or.inr (hempty hzero).1
      · exact Or.inl hzero
    have hcarry : (total + mps - 1) / mps - sent / mps - (sent % mps + room start) / mps =
        (total + mps - 1) / mps - (sent + room start) / mps := by
      rw [Nat.sub_sub, carry_div hmps]
    have hroomle : room start ≤ 0x10000 := Nat.sub_le ..
    rcases Nat.lt_trichotomy length (room start) with hlt | heq | hgt
    · -- the buffer ends inside of a piece
      set trb := fillTrb tr.pcs start length 0 (trbCount = 0 ∧ ep = 1) dir 0 with htrb
      have hle : length ≤ 0x10000 := by
        rw [room] at hlt
        omega
      have hfill : Describes trb start length 0 (0 = 0) := describes_fillTrb hle
      obtain ⟨tr', henq, hqueued⟩ := htr.snoc hp (by omega) hfill.tt
      have hblock := hfill.set_c (v := tr.pcs)
      refine ⟨tr', [trb.set .c tr.pcs], ?_, hqueued, by simp, hblock.tiles, hblock.within hlt.le,
        chained_singleton hblock, sizesRight_short hblock htotal (fun hzero => (hempty hzero).2) hlt⟩
      intro fuel hfuel
      obtain ⟨fuel, rfl⟩ := Nat.exists_eq_succ_of_ne_zero (Nat.ne_of_gt (Nat.zero_lt_of_lt hfuel))
      rw [tdLoop_short hmore hlt, henq fuel (by omega), Option.bind_some, tdLoop_done (by omega)]
    · -- the buffer ends with the piece
      set packets := (total + mps - 1) / mps - (sent + room start) / mps with hpackets
      set trb := fillTrb tr.pcs start length packets (trbCount = 0 ∧ ep = 1) dir 0 with htrb
      have hfill : Describes trb start length packets (0 = 0) := describes_fillTrb (heq.trans_le hroomle)
      obtain ⟨tr', henq, hqueued⟩ := htr.snoc hp (by omega) hfill.tt
      have hblock := hfill.set_c (v := tr.pcs)
      refine ⟨tr', [trb.set .c tr.pcs], ?_, hqueued, by simp, hblock.tiles, hblock.within heq.le,
        chained_singleton hblock, sizesRight_exact hmps hblock (heq ▸ hpackets) htotal heq⟩
      intro fuel hfuel
      obtain ⟨fuel, rfl⟩ := Nat.exists_eq_succ_of_ne_zero (Nat.ne_of_gt (Nat.zero_lt_of_lt hfuel))
      rw [tdLoop_full hmore heq.ge, hcarry, ← heq, Nat.sub_self, henq fuel (by omega), Option.bind_some,
        tdLoop_done (by omega)]
    · -- the rest of the buffer starts with the next piece
      set packets := (total + mps - 1) / mps - (sent + room start) / mps with hpackets
      set trb := fillTrb tr.pcs start (room start) packets (trbCount = 0 ∧ ep = 1) dir
        (length - room start) with htrb
      have hfill : Describes trb start (room start) packets (length - room start = 0) :=
        describes_fillTrb hroomle
      have hlast : ¬length - room start = 0 := by omega
      obtain ⟨tr₁, henq, hqueued₁⟩ := htr.snoc hp (by omega) hfill.tt
      have hblock := hfill.set_c (v := tr.pcs)
      have hnext : Word.add 32 start (room start) % 0x10000 = 0 := by
        rw [Word.add, room]
        omega
      have hk' : 0 < k := by
        rw [room] at hgt
        omega
      have hpieces' : Word.add 32 start (room start) % 0x10000 + (length - room start) ≤ 0x10000 * k := by
        rw [hnext, room]
        omega
      have htotal' : sent + room start + (length - room start) = total := by omega
      have hempty' : length - room start = 0 → trbCount + 1 = 0 ∧ sent + room start = 0 :=
        fun hzero => absurd hzero hlast
      have hroom' : (queued ++ [trb.set .c tr.pcs]).length + k ≤ 31 := by
        rw [List.length_append, List.length_singleton]
        omega
      obtain ⟨tr', trbs, hloop, hqueued, hne, htiles, hin, hchained, hsizes⟩ :=
        ih hqueued₁ hk' hroom' hpieces' htotal' hempty'
      refine ⟨tr', trb.set .c tr.pcs :: trbs, ?_, ?_, by simp, ?_, hblock.within_cons le_rfl hin,
        chained_cons hblock hlast hne hchained, sizesRight_long hblock hpackets htotal hgt hsizes⟩
      · intro fuel hfuel
        obtain ⟨fuel, rfl⟩ := Nat.exists_eq_succ_of_ne_zero (Nat.ne_of_gt (Nat.zero_lt_of_lt hfuel))
        rw [tdLoop_full hmore hgt.le, hcarry, henq fuel (by omega), Option.bind_some, Nat.mod_add_mod]
        exact hloop fuel (by omega)
      · rw [List.append_cons]
        exact hqueued
      · have hend : start + length = start + room start + (length - room start) := by omega
        rw [hend]
        exact hblock.tiles_cons htiles

/-- What queueing a buffer at the `p`-th position leaves: blocks that stand in the ring, that tile the
buffer without crossing a 64 KiB boundary, and of which the last one alone is not chained and
interrupts. -/
structure QueuedTd (tr : TransferRing) (p data dalen : ℕ) (trbs : List Trb) (tr' : TransferRing) : Prop where
  queued : Queued tr p trbs tr'
  ne_nil : trbs ≠ []
  tiles : TilesMod Trb.ptrLow Trb.len (2 ^ 32) data trbs (data + dalen)
  within : Within trbs
  chained : Chained trbs

lemma enqueueTd_eq {data dalen : ℕ} (hmps : 0 < mps) (hle : dalen + mps ≤ 2 ^ 32) :
    enqueueTd fuel tr ep mps dalen data dir =
      tdLoop ep mps dir fuel tr data dalen ((dalen + mps - 1) / mps - 0 / mps) (0 % mps) 0 := by
  rw [enqueueTd, Word.sub_add_one (by omega) hle, Nat.zero_div, Nat.zero_mod, Nat.sub_zero]

/-- At every position of a ring and for every buffer within the limit that `xhci_bulk` checks, the
descriptor is queued. The sizes of its blocks are right if the number of packets after the first block
fits into the field, and the buffer does not end at a 64 KiB boundary inside of a packet. -/
theorem enqueueTd_iff (ep dir data dalen : ℕ) (htr : IsCycleRing tr p) (hmps : 0 < mps)
    (hlt : mps < 2 ^ 16) (hlimit : data % 0x10000 + dalen ≤ (transferRingSize - 1) * 0x10000) :
    ∃ tr' trbs, (∀ fuel, 33 ≤ fuel → enqueueTd fuel tr ep mps dalen data dir = some tr') ∧
      QueuedTd tr p data dalen trbs tr' ∧
      (SizesRight mps dalen 0 trbs ↔ SizesFit mps dalen 0 data dalen) := by
  rw [transferRingSize] at hlimit
  obtain ⟨tr', trbs, hloop, hqueued, hne, htiles, hin, hchained, hsizes⟩ :=
    tdLoop_queued ep dir hmps htr.lt 31 (queued_nil htr) (by norm_num) (by simp)
      (by omega) (Nat.zero_add dalen) (fun _ => ⟨rfl, rfl⟩)
  refine ⟨tr', trbs, fun fuel hfuel => ?_, ⟨hqueued, hne, htiles, hin, hchained⟩, hsizes⟩
  rw [enqueueTd_eq hmps (by omega)]
  exact hloop fuel hfuel

def sampleRing : TransferRing := initCycleRing ⟨0x1000, 0, 0, fun _ => ⟨0, 0, 0, 0⟩⟩ transferRingSize

lemma isCycleRing_sample : IsCycleRing sampleRing 0 :=
  (isCycleRing_init ⟨0x1000, 0, 0, fun _ => ⟨0, 0, 0, 0⟩⟩ (by decide)).1

theorem enqueueTd_iff_sample :
    ∃ tr' trbs, (∀ fuel, 33 ≤ fuel →
        enqueueTd fuel sampleRing 2 512 512 0x1fff0 trbDirIn = some tr') ∧
      QueuedTd sampleRing 0 0x1fff0 512 trbs tr' ∧ SizesRight 512 512 0 trbs := by
  obtain ⟨tr', trbs, hrun, hqueued, hiff⟩ := enqueueTd_iff 2 trbDirIn 0x1fff0 512 isCycleRing_sample
    (show 0 < 512 by norm_num) (by norm_num) (by decide)
  exact ⟨tr', trbs, hrun, hqueued, hiff.mpr ⟨.inr (by decide), by decide⟩⟩

/-- A packet of 16 bytes that ends at a 64 KiB boundary is announced as one before the last one. -/
theorem size_after_last : ∃ tr', enqueueTd 33 sampleRing 2 512 16 0x1fff0 trbDirIn = some tr' ∧
    ¬∃ trbs, QueuedTd sampleRing 0 0x1fff0 16 trbs tr' ∧ SizesRight 512 16 0 trbs := by
  obtain ⟨tr', htr'⟩ : ∃ tr', enqueueTd 33 sampleRing 2 512 16 0x1fff0 trbDirIn = some tr' := ⟨_, rfl⟩
  have hfirst : (enqueueTd 33 sampleRing 2 512 16 0x1fff0 trbDirIn).map
      (fun tr => ((tr.mem 0x1000).get .tl, (tr.mem 0x1000).get .tds)) = some (16, 1) := by
    decide +kernel
  rw [htr', Option.map_some, Option.some_inj, Prod.mk.injEq] at hfirst
  refine ⟨tr', htr', ?_⟩
  rintro ⟨trbs, h, hright⟩
  obtain ⟨trb, trbs, rfl⟩ := List.exists_cons_of_ne_nil h.ne_nil
  have hstands : tr'.mem 0x1000 = trb := h.queued.stands 0 (by simp)
  rw [hstands] at hfirst
  have htds := hright.1
  rw [Trb.len, hfirst.1, hfirst.2] at htds
  exact absurd htds (by decide)

/-! ### The callers -/

lemma ecMps_lt (f2 : ℕ) : ecMps f2 < 2 ^ 16 := BitField.get_lt

lemma and_ffff (data : ℕ) : data &&& 0xffff = data % 0x10000 := by
  rw [show (0xffff : ℕ) = 2 ^ 16 - 1 from rfl, Nat.and_two_pow_sub_one_eq_mod]

/-- A descriptor within the limit leaves a ring. -/
lemma enqueueTd_isCycleRing (ep dir data dalen : ℕ) (htr : IsCycleRing tr p) (hmps : 0 < mps)
    (hlt : mps < 2 ^ 16) (hlimit : data % 0x10000 + dalen ≤ 0x10000 * 31) :
    ∃ tr' p', (∀ fuel, 33 ≤ fuel → enqueueTd fuel tr ep mps dalen data dir = some tr') ∧
      IsCycleRing tr' p' := by
  obtain ⟨tr', trbs, hloop, hqueued, -⟩ := tdLoop_queued ep dir hmps htr.lt 31 (queued_nil htr)
    (by norm_num) (by simp) hlimit (Nat.zero_add dalen) (fun _ => ⟨rfl, rfl⟩)
  refine ⟨tr', _, fun fuel hfuel => ?_, hqueued.isCycleRing⟩
  rw [enqueueTd_eq hmps (by omega)]
  exact hloop fuel hfuel

lemma bulkQueue_eq {f2 : ℕ} (epId size data : ℕ) (direction : Direction) :
    bulkQueue fuel tr epId f2 size data direction =
      if (transferRingSize - 1) * 0x10000 < data % 0x10000 + size then none
      else some (enqueueTd fuel tr epId (ecMps f2) size data
        (if direction = .out then trbDirOut else trbDirIn)) := by
  rw [← and_ffff, ← Nat.shiftLeft_eq (transferRingSize - 1) 16]
  rfl

/-- A bulk transfer is either refused or queued, and leaves a ring. -/
theorem bulkQueue_isCycleRing {f2 : ℕ} (epId size data : ℕ) (direction : Direction)
    (htr : IsCycleRing tr p) (hmps : 0 < ecMps f2) (hfuel : 33 ≤ fuel) :
    bulkQueue fuel tr epId f2 size data direction = none ∨
      ∃ tr' p', bulkQueue fuel tr epId f2 size data direction = some (some tr') ∧ IsCycleRing tr' p' := by
  rw [bulkQueue_eq]
  by_cases hlimit : (transferRingSize - 1) * 0x10000 < data % 0x10000 + size
  · exact Or.inl (if_pos hlimit)
  · obtain ⟨tr', p', htd, hring⟩ := enqueueTd_isCycleRing epId
      (if direction = .out then trbDirOut else trbDirIn) data size htr hmps (ecMps_lt f2)
      (by rw [transferRingSize] at hlimit; omega)
    refine Or.inr ⟨tr', p', ?_, hring⟩
    rw [if_neg hlimit, htd fuel hfuel]

lemma setupTrb_tt (pcs : ℕ) (direction : Direction) (devreq : ℕ × ℕ) (dalen : ℕ) :
    (setupTrb pcs direction devreq dalen).get .tt ≠ trbLink := by
  rw [setupTrb, Trb.get_set_of_apart (by decide), Trb.get_set_of_apart (by decide), Trb.get_set_self]
  decide

lemma statusTrb_tt (pcs : ℕ) (direction : Direction) : (statusTrb pcs direction).get .tt ≠ trbLink := by
  rw [statusTrb, Trb.get_set_of_apart (by decide), Trb.get_set_self]
  decide

lemma controlQueue_eq {f2 : ℕ} (direction : Direction) (devreq : ℕ × ℕ) (dalen data : ℕ) :
    controlQueue fuel tr f2 direction devreq dalen data =
      if (transferRingSize - 3) * 0x10000 < data % 0x10000 + dalen then none
      else some <|
        (enqueueTrb fuel (tr.modify tr.cur fun _ => setupTrb tr.pcs direction devreq dalen)).bind fun tr =>
          (if dalen ≠ 0 then
            enqueueTd fuel tr 1 (ecMps f2) dalen data (if direction = .out then trbDirOut else trbDirIn)
          else some tr).bind fun tr =>
            enqueueTrb fuel (tr.modify tr.cur fun _ => statusTrb tr.pcs direction) := by
  rw [← and_ffff, ← Nat.shiftLeft_eq (transferRingSize - 3) 16]
  rfl

/-- A control transfer is either refused or queued with all its stages, and leaves a ring. -/
theorem controlQueue_isCycleRing {f2 : ℕ} (direction : Direction) (devreq : ℕ × ℕ) (dalen data : ℕ)
    (htr : IsCycleRing tr p) (hmps : 0 < ecMps f2) (hfuel : 33 ≤ fuel) :
    controlQueue fuel tr f2 direction devreq dalen data = none ∨
      ∃ tr' p', controlQueue fuel tr f2 direction devreq dalen data = some (some tr') ∧
        IsCycleRing tr' p' := by
  rw [controlQueue_eq]
  by_cases hlimit : (transferRingSize - 3) * 0x10000 < data % 0x10000 + dalen
  · exact Or.inl (if_pos hlimit)
  · obtain ⟨tr₁, hsetup, henq₁⟩ := enqueueTrb_enqueued htr (setupTrb tr.pcs direction devreq dalen)
    have hring₁ := henq₁.isCycleRing htr (setupTrb_tt _ _ _ _)
    set dtDir := if direction = .out then trbDirOut else trbDirIn with hdtDir
    obtain ⟨tr₂, p₂, hdata, hring₂⟩ : ∃ tr₂ p₂, (if dalen ≠ 0 then
        enqueueTd fuel tr₁ 1 (ecMps f2) dalen data dtDir else some tr₁) = some tr₂ ∧ IsCycleRing tr₂ p₂ := by
      split
      · obtain ⟨tr₂, p₂, htd, hring₂⟩ :=
          enqueueTd_isCycleRing 1 dtDir data dalen hring₁ hmps (ecMps_lt f2)
            (by rw [transferRingSize] at hlimit; omega)
        exact ⟨tr₂, p₂, htd fuel hfuel, hring₂⟩
      · exact ⟨tr₁, _, rfl, hring₁⟩
    obtain ⟨tr₃, hstatus, henq₃⟩ := enqueueTrb_enqueued hring₂ (statusTrb tr₂.pcs direction)
    refine Or.inr ⟨tr₃, _, ?_, henq₃.isCycleRing hring₂ (statusTrb_tt _ _)⟩
    rw [if_neg hlimit, hsetup fuel (by omega), Option.bind_some, hdata, Option.bind_some,
      hstatus fuel (by omega)]

end ApuBios.Xhci
