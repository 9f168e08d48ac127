import ApuBios.Library.Tiling
import ApuBios.Libpayload.Ehci.Basic

/-!
# Bulk transfers of the EHCI driver

A transfer is cut into chunks of at most five pages, each but the last one a multiple of 512 bytes long.
Together the descriptors cover the buffer.
-/

namespace ApuBios.Ehci

open Usb Tiling

variable {td : Qtd} {data page datalen total left len : ℕ}

/-! ### The fields of the token -/

lemma qtdTotalLenMask_testBit (i : ℕ) : qtdTotalLenMask.testBit (16 + i) = decide (i < 15) := by
  have hmask : qtdTotalLenMask = (2 ^ 15 - 1) <<< 16 := rfl
  rw [hmask, Nat.testBit_shiftLeft, Nat.testBit_two_pow_sub_one]
  simp

lemma totalLen_testBit (td : Qtd) (i : ℕ) :
    td.totalLen.testBit i = (decide (i < 15) && td.token.testBit (16 + i)) := by
  rw [Qtd.totalLen, Nat.testBit_shiftRight, Nat.testBit_and]
  rw [show qtdTotalLenShift = 16 from rfl, qtdTotalLenMask_testBit, Bool.and_comm]

/-- The length can be read back once it is put into a token without one. -/
lemma totalLen_or (hlen : len < 2 ^ 15) (htd : td.totalLen = 0) :
    { td with token := td.token ||| len <<< qtdTotalLenShift }.totalLen = len := by
  apply Nat.eq_of_testBit_eq
  intro i
  have hold := totalLen_testBit td i
  rw [htd, Nat.zero_testBit] at hold
  rw [totalLen_testBit, Nat.testBit_or, Nat.testBit_shiftLeft]
  by_cases hi : i < 15
  · rw [decide_eq_true hi, Bool.true_and] at hold ⊢
    rw [← hold]
    simp [qtdTotalLenShift]
  · have : len.testBit i = false :=
      Nat.testBit_lt_two_pow (hlen.trans_le (Nat.pow_le_pow_right (by norm_num) (by omega)))
    simp [hi, this]

/-- Bits of the token beside the length do not change it. -/
lemma totalLen_or_of_testBit {x : ℕ} (hx : ∀ i < 15, x.testBit (16 + i) = false) :
    { td with token := td.token ||| x }.totalLen = td.totalLen := by
  apply Nat.eq_of_testBit_eq
  intro i
  rw [totalLen_testBit, totalLen_testBit, Nat.testBit_or]
  by_cases hi : i < 15
  · rw [hx i hi, Bool.or_false]
  · simp [hi]

/-- The length does not reach the data toggle. -/
lemma toggle_or (hlen : len < 2 ^ 15) :
    { td with token := td.token ||| len <<< qtdTotalLenShift }.toggle = td.toggle := by
  rw [Qtd.toggle, Nat.testBit_or, Nat.testBit_shiftLeft]
  have : len.testBit 15 = false := Nat.testBit_lt_two_pow hlen
  simp [qtdToggleShift, qtdTotalLenShift, Qtd.toggle, this]

/-! ### The page pointers -/

lemma fillPages_succ : fillPages td page datalen total (left + 1) =
    if datalen ≤ 4096 then (td.setBufptr (4 - left) (Word.add 32 page 4096), total + datalen)
    else fillPages (td.setBufptr (4 - left) (Word.add 32 page 4096)) (Word.add 32 page 4096)
      (datalen - 4096) (if left = 0 then Word.alignDown 32 (total + 4096) 512 else total + 4096) left :=
  rfl

lemma fillPages_token : (fillPages td page datalen total left).1.token = td.token := by
  induction left generalizing td page datalen total with
  | zero => rfl
  | succ left ih =>
    rw [fillPages_succ]
    split
    · rfl
    · exact ih

lemma fillPages_nextQtd : (fillPages td page datalen total left).1.nextQtd = td.nextQtd := by
  induction left generalizing td page datalen total with
  | zero => rfl
  | succ left ih =>
    rw [fillPages_succ]
    split
    · rfl
    · exact ih

/-- What is left of the buffer is taken if it fits, and else as many packets as do. -/
lemma fillPages_len (hleft : 0 < left) (htotal : total + 4096 * left < 2 ^ 32) :
    (fillPages td page datalen total left).2 =
      if datalen ≤ 4096 * left then total + datalen else (total + 4096 * left) / 512 * 512 := by
  induction left generalizing td page datalen total with
  | zero => exact absurd hleft (lt_irrefl 0)
  | succ left ih =>
    rw [fillPages_succ]
    by_cases hlen : datalen ≤ 4096
    · rw [if_pos hlen, if_pos (by omega)]
    · rw [if_neg hlen]
      rcases Nat.eq_zero_or_pos left with rfl | hpos
      · have halign := Word.alignDown_eq (w := 32) (k := 9) (x := total + 4096) (by omega) (by omega)
        rw [if_pos rfl, if_neg (by omega)]
        exact halign
      · rw [if_neg hpos.ne', ih hpos (by omega)]
        by_cases hfit : datalen ≤ 4096 * (left + 1)
        · rw [if_pos (by omega), if_pos hfit]
          omega
        · rw [if_neg (by omega), if_neg hfit]
          congr 2
          omega

/-- The pointers that are left lead to the pages that what is left of the buffer extends into. -/
lemma fillPages_bufptrs (hleft : left ≤ 5) (hdata : 0 < datalen) {j : ℕ} (hj : j < 5) :
    (fillPages td page datalen total left).1.bufptrs[j] =
      if 5 - left ≤ j ∧ 4096 * (j + left - 5) < datalen then
        (page + 4096 * (j + left - 4)) % 2 ^ 32
      else td.bufptrs[j] := by
  induction left generalizing td page datalen total with
  | zero =>
    have hout : ¬(5 - 0 ≤ j ∧ 4096 * (j + 0 - 5) < datalen) := by omega
    rw [if_neg hout]
    rfl
  | succ left ih =>
    have hset := Qtd.setBufptr_bufptrs td (4 - left) (Word.add 32 page 4096) hj
    rw [fillPages_succ]
    by_cases hlen : datalen ≤ 4096
    · rw [if_pos hlen, hset]
      by_cases hj' : 4 - left = j
      · have hin : 5 - (left + 1) ≤ j ∧ 4096 * (j + (left + 1) - 5) < datalen := by omega
        rw [if_pos hj', if_pos hin, Word.add]
        congr 1
        omega
      · have hout : ¬(5 - (left + 1) ≤ j ∧ 4096 * (j + (left + 1) - 5) < datalen) := by omega
        rw [if_neg hj', if_neg hout]
    · rw [if_neg hlen, ih (by omega) (by omega), hset]
      by_cases hj' : 4 - left = j
      · have hin : 5 - (left + 1) ≤ j ∧ 4096 * (j + (left + 1) - 5) < datalen := by omega
        have hout : ¬(5 - left ≤ j ∧ 4096 * (j + left - 5) < datalen - 4096) := by omega
        rw [if_pos hj', if_neg hout, if_pos hin, Word.add]
        congr 1
        omega
      · rw [if_neg hj']
        by_cases hin : 5 - left ≤ j ∧ 4096 * (j + left - 5) < datalen - 4096
        · have hin' : 5 - (left + 1) ≤ j ∧ 4096 * (j + (left + 1) - 5) < datalen := by omega
          rw [if_pos hin, if_pos hin', Word.add, Nat.mod_add_mod]
          congr 1
          omega
        · have hout : ¬(5 - (left + 1) ≤ j ∧ 4096 * (j + (left + 1) - 5) < datalen) := by omega
          rw [if_neg hin, if_neg hout]

/-! ### One descriptor -/

/-- How many bytes of a buffer of `n` bytes fit into a descriptor. -/
def chunkLen (data n : ℕ) : ℕ :=
  if n ≤ 20480 - data % 4096 then n else (20480 - data % 4096) / 512 * 512

lemma chunkLen_le (data n : ℕ) : chunkLen data n ≤ n := by
  rw [chunkLen]
  split <;> omega

lemma chunkLen_bound (data n : ℕ) : data % 4096 + chunkLen data n ≤ 5 * 4096 := by
  rw [chunkLen]
  split <;> omega

/-- A buffer that does not fit is cut at a packet. -/
lemma chunkLen_of_lt {n : ℕ} (h : chunkLen data n < n) :
    0 < chunkLen data n ∧ 512 ∣ chunkLen data n := by
  rw [chunkLen] at h ⊢
  split at h
  · omega
  · rename_i hn
    rw [if_neg hn]
    exact ⟨by omega, Nat.dvd_mul_left ..⟩

/-- A chunk extends into the same of the five pages as the whole buffer. -/
lemma chunkLen_extends (data n : ℕ) {j : ℕ} (hj : j < 5) :
    4096 * j < data % 4096 + n ↔ 4096 * j < data % 4096 + chunkLen data n := by
  rw [chunkLen]
  split <;> omega

lemma offset_eq : virtToPhys data &&& 4095 = data % 4096 := by
  rw [virtToPhys_eq, show (4095 : ℕ) = 2 ^ 12 - 1 from rfl, Nat.and_two_pow_sub_one_eq_mod]
  exact Nat.mod_mod_of_dvd data ⟨2 ^ 20, rfl⟩

lemma page_eq : Word.alignDown 32 (virtToPhys data) 4096 = virtToPhys data - data % 4096 := by
  have halign := Word.alignDown_eq (w := 32) (k := 12) (by omega) (virtToPhys_lt data)
  have hmod : virtToPhys data % 4096 = data % 4096 := Nat.mod_mod_of_dvd data ⟨2 ^ 20, rfl⟩
  have hdiv := Nat.div_add_mod (virtToPhys data) 4096
  rw [show (4096 : ℕ) = 2 ^ 12 from rfl, halign]
  omega

lemma fillTd_len (n : ℕ) : (fillTd td data n).2 = chunkLen data n := by
  have hlt : data % 4096 < 4096 := Nat.mod_lt _ (by norm_num)
  rw [fillTd]
  simp only [offset_eq]
  by_cases hn : n ≤ 4096 - data % 4096
  · rw [if_pos hn, chunkLen, if_pos (by omega)]
  · rw [if_neg hn, fillPages_len (by norm_num) (by omega), chunkLen]
    by_cases hfit : n ≤ 20480 - data % 4096
    · rw [if_pos (by omega), if_pos hfit]
      omega
    · rw [if_neg (by omega), if_neg hfit]
      congr 2
      omega

lemma fillTd_token (n : ℕ) :
    (fillTd td data n).1.token = td.token ||| chunkLen data n <<< qtdTotalLenShift := by
  have hlen : (fillTd td data n).2 = chunkLen data n := fillTd_len n
  rw [← hlen]
  rw [fillTd]
  simp only
  split
  · simp
  · rw [fillPages_token]
    simp

lemma fillTd_nextQtd (n : ℕ) : (fillTd td data n).1.nextQtd = td.nextQtd := by
  rw [fillTd]
  simp only
  split
  · rfl
  · exact fillPages_nextQtd

/-- The first pointer is the start of the buffer, the other ones lead to the pages it extends into. -/
lemma fillTd_bufptrs (n : ℕ) {j : ℕ} (hj : j < 5) : (fillTd td data n).1.bufptrs[j] =
    if j = 0 then virtToPhys data
    else if 4096 * j < data % 4096 + n then (virtToPhys data - data % 4096 + 4096 * j) % 2 ^ 32
    else td.bufptrs[j] := by
  have hlt : data % 4096 < 4096 := Nat.mod_lt _ (by norm_num)
  rw [fillTd]
  simp only [offset_eq, page_eq]
  by_cases hn : n ≤ 4096 - data % 4096
  · simp only [if_pos hn]
    rw [Qtd.setBufptr_bufptrs _ _ _ hj]
    rcases Nat.eq_zero_or_pos j with rfl | hpos
    · rfl
    · rw [if_neg hpos.ne, if_neg hpos.ne', if_neg (by omega)]
  · simp only [if_neg hn]
    rw [fillPages_bufptrs (by norm_num) (by omega) hj, Qtd.setBufptr_bufptrs _ _ _ hj]
    rcases Nat.eq_zero_or_pos j with rfl | hpos
    · simp
    · rw [if_neg hpos.ne, if_neg hpos.ne']
      by_cases hin : 4096 * j < data % 4096 + n
      · rw [if_pos (by omega), if_pos hin]
        congr 2
      · rw [if_neg (by omega), if_neg hin]

/-- The pointers of a descriptor lead to the start of its chunk and to the following pages that the
chunk extends into, of which there are five with the first one. -/
structure Paged (td : Qtd) : Prop where
  le : td.bufptrs[0] % 4096 + td.totalLen ≤ 5 * 4096
  bufptrs : ∀ (j : ℕ) (hj : j < 5), 0 < j → td.bufptrs[j] =
    if 4096 * j < td.bufptrs[0] % 4096 + td.totalLen then
      (td.bufptrs[0] - td.bufptrs[0] % 4096 + 4096 * j) % 2 ^ 32
    else 0

/-- A descriptor without a length and without pointers beside the first one. -/
def Blank (td : Qtd) : Prop := td.totalLen = 0 ∧ ∀ (j : ℕ) (hj : j < 5), td.bufptrs[j] = 0

/-- A descriptor that is filled in handles one chunk from the start of the buffer. -/
structure Handles (td : Qtd) (data len : ℕ) : Prop where
  start : td.bufptrs[0] = data % 2 ^ 32
  totalLen : td.totalLen = len
  paged : Paged td

/-- What a descriptor handles is in its length and its pointers. -/
lemma Handles.congr {td' : Qtd} (h : Handles td data len) (hbuf : td'.bufptrs = td.bufptrs)
    (hlen : td'.totalLen = td.totalLen) : Handles td' data len := by
  obtain ⟨hstart, htotal, hle, hptrs⟩ := h
  refine ⟨hbuf ▸ hstart, hlen.trans htotal, ?_, ?_⟩
  · rw [hbuf, hlen]
    exact hle
  · rw [hbuf, hlen]
    exact hptrs

lemma handles_fillTd (data n : ℕ) (htd : Blank td) :
    Handles (fillTd td data n).1 data (chunkLen data n) := by
  obtain ⟨hlen0, hptr0⟩ := htd
  have hbound := chunkLen_bound data n
  have hstart : (fillTd td data n).1.bufptrs[0] = data % 2 ^ 32 := by
    rw [fillTd_bufptrs n (by norm_num), if_pos rfl, virtToPhys_eq]
  have htotal : (fillTd td data n).1.totalLen = chunkLen data n := by
    rw [Qtd.totalLen, fillTd_token]
    exact totalLen_or (by omega) hlen0
  have hoffset : data % 2 ^ 32 % 4096 = data % 4096 := Nat.mod_mod_of_dvd data ⟨2 ^ 20, rfl⟩
  refine ⟨hstart, htotal, ?_, ?_⟩
  · rw [hstart, htotal, hoffset]
    exact hbound
  · intro j hj hpos
    rw [hstart, htotal, hoffset, fillTd_bufptrs n hj, if_neg hpos.ne', hptr0 j hj, virtToPhys_eq]
    simp only [chunkLen_extends data n hj]

/-! ### The whole transfer -/

/-- Each descriptor of the list is linked to the next one, and the last one ends the list. -/
def Followed (mem : ℕ → ℕ) : ℕ → List Qtd → Prop
  | _, [] => True
  | i, td :: tds =>
    td.nextQtd = (if tds.isEmpty then qtdTerminate else virtToPhys (mem (i + 1))) ∧
      Followed mem (i + 1) tds

/-- All descriptors but the last one handle whole packets. -/
def Packets (tds : List Qtd) : Prop := ∀ td ∈ tds.dropLast, 0 < td.totalLen ∧ 512 ∣ td.totalLen

/-- The start of the chunk. -/
def start (td : Qtd) : ℕ := td.bufptrs[0]

/-- The token that each descriptor starts with. -/
lemma blank_token {pid : ℕ} (hpid : pid < 4) :
    Blank { Qtd.zero with token := qtdActive ||| pid <<< qtdPidShift ||| 0 <<< qtdCerrShift } := by
  refine ⟨?_, fun j hj => ?_⟩
  · interval_cases pid <;> rfl
  · exact Vector.getElem_replicate hj

/-- The loop ends, and its descriptors cover what is left of the buffer. -/
lemma bulkLoop_covers (mem : ℕ → ℕ) {pid : ℕ} (hpid : pid < 4) (i data size : ℕ) :
    ∃ tds, (∀ fuel, size < fuel → bulkLoop mem pid fuel i data size = some tds) ∧
      TilesMod start Qtd.totalLen (2 ^ 32) data tds (data + size) ∧ tds ≠ [] ∧ Packets tds ∧
      Followed mem i tds ∧ ∀ td ∈ tds, Paged td := by
  induction size using Nat.strong_induction_on generalizing i data with
  | _ size ih =>
    set td₀ := { Qtd.zero with token := qtdActive ||| pid <<< qtdPidShift ||| 0 <<< qtdCerrShift }
      with htd₀
    set chunk := chunkLen data size with hchunk
    have hhandles := handles_fillTd data size (blank_token hpid)
    rw [← htd₀, ← hchunk] at hhandles
    have hle : chunk ≤ size := chunkLen_le data size
    rcases hle.eq_or_lt with heq | hlt
    · -- the chunk is what is left of the buffer
      set td := { (fillTd td₀ data size).1 with
        altNextQtd := qtdTerminate, nextQtd := virtToPhys 0 ||| qtdTerminate } with htd
      have hlast : Handles td data chunk := hhandles.congr rfl rfl
      refine ⟨[td], ?_, ?_, by simp, by simp [Packets], ⟨rfl, trivial⟩, ?_⟩
      · intro fuel hfuel
        obtain ⟨fuel, rfl⟩ := Nat.exists_eq_succ_of_ne_zero (Nat.ne_of_gt (Nat.zero_lt_of_lt hfuel))
        rw [bulkLoop]
        simp only [← htd₀, fillTd_len, ← hchunk, heq, Nat.sub_self, if_true]
        rfl
      · exact ⟨hlast.start, by rw [hlast.totalLen, heq]; rfl⟩
      · intro x hx
        rw [List.mem_singleton.mp hx]
        exact hlast.paged
    · -- the rest of the buffer starts where the chunk ends
      obtain ⟨hpos, hdvd⟩ := chunkLen_of_lt hlt
      obtain ⟨tds, htds, htiles, hne, hpackets, hfollowed, hpaged⟩ :=
        ih (size - chunk) (by omega) (i + 1) (Word.add 32 data chunk)
      set td := { (fillTd td₀ data size).1 with
        altNextQtd := qtdTerminate, nextQtd := virtToPhys (mem (i + 1)) } with htd
      have hfirst : Handles td data chunk := hhandles.congr rfl rfl
      refine ⟨td :: tds, ?_, ⟨hfirst.start, ?_⟩, by simp, ?_, ⟨?_, hfollowed⟩, ?_⟩
      · intro fuel hfuel
        obtain ⟨fuel, rfl⟩ := Nat.exists_eq_succ_of_ne_zero (Nat.ne_of_gt (Nat.zero_lt_of_lt hfuel))
        rw [bulkLoop]
        simp only [← htd₀, fillTd_len, ← hchunk]
        rw [if_neg (by omega), htds fuel (by omega)]
        rfl
      · have hend : data + size = data + chunk + (size - chunk) := by omega
        rw [hfirst.totalLen, hend]
        exact htiles.of_mod
      · intro x hx
        rw [List.dropLast_cons_of_ne_nil hne] at hx
        rcases List.mem_cons.mp hx with rfl | hx
        · rw [hfirst.totalLen]
          exact ⟨hpos, hdvd⟩
        · exact hpackets x hx
      · rw [if_neg (by simpa using hne)]
      · intro x hx
        rcases List.mem_cons.mp hx with rfl | hx
        · exact hfirst.paged
        · exact hpaged x hx

/-- The descriptors of a bulk transfer are found with enough fuel. They cover the buffer in order, all
but the last one handle whole packets, and their pointers lead to the pages of their chunks. -/
theorem ehciBulk_covers (mem : ℕ → ℕ) (ep : Endpoint) (data size : ℕ) :
    ∃ tds, (∀ fuel, size < fuel → ehciBulk mem ep fuel data size = some tds) ∧
      TilesMod start Qtd.totalLen (2 ^ 32) data tds (data + size) ∧ tds ≠ [] ∧ Packets tds ∧
      Followed mem 0 tds ∧ ∀ td ∈ tds, Paged td := by
  have hpid : (if ep.direction = .in_ then pidOf .in_ else pidOf .out) < 4 := by
    split <;> simp [pidOf]
  obtain ⟨tds, htds, htiles, hne, hpackets, hfollowed, hpaged⟩ :=
    bulkLoop_covers mem hpid 0 data size
  obtain ⟨head, tail, rfl⟩ := List.exists_cons_of_ne_nil hne
  set head' := { head with
    token := head.token ||| if ep.toggle ≠ 0 then 1 <<< qtdToggleShift else 0 } with hhead'
  have hlen : head'.totalLen = head.totalLen := by
    refine totalLen_or_of_testBit fun i hi => ?_
    split
    · rw [Nat.one_shiftLeft, qtdToggleShift, Nat.testBit_two_pow]
      simp
      omega
    · exact Nat.zero_testBit _
  refine ⟨head' :: tail, ?_, ⟨htiles.1, hlen ▸ htiles.2⟩, by simp, ?_, hfollowed, ?_⟩
  · intro fuel hfuel
    rw [ehciBulk, htds fuel hfuel]
    rfl
  · intro x hx
    cases tail with
    | nil => simp at hx
    | cons y tail =>
      rw [List.dropLast_cons_of_ne_nil (by simp)] at hx
      rcases List.mem_cons.mp hx with rfl | hx
      · rw [hlen]
        exact hpackets head (by simp)
      · exact hpackets x (by simp [List.dropLast_cons_of_ne_nil, hx])
  · intro x hx
    rcases List.mem_cons.mp hx with rfl | hx
    · have hhead := hpaged head (by simp)
      refine ⟨?_, ?_⟩
      · rw [hlen]
        exact hhead.le
      · rw [hlen]
        exact hhead.bufptrs
    · exact hpaged x (by simp [hx])

end ApuBios.Ehci
