import ApuBios.Lib.CorebootTable.Properties

/-!
# The checksum of the payload

Model of `libc/ipchecksum.c`. The words are summed up in an `int` and the carries are folded at the
end, where the firmware adds byte by byte with an end-around carry.
-/

namespace ApuBios.Libc

open Mem Checksum CorebootTable

variable {m : Mem} {p n s t : ℕ}

/-- The loop over the words: their sum, and where the rest is with its length. -/
def sumWords (m : Mem) : (ptr nbytes : ℕ) → (sum : BitVec 32) → BitVec 32 × ℕ × ℕ
  | ptr, nbytes + 2, sum => sumWords m (ptr + 2) nbytes (sum + BitVec.ofNat 32 (readLE m ptr 2))
  | ptr, nbytes, sum => (sum, ptr, nbytes)

def ipchksum (m : Mem) (vptr nbytes : ℕ) : BitVec 16 :=
  let (sum, ptr, nbytes) := sumWords m vptr nbytes 0
  let sum := if nbytes = 1 then sum + BitVec.ofNat 32 (m ptr).toNat else sum
  let sum := sum.sshiftRight 16 + (sum &&& 0xffff)
  let sum := sum + sum.sshiftRight 16
  (~~~sum).setWidth 16

/-! ### The sum -/

/-- Every two bytes are a word of the sum. -/
lemma sumWords_eq (m : Mem) (p n s : ℕ) :
    sumWords m p n (BitVec.ofNat 32 s) =
      (BitVec.ofNat 32 (s + total ipWeight m p (2 * (n / 2))), p + 2 * (n / 2), n % 2) := by
  induction n using Nat.twoStepInduction generalizing p s with
  | zero => rfl
  | one => rfl
  | more n ih _ =>
    have hhalf : (n + 2) / 2 = n / 2 + 1 := by omega
    rw [sumWords, ← BitVec.ofNat_add, ih, hhalf, Nat.mul_add, Nat.add_comm (2 * (n / 2)) (2 * 1),
      total_add_two, Nat.add_mod_right, Nat.add_assoc, Nat.add_assoc]

/-- All bytes are added, also the odd one. -/
lemma ipchksum_sum (m : Mem) (p n : ℕ) :
    (if n % 2 = 1 then BitVec.ofNat 32 (total ipWeight m p (2 * (n / 2))) +
        BitVec.ofNat 32 (m (p + 2 * (n / 2))).toNat
      else BitVec.ofNat 32 (total ipWeight m p (2 * (n / 2)))) =
        BitVec.ofNat 32 (total ipWeight m p n) := by
  split_ifs with hodd
  · have hlast : n = 2 * (n / 2) + 1 := by omega
    conv_rhs => rw [hlast]
    rw [total_succ, ipWeight, if_neg (by omega), Nat.one_mul, BitVec.ofNat_add]
  · have hlast : n = 2 * (n / 2) := by omega
    rw [← hlast]

lemma total_le (m : Mem) (p n : ℕ) : total ipWeight m p n ≤ 0xffff * ((n + 1) / 2) := by
  induction n using Nat.twoStepInduction generalizing p with
  | zero => exact Nat.zero_le _
  | one =>
    have := (m p).toNat_lt
    simp only [total_succ, total_zero, ipWeight]
    simp
    omega
  | more n ih _ =>
    have hword : readLE m p 2 < 256 ^ 2 := readLE_lt
    have hrest := ih (p + 2)
    rw [Nat.add_comm n 2, total_add_two]
    omega

/-! ### The folds -/

/-- The upper half is added to the lower one. -/
def fold (s : ℕ) : ℕ := s / 2 ^ 16 + s % 2 ^ 16

lemma sshiftRight_ofNat (hs : s < 2 ^ 31) :
    (BitVec.ofNat 32 s).sshiftRight 16 = BitVec.ofNat 32 (s / 2 ^ 16) := by
  have hmsb : (BitVec.ofNat 32 s).msb = false := by
    rw [BitVec.msb_eq_false_iff_two_mul_lt, BitVec.toNat_ofNat]
    omega
  apply BitVec.eq_of_toNat_eq
  rw [BitVec.sshiftRight_eq_of_msb_false hmsb, BitVec.toNat_ushiftRight, BitVec.toNat_ofNat,
    BitVec.toNat_ofNat, Nat.shiftRight_eq_div_pow]
  omega

lemma and_ofNat (hs : s < 2 ^ 31) :
    BitVec.ofNat 32 s &&& 0xffff = BitVec.ofNat 32 (s % 2 ^ 16) := by
  have hmask : (0xffff : BitVec 32).toNat = 2 ^ 16 - 1 := rfl
  apply BitVec.eq_of_toNat_eq
  rw [BitVec.toNat_and, hmask, Nat.and_two_pow_sub_one_eq_mod, BitVec.toNat_ofNat,
    BitVec.toNat_ofNat]
  omega

/-- Two folds leave no carry: the lower half is the one's complement sum. -/
lemma fold_fold (hs : s < 2 ^ 31) : (fold s + fold s / 2 ^ 16) % 2 ^ 16 = rep s := by
  have hdiv : s = fold s + 0xffff * (s / 2 ^ 16) := by
    unfold fold
    omega
  have hle : fold s < 2 ^ 17 := by
    unfold fold
    omega
  rcases Nat.lt_or_ge (fold s) (2 ^ 16) with hlt | hge
  · rw [Nat.div_eq_of_lt hlt, Nat.add_zero, Nat.mod_eq_of_lt hlt]
    exact (rep_eq (by omega) hdiv (by omega)).symm
  · have hcarry : fold s / 2 ^ 16 = 1 := by omega
    rw [hcarry]
    exact (rep_eq (k := s / 2 ^ 16 + 1) (by omega) (by omega) (by omega)).symm

lemma complement_ofNat (s : ℕ) : ((~~~BitVec.ofNat 32 s).setWidth 16).toNat = 0xffff - s % 2 ^ 16 := by
  rw [BitVec.toNat_setWidth, BitVec.toNat_not, BitVec.toNat_ofNat]
  omega

/-! ### Agreement -/

/-- Up to 64 KiB the `int` does not overflow. -/
lemma toNat_ipchksum (m : Mem) (p : ℕ) (hn : n ≤ 65536) :
    (ipchksum m p n).toNat = 0xffff - rep (total ipWeight m p n) := by
  have hle := total_le m p n
  have hsmall : total ipWeight m p n < 2 ^ 31 := by omega
  have hfold : fold (total ipWeight m p n) < 2 ^ 17 := by
    unfold fold
    omega
  have hwords := sumWords_eq m p n 0
  rw [Nat.zero_add] at hwords
  have hzero : (0 : BitVec 32) = BitVec.ofNat 32 0 := rfl
  have hfirst : (BitVec.ofNat 32 (total ipWeight m p n)).sshiftRight 16 +
      (BitVec.ofNat 32 (total ipWeight m p n) &&& 0xffff) =
        BitVec.ofNat 32 (fold (total ipWeight m p n)) := by
    rw [sshiftRight_ofNat hsmall, and_ofNat hsmall, ← BitVec.ofNat_add, fold]
  have hsecond : BitVec.ofNat 32 (fold (total ipWeight m p n)) +
      (BitVec.ofNat 32 (fold (total ipWeight m p n))).sshiftRight 16 =
        BitVec.ofNat 32 (fold (total ipWeight m p n) + fold (total ipWeight m p n) / 2 ^ 16) := by
    rw [sshiftRight_ofNat (by omega), ← BitVec.ofNat_add]
  simp only [ipchksum, hzero, hwords, ipchksum_sum, hfirst, hsecond]
  rw [complement_ofNat, fold_fold hsmall]

/-- The payload computes the checksum of the firmware. -/
theorem ipchksum_eq (m : Mem) (p n : ℕ) (hn : n ≤ 65536) :
    (ipchksum m p n).toNat = computeIpChecksum m p n := by
  rw [toNat_ipchksum m p hn, computeIpChecksum_eq]

/-- The sum is a multiple of 65535 that is not zero. -/
theorem ipchksum_eq_three :
    (3 : ℕ) ≤ 65536 ∧
      (ipchksum (fun a => if a < 2 then 0xff else 0) 0 3).toNat =
        computeIpChecksum (fun a => if a < 2 then 0xff else 0) 0 3 :=
  ⟨by decide, ipchksum_eq _ 0 3 (by decide)⟩

/-! ### The table of the firmware -/

/-- The checks of the checksums in `cb_parse_header`. -/
def checksumsMatch (m : Mem) (header : ℕ) : Bool :=
  (ipchksum m header sizeOfHeader).toNat == 0 &&
    (ipchksum m (header + sizeOfHeader) (tableBytes m header)).toNat == tableChecksum m header

/-- The payload accepts the checksums of every table that the firmware has finished. -/
theorem checksumsMatch_writeTable {addr : ℕ} {as : List Addition}
    (hfits : lbFirstRecord (lbTableInit m addr).2 + sizes as ≤ 2 ^ 32) (hsmall : sizes as ≤ 65536) :
    checksumsMatch (writeTable m addr as) (lbTableInit m addr).2 := by
  obtain ⟨hheader, htable⟩ := writeTable_checksums hfits
  rw [computeIpChecksum_eq] at hheader htable
  rw [lbFirstRecord] at htable
  rw [checksumsMatch, tableBytes_writeTable hfits, toNat_ipchksum _ _ (by decide), hheader,
    toNat_ipchksum _ _ hsmall, htable]
  simp

/-- The checksums depend on the table only. -/
lemma checksumsMatch_congr {m' : Mem} {header : ℕ} (hsmall : tableBytes m header ≤ 65536)
    (heq : ∀ x, header ≤ x → x < header + 24 + tableBytes m header → m' x = m x) :
    checksumsMatch m' header = checksumsMatch m header := by
  have hheader : sizeOfHeader = 24 := rfl
  have hbytes : tableBytes m' header = tableBytes m header :=
    readLE_congr fun x hx hx' => heq x (by omega) (by omega)
  have hsum : tableChecksum m' header = tableChecksum m header :=
    readLE_congr fun x hx hx' => heq x (by omega) (by omega)
  have hlen : sizeOfHeader ≤ 65536 := by decide
  rw [checksumsMatch, checksumsMatch, hbytes, hsum, toNat_ipchksum m' header hlen,
    toNat_ipchksum m header hlen, toNat_ipchksum m' _ hsmall, toNat_ipchksum m _ hsmall,
    total_congr fun x hx hx' => heq x hx (by omega),
    total_congr fun x hx hx' => heq x (by omega) (by omega)]

end ApuBios.Libc
