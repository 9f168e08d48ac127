import ApuBios.Lib.CorebootTable.Properties
import ApuBios.Library.CString

/-!
# Adding checksums

The checksum of `lib/compute_ip_checksum.c` is the complement of the one's complement sum, and the
checksums of two parts give that of the whole, also when the second part begins at an odd offset.
-/

namespace ApuBios.CorebootTable

open Mem Checksum

variable {m : Mem} {p q r n x : ℕ} {bs A B : List UInt8}

def addIpChecksums (offset sum new : ℕ) : ℕ :=
  let sum := Word.not 32 sum &&& 0xffff
  let new := Word.not 32 new &&& 0xffff
  -- the bytes are swapped if the sum came from an odd offset
  let new := if offset &&& 1 ≠ 0 then ((new >>> 8) &&& 0xff) ||| ((new <<< 8) &&& 0xff00) else new
  let checksum := sum + new
  let checksum := if 0xffff < checksum then checksum - 0xffff else checksum
  Word.not 32 checksum &&& 0xffff

lemma complement_eq (h : x ≤ 0xffff) : Word.not 32 x &&& 0xffff = 0xffff - x := by
  rw [Word.not, show 0xffff = 2 ^ 16 - 1 by norm_num, Nat.and_two_pow_sub_one_eq_mod]
  omega

lemma swap_eq (h : x ≤ 0xffff) :
    ((x >>> 8) &&& 0xff) ||| ((x <<< 8) &&& 0xff00) = swap x := by
  have hhigh : (x >>> 8) &&& 0xff = x / 2 ^ 8 := by
    rw [show 0xff = 2 ^ 8 - 1 by norm_num, Nat.and_two_pow_sub_one_eq_mod,
      Nat.shiftRight_eq_div_pow]
    omega
  have hlow : (x <<< 8) &&& 0xff00 = 2 ^ 8 * (x % 2 ^ 8) := by
    rw [show 0xff00 = 0xff <<< 8 by rfl, ← Nat.shiftLeft_and_distrib,
      show 0xff = 2 ^ 8 - 1 by norm_num, Nat.and_two_pow_sub_one_eq_mod, Nat.shiftLeft_eq,
      Nat.mul_comm]
  rw [hhigh, hlow, Nat.or_comm, ← Nat.two_pow_add_eq_or_of_lt (by omega), swap, Nat.add_comm]

/-- The two halves of the sum in `add_ip_checksums`. -/
lemma addIpChecksums_eq (offset s t : ℕ) :
    addIpChecksums offset (0xffff - rep s) (0xffff - rep t) =
      0xffff - rep (s + if offset % 2 = 1 then 2 ^ 8 * t else t) := by
  have hs := rep_le (s := s)
  have ht := rep_le (s := t)
  have hsum := rep_le (s := s + if offset % 2 = 1 then 2 ^ 8 * t else t)
  have hnew : (if offset &&& 1 ≠ 0 then
      ((rep t >>> 8) &&& 0xff) ||| ((rep t <<< 8) &&& 0xff00) else rep t) =
        rep (if offset % 2 = 1 then 2 ^ 8 * t else t) := by
    rw [Nat.and_one_is_mod, swap_eq ht, swap_rep]
    split_ifs <;> first | rfl | omega
  have hcomplement : ∀ y ≤ 0xffff, 0xffff - (0xffff - y) = y := fun y hy => by omega
  simp only [addIpChecksums, complement_eq (Nat.sub_le _ _), hcomplement _ hs, hcomplement _ ht, hnew]
  rw [← onesAdd, onesAdd_rep, complement_eq hsum]

/-! ### Sums of words -/

lemma total_eq_sum_words (h : Holds m p bs) : total ipWeight m p bs.length = (words bs).sum := by
  induction bs using words.induct generalizing p with
  | case1 => rfl
  | case2 b =>
    rw [List.length_singleton, total_succ, total_zero, Nat.add_zero, h.1, words, List.sum_singleton,
      ipWeight, if_neg (by decide)]
    omega
  | case3 b c bs ih =>
    have hword : readLE m p 2 = b.toNat + 2 ^ 8 * c.toNat := by
      simp only [readLE, h.1, h.2.1]
      simp
    have hrest := ih h.2.2
    rw [Nat.add_assoc] at hrest
    rw [List.length_cons, List.length_cons, Nat.add_assoc, Nat.add_comm, total_add_two, hword,
      words, List.sum_cons, hrest]

/-- At an odd offset each byte is added in the other half of a word. -/
lemma total_odd (m : Mem) (p n : ℕ) :
    ∃ k ≤ total (fun i => ipWeight (i + 1)) m p n,
      2 ^ 8 * total ipWeight m p n = total (fun i => ipWeight (i + 1)) m p n + 0xffff * k := by
  induction n with
  | zero => exact ⟨0, le_rfl, rfl⟩
  | succ n ih =>
    obtain ⟨k, hk, heq⟩ := ih
    rw [total_succ, total_succ, Nat.mul_add, heq]
    rcases Nat.mod_two_eq_zero_or_one n with hn | hn
    · refine ⟨k, by omega, ?_⟩
      rw [ipWeight, if_neg (by omega), ipWeight, if_pos (by omega)]
      ring
    · refine ⟨k + (m (p + n)).toNat, ?_, ?_⟩
      · rw [ipWeight, if_neg (by omega)]
        omega
      · rw [ipWeight, if_pos hn, ipWeight, if_neg (by omega)]
        ring

lemma rep_total_odd (s : ℕ) :
    rep (s + 2 ^ 8 * total ipWeight m p n) =
      rep (s + total (fun i => ipWeight (i + 1)) m p n) := by
  obtain ⟨k, hk, heq⟩ := total_odd m p n
  exact rep_congr (by rw [heq, Nat.add_assoc]) fun hzero => by omega

/-- The sum of two parts that follow each other. -/
lemma rep_total_append (a n : ℕ) :
    rep (total ipWeight m p (a + n)) =
      rep (total ipWeight m p a + if a % 2 = 1 then 2 ^ 8 * total ipWeight m (p + a) n
        else total ipWeight m (p + a) n) := by
  rw [total_add]
  split_ifs with hodd
  · have hshift : (fun i => ipWeight (a + i)) = fun i => ipWeight (i + 1) := by
      funext i
      rw [ipWeight, ipWeight, Nat.add_mod, hodd, Nat.add_mod i, Nat.add_comm]
    rw [hshift, rep_total_odd]
  · rw [ipWeight_shift (by omega)]

/-! ### Checksums of parts -/

/-- The checksum is that of the bytes, wherever they are, and the checksums of two strings add up to
that of the one followed by the other. -/
theorem computeIpChecksum_append (hA : Holds m p A) (hB : Holds m q B) (h : Holds m r (A ++ B)) :
    computeIpChecksum m p A.length = 0xffff - onesSum A ∧
      addIpChecksums A.length (computeIpChecksum m p A.length) (computeIpChecksum m q B.length) =
        computeIpChecksum m r (A ++ B).length := by
  obtain ⟨hfront, hback⟩ := holds_append.mp h
  have hsame : total ipWeight m q B.length = total ipWeight m (r + A.length) B.length :=
    (total_eq_sum_words hB).trans (total_eq_sum_words hback).symm
  have hsame' : total ipWeight m p A.length = total ipWeight m r A.length :=
    (total_eq_sum_words hA).trans (total_eq_sum_words hfront).symm
  refine ⟨by rw [computeIpChecksum_eq, total_eq_sum_words hA, onesSum_eq], ?_⟩
  rw [computeIpChecksum_eq, computeIpChecksum_eq, computeIpChecksum_eq, addIpChecksums_eq, hsame',
    hsame, List.length_append, rep_total_append]

def three : List UInt8 := [1, 2, 3]
def two : List UInt8 := [4, 5]

/-- Three bytes followed by two. -/
def threeAndTwo : Mem := writeBytes (fun _ => 0) 0 (three ++ two)

theorem computeIpChecksum_append_odd :
    computeIpChecksum threeAndTwo 0 three.length = 0xffff - onesSum three ∧
      addIpChecksums three.length (computeIpChecksum threeAndTwo 0 three.length)
          (computeIpChecksum threeAndTwo 3 two.length) =
        computeIpChecksum threeAndTwo 0 (three ++ two).length := by
  have h : Holds threeAndTwo 0 (three ++ two) := holds_writeBytes
  obtain ⟨hA, hB⟩ := holds_append.mp h
  exact computeIpChecksum_append hA hB h

end ApuBios.CorebootTable
