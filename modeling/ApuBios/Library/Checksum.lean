import ApuBios.Library.Memory

/-!
# Checksums over memory

The sum of bytes, and the one's complement sum of 16-bit words that is computed byte by byte. A
region with a checksum in it is summed up as that without it and the checksum itself.
-/

namespace Checksum

variable {m m' : Mem} {p q n n' s t v : ℕ}

/-! ### Sums of bytes -/

/-- The sum of the bytes, each with the weight of its place. -/
def total (w : ℕ → ℕ) (m : Mem) (p n : ℕ) : ℕ := ∑ i ∈ Finset.range n, w i * (m (p + i)).toNat

variable {w : ℕ → ℕ}

lemma total_zero : total w m p 0 = 0 := rfl

lemma total_succ : total w m p (n + 1) = total w m p n + w n * (m (p + n)).toNat :=
  Finset.sum_range_succ ..

lemma total_add : total w m p (n + n') =
    total w m p n + total (fun i => w (n + i)) m (p + n) n' := by
  rw [total, Finset.sum_range_add]
  simp only [total, Nat.add_assoc]

lemma total_congr (h : ∀ a, p ≤ a → a < p + n → m' a = m a) : total w m' p n = total w m p n :=
  Finset.sum_congr rfl fun i hi => by
    rw [Finset.mem_range] at hi
    rw [h (p + i) (by omega) (by omega)]

/-- A region that is changed in a part only. -/
lemma total_update (q n' : ℕ) (hq : q + n' ≤ n) (h : ∀ a, p ≤ a → a < p + q → m' a = m a)
    (h' : ∀ a, p + q + n' ≤ a → a < p + n → m' a = m a) :
    total w m' p n + total (fun i => w (q + i)) m (p + q) n' =
      total w m p n + total (fun i => w (q + i)) m' (p + q) n' := by
  obtain ⟨r, rfl⟩ : ∃ r, n = q + (n' + r) := ⟨n - q - n', by omega⟩
  rw [total_add, total_add, total_add, total_add, total_congr fun a h₁ h₂ => h a h₁ (by omega),
    total_congr (p := p + q + n') fun a h₁ h₂ => h' a (by omega) (by omega)]
  omega

/-- A checksum byte that is stored in place of a zero adds what it stands for. -/
lemma total_checksum {c : UInt8} (hq : q < n) (hzero : m (p + q) = 0) :
    total (fun _ => 1) (Function.update m (p + q) c) p n = total (fun _ => 1) m p n + c.toNat := by
  have hother : ∀ a, a ≠ p + q → Function.update m (p + q) c a = m a :=
    fun a ha => Function.update_of_ne ha _ _
  have hsum := @total_update m _ p n (fun _ => 1) q 1 hq
    (fun a _ ha => hother a (by omega)) (fun a ha _ => hother a (by omega))
  simp only [total_succ, total_zero, Nat.add_zero, hzero, UInt8.toNat_zero, Function.update_self]
    at hsum
  omega

/-! ### One's complement -/

/-- Adding with an end-around carry. -/
def addCarry (s v : ℕ) : ℕ :=
  if 0xffff < s + v then (s + v + ((s + v) >>> 16)) &&& 0xffff else s + v

/-- The representative of a sum: 0 for itself only. -/
def rep (s : ℕ) : ℕ := if s = 0 then 0 else (s - 1) % 0xffff + 1

lemma rep_le : rep s ≤ 0xffff := by
  unfold rep
  split_ifs <;> omega

lemma rep_eq_zero : rep s = 0 ↔ s = 0 := by
  by_cases hs : s = 0
  · exact iff_of_true (if_pos hs) hs
  · refine iff_of_false ?_ hs
    rw [rep, if_neg hs]
    exact Nat.succ_ne_zero _

lemma exists_rep (s : ℕ) : ∃ k, s = rep s + 0xffff * k := by
  rcases Nat.eq_zero_or_pos s with rfl | hpos
  · exact ⟨0, rfl⟩
  · refine ⟨(s - 1) / 0xffff, ?_⟩
    have hdiv := Nat.mod_add_div (s - 1) 0xffff
    rw [rep, if_neg hpos.ne']
    omega

/-- The representative is the only one. -/
lemma rep_eq {r k : ℕ} (hr : r ≤ 0xffff) (h : s = r + 0xffff * k) (hzero : r = 0 → s = 0) :
    rep s = r := by
  rcases Nat.eq_zero_or_pos r with rfl | hpos
  · exact rep_eq_zero.mpr (hzero rfl)
  · have hsub : s - 1 = r - 1 + 0xffff * k := by omega
    rw [rep, if_neg (by omega), hsub, Nat.add_mul_mod_self_left, Nat.mod_eq_of_lt (by omega)]
    omega

lemma rep_of_le (h : v ≤ 0xffff) : rep v = v := rep_eq (k := 0) h rfl id

/-- Sums that differ by a multiple of 65535 have the same representative. -/
lemma rep_congr {k : ℕ} (h : t = s + 0xffff * k) (hzero : s = 0 → k = 0) : rep t = rep s := by
  obtain ⟨j, hj⟩ := exists_rep s
  refine rep_eq (k := j + k) rep_le (by omega) fun hrep => ?_
  have hs := rep_eq_zero.mp hrep
  have := hzero hs
  omega

/-- One's complement addition of 16-bit words. -/
def onesAdd (s v : ℕ) : ℕ := if 0xffff < s + v then s + v - 0xffff else s + v

lemma onesAdd_rep (s t : ℕ) : onesAdd (rep s) (rep t) = rep (s + t) := by
  obtain ⟨j, hj⟩ := exists_rep s
  obtain ⟨k, hk⟩ := exists_rep t
  have hs := rep_le (s := s)
  have ht := rep_le (s := t)
  have hs₀ := rep_eq_zero (s := s)
  have ht₀ := rep_eq_zero (s := t)
  unfold onesAdd
  split_ifs with hcarry
  · exact (rep_eq (k := j + k + 1) (by omega) (by omega) (by omega)).symm
  · exact (rep_eq (k := j + k) (by omega) (by omega) (by omega)).symm

lemma addCarry_eq (hs : s ≤ 0xffff) (hv : v ≤ 0xffff) : addCarry s v = onesAdd s v := by
  unfold addCarry onesAdd
  split_ifs with hcarry
  · have hshift : (s + v) >>> 16 = 1 := by
      rw [Nat.shiftRight_eq_div_pow]
      omega
    have hmask : (s + v + 1) &&& 0xffff = (s + v + 1) % 2 ^ 16 :=
      Nat.and_two_pow_sub_one_eq_mod _ 16
    rw [hshift, hmask]
    omega
  · rfl

lemma addCarry_rep (hv : v ≤ 0xffff) : addCarry (rep s) v = rep (s + v) := by
  rw [addCarry_eq rep_le hv, ← onesAdd_rep, rep_of_le hv]

/-- A sum and the complement of its representative make all bits one. -/
lemma rep_complement : rep (s + (0xffff - rep s)) = 0xffff := by
  obtain ⟨k, hk⟩ := exists_rep s
  have hle := rep_le (s := s)
  exact rep_eq (k := k) le_rfl (by omega) (by omega)

/-! ### Words -/

/-- The words that bytes stand for, a single last one with a zero byte behind it. -/
def words : List UInt8 → List ℕ
  | [] => []
  | [b] => [b.toNat]
  | b :: c :: bs => (b.toNat + 2 ^ 8 * c.toNat) :: words bs

/-- The one's complement sum of the bytes. -/
def onesSum (bs : List UInt8) : ℕ := (words bs).foldl onesAdd 0

/-- A word with its bytes in the other order. -/
def swap (s : ℕ) : ℕ := s / 2 ^ 8 + 2 ^ 8 * (s % 2 ^ 8)

lemma words_le {bs : List UInt8} : ∀ v ∈ words bs, v ≤ 0xffff := by
  induction bs using words.induct with
  | case1 => simp [words]
  | case2 b =>
    have := b.toNat_lt
    simp only [words, List.mem_singleton, forall_eq]
    omega
  | case3 b c bs ih =>
    have := b.toNat_lt
    have := c.toNat_lt
    refine List.forall_mem_cons.mpr ⟨?_, ih⟩
    omega

/-- Only the sum of the words counts. -/
lemma onesSum_eq (bs : List UInt8) : onesSum bs = rep (words bs).sum := by
  suffices h : ∀ l : List ℕ, (∀ v ∈ l, v ≤ 0xffff) → ∀ s, l.foldl onesAdd (rep s) = rep (s + l.sum) from
    (h _ words_le 0).trans (by rw [Nat.zero_add])
  intro l
  induction l with
  | nil => exact fun _ _ => rfl
  | cons v l ih =>
    intro hl s
    rw [List.forall_mem_cons] at hl
    have hv : onesAdd (rep s) v = rep (s + v) := by rw [← onesAdd_rep, rep_of_le hl.1]
    rw [List.foldl_cons, hv, ih hl.2, List.sum_cons, Nat.add_assoc]

/-- Swapping the bytes multiplies by 256. -/
lemma swap_rep (s : ℕ) : swap (rep s) = rep (2 ^ 8 * s) := by
  obtain ⟨k, hk⟩ := exists_rep s
  have hle := rep_le (s := s)
  have hzero := rep_eq_zero (s := s)
  unfold swap
  refine (rep_eq (k := 2 ^ 8 * k + rep s / 2 ^ 8) ?_ ?_ ?_).symm <;> omega

end Checksum
