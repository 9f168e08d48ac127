import ApuBios.Library.Word

/-!
# The monotonic timer

Model of `timer_monotonic_get` in `src/cpu/x86/lapic/apic_timer.c`. A call that counts microseconds
starts over from the value that it has read, and loses the ticks that do not make up a microsecond.
The time that is returned is right as long as what is lost amounts to a microsecond at most, and the
time fits into a `long`.
-/

namespace ApuBios.MonotonicTimer

/-- `struct monotonic_counter`, with the microseconds of `time`. -/
structure MonotonicCounter where
  initialized : Bool
  time : ℤ
  lastValue : ℕ

/-- The counter, and how many ticks have passed since `init_timer` set the timer to 0xffffffff. -/
structure State where
  counter : MonotonicCounter
  tick : ℕ

/-- `lapic_read(LAPIC_TMCCT)`. The timer counts down. -/
def tmcct (tick : ℕ) : ℕ := Word.sub 32 0xffffffff tick

/-- On a `long` of 32 bits, which wraps around. -/
def monoTimeAddUsecs (microseconds us : ℤ) : ℤ := Word.toInt 32 (microseconds + Word.toInt 32 us)

/-- The first call initializes the timer and reads it after `setup` ticks. Every call reads it `gap`
ticks after it has been read before. -/
def timerMonotonicGet (timerFsb setup : ℕ) (s : State) (gap : ℕ) : State :=
  let s := if s.counter.initialized then s else
    { counter := { s.counter with initialized := true, lastValue := tmcct setup }, tick := setup }
  let tick := s.tick + gap
  let currentTick := tmcct tick
  let usecsElapsed := Word.sub 32 s.counter.lastValue currentTick / timerFsb
  if usecsElapsed ≠ 0 then
    { counter := { s.counter with
        time := monoTimeAddUsecs s.counter.time usecsElapsed
        lastValue := currentTick }
      tick := tick }
  else
    { s with tick := tick }

def start : State := ⟨⟨false, 0, 0⟩, 0⟩

/-- The time that the last one of the calls returns. -/
def returned (timerFsb setup : ℕ) (gaps : List ℕ) : ℤ :=
  (gaps.foldl (timerMonotonicGet timerFsb setup) start).counter.time

/-- In a run of calls the time never decreases, and it differs by one microsecond at most from the
time that has passed since the first call. -/
structure Accurate (timerFsb setup : ℕ) (gaps : List ℕ) : Prop where
  monotone : ∀ p q, p ≠ [] → p <+: q → q <+: gaps →
    returned timerFsb setup p ≤ returned timerFsb setup q
  close : ∀ p, p ≠ [] → p <+: gaps →
    |(p.sum : ℚ) / timerFsb - returned timerFsb setup p| ≤ 1

/-! ### What is lost -/

/-- What becomes of the ticks: they wait for a call that counts, are counted as microseconds, or are
lost in a call that counts. -/
structure Tally where
  waiting : ℕ
  counted : ℕ
  dropped : ℕ

/-- The counter shows the ticks that wait modulo `2 ^ 32`. -/
def Tally.call (timerFsb : ℕ) (l : Tally) (gap : ℕ) : Tally :=
  let n := l.waiting + gap
  if n % 2 ^ 32 < timerFsb then
    { l with waiting := n }
  else
    { waiting := 0
      counted := l.counted + n % 2 ^ 32 / timerFsb
      dropped := l.dropped + (n - n % 2 ^ 32) + n % 2 ^ 32 % timerFsb }

def tally (timerFsb : ℕ) (gaps : List ℕ) : Tally := gaps.foldl (Tally.call timerFsb) ⟨0, 0, 0⟩

/-- The ticks that are not counted so far. -/
def lost (timerFsb : ℕ) (gaps : List ℕ) : ℕ :=
  (tally timerFsb gaps).waiting + (tally timerFsb gaps).dropped

/-- After every call the ticks that are not counted amount to a microsecond at most, and those that
are counted to less than `2 ^ 31` microseconds. -/
def KeepsUp (timerFsb : ℕ) (gaps : List ℕ) : Prop :=
  ∀ p, p <+: gaps → lost timerFsb p ≤ timerFsb ∧ p.sum < 2 ^ 31 * timerFsb + lost timerFsb p

instance {timerFsb : ℕ} {gaps : List ℕ} : Decidable (KeepsUp timerFsb gaps) :=
  decidable_of_iff (∀ p ∈ gaps.inits,
    lost timerFsb p ≤ timerFsb ∧ p.sum < 2 ^ 31 * timerFsb + lost timerFsb p) (by
      simp only [List.mem_inits, KeepsUp])

variable {timerFsb setup gap : ℕ} {gaps p q : List ℕ} {s : State} {l : Tally}

/-- The counter shows the ticks since a value was read. -/
lemma sub_tmcct (tick n : ℕ) : Word.sub 32 (tmcct tick) (tmcct (tick + n)) = n % 2 ^ 32 := by
  simp only [tmcct, Word.sub]
  omega

lemma monoTimeAddUsecs_eq (k n : ℕ) :
    monoTimeAddUsecs (Word.toInt 32 k) n = Word.toInt 32 ((k + n : ℕ) : ℤ) := by
  rw [monoTimeAddUsecs, Word.toInt, Word.toInt, Word.toInt, Word.toInt, Int.bmod_add_bmod,
    Int.add_bmod_bmod, Nat.cast_add]

/-- The state says what the tally says. -/
structure Agrees (s : State) (l : Tally) : Prop where
  initialized : s.counter.initialized = true
  time : s.counter.time = Word.toInt 32 l.counted
  lastValue : ∃ last, s.counter.lastValue = tmcct last ∧ s.tick = last + l.waiting

lemma Agrees.call (h : Agrees s l) (hfsb : 0 < timerFsb) :
    Agrees (timerMonotonicGet timerFsb setup s gap) (l.call timerFsb gap) := by
  obtain ⟨hinit, htime, last, hlast, htick⟩ := h
  have helapsed : Word.sub 32 s.counter.lastValue (tmcct (s.tick + gap)) =
      (l.waiting + gap) % 2 ^ 32 := by
    rw [hlast, htick, Nat.add_assoc, sub_tmcct]
  simp only [timerMonotonicGet, Tally.call, hinit, if_true, helapsed]
  by_cases hless : (l.waiting + gap) % 2 ^ 32 < timerFsb
  · have hnone : (l.waiting + gap) % 2 ^ 32 / timerFsb = 0 := Nat.div_eq_of_lt hless
    rw [if_pos hless, hnone, if_neg (not_not.mpr rfl)]
    exact ⟨hinit, htime, last, hlast, by simp [htick, Nat.add_assoc]⟩
  · have hcounts : (l.waiting + gap) % 2 ^ 32 / timerFsb ≠ 0 :=
      (Nat.div_pos (not_lt.mp hless) hfsb).ne'
    rw [if_neg hless, if_pos hcounts]
    refine ⟨rfl, ?_, s.tick + gap, rfl, rfl⟩
    change monoTimeAddUsecs s.counter.time _ = _
    rw [htime, monoTimeAddUsecs_eq]

/-- The state after `init_timer` and the first reading. -/
def started (setup : ℕ) : State := ⟨⟨true, 0, tmcct setup⟩, setup⟩

lemma agrees_foldl (h : Agrees s l) (hfsb : 0 < timerFsb) (gaps : List ℕ) :
    Agrees (gaps.foldl (timerMonotonicGet timerFsb setup) s)
      (gaps.foldl (Tally.call timerFsb) l) := by
  induction gaps generalizing s l with
  | nil => exact h
  | cons gap gaps ih => exact ih (h.call hfsb)

/-- The time is the number of microseconds that are counted, as a `long`. -/
lemma returned_eq (hfsb : 0 < timerFsb) (gaps : List ℕ) :
    returned timerFsb setup gaps = Word.toInt 32 (tally timerFsb gaps).counted := by
  cases gaps with
  | nil => simp [returned, tally, start, Word.toInt]
  | cons gap gaps =>
    have hstart : Agrees (started setup) ⟨0, 0, 0⟩ := ⟨rfl, rfl, setup, rfl, rfl⟩
    have hfirst : timerMonotonicGet timerFsb setup start gap =
        timerMonotonicGet timerFsb setup (started setup) gap := rfl
    rw [returned, tally, List.foldl_cons, List.foldl_cons, hfirst]
    exact (agrees_foldl (hstart.call hfsb) hfsb gaps).time

/-! ### Every tick is counted or lost -/

lemma Tally.call_total :
    timerFsb * (l.call timerFsb gap).counted +
        ((l.call timerFsb gap).waiting + (l.call timerFsb gap).dropped) =
      timerFsb * l.counted + (l.waiting + l.dropped) + gap := by
  simp only [Tally.call]
  split_ifs with hless
  · simp only
    omega
  · have hdiv := Nat.div_add_mod ((l.waiting + gap) % 2 ^ 32) timerFsb
    have hmod := Nat.mod_le (l.waiting + gap) (2 ^ 32)
    simp only [Nat.mul_add]
    omega

lemma tally_concat : tally timerFsb (gaps ++ [gap]) = (tally timerFsb gaps).call timerFsb gap := by
  rw [tally, tally, List.foldl_append]
  rfl

lemma counted_add_lost (timerFsb : ℕ) (gaps : List ℕ) :
    timerFsb * (tally timerFsb gaps).counted + lost timerFsb gaps = gaps.sum := by
  induction gaps using List.reverseRecOn with
  | nil => rfl
  | append_singleton gaps gap ih =>
    rw [lost, tally_concat, Tally.call_total, List.sum_append, List.sum_singleton, ← ih, lost]

lemma counted_mono (h : p <+: q) : (tally timerFsb p).counted ≤ (tally timerFsb q).counted := by
  obtain ⟨r, rfl⟩ := h
  induction r using List.reverseRecOn with
  | nil => simp
  | append_singleton r gap ih =>
    rw [← List.append_assoc, tally_concat]
    refine ih.trans ?_
    simp only [Tally.call]
    split_ifs
    · exact le_rfl
    · exact Nat.le_add_right _ _

/-! ### Accuracy -/

/-- The difference in ticks instead of microseconds. -/
lemma close_iff {total : ℕ} {time : ℤ} (hfsb : 0 < timerFsb) :
    |(total : ℚ) / timerFsb - time| ≤ 1 ↔ |(total : ℤ) - timerFsb * time| ≤ timerFsb := by
  have hpos : (0 : ℚ) < timerFsb := by exact_mod_cast hfsb
  have hscale : |(total : ℚ) / timerFsb - time| * timerFsb = |(total : ℚ) - timerFsb * time| := by
    rw [← abs_of_pos hpos, ← abs_mul, abs_of_pos hpos, sub_mul, div_mul_cancel₀ _ hpos.ne',
      mul_comm (time : ℚ)]
  rw [← mul_le_mul_iff_of_pos_right hpos, hscale, one_mul]
  exact_mod_cast Iff.rfl

/-- The time is close exactly if few ticks are lost and it fits. -/
lemma close_returned_iff (hfsb : 0 < timerFsb) :
    |(p.sum : ℚ) / timerFsb - returned timerFsb setup p| ≤ 1 ↔
      lost timerFsb p ≤ timerFsb ∧ p.sum < 2 ^ 31 * timerFsb + lost timerFsb p := by
  have htotal := counted_add_lost timerFsb p
  have hpos : (0 : ℤ) < timerFsb := by exact_mod_cast hfsb
  rw [close_iff hfsb, returned_eq hfsb]
  generalize (tally timerFsb p).counted = counted at htotal ⊢
  generalize lost timerFsb p = lost at htotal ⊢
  have hfits : p.sum < 2 ^ 31 * timerFsb + lost ↔ counted < 2 ^ 31 := by
    rw [← htotal, Nat.add_lt_add_iff_right, Nat.mul_comm, Nat.mul_lt_mul_right hfsb]
  rw [hfits, ← htotal]
  push_cast
  constructor
  · intro hclose
    -- a time that has wrapped around is below the ticks that are counted
    have hcounted : counted < 2 ^ 31 := by
      by_contra hge
      have htime : Word.toInt 32 counted < 2 ^ 31 := by
        simp only [Word.toInt, Int.bmod]
        split_ifs <;> omega
      have hmul : (timerFsb : ℤ) * (Word.toInt 32 counted + 1) ≤ timerFsb * counted :=
        mul_le_mul_of_nonneg_left (by omega) hpos.le
      have hlow : -(2 : ℤ) ^ 31 ≤ Word.toInt 32 counted := by
        simp only [Word.toInt, Int.bmod]
        split_ifs <;> omega
      have hle := (abs_le.mp hclose).2
      have hle' : (timerFsb : ℤ) * counted ≤ timerFsb * (Word.toInt 32 counted + 1) := by
        rw [mul_add]
        omega
      have heq : (counted : ℤ) = Word.toInt 32 counted + 1 :=
        mul_left_cancel₀ hpos.ne' (le_antisymm hle' hmul)
      simp only [Word.toInt, Int.bmod] at heq htime
      split_ifs at heq htime <;> omega
    rw [Word.toInt_eq (by omega)] at hclose
    refine ⟨?_, hcounted⟩
    have hle := (abs_le.mp hclose).2
    omega
  · rintro ⟨hlost, hcounted⟩
    rw [Word.toInt_eq (by omega)]
    refine abs_le.mpr ⟨?_, ?_⟩ <;> omega

/-- A run of calls is accurate exactly if it keeps up. -/
theorem accurate_iff (hfsb : 0 < timerFsb) :
    Accurate timerFsb setup gaps ↔ KeepsUp timerFsb gaps := by
  constructor
  · intro h p hp
    rcases eq_or_ne p [] with rfl | hne
    · refine ⟨Nat.zero_le _, ?_⟩
      have hzero : lost timerFsb [] = 0 := rfl
      rw [hzero, List.sum_nil]
      omega
    · exact (close_returned_iff hfsb).mp (h.close p hne hp)
  · intro h
    have hcounted : ∀ p, p <+: gaps → (tally timerFsb p).counted < 2 ^ 31 := by
      intro p hp
      have hlt := (h p hp).2
      rw [← counted_add_lost timerFsb p, Nat.add_lt_add_iff_right, Nat.mul_comm,
        Nat.mul_lt_mul_right hfsb] at hlt
      exact hlt
    refine ⟨fun p q _ hpq hq => ?_, fun p _ hp => (close_returned_iff hfsb).mpr (h p hp)⟩
    have hp := hcounted p (hpq.trans hq)
    have hq := hcounted q hq
    rw [returned_eq hfsb, returned_eq hfsb, Word.toInt_eq (by omega), Word.toInt_eq (by omega)]
    exact_mod_cast counted_mono hpq

theorem accurate_iff_few_calls : Accurate 200 10 [0, 400, 150, 250] :=
  (accurate_iff (by decide)).mpr (by decide)

/-- Three calls 399 ticks apart at 200 ticks per microsecond: each loses 199 ticks. -/
theorem not_accurate : ¬Accurate 200 10 [0, 399, 399, 399] := by
  intro h
  have hclose := h.close [0, 399, 399, 399] (by simp) List.prefix_rfl
  have htime : returned 200 10 [0, 399, 399, 399] = 3 := by decide
  rw [htime] at hclose
  norm_num at hclose

end ApuBios.MonotonicTimer
