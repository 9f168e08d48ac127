import ApuBios.Libpayload.Libc.Rtc
import ApuBios.Library.Transition

/-!
# The time of day

Model of `update_clock` and `gettimeofday` in `libc/time.c` with `CONFIG_NVRAM`. The timer counts up
with a frequency that does not change, and `timer_raw_value` and `rdtsc` read its low 64 bits.
-/

namespace ApuBios.Libc

/-! ### Model -/

/-- `clock`; the times are of type `long`. -/
structure Clock where
  ticks : ℕ
  secs : ℤ
  usecs : ℤ
deriving DecidableEq

def updateClock (timer_hz raw : ℕ) (clock : Clock) : Clock :=
  let delta := Word.sub 64 raw clock.ticks
  let ticks_per_sec := timer_hz
  let ticks_per_usec := timer_hz / 1000000
  let ticks := Word.add 64 clock.ticks delta
  let secs := Word.toInt 32 (delta / ticks_per_sec : ℕ)
  let clock_secs := Word.toInt 32 (clock.secs + secs)
  let delta := Word.sub 64 delta (Word.ofInt 64 (secs * ticks_per_sec))
  let usecs := Word.toInt 32 (clock.usecs + Word.toInt 32 (delta / ticks_per_usec : ℕ))
  if usecs > 1000000 then ⟨ticks, Word.toInt 32 (clock_secs + 1), usecs - 1000000⟩
  else ⟨ticks, clock_secs, usecs⟩

/-- The timer with all its bits, and the clock. -/
structure TimeOfDay where
  timer : ℕ
  clock : Clock
deriving DecidableEq

/-- A call: the ticks until it begins, those until it reads the timer in `update_clock`, and the
registers of the real-time clock. -/
structure Call where
  elapsed : ℕ
  lag : ℕ
  cmos : CmosOption.Cmos

/-- The ticks since the timer was read. -/
def Call.ticks (c : Call) : ℕ := c.elapsed + c.lag

/-- The time that is returned is that of the clock. -/
def gettimeofday (timer_hz : ℕ) (s : TimeOfDay) (c : Call) : Option TimeOfDay := do
  let start := (s.timer + c.elapsed) % 2 ^ 64
  let clock ←
    if s.clock.ticks = 0 then (gettimeofdayInit c.cmos).map fun secs => ⟨start, secs, s.clock.usecs⟩
    else some s.clock
  let timer := s.timer + c.ticks
  return ⟨timer, updateClock timer_hz (timer % 2 ^ 64) clock⟩

/-! ### What is to hold -/

/-- The returned time in microseconds. -/
def TimeOfDay.time (s : TimeOfDay) : ℤ := 1000000 * s.clock.secs + s.clock.usecs

/-- The clock has been initialised or read now, and has not run out of its `long`. -/
structure TimeOfDay.Started (s : TimeOfDay) : Prop where
  ticks : s.clock.ticks = s.timer % 2 ^ 64
  secs : 0 ≤ s.clock.secs ∧ s.clock.secs < 2 ^ 31
  usecs : 0 ≤ s.clock.usecs ∧ s.clock.usecs ≤ 999999

/-- The microseconds that elapse, without the seconds that have passed. -/
def Call.usecs (timer_hz : ℕ) (c : Call) : ℕ := 1000000 * c.ticks / timer_hz % 1000000

/-- No fraction of a microsecond is lost, `ticks_per_usec` is exact enough, the microseconds do not
come to a million, and the types are large enough. -/
structure Exact (timer_hz : ℕ) (s : TimeOfDay) (c : Call) : Prop where
  initialised : s.clock.ticks ≠ 0
  ticks : c.ticks < 2 ^ 64
  secs : s.clock.secs + (c.ticks / timer_hz : ℕ) + 1 < 2 ^ 31
  whole : timer_hz ∣ 1000000 * c.ticks
  perUsec : c.usecs timer_hz * (timer_hz % 1000000) < 1000000 * (timer_hz / 1000000)
  carry : s.clock.usecs + c.usecs timer_hz ≠ 1000000

instance {timer_hz : ℕ} {s : TimeOfDay} {c : Call} : Decidable (Exact timer_hz s c) :=
  decidable_of_iff (s.clock.ticks ≠ 0 ∧ c.ticks < 2 ^ 64 ∧
    s.clock.secs + (c.ticks / timer_hz : ℕ) + 1 < 2 ^ 31 ∧ timer_hz ∣ 1000000 * c.ticks ∧
    c.usecs timer_hz * (timer_hz % 1000000) < 1000000 * (timer_hz / 1000000) ∧
    s.clock.usecs + c.usecs timer_hz ≠ 1000000)
    ⟨fun ⟨h₁, h₂, h₃, h₄, h₅, h₆⟩ => ⟨h₁, h₂, h₃, h₄, h₅, h₆⟩,
      fun h => ⟨h.initialised, h.ticks, h.secs, h.whole, h.perUsec, h.carry⟩⟩

open Transition in
/-- All calls return, the time never decreases and its microseconds stay below a million, and it
follows the timer up to the bound, in microseconds. -/
structure KeepsTime (timer_hz : ℕ) (s : TimeOfDay) (cs : List Call) (bound : ℚ) : Prop where
  returns : ∃ t, exec (gettimeofday timer_hz) s cs = some t
  usecs : ∀ p t, p <+: cs → exec (gettimeofday timer_hz) s p = some t →
    0 ≤ t.clock.usecs ∧ t.clock.usecs ≤ 999999
  monotone : ∀ p q t u, p ++ q <+: cs → exec (gettimeofday timer_hz) s p = some t →
    exec (gettimeofday timer_hz) s (p ++ q) = some u → t.time ≤ u.time
  close : ∀ p t, p <+: cs → exec (gettimeofday timer_hz) s p = some t →
    |((t.time - s.time : ℤ) : ℚ) - 1000000 * (t.timer - s.timer : ℤ) / timer_hz| ≤ bound

variable {timer_hz : ℕ} {s t : TimeOfDay} {c : Call} {cs : List Call}

/-! ### One call -/

lemma sub_timer (timer : ℕ) {delta : ℕ} (h : delta < 2 ^ 64) :
    Word.sub 64 ((timer + delta) % 2 ^ 64) (timer % 2 ^ 64) = delta := by
  simp only [Word.sub]
  omega

lemma sub_secs {delta : ℕ} (h : delta < 2 ^ 64) (timer_hz : ℕ) :
    Word.sub 64 delta (Word.ofInt 64 ((delta / timer_hz : ℕ) * timer_hz)) = delta % timer_hz := by
  have hle := Nat.div_mul_le_self delta timer_hz
  rw [← Nat.cast_mul, Word.ofInt_eq (hle.trans_lt h), Word.sub_eq hle h]
  have hdiv := Nat.div_add_mod' delta timer_hz
  omega

/-- What the remainder is divided into are the microseconds. -/
lemma div_ticks_per_usec (hhz : 1000000 ≤ timer_hz) (hwhole : timer_hz ∣ 1000000 * c.ticks)
    (hper : c.usecs timer_hz * (timer_hz % 1000000) < 1000000 * (timer_hz / 1000000)) :
    c.ticks % timer_hz / (timer_hz / 1000000) = c.usecs timer_hz ∧
      1000000 * (c.ticks % timer_hz) = c.usecs timer_hz * timer_hz := by
  obtain ⟨total, htotal⟩ := hwhole
  have hdiv := Nat.div_add_mod c.ticks timer_hz
  have hlt := Nat.mod_lt c.ticks (show 0 < timer_hz by omega)
  have hhz' := Nat.div_add_mod timer_hz 1000000
  have hsplit : 1000000 * (c.ticks % timer_hz) + 1000000 * (c.ticks / timer_hz) * timer_hz =
      total * timer_hz := by
    rw [Nat.mul_comm total, ← htotal, Nat.mul_assoc, ← Nat.mul_add, Nat.mul_comm _ timer_hz,
      Nat.add_comm, hdiv]
  have hle : 1000000 * (c.ticks / timer_hz) ≤ total := by
    by_contra hgt
    have := Nat.mul_lt_mul_of_pos_right (not_le.mp hgt) (show 0 < timer_hz by omega)
    omega
  obtain ⟨u, rfl⟩ := Nat.exists_eq_add_of_le hle
  have hu : 1000000 * (c.ticks % timer_hz) = u * timer_hz := by
    rw [Nat.add_mul] at hsplit
    omega
  have hult : u < 1000000 := by
    by_contra hge
    have := Nat.mul_le_mul_right timer_hz (not_lt.mp hge)
    omega
  have husecs : c.usecs timer_hz = u := by
    rw [Call.usecs, htotal, Nat.mul_div_cancel_left _ (by omega), Nat.mul_add_mod,
      Nat.mod_eq_of_lt hult]
  rw [husecs] at hper ⊢
  refine ⟨?_, hu⟩
  have hparts : u * timer_hz = 1000000 * (u * (timer_hz / 1000000)) + u * (timer_hz % 1000000) := by
    conv_lhs => rw [← hhz']
    ring
  refine Nat.div_eq_of_lt_le (by omega) ?_
  rw [Nat.succ_mul]
  omega

/-- What a call counts, while the types are large enough and the microseconds do not come to a
million. -/
lemma updateClock_eq (timer : ℕ) {n m delta q : ℕ} (hq : q = delta % timer_hz / (timer_hz / 1000000))
    (hdelta : delta < 2 ^ 64) (hn : n + delta / timer_hz + 1 < 2 ^ 31) (hm : m + q < 2000000)
    (hne : m + q ≠ 1000000) :
    ∃ secs usecs : ℕ, updateClock timer_hz ((timer + delta) % 2 ^ 64) ⟨timer % 2 ^ 64, n, m⟩ =
        ⟨(timer + delta) % 2 ^ 64, secs, usecs⟩ ∧
      1000000 * secs + usecs = 1000000 * (n + delta / timer_hz) + (m + q) ∧
      secs < 2 ^ 31 ∧ usecs ≤ 999999 := by
  have htotal : 1000000 < m + q → 1000000 * (n + delta / timer_hz + 1) + (m + q - 1000000) =
      1000000 * (n + delta / timer_hz) + (m + q) := by omega
  have hover : m + q - 1000000 ≤ 999999 := by omega
  have hdiv : 2 * (delta / timer_hz) < 2 ^ 32 := by omega
  have hsum : 2 * (n + delta / timer_hz) < 2 ^ 32 := by omega
  have hnext : 2 * (n + delta / timer_hz + 1) < 2 ^ 32 := by omega
  have hquotient : 2 * q < 2 ^ 32 := by omega
  have hrest : 2 * (m + q) < 2 ^ 32 := by omega
  have hcast : ((m + q : ℕ) : ℤ) > 1000000 ↔ 1000000 < m + q := by
    rw [gt_iff_lt]
    exact_mod_cast Iff.rfl
  have hticks : Word.add 64 (timer % 2 ^ 64) delta = (timer + delta) % 2 ^ 64 := by
    rw [Word.add, Nat.mod_add_mod]
  have hsecs : Word.toInt 32 (delta / timer_hz : ℕ) = (delta / timer_hz : ℕ) := Word.toInt_eq hdiv
  have hclock : Word.toInt 32 ((n : ℤ) + (delta / timer_hz : ℕ)) = (n + delta / timer_hz : ℕ) := by
    rw [← Nat.cast_add, Word.toInt_eq hsum]
  have hcarry : Word.toInt 32 ((n + delta / timer_hz : ℕ) + 1) =
      (n + delta / timer_hz + 1 : ℕ) := by
    rw [← Nat.cast_add_one, Word.toInt_eq hnext]
  have husecs : Word.toInt 32 (m + Word.toInt 32 (q : ℕ)) = (m + q : ℕ) := by
    rw [Word.toInt_eq hquotient, ← Nat.cast_add, Word.toInt_eq hrest]
  rcases Nat.lt_or_ge 1000000 (m + q) with h | h
  · refine ⟨n + delta / timer_hz + 1, m + q - 1000000, ?_, htotal h, hn, hover⟩
    simp only [updateClock, sub_timer timer hdelta, hticks, hsecs, sub_secs hdelta, ← hq, hclock,
      hcarry, husecs, hcast, if_pos h]
    rw [Nat.cast_sub h.le, Nat.cast_ofNat]
  · refine ⟨n + delta / timer_hz, m + q, ?_, rfl, (Nat.lt_succ_self _).trans hn,
      Nat.le_of_lt_succ (lt_of_le_of_ne h hne)⟩
    simp only [updateClock, sub_timer timer hdelta, hticks, hsecs, sub_secs hdelta, ← hq, hclock,
      husecs, hcast, if_neg (not_lt.mpr h)]

/-- The clock advances by the ticks of the call. -/
lemma gettimeofday_eq (hhz : 1000000 ≤ timer_hz) (hs : s.Started) (hc : Exact timer_hz s c) :
    ∃ t, gettimeofday timer_hz s c = some t ∧ t.Started ∧ t.timer = s.timer + c.ticks ∧
      timer_hz * (t.time - s.time) = 1000000 * c.ticks := by
  obtain ⟨hquotient, hticks⟩ := div_ticks_per_usec hhz hc.whole hc.perUsec
  obtain ⟨n, hn⟩ := Int.eq_ofNat_of_zero_le hs.secs.1
  obtain ⟨m, hm⟩ := Int.eq_ofNat_of_zero_le hs.usecs.1
  have hclock : s.clock = ⟨s.timer % 2 ^ 64, n, m⟩ := by rw [← hs.ticks, ← hn, ← hm]
  have husecs : m ≤ 999999 := by
    have := hs.usecs.2
    omega
  have hlt : c.usecs timer_hz < 1000000 := Nat.mod_lt _ (by decide)
  have hlarge : n + c.ticks / timer_hz + 1 < 2 ^ 31 := by
    have := hc.secs
    rw [hn] at this
    omega
  have hne : m + c.usecs timer_hz ≠ 1000000 := by
    have := hc.carry
    rw [hm] at this
    omega
  have hdiv := Nat.div_add_mod c.ticks timer_hz
  obtain ⟨secs, usecs, hupdate, htotal, hsecs', husecs'⟩ := updateClock_eq s.timer
    hquotient.symm hc.ticks hlarge (by omega) hne
  have hcall : gettimeofday timer_hz s c =
      some ⟨s.timer + c.ticks, ⟨(s.timer + c.ticks) % 2 ^ 64, secs, usecs⟩⟩ := by
    rw [← hupdate, gettimeofday, if_neg hc.initialised, ← hclock]
    rfl
  have hsecs'' : (secs : ℤ) < 2 ^ 31 := by exact_mod_cast hsecs'
  have husecs'' : (usecs : ℤ) ≤ 999999 := by exact_mod_cast husecs'
  have hcounted : timer_hz * (1000000 * secs + usecs) =
      timer_hz * (1000000 * n + m) + 1000000 * c.ticks := by
    rw [htotal]
    conv_rhs => rw [← hdiv, Nat.mul_add 1000000, hticks]
    ring
  refine ⟨_, hcall, ⟨rfl, ⟨Int.natCast_nonneg _, hsecs''⟩, Int.natCast_nonneg _, husecs''⟩, rfl, ?_⟩
  have hcounted' : (timer_hz : ℤ) * (1000000 * secs + usecs) =
      timer_hz * (1000000 * n + m) + 1000000 * c.ticks := by exact_mod_cast hcounted
  rw [TimeOfDay.time, TimeOfDay.time, hn, hm, mul_sub, sub_eq_iff_eq_add']
  exact hcounted'

/-! ### All calls -/

open Transition in
/-- After every run the clock shows what has elapsed. -/
lemma exec_gettimeofday (hhz : 1000000 ≤ timer_hz) (hs : s.Started)
    (hcs : Admits (gettimeofday timer_hz) (Exact timer_hz) s cs) :
    ∃ t, exec (gettimeofday timer_hz) s cs = some t ∧ t.Started ∧ s.timer ≤ t.timer ∧
      timer_hz * (t.time - s.time) = 1000000 * (t.timer - s.timer : ℤ) := by
  refine exec_of_admits (I := fun t => t.Started ∧ s.timer ≤ t.timer ∧
    timer_hz * (t.time - s.time) = 1000000 * (t.timer - s.timer : ℤ)) (fun u c hu hc => ?_)
    ⟨hs, le_rfl, by rw [sub_self, sub_self, mul_zero, mul_zero]⟩ hcs
  obtain ⟨hstarted, hle, hclose⟩ := hu
  obtain ⟨t, hcall, ht, htimer, hcounted⟩ := gettimeofday_eq hhz hstarted hc
  refine ⟨t, hcall, ht, by omega, ?_⟩
  have hsplit : t.time - s.time = (t.time - u.time) + (u.time - s.time) := by ring
  rw [hsplit, mul_add, hcounted, hclose, htimer]
  push_cast
  ring

open Transition in
/-- In a run whose calls are exact the clock keeps the time of the timer, without any difference. -/
theorem keepsTime_of_exact (hhz : 1000000 ≤ timer_hz) (hs : s.Started)
    (hcs : Admits (gettimeofday timer_hz) (Exact timer_hz) s cs) : KeepsTime timer_hz s cs 0 := by
  have hrun : ∀ p t, p <+: cs → exec (gettimeofday timer_hz) s p = some t → t.Started ∧
      timer_hz * (t.time - s.time) = 1000000 * (t.timer - s.timer : ℤ) := by
    rintro p t ⟨q, rfl⟩ hp
    obtain ⟨t', hp', ht, -, hclose⟩ := exec_gettimeofday hhz hs (admits_append_iff.mp hcs).1
    obtain rfl := Option.some.inj (hp.symm.trans hp')
    exact ⟨ht, hclose⟩
  have hpos : (0 : ℤ) < timer_hz := by exact_mod_cast (show 0 < timer_hz by omega)
  refine ⟨?_, fun p t hp ht => (hrun p t hp ht).1.usecs, fun p q t u hpq ht hu => ?_,
    fun p t hp ht => ?_⟩
  · obtain ⟨t, ht, -⟩ := exec_gettimeofday hhz hs hcs
    exact ⟨t, ht⟩
  · -- the second run goes on from where the first one has ended
    obtain ⟨r, rfl⟩ := hpq
    have hq := (admits_append_iff.mp (admits_append_iff.mp hcs).1).2 t ht
    have hstarted := (hrun p t ⟨q ++ r, by rw [List.append_assoc]⟩ ht).1
    obtain ⟨u', hu', -, hle, hclose⟩ := exec_gettimeofday hhz hstarted hq
    rw [exec_append, ht, Option.bind_some] at hu
    obtain rfl := Option.some.inj (hu.symm.trans hu')
    have hnonneg : 0 ≤ (timer_hz : ℤ) * (u.time - t.time) := by
      rw [hclose]
      omega
    have := nonneg_of_mul_nonneg_right hnonneg hpos
    omega
  · have hclose := (hrun p t hp ht).2
    have hne : (timer_hz : ℚ) ≠ 0 := by exact_mod_cast hpos.ne'
    have hclose' : (timer_hz : ℚ) * ((t.time - s.time : ℤ) : ℚ) =
        1000000 * ((t.timer - s.timer : ℤ) : ℚ) := by exact_mod_cast hclose
    rw [← hclose', mul_div_cancel_left₀ _ hne, sub_self, abs_zero]

/-- A clock that has been initialised at the tick 1. -/
def early : TimeOfDay := ⟨1, ⟨1, 0, 0⟩⟩

/-- Calls this number of ticks apart. -/
def calls (ticks : List ℕ) : List Call := ticks.map fun n => ⟨n, 0, fun _ => 0⟩

theorem keepsTime_of_exact_calls : KeepsTime 2000000 early (calls [10, 6000008, 1999984]) 0 :=
  keepsTime_of_exact (by decide) ⟨rfl, by decide, by decide⟩ (by decide +kernel)

/-- A clock of 1 MHz that is read after 999999 ticks and at the next one. -/
theorem not_keepsTime : ¬ ∃ bound, ∀ cs, KeepsTime 1000000 early cs bound := by
  rintro ⟨bound, h⟩
  have hcalls : Transition.exec (gettimeofday 1000000) early (calls [999999, 1]) =
      some ⟨1000001, ⟨1000001, 0, 1000000⟩⟩ := by decide +kernel
  exact absurd ((h _).usecs _ _ List.prefix_rfl hcalls).2 (by decide)

lemma gettimeofday_tick {k : ℕ} (hk : 0 < k) (hlt : k + 1 < 2 ^ 64) (cmos : CmosOption.Cmos) :
    gettimeofday 2000000 ⟨k, ⟨k, 0, 0⟩⟩ ⟨1, 0, cmos⟩ = some ⟨k + 1, ⟨k + 1, 0, 0⟩⟩ := by
  obtain ⟨secs, usecs, hupdate, htotal, -, -⟩ := @updateClock_eq 2000000 k 0 0 1 0 rfl (by decide) (by decide) (by decide) (by decide)
  obtain ⟨rfl, rfl⟩ : secs = 0 ∧ usecs = 0 := by omega
  rw [Nat.mod_eq_of_lt hlt, Nat.mod_eq_of_lt (Nat.lt_of_succ_lt hlt)] at hupdate
  rw [gettimeofday, if_neg hk.ne']
  change some (⟨k + 1, updateClock 2000000 ((k + 1) % 2 ^ 64) ⟨k, 0, 0⟩⟩ : TimeOfDay) = _
  rw [Nat.mod_eq_of_lt hlt]
  exact congrArg (fun clock => some (⟨k + 1, clock⟩ : TimeOfDay)) hupdate

/-- A clock of 2 MHz that is read at every tick stands still. -/
theorem exec_everyTick {k n : ℕ} (hk : 0 < k) (hlt : k + n < 2 ^ 64) :
    Transition.exec (gettimeofday 2000000) ⟨k, ⟨k, 0, 0⟩⟩ (calls (List.replicate n 1)) =
      some ⟨k + n, ⟨k + n, 0, 0⟩⟩ := by
  induction n generalizing k with
  | zero => rfl
  | succ n ih =>
    have hrest := ih (k := k + 1) (Nat.succ_pos k) (by omega)
    rw [Nat.add_right_comm] at hrest
    rw [List.replicate_succ, calls, List.map_cons, Transition.exec,
      gettimeofday_tick hk (by omega), Option.bind_some]
    exact hrest

end ApuBios.Libc
