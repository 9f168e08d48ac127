import ApuBios.Library.Transition
import ApuBios.Libpayload.UsbHid.Basic

/-!
# The keyboard buffer

When a character is taken out, as many bytes are moved as there are characters left, so that only the
first half of them moves up. The buffer is a queue as long as the other half does not have to move.
-/

namespace ApuBios.UsbHid

open Transition

variable {k : Keys} {i : ℕ} {ch : ℤ}

/-- `short` -/
abbrev Short := {ch : ℤ // -0x8000 ≤ ch ∧ ch < 0x8000}

inductive Event where
  | queue (ch : Short)
  | getchar

/-! ### A bounded queue -/

/-- Characters are dropped while 16 are waiting, and zero is returned while none is. -/
def fifoStep (waiting : List ℤ) : Event → List ℤ
  | .queue ch => if waiting.length < 16 then waiting ++ [ch.val] else waiting
  | .getchar => waiting.tail

/-! ### The characters that wait -/

/-- The characters that wait in the buffer, the first one being the next to be returned. -/
def Keys.waiting (k : Keys) : List ℤ := (List.range k.keycount).map k.key

def Keys.step (k : Keys) : Event → Keys
  | .queue ch => usbHidKeyboardQueue k ch.val
  | .getchar => (usbhidGetchar k).2

/-- The lower and the upper byte of an element. -/
def Keys.lower (k : Keys) (i : ℕ) : UInt8 := k.keybuffer (2 * i)

def Keys.upper (k : Keys) (i : ℕ) : UInt8 := k.keybuffer (2 * i + 1)

/-- When a character is taken out, the bytes that are not moved already are what they have to be. -/
def Keys.Survives (k : Keys) : Event → Prop
  | .queue _ => True
  | .getchar => ∀ i, i + 1 < k.keycount →
      (k.keycount ≤ 2 * i + 2 → k.upper i = k.upper (i + 1)) ∧
        (k.keycount ≤ 2 * i + 1 → k.lower i = k.lower (i + 1))

/-- Elements are the same if both of their bytes are. -/
lemma key_eq_key {k' : Keys} {j : ℕ} :
    k.key i = k'.key j ↔ k.lower i = k'.lower j ∧ k.upper i = k'.upper j := by
  have hread (k : Keys) (i : ℕ) :
      k.keybuffer.readLE (2 * i) 2 = (k.lower i).toNat + 256 * (k.upper i).toNat := rfl
  have hlower := (k.lower i).toNat_lt
  have hlower' := (k'.lower j).toNat_lt
  have hupper := (k.upper i).toNat_lt
  have hupper' := (k'.upper j).toNat_lt
  rw [Keys.key, Keys.key, Word.toInt_inj (by rw [hread]; omega) (by rw [hread]; omega), hread, hread,
    ← UInt8.toNat_inj, ← UInt8.toNat_inj]
  omega

/-! ### One event -/

lemma waiting_length (k : Keys) : k.waiting.length = k.keycount := by
  rw [Keys.waiting, List.length_map, List.length_range]

/-- A character that is queued waits behind the other ones, unless 16 are waiting. -/
lemma waiting_queue (k : Keys) (ch : Short) :
    (usbHidKeyboardQueue k ch.val).waiting = fifoStep k.waiting (.queue ch) := by
  rw [usbHidKeyboardQueue, fifoStep, waiting_length]
  by_cases hfull : k.keycount < KEYBOARD_BUFFER_SIZE
  · have hfull' : k.keycount < 16 := hfull
    have hlast : Word.toInt 16 (Word.ofInt 16 ch.val) = ch.val :=
      Word.toInt_ofInt (by have := ch.property; omega) (by have := ch.property; omega)
    rw [if_pos hfull, if_pos hfull', Keys.waiting, Keys.waiting, List.range_succ, List.map_append,
      List.map_singleton]
    refine congrArg₂ (· ++ ·) (List.map_congr_left fun i hi => ?_) (congrArg (fun ch => [ch]) ?_)
    · rw [List.mem_range] at hi
      rw [Keys.key, Keys.key, Mem.readLE_writeLE_disjoint (by omega)]
    · rw [Keys.key, Mem.readLE_writeLE Word.ofInt_lt, hlast]
  · have hfull' : ¬k.keycount < 16 := hfull
    rw [if_neg hfull, if_neg hfull']

/-- The next character is returned, or zero if none is waiting. -/
lemma getchar_fst (k : Keys) : (usbhidGetchar k).1 = k.waiting.headD 0 := by
  rw [usbhidGetchar, Keys.waiting]
  by_cases hzero : k.keycount = 0
  · rw [if_pos hzero, hzero, List.range_zero, List.map_nil, List.headD_nil]
  · obtain ⟨n, hn⟩ := Nat.exists_eq_succ_of_ne_zero hzero
    rw [if_neg hzero, hn, List.range_succ_eq_map, List.map_cons, List.headD_cons]

/-- The other characters move up exactly if the bytes that are not moved are what they have to be. -/
lemma waiting_getchar (k : Keys) :
    (usbhidGetchar k).2.waiting = k.waiting.tail ↔ k.Survives .getchar := by
  rw [usbhidGetchar]
  by_cases hzero : k.keycount = 0
  · rw [if_pos hzero, Keys.waiting, hzero]
    simp [Keys.Survives, hzero]
  · obtain ⟨n, hn⟩ := Nat.exists_eq_succ_of_ne_zero hzero
    set k' : Keys := ⟨k.keycount - 1, k.keybuffer.memmove 0 2 (k.keycount - 1)⟩ with hk'
    have hwaiting : k'.waiting = (List.range n).map k'.key := by
      rw [Keys.waiting, hk', hn, Nat.succ_sub_one]
    have htail : k.waiting.tail = (List.range n).map fun i => k.key (i + 1) := by
      rw [Keys.waiting, hn, List.range_succ_eq_map, List.map_cons, List.tail_cons, List.map_map]
      refine List.map_congr_left fun i _ => ?_
      rw [Function.comp_apply]
    have hbyte (a : ℕ) : k'.keybuffer a = if a < n then k.keybuffer (2 + a) else k.keybuffer a := by
      simp only [hk', Mem.memmove, hn, Nat.succ_sub_one, Nat.zero_le, true_and, Nat.zero_add, Nat.sub_zero]
    have hlower (i : ℕ) : k'.lower i = if 2 * i < n then k.lower (i + 1) else k.lower i := by
      rw [Keys.lower, hbyte, Keys.lower, Keys.lower, Nat.mul_add, Nat.add_comm 2]
    have hupper (i : ℕ) : k'.upper i = if 2 * i + 1 < n then k.upper (i + 1) else k.upper i := by
      rw [Keys.upper, hbyte, Keys.upper, Keys.upper, Nat.mul_add, Nat.add_comm 2, Nat.add_right_comm]
    rw [if_neg hzero]
    simp only
    rw [← hk', hwaiting, htail, List.map_inj_left, Keys.Survives, hn]
    refine forall_congr' fun i => ?_
    rw [List.mem_range, Nat.succ_lt_succ_iff, key_eq_key, hlower, hupper, ite_eq_left_iff,
      ite_eq_left_iff, not_lt, not_lt, Nat.succ_le_succ_iff, Nat.succ_le_succ_iff, and_comm]

/-! ### Runs -/

/-- The buffer, and the queue that it ought to be. -/
structure Run where
  keys : Keys
  fifo : List ℤ

def step (r : Run) (e : Event) : Option Run := some ⟨r.keys.step e, fifoStep r.fifo e⟩

/-- The buffer is empty, whatever its bytes are. -/
def start (keybuffer : Mem) : Run := ⟨⟨0, keybuffer⟩, []⟩

/-- The characters that are returned. -/
def returned (r : Run) : Event → List ℤ
  | .queue _ => []
  | .getchar => [(usbhidGetchar r.keys).1]

/-- The characters that ought to be returned. -/
def due (r : Run) : Event → List ℤ
  | .queue _ => []
  | .getchar => [r.fifo.headD 0]

/-- The characters that wait are those of the queue. -/
def Agrees (r : Run) : Prop := r.keys.waiting = r.fifo

def Survives (r : Run) (e : Event) : Prop := r.keys.Survives e

lemma agrees_start (keybuffer : Mem) : Agrees (start keybuffer) := rfl

/-- Agreement goes on exactly if the characters that wait survive. -/
lemma agrees_step {r r' : Run} {e : Event} (h : step r e = some r') (hr : Agrees r) :
    Agrees r' ↔ Survives r e := by
  obtain rfl := Option.some.inj h
  cases e with
  | queue ch =>
    refine iff_of_true ?_ trivial
    rw [Agrees, ← hr]
    exact waiting_queue r.keys ch
  | getchar =>
    rw [Agrees, ← hr]
    exact waiting_getchar r.keys

/-- The characters that wait are those of a queue throughout a run exactly if they survive each
`usbhid_getchar`. Then the characters that are returned are those that have been queued. -/
theorem waiting_iff (keybuffer : Mem) (es : List Event) :
    ((∀ p, p <+: es → ∀ r ∈ exec step (start keybuffer) p, Agrees r) ↔
      Meets step Survives (start keybuffer) es) ∧
    (Meets step Survives (start keybuffer) es →
      outputs step returned (start keybuffer) es = outputs step due (start keybuffer) es) := by
  refine ⟨?_, fun hmeets => ?_⟩
  · refine prefix_iff_meets (J := fun _ => True) (E := fun _ => True) ?_ trivial
      (agrees_start keybuffer) fun _ _ => trivial
    exact fun r e r' _ _ h => ⟨trivial, agrees_step h⟩
  · refine outputs_eq_of_meets (I := Agrees) (fun r e r' hr hG h => (agrees_step h hr).mpr hG) ?_
      (agrees_start keybuffer) hmeets
    intro r e hr
    cases e with
    | queue ch => rfl
    | getchar =>
      rw [returned, due, getchar_fst]
      exact congrArg (fun waiting : List ℤ => [waiting.headD 0]) hr

def sampleEvents : List Event :=
  [.queue ⟨0x61, by decide⟩, .queue ⟨0x62, by decide⟩, .queue ⟨0x63, by decide⟩,
    .getchar, .getchar, .getchar]

/-- Of three characters that wait, the second one is returned twice and the third one is lost. -/
theorem third_lost : outputs step returned (start fun _ => 0) sampleEvents = [0x61, 0x62, 0x62] ∧
    outputs step due (start fun _ => 0) sampleEvents = [0x61, 0x62, 0x63] := by
  decide +kernel

end ApuBios.UsbHid
