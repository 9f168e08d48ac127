import ApuBios.Lib.CbmemConsole.Basic

/-!
# The hand-over of the console

What is sent to a console stays in its buffer, and what is handed over to the next console is a
prefix of it with a report of the loss.
-/

namespace ApuBios.CbmemConsole

variable {c old new : Console} {b : UInt8} {bytes sent : List UInt8} {k n : ℕ}

/-! ### Sending -/

/-- Bytes sent one after the other. -/
def transmit (c : Console) (bytes : List UInt8) : Console :=
  bytes.foldl cbmemcTxByte c

@[simp] lemma transmit_nil : transmit c [] = c := rfl

@[simp] lemma transmit_cons : transmit c (b :: bytes) = transmit (cbmemcTxByte c b) bytes := rfl

/-- No byte is stored outside the buffer. -/
lemma transmit_outside (c : Console) (bytes : List UInt8) :
    (transmit c bytes).size = c.size ∧ ∀ i, c.size ≤ i → (transmit c bytes).body i = c.body i := by
  induction bytes generalizing c with
  | nil => exact ⟨rfl, fun _ _ => rfl⟩
  | cons b bytes ih =>
    obtain ⟨hsize, hbody⟩ := ih (cbmemcTxByte c b)
    refine ⟨hsize, fun i hi => (hbody i hi).trans ?_⟩
    unfold cbmemcTxByte
    dsimp only
    split
    · exact Function.update_of_ne (by omega) _ _
    · rfl

lemma text_length (c : Console) : c.text.length = min c.cursor c.size :=
  Mem.length_slice

/-- A byte that is sent is added to the text as long as there is room. -/
lemma text_txByte (h : c.cursor + 1 < 2 ^ 32) :
    (cbmemcTxByte c b).text = if c.cursor < c.size then c.text ++ [b] else c.text := by
  have hwrap : Word.add 32 c.cursor 1 = c.cursor + 1 := Nat.mod_eq_of_lt h
  rw [Console.text, cbmemcTxByte, hwrap]
  dsimp only
  by_cases hroom : c.cursor < c.size
  · have hprefix : Mem.slice (Function.update c.body c.cursor b) 0 c.cursor = c.text := by
      rw [Console.text, Nat.min_eq_left hroom.le]
      exact Mem.slice_congr fun a _ ha => Function.update_of_ne (by omega) _ _
    rw [if_pos hroom, if_pos hroom, Nat.min_eq_left hroom, Nat.succ_eq_add_one, Mem.slice_add,
      hprefix, Nat.zero_add]
    simp only [Mem.slice, Function.update_self]
  · rw [if_neg hroom, if_neg hroom, Console.text, Nat.min_eq_right (by omega),
      Nat.min_eq_right (by omega)]

/-- The text is as much of what has been sent as the buffer holds. -/
lemma text_transmit (c : Console) (bytes : List UInt8) (h : c.cursor + bytes.length < 2 ^ 32) :
    (transmit c bytes).cursor = c.cursor + bytes.length ∧
      (transmit c bytes).text = (c.text ++ bytes).take c.size := by
  induction bytes generalizing c with
  | nil =>
    refine ⟨rfl, ?_⟩
    rw [transmit_nil, List.append_nil, List.take_of_length_le]
    rw [text_length]
    exact Nat.min_le_right _ _
  | cons b bytes ih =>
    rw [List.length_cons] at h ⊢
    have hcursor : (cbmemcTxByte c b).cursor = c.cursor + 1 := Nat.mod_eq_of_lt (by omega)
    obtain ⟨hend, htext⟩ := ih (cbmemcTxByte c b) (by rw [hcursor]; omega)
    refine ⟨?_, ?_⟩
    · rw [transmit_cons, hend, hcursor]
      omega
    · rw [transmit_cons, htext, text_txByte (by omega)]
      change List.take c.size _ = _
      by_cases hroom : c.cursor < c.size
      · rw [if_pos hroom, List.append_assoc]
        rfl
      · have hfull : c.text.length = c.size := by
          rw [text_length]
          omega
        rw [if_neg hroom, ← hfull, List.take_left, List.take_left]

/-- Of a console that was empty, the stored bytes are the first ones that were sent. -/
lemma slice_transmit (hfresh : c.cursor = 0) (hsent : sent.length < 2 ^ 32)
    (hk : k ≤ min sent.length c.size) : (transmit c sent).body.slice 0 k = sent.take k := by
  obtain ⟨hcursor, htext⟩ := text_transmit c sent (by omega)
  have hempty : c.text = [] := by
    rw [← List.length_eq_zero_iff, text_length]
    omega
  have hsize := (transmit_outside c sent).1
  rw [hempty, List.nil_append] at htext
  have hlong : (transmit c sent).text.take k = (transmit c sent).body.slice 0 k := by
    obtain ⟨rest, hrest⟩ : ∃ rest, min (transmit c sent).cursor (transmit c sent).size = k + rest :=
      ⟨min (transmit c sent).cursor (transmit c sent).size - k, by rw [hcursor, hsize]; omega⟩
    rw [Console.text, hrest, Mem.slice_add]
    exact List.take_left' Mem.length_slice
  rw [← hlong, htext, List.take_take, Nat.min_eq_left (by omega)]

/-! ### Digits -/

/-- The number that digits stand for. -/
def decimal (digits : List ℕ) : ℕ := digits.foldl (fun n d => 10 * n + d) 0

/-- The characters of digits. -/
def characters (digits : List ℕ) : List UInt8 := digits.map fun d => UInt8.ofNat (d + 0x30)

lemma decimal_foldl (digits : List ℕ) (n : ℕ) :
    digits.foldl (fun n d => 10 * n + d) n = n * 10 ^ digits.length + decimal digits := by
  induction digits generalizing n with
  | nil => simp [decimal]
  | cons d digits ih =>
    rw [decimal, List.foldl_cons, List.foldl_cons, ih, ih (10 * 0 + d), List.length_cons, pow_succ]
    ring

@[simp] lemma decimal_cons (d : ℕ) (digits : List ℕ) :
    decimal (d :: digits) = d * 10 ^ digits.length + decimal digits := by
  rw [decimal, List.foldl_cons, decimal_foldl, Nat.mul_zero, Nat.zero_add]

lemma decimal_lt {digits : List ℕ} (h : ∀ d ∈ digits, d < 10) :
    decimal digits < 10 ^ digits.length := by
  induction digits with
  | nil => simp [decimal]
  | cons d digits ih =>
    have hrest := ih fun e he => h e (List.mem_cons_of_mem _ he)
    have hd : d < 10 := h d List.mem_cons_self
    rw [decimal_cons, List.length_cons, pow_succ]
    have hmul : d * 10 ^ digits.length ≤ 9 * 10 ^ digits.length := Nat.mul_le_mul_right _ (by omega)
    omega

/-- The loop prints a number that its first place is enough for; with a first digit before it, it
prints all places. -/
lemma lossDigits_spec (k fuel : ℕ) (hfuel : k + 1 < fuel) (got : Bool) (hn : n < 10 ^ (k + 1)) :
    ∃ digits, lossDigits fuel (10 ^ k) n got = characters digits ∧ (∀ d ∈ digits, d < 10) ∧
      decimal digits = n ∧ digits.length ≤ k + 1 ∧ (got = true → digits.length = k + 1) := by
  induction k generalizing fuel n got with
  | zero =>
    obtain ⟨fuel, rfl⟩ : ∃ f, fuel = f + 2 := ⟨fuel - 2, by omega⟩
    have hstop (got : Bool) (m : ℕ) : lossDigits (fuel + 1) (1 / 10) m got = [] := by
      rw [lossDigits, if_pos rfl]
    rw [lossDigits, if_neg (by norm_num), pow_zero, Nat.div_one]
    by_cases hprint : got = true ∨ n ≠ 0
    · refine ⟨[n], ?_, ?_, by simp [decimal], by simp, fun _ => rfl⟩
      · simp only [hprint, if_true, hstop]
        rfl
      · intro d hd
        rw [List.mem_singleton.1 hd]
        omega
    · refine ⟨[], ?_, by simp, ?_, by simp, fun h => absurd (Or.inl h) hprint⟩
      · simp only [hprint, if_false, hstop]
        rfl
      · simp only [not_or, not_not] at hprint
        rw [hprint.2]
        rfl
  | succ k ih =>
    obtain ⟨fuel, rfl⟩ : ∃ f, fuel = f + 1 := ⟨fuel - 1, by omega⟩
    have hpos : 0 < 10 ^ (k + 1) := by positivity
    have hnext : 10 ^ (k + 1) / 10 = 10 ^ k := by
      rw [pow_succ, Nat.mul_div_cancel _ (by norm_num)]
    rw [lossDigits, if_neg hpos.ne', hnext]
    dsimp only
    by_cases hprint : got = true ∨ n / 10 ^ (k + 1) ≠ 0
    · obtain ⟨digits, heq, hlt, hvalue, _, hlen⟩ := ih (n := n % 10 ^ (k + 1)) fuel (by omega) true
        (Nat.mod_lt _ hpos)
      rw [if_pos hprint, heq]
      refine ⟨n / 10 ^ (k + 1) :: digits, rfl, ?_, ?_, ?_, fun _ => ?_⟩
      · intro d hd
        rcases List.mem_cons.1 hd with rfl | hd
        · apply Nat.div_lt_of_lt_mul
          rwa [← pow_succ]
        · exact hlt d hd
      · rw [decimal_cons, hvalue, hlen rfl, Nat.mul_comm, Nat.div_add_mod]
      · rw [List.length_cons, hlen rfl]
      · rw [List.length_cons, hlen rfl]
    · rw [if_neg hprint]
      simp only [not_or, not_not] at hprint
      have hsmall : n < 10 ^ (k + 1) := (Nat.div_eq_zero_iff.1 hprint.2).resolve_left hpos.ne'
      obtain ⟨digits, heq, hlt, hvalue, hle, _⟩ := ih fuel (by omega) got hsmall
      exact ⟨digits, heq, hlt, hvalue, by omega, fun h => absurd h hprint.1⟩

/-- Of a number with more places the loop prints as many characters as it has rounds. -/
lemma lossDigits_long (k fuel : ℕ) (hfuel : k + 1 < fuel) (hn : 10 ^ k ≤ n) :
    (lossDigits fuel (10 ^ k) n false).length = k + 1 := by
  obtain ⟨fuel, rfl⟩ : ∃ f, fuel = f + 1 := ⟨fuel - 1, by omega⟩
  have hpos : 0 < 10 ^ k := by positivity
  have hdigit : n / 10 ^ k ≠ 0 := (Nat.div_pos hn hpos).ne'
  rw [lossDigits, if_neg hpos.ne']
  dsimp only
  rw [if_pos (Or.inr hdigit), List.length_cons]
  cases k with
  | zero =>
    obtain ⟨fuel, rfl⟩ : ∃ f, fuel = f + 1 := ⟨fuel - 1, by omega⟩
    rw [lossDigits, if_pos (by norm_num)]
    rfl
  | succ k =>
    have hnext : 10 ^ (k + 1) / 10 = 10 ^ k := by
      rw [pow_succ, Nat.mul_div_cancel _ (by norm_num)]
    obtain ⟨digits, heq, _, _, _, hlen⟩ :=
      lossDigits_spec k fuel (by omega) true (Nat.mod_lt n hpos)
    rw [hnext, heq, characters, List.length_map, hlen rfl]

/-! ### What is copied -/

/-- How many bytes there is room for of those that were sent. -/
def kept (old new : Console) (n : ℕ) : ℕ :=
  if new.size < new.cursor then 0 else min (min n old.size) (new.size - new.cursor)

lemma copySize_eq (hsizes : old.size + new.size < 2 ^ 32) :
    copySize old new = kept old new old.cursor := by
  have hstored : (if old.cursor < old.size then old.cursor else old.size) =
      min old.cursor old.size := by
    split <;> omega
  rw [copySize, kept, hstored]
  by_cases hfull : new.size < new.cursor
  · rw [if_pos hfull, if_pos hfull]
  · have hwrap : Word.add 32 new.cursor (min old.cursor old.size) =
        new.cursor + min old.cursor old.size := Nat.mod_eq_of_lt (by omega)
    rw [if_neg hfull, if_neg hfull, hwrap]
    split <;> omega

/-- The report of a loss: the two strings with the digits of a number between them. -/
def States (notice : List UInt8) (n : ℕ) : Prop :=
  ∃ digits : List ℕ, (∀ d ∈ digits, d < 10) ∧ decimal digits = n ∧
    notice = lossStr1 ++ characters digits ++ lossStr2

/-- Behind its old text the new console holds a prefix of what was sent and possibly a report. A
report states what is missing of the prefix; without one, either nothing or everything has been
copied. -/
def HandedOver (new new' : Console) (sent : List UInt8) : Prop :=
  ∃ k notice, k ≤ sent.length ∧ new'.text = new.text ++ sent.take k ++ notice ∧
    ((notice = [] ∧ (k = 0 ∨ k = sent.length)) ∨ States notice (sent.length - k))

/-- What is written for a loss. -/
lemma writeLoss_spec (body : Mem) (cursor droppedChars : ℕ) :
    (writeLoss body cursor droppedChars).2 = cursor +
        (lossStr1 ++ lossDigits 7 firstMult droppedChars false ++ lossStr2).length ∧
      (writeLoss body cursor droppedChars).1.Holds cursor
        (lossStr1 ++ lossDigits 7 firstMult droppedChars false ++ lossStr2) ∧
      ∀ a, a < cursor ∨ (writeLoss body cursor droppedChars).2 + 1 ≤ a →
        (writeLoss body cursor droppedChars).1 a = body a := by
  obtain ⟨digits, hdigits⟩ : ∃ digits, digits = lossDigits 7 firstMult droppedChars false := ⟨_, rfl⟩
  obtain ⟨start, hstart⟩ : ∃ start : Mem, start = body.writeBytes cursor (lossStr1 ++ [0]) :=
    ⟨_, rfl⟩
  obtain ⟨middle, hmiddle⟩ : ∃ middle : Mem,
      middle = start.writeBytes (cursor + lossStr1.length) digits := ⟨_, rfl⟩
  have hwritten : writeLoss body cursor droppedChars =
      (middle.writeBytes (cursor + lossStr1.length + digits.length) (lossStr2 ++ [0]),
        cursor + lossStr1.length + digits.length + lossStr2.length) := by
    rw [hmiddle, hstart, hdigits]
    rfl
  rw [← hdigits, hwritten]
  dsimp only
  have hfirst : start.Holds cursor lossStr1 := by
    rw [hstart]
    exact (Mem.holds_append.1 Mem.holds_writeBytes).1
  have hsecond : middle.Holds (cursor + lossStr1.length) digits := by
    rw [hmiddle]
    exact Mem.holds_writeBytes
  refine ⟨by simp only [List.length_append]; omega, ?_, fun a ha => ?_⟩
  · rw [Mem.holds_append, Mem.holds_append]
    refine ⟨⟨hfirst.congr fun a _ ha => ?_, hsecond.congr fun a _ ha => ?_⟩, ?_⟩
    · rw [Mem.writeBytes_frame (by omega), hmiddle, Mem.writeBytes_frame (by omega)]
    · exact Mem.writeBytes_frame (by omega)
    · rw [List.length_append, ← Nat.add_assoc]
      exact (Mem.holds_append.1 Mem.holds_writeBytes).1
  · have hlen (l : List UInt8) : (l ++ [0]).length = l.length + 1 := List.length_append
    rw [Mem.writeBytes_frame (by rw [hlen]; omega), hmiddle, Mem.writeBytes_frame (by omega), hstart,
      Mem.writeBytes_frame (by rw [hlen]; omega)]

/-- The copy when there is no loss, when there is no room for a report, and with a report. -/
lemma copyConsoleBuffer_cases (old new : Console) (hcursor : old.cursor < 2 ^ 32)
    (hsizes : old.size + new.size < 2 ^ 32) :
    (kept old new old.cursor = old.cursor ∧ copyConsoleBuffer old new =
        { new with
          body := new.body.writeBytes new.cursor (old.body.slice 0 old.cursor)
          cursor := new.cursor + old.cursor }) ∨
      (kept old new old.cursor < old.cursor ∧ kept old new old.cursor < 80 ∧
        copyConsoleBuffer old new = new) ∨
      (kept old new old.cursor < old.cursor ∧ 80 ≤ kept old new old.cursor ∧
        copyConsoleBuffer old new =
          { new with
            body := (writeLoss (new.body.writeBytes new.cursor
              (old.body.slice 0 (kept old new old.cursor - 80)))
              (new.cursor + (kept old new old.cursor - 80))
              (old.cursor - (kept old new old.cursor - 80))).1
            cursor := (writeLoss (new.body.writeBytes new.cursor
              (old.body.slice 0 (kept old new old.cursor - 80)))
              (new.cursor + (kept old new old.cursor - 80))
              (old.cursor - (kept old new old.cursor - 80))).2 }) := by
  have hle : kept old new old.cursor ≤ old.cursor := by
    rw [kept]
    split <;> omega
  have hsub : Word.sub 32 old.cursor (kept old new old.cursor) =
      old.cursor - kept old new old.cursor := by
    rw [Word.sub]
    omega
  rw [copyConsoleBuffer, copySize_eq hsizes]
  dsimp only
  rw [hsub]
  by_cases hall : kept old new old.cursor = old.cursor
  · rw [if_pos (by omega), hall]
    exact Or.inl ⟨rfl, rfl⟩
  · rw [if_neg (by omega)]
    by_cases hfew : kept old new old.cursor < 80
    · rw [if_pos hfew]
      exact Or.inr (Or.inl ⟨by omega, hfew, rfl⟩)
    · have hadd : Word.add 32 (old.cursor - kept old new old.cursor) 80 =
          old.cursor - (kept old new old.cursor - 80) := by
        rw [Word.add]
        omega
      rw [if_neg hfew, hadd]
      exact Or.inr (Or.inr ⟨by omega, by omega, rfl⟩)

/-- Bytes that lie behind the text up to the new cursor are added to it. -/
lemma text_append {new' : Console} {bs : List UInt8} (hsize : new'.size = new.size)
    (hcursor : new'.cursor = new.cursor + bs.length) (hroom : new.cursor + bs.length ≤ new.size)
    (hbody : ∀ a < new.cursor, new'.body a = new.body a)
    (hholds : new'.body.Holds new.cursor bs) : new'.text = new.text ++ bs := by
  have hold : Mem.slice new'.body 0 new.cursor = new.text := by
    rw [Console.text, Nat.min_eq_left (by omega)]
    exact Mem.slice_congr fun a _ ha => hbody a (by omega)
  rw [Console.text, hsize, hcursor, Nat.min_eq_left hroom, Mem.slice_add, hold, Nat.zero_add,
    hholds.slice_eq]

lemma lossDigits_le (n : ℕ) : (lossDigits 7 firstMult n false).length ≤ 6 := by
  by_cases hlong : 10 ^ 5 ≤ n
  · exact (lossDigits_long 5 7 (by omega) hlong).le
  · obtain ⟨digits, heq, _, _, hle, _⟩ :=
      lossDigits_spec 5 7 (by omega) false (show n < 10 ^ (5 + 1) by omega)
    rw [show firstMult = 10 ^ 5 from rfl, heq, characters, List.length_map]
    exact hle

/-- What follows the new text when a loss is reported. -/
def report (n : ℕ) : List UInt8 := lossStr1 ++ lossDigits 7 firstMult n false ++ lossStr2

lemma report_length (n : ℕ) :
    (report n).length = 47 + (lossDigits 7 firstMult n false).length := by
  have h₁ : lossStr1.length = 21 := rfl
  have h₂ : lossStr2.length = 26 := rfl
  rw [report, List.length_append, List.length_append]
  omega

section

variable (hfresh : old.cursor = 0) (hsent : sent.length < 2 ^ 32)
  (hsizes : old.size + new.size < 2 ^ 32)
include hfresh hsent hsizes

/-- What the hand-over of everything that was sent does. -/
lemma copy_transmit :
    (copyConsoleBuffer (transmit old sent) new).size = new.size ∧
      (∀ a, new.size ≤ a → (copyConsoleBuffer (transmit old sent) new).body a = new.body a) ∧
      ((kept old new sent.length = sent.length ∧
          (copyConsoleBuffer (transmit old sent) new).text = new.text ++ sent) ∨
        (kept old new sent.length < sent.length ∧ kept old new sent.length < 80 ∧
          (copyConsoleBuffer (transmit old sent) new).text = new.text) ∨
        (kept old new sent.length < sent.length ∧ 80 ≤ kept old new sent.length ∧
          (copyConsoleBuffer (transmit old sent) new).text =
            new.text ++ (sent.take (kept old new sent.length - 80) ++
              report (sent.length - (kept old new sent.length - 80))))) := by
  have hcursor : (transmit old sent).cursor = sent.length := by
    rw [(text_transmit old sent (by omega)).1, hfresh, Nat.zero_add]
  have hsize := (transmit_outside old sent).1
  have hkept : kept (transmit old sent) new sent.length = kept old new sent.length := by
    rw [kept, kept, hsize]
  have hcases := copyConsoleBuffer_cases (transmit old sent) new (by omega)
    (by rw [hsize]; exact hsizes)
  rw [hcursor, hkept] at hcases
  obtain ⟨K, hK⟩ : ∃ K, K = kept old new sent.length := ⟨_, rfl⟩
  have hbound : K ≤ min sent.length old.size ∧ (K = 0 ∨ new.cursor + K ≤ new.size) := by
    rw [hK, kept]
    split <;> omega
  have hslice (j : ℕ) (hj : j ≤ K) : (transmit old sent).body.slice 0 j = sent.take j :=
    slice_transmit hfresh hsent (by omega)
  rw [← hK] at hcases ⊢
  rcases hcases with ⟨hall, heq⟩ | ⟨hlost, hfew, heq⟩ | ⟨hlost, hmany, heq⟩
  · -- everything is copied
    have hbytes : (transmit old sent).body.slice 0 sent.length = sent := by
      rw [hslice _ hall.ge, List.take_length]
    rw [heq, hbytes]
    refine ⟨rfl, fun a ha => ?_, Or.inl ⟨hall, ?_⟩⟩
    · rcases hbound.2 with hzero | hroom
      · rw [List.length_eq_zero_iff.1 (show sent.length = 0 by omega), Mem.writeBytes_nil]
      · exact Mem.writeBytes_frame (by omega)
    · rcases hbound.2 with hzero | hroom
      · have hempty : sent = [] := List.length_eq_zero_iff.1 (by omega)
        rw [hempty, Mem.writeBytes_nil, List.append_nil]
        rfl
      · exact text_append rfl rfl (by omega) (fun a ha => Mem.writeBytes_frame (by omega))
          Mem.holds_writeBytes
  · rw [heq]
    exact ⟨rfl, fun _ _ => rfl, Or.inr (Or.inl ⟨hlost, hfew, rfl⟩)⟩
  · -- a prefix is copied and the loss is reported
    have hroom : new.cursor + K ≤ new.size := by omega
    have hcopied : (sent.take (K - 80)).length = K - 80 := by
      rw [List.length_take]
      omega
    have hdigits := lossDigits_le (sent.length - (K - 80))
    have hreport := report_length (sent.length - (K - 80))
    rw [heq, hslice (K - 80) (by omega)]
    obtain ⟨hend, hholds, hframe⟩ := writeLoss_spec
      (new.body.writeBytes new.cursor (sent.take (K - 80))) (new.cursor + (K - 80))
      (sent.length - (K - 80))
    rw [← report] at hend hholds
    have hbefore (a : ℕ) (ha : a < new.cursor + (K - 80)) := hframe a (Or.inl ha)
    refine ⟨rfl, fun a ha => ?_, Or.inr (Or.inr ⟨hlost, hmany, ?_⟩)⟩
    · dsimp only
      rw [hframe a (Or.inr (by rw [hend]; omega)), Mem.writeBytes_frame (by omega)]
    · refine text_append rfl ?_ ?_ (fun a ha => ?_) ?_
      · dsimp only
        rw [hend, List.length_append, hcopied]
        omega
      · rw [List.length_append, hcopied]
        omega
      · dsimp only
        rw [hbefore a (by omega), Mem.writeBytes_frame (by omega)]
      · dsimp only
        rw [Mem.holds_append, hcopied]
        refine ⟨?_, hholds⟩
        have hprefix : (new.body.writeBytes new.cursor (sent.take (K - 80))).Holds new.cursor
            (sent.take (K - 80)) := Mem.holds_writeBytes
        exact hprefix.congr fun a _ ha => hbefore a (by omega)

end

/-! ### Reports -/

/-- A loss that the loop has a first place for is stated. -/
lemma states_report (hn : n < 1000000) : States (report n) n := by
  obtain ⟨digits, heq, hlt, hvalue, _⟩ := lossDigits_spec 5 7 (by omega) false (n := n) (by omega)
  refine ⟨digits, hlt, hvalue, ?_⟩
  rw [report, ← heq]
  rfl

/-- The end of what is written for a larger number cannot be the end of a report: in front of the
last six characters there is a blank, where a report of that length has a digit. -/
lemma report_ne {x y : List UInt8} {digits : List ℕ} (hn : 1000000 ≤ n)
    (hdigits : ∀ d ∈ digits, d < 10) (hlong : 7 ≤ digits.length) :
    x ++ report n ≠ y ++ (lossStr1 ++ characters digits ++ lossStr2) := by
  intro heq
  have h₁ : lossStr1.length = 21 := rfl
  have h₂ : lossStr2.length = 26 := rfl
  have hsix : (lossDigits 7 firstMult n false).length = 6 :=
    lossDigits_long 5 7 (by omega) (by omega)
  have hchars : (characters digits).length = digits.length := List.length_map _
  have hlen := congrArg List.length heq
  simp only [report, List.length_append, h₁, h₂, hsix, hchars] at hlen
  have hget : (x ++ report n)[x.length + 20]? =
      (y ++ (lossStr1 ++ characters digits ++ lossStr2))[x.length + 20]? := by rw [heq]
  -- the last character of the first string on the left
  rw [List.getElem?_append_right (by omega), Nat.add_sub_cancel_left, report,
    List.getElem?_append_left (by simp only [List.length_append, h₁, hsix]; omega),
    List.getElem?_append_left (by rw [h₁]; omega)] at hget
  -- a digit on the right
  have hindex : x.length + 20 - y.length - 21 < digits.length := by omega
  rw [List.getElem?_append_right (by omega),
    List.getElem?_append_left (by simp only [List.length_append, h₁, hchars]; omega),
    List.getElem?_append_right (by rw [h₁]; omega), h₁, characters,
    List.getElem?_map, List.getElem?_eq_getElem hindex] at hget
  have hdigit := hdigits _ (List.getElem_mem hindex)
  have hblank : lossStr1[20]? = some 0x20 := rfl
  rw [hblank, Option.map_some, Option.some.injEq] at hget
  have hvalue := congrArg UInt8.toNat hget
  rw [UInt8.toNat_ofNat'] at hvalue
  change 32 = _ at hvalue
  omega

/-- The loss can be counted: nothing is lost, or there is no room for a report, or six digits are
enough for the number. -/
def Countable (old new : Console) (n : ℕ) : Prop :=
  kept old new n = n ∨ kept old new n < 80 ∨ n - kept old new n + 80 < 1000000

/-- With a loss that cannot be counted the report is wrong. -/
lemma not_handedOver (hfresh : old.cursor = 0) (hsent : sent.length < 2 ^ 32)
    (hsizes : old.size + new.size < 2 ^ 32) (hcount : ¬ Countable old new sent.length) :
    ¬ HandedOver new (copyConsoleBuffer (transmit old sent) new) sent := by
  obtain ⟨_, _, htext⟩ := copy_transmit hfresh hsent hsizes
  obtain ⟨K, hK⟩ : ∃ K, K = kept old new sent.length := ⟨_, rfl⟩
  rw [Countable, ← hK] at hcount
  rw [← hK] at htext
  simp only [not_or, not_lt] at hcount
  obtain ⟨hlost, hroom, hmany⟩ := hcount
  rintro ⟨k, notice, hk, hcopied, hnotice⟩
  rcases htext with ⟨hall, _⟩ | ⟨_, hfew, _⟩ | ⟨hless, _, htext⟩
  · exact hlost hall
  · exact absurd hfew (by omega)
  · rw [htext, List.append_assoc, List.append_cancel_left_eq] at hcopied
    have hlen := congrArg List.length hcopied
    have hreport := report_length (sent.length - (K - 80))
    have hsix : (lossDigits 7 firstMult (sent.length - (K - 80)) false).length = 6 :=
      lossDigits_long 5 7 (by omega) (by omega)
    simp only [List.length_append, List.length_take] at hlen
    rcases hnotice with ⟨rfl, hk⟩ | ⟨digits, hdigits, hvalue, rfl⟩
    · rw [List.length_nil] at hlen
      rcases hk with rfl | rfl <;> omega
    · have h₁ : lossStr1.length = 21 := rfl
      have h₂ : lossStr2.length = 26 := rfl
      have hchars : (characters digits).length = digits.length := List.length_map _
      simp only [List.length_append, h₁, h₂, hchars] at hlen
      refine report_ne (by omega) hdigits ?_ hcopied
      -- with fewer digits the number would be too small
      by_contra hshort
      have hsmall := decimal_lt hdigits
      rcases Nat.lt_or_ge digits.length 6 with hfive | hexact
      · have hpow : 10 ^ digits.length ≤ 10 ^ 5 := Nat.pow_le_pow_right (by omega) (by omega)
        omega
      · have hpow : 10 ^ digits.length ≤ 10 ^ 6 := Nat.pow_le_pow_right (by omega) (by omega)
        omega

/-- For every size of the consoles, every state of the new one and every sequence of bytes before
and after: the hand-over leaves the bytes outside the buffers alone and has a prefix and a right
report, if and only if the loss can be counted. -/
theorem handover_iff (bufferSize : ℕ) (found : Option Console) (added : Option Mem)
    (old new : Console) (htarget : cbmemTarget bufferSize found added = some new)
    (hfresh : old.cursor = 0) (hsizes : old.size + new.size < 2 ^ 32)
    (before after : List UInt8) (hbefore : before.length < 2 ^ 32) :
    (∃ new', cbmemcReinit bufferSize found added (transmit old before) = some new' ∧
      HandedOver new new' before ∧
      (∀ i, old.size ≤ i → (transmit old before).body i = old.body i) ∧
      ∀ i, new.size ≤ i → (transmit new' after).body i = new.body i) ↔
      Countable old new before.length := by
  obtain ⟨hsize, hframe, htext⟩ := copy_transmit hfresh hbefore hsizes
  have hreinit : cbmemcReinit bufferSize found added (transmit old before) =
      some (copyConsoleBuffer (transmit old before) new) := by
    rw [cbmemcReinit, htarget, Option.map_some]
  have hinside : ∀ i, new.size ≤ i →
      (transmit (copyConsoleBuffer (transmit old before) new) after).body i = new.body i := by
    intro i hi
    rw [(transmit_outside _ after).2 i (by rw [hsize]; exact hi), hframe i hi]
  obtain ⟨K, hK⟩ : ∃ K, K = kept old new before.length := ⟨_, rfl⟩
  rw [← hK] at htext
  rw [Countable, ← hK]
  constructor
  · rintro ⟨new', hrun, hover, _, _⟩
    rw [hreinit, Option.some.injEq] at hrun
    subst hrun
    by_contra hcount
    exact not_handedOver hfresh hbefore hsizes (by rw [Countable, ← hK]; exact hcount) hover
  · intro hcount
    refine ⟨_, hreinit, ?_, (transmit_outside old before).2, hinside⟩
    rcases htext with ⟨hall, htext⟩ | ⟨_, _, htext⟩ | ⟨hless, hroom, htext⟩
    · refine ⟨before.length, [], le_rfl, ?_, Or.inl ⟨rfl, Or.inr rfl⟩⟩
      rw [htext, List.take_length, List.append_nil]
    · refine ⟨0, [], Nat.zero_le _, ?_, Or.inl ⟨rfl, Or.inl rfl⟩⟩
      rw [htext, List.take_zero, List.append_nil, List.append_nil]
    · refine ⟨K - 80, report (before.length - (K - 80)), by omega, ?_,
        Or.inr (states_report (by omega))⟩
      rw [htext, List.append_assoc]

/-- Two million bytes for a console of a hundred, handed over to another one of a hundred. -/
theorem not_handedOver_millions :
    ¬ HandedOver ⟨100, 0, fun _ => 0⟩
      (copyConsoleBuffer (transmit ⟨100, 0, fun _ => 0⟩ (List.replicate 2000000 0x41))
        ⟨100, 0, fun _ => 0⟩) (List.replicate 2000000 0x41) := by
  have hlen : (List.replicate 2000000 (0x41 : UInt8)).length = 2000000 := List.length_replicate
  have hkept : kept ⟨100, 0, fun _ => 0⟩ ⟨100, 0, fun _ => 0⟩ 2000000 = 100 := by decide
  refine not_handedOver rfl (by omega) (by decide) ?_
  rw [hlen, Countable, hkept]
  simp

/-- The console of the cache, with some bytes lost, for a fresh one in CBMEM. -/
theorem handover_iff_cache :
    ∃ new', cbmemcReinit 0x10000 none (some fun _ => 0)
        (transmit ⟨0xc00 - 8, 0, fun _ => 0⟩ (List.replicate 5000 0x41)) = some new' ∧
      HandedOver ⟨0x10000 - 8, 0, fun _ => 0⟩ new' (List.replicate 5000 0x41) ∧
      (∀ i, 0xc00 - 8 ≤ i →
        (transmit ⟨0xc00 - 8, 0, fun _ => 0⟩ (List.replicate 5000 0x41)).body i = 0) ∧
      ∀ i, 0x10000 - 8 ≤ i → (transmit new' []).body i = 0 :=
  (handover_iff 0x10000 none (some fun _ => 0) ⟨0xc00 - 8, 0, fun _ => 0⟩
    ⟨0x10000 - 8, 0, fun _ => 0⟩ rfl rfl (by decide) (List.replicate 5000 0x41) []
    (by rw [List.length_replicate]; omega)).2
    (Or.inr (Or.inr (by rw [List.length_replicate]; decide)))

end ApuBios.CbmemConsole
