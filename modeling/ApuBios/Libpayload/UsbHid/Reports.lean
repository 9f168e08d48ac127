import ApuBios.Library.Transition
import ApuBios.Libpayload.UsbHid.Basic

/-!
# The reports of a keyboard

Each report queues the characters of the keys that have not been in the one before it. The layout has
characters for the keys below 0x80 only, and other keys are not refused.
-/

namespace ApuBios.UsbHid

open Transition

variable {map : LayoutMap} {resetHandler : Bool} {inst : Inst} {modifiers : ℕ} {key : UInt8}

/-! ### What a report ought to queue -/

/-- The keys before the first zero byte that are not in the previous report. -/
def newKeys (previous : KeyboardEvent) (keys : List UInt8) : List UInt8 :=
  (keys.takeWhile fun key => key != 0).filter fun key => !previous.keys.toList.any (key == ·)

/-- The character of a key under some modifiers, if it has one. -/
def charOf (map : LayoutMap) (modifiers : ℕ) (key : UInt8) : Option ℤ :=
  (map.entry (modifiers &&& 0x03) key.toNat).bind fun keypress =>
    (if modifiers &&& MOD_CTRL ≠ 0 then ctrlMask keypress else some keypress).filter (· ≠ -1)

/-- The buffer after the characters of a report have been queued in order. -/
def queueAll (map : LayoutMap) (modifiers : ℕ) (keys : List UInt8) (k : Keys) : Keys :=
  (keys.filterMap (charOf map modifiers)).foldl usbHidKeyboardQueue k

/-! ### The loop over the keys -/

lemma and_3_lt (modifiers : ℕ) : modifiers &&& 0x03 < 4 := Nat.lt_succ_of_le Nat.and_le_right

lemma entry_eq_none {row key : ℕ} (hrow : row < 4) : map.entry row key = none ↔ ¬key < 0x80 := by
  rw [LayoutMap.entry]
  split <;> simp_all

lemma newKeys_zero (previous : KeyboardEvent) (keys : List UInt8) : newKeys previous (0 :: keys) = [] := by
  simp [newKeys]

lemma newKeys_cons (previous : KeyboardEvent) (keys : List UInt8) (hkey : key ≠ 0) :
    newKeys previous (key :: keys) =
      if previous.keys.toList.any (key == ·) then newKeys previous keys
      else key :: newKeys previous keys := by
  rw [newKeys, List.takeWhile_cons_of_pos (by simpa using hkey), List.filter_cons]
  cases previous.keys.toList.any (key == ·) <;> rfl

/-- One key that is new and has an entry in the layout. -/
lemma keyLoop_new (keys : List UInt8) {keypress : ℤ} (hkey : key ≠ 0)
    (hnew : inst.previous.keys.toList.any (key == ·) = false)
    (hat : map.entry (modifiers &&& 0x03) key.toNat = some keypress) :
    ∃ inst', keyLoop map modifiers (key :: keys) inst = keyLoop map modifiers keys inst' ∧
      inst'.previous = inst.previous ∧
      inst'.keys = (charOf map modifiers key).toList.foldl usbHidKeyboardQueue inst.keys := by
  rw [keyLoop, if_neg hkey, hnew, if_neg Bool.false_ne_true, hat, Option.bind_some]
  rw [charOf, hat, Option.bind_some]
  generalize (if modifiers &&& MOD_CTRL ≠ 0 then ctrlMask keypress else some keypress) = masked
  refine ⟨_, rfl, ?_, ?_⟩
  · cases masked with
    | none => rfl
    | some ch =>
      rw [Option.elim_some]
      split <;> rfl
  · cases masked with
    | none => rfl
    | some ch =>
      rw [Option.elim_some]
      by_cases hch : ch = -1
      · rw [if_pos hch, Option.filter_some_neg (by simpa using hch)]
        rfl
      · rw [if_neg hch, Option.filter_some_pos (by simpa using hch)]
        rfl

/-- The loop queues the characters of the new keys, unless it looks for one that is not in the layout. -/
lemma keyLoop_eq (map : LayoutMap) (modifiers : ℕ) (keys : List UInt8) (inst : Inst) :
    (∃ key ∈ newKeys inst.previous keys, ¬key.toNat < 0x80) ∧ keyLoop map modifiers keys inst = none ∨
      (∀ key ∈ newKeys inst.previous keys, key.toNat < 0x80) ∧
        ∃ inst', keyLoop map modifiers keys inst = some inst' ∧
          inst'.keys = queueAll map modifiers (newKeys inst.previous keys) inst.keys := by
  induction keys generalizing inst with
  | nil => exact Or.inr ⟨by simp [newKeys], inst, rfl, rfl⟩
  | cons key keys ih =>
    rcases eq_or_ne key 0 with rfl | hkey
    · refine Or.inr ⟨by simp [newKeys_zero], inst, by rw [keyLoop, if_pos rfl], ?_⟩
      rw [newKeys_zero]
      rfl
    · rw [newKeys_cons _ _ hkey]
      cases hold : inst.previous.keys.toList.any (key == ·) with
      | true =>
        rw [if_pos rfl, keyLoop, if_neg hkey, if_pos hold]
        exact ih inst
      | false =>
        rw [if_neg Bool.false_ne_true]
        cases hat : map.entry (modifiers &&& 0x03) key.toNat with
        | none =>
          refine Or.inl ⟨⟨key, by simp, (entry_eq_none (and_3_lt modifiers)).mp hat⟩, ?_⟩
          rw [keyLoop, if_neg hkey, hold, if_neg Bool.false_ne_true, hat]
          rfl
        | some keypress =>
          have hlt : key.toNat < 0x80 := by
            by_contra hge
            rw [(entry_eq_none (and_3_lt modifiers)).mpr hge] at hat
            exact absurd hat (by simp)
          obtain ⟨inst', hloop, hprevious, hkeys⟩ := keyLoop_new keys hkey hold hat
          rw [hloop, ← hprevious]
          rcases ih inst' with ⟨⟨bad, hbad, hge⟩, hnone⟩ | ⟨hall, inst'', hsome, hqueued⟩
          · exact Or.inl ⟨⟨bad, by simp [hbad], hge⟩, hnone⟩
          · refine Or.inr ⟨by simpa [hlt] using hall, inst'', hsome, ?_⟩
            rw [hqueued, hkeys, queueAll, queueAll, List.filterMap_cons]
            cases charOf map modifiers key <;> rfl

/-! ### Reports -/

/-- A report that is not an access outside of the layout, and that queues the characters of the keys that
are new in it if it is not the previous report again. -/
def Queues (map : LayoutMap) (resetHandler : Bool) (inst : Inst) (current : KeyboardEvent) : Prop :=
  ∃ inst', usbHidPollStep map resetHandler inst current = some inst' ∧
    (current ≠ inst.previous → inst'.keys =
      queueAll map (modifiersOf current.modifiers) (newKeys inst.previous current.keys.toList) inst.keys)

/-- The layout has entries for the keys that are new in a report. -/
def InTable (inst : Inst) (current : KeyboardEvent) : Prop :=
  ∀ key ∈ newKeys inst.previous current.keys.toList, key.toNat < 0x80

/-- In a report that is the previous one again no keys are new. -/
lemma newKeys_self (previous : KeyboardEvent) : newKeys previous previous.keys.toList = [] := by
  rw [newKeys, List.filter_eq_nil_iff]
  intro key hkey
  have hmem : key ∈ previous.keys.toList := (List.takeWhile_sublist _).mem hkey
  have hany : previous.keys.toList.any (key == ·) = true := List.any_eq_true.mpr ⟨key, hmem, by simp⟩
  rw [hany]
  exact Bool.false_ne_true

lemma nervePinch_previous (resetHandler : Bool) (inst : Inst) (current : KeyboardEvent) :
    (nervePinch resetHandler inst current).previous = inst.previous := by
  rw [nervePinch]
  split <;> rfl

lemma nervePinch_keys (resetHandler : Bool) (inst : Inst) (current : KeyboardEvent) :
    (nervePinch resetHandler inst current).keys = inst.keys := by
  rw [nervePinch]
  split <;> rfl

/-- A report that is the previous one again is never an access to the layout. Other ones are exactly if a
key that is new in them has no entry. -/
lemma queues_iff (inst : Inst) (current : KeyboardEvent) :
    Queues map resetHandler inst current ↔ InTable inst current := by
  have hprevious := nervePinch_previous resetHandler inst current
  have hkeys := nervePinch_keys resetHandler inst current
  rw [Queues, InTable, usbHidPollStep, usbHidProcessKeyboardEvent]
  set pinched := nervePinch resetHandler inst current
  by_cases hagain : pinched.lastkeypress ≠ 0 ∧ current = pinched.previous
  · have hsame : current = inst.previous := hagain.2.trans hprevious
    rw [if_pos hagain]
    refine iff_of_true ?_ (by simp [hsame, newKeys_self])
    by_cases hdelay : pinched.repeatDelay ≠ 0
    · exact ⟨_, by rw [if_pos hdelay, Option.map_some], fun h => absurd hsame h⟩
    · exact ⟨_, by rw [if_neg hdelay, Option.map_some], fun h => absurd hsame h⟩
  · rw [if_neg hagain]
    have hloop := keyLoop_eq map (modifiersOf current.modifiers) current.keys.toList
      { pinched with lastkeypress := 0 }
    simp only [hprevious, hkeys] at hloop ⊢
    rcases hloop with ⟨⟨key, hkey, hge⟩, hnone⟩ | ⟨hall, inst', hsome, hqueued⟩
    · refine iff_of_false ?_ fun hall => hge (hall key hkey)
      rw [hnone]
      simp
    · refine iff_of_true ⟨{ inst' with previous := current }, ?_, fun _ => hqueued⟩ hall
      rw [hsome, Option.map_some]

/-- In a run over any reports no access is outside of the layout and each report that is not the previous
one again queues the characters of its new keys, exactly if the new keys are all below 0x80. -/
theorem reports_iff (map : LayoutMap) (resetHandler : Bool) (inst : Inst) (reports : List KeyboardEvent) :
    Admits (usbHidPollStep map resetHandler) (Queues map resetHandler) inst reports ↔
      Admits (usbHidPollStep map resetHandler) InTable inst reports :=
  admits_congr queues_iff

/-- A keyboard of which nothing has been reported. -/
def sampleInst : Inst := ⟨⟨0, 0, .replicate 6 0⟩, 0, 0, ⟨0, fun _ => 0⟩, 0⟩

/-- With shift and alt pressed, key 0xff is looked for behind the end of the layout. -/
theorem key_behind_layout :
    ¬Admits (usbHidPollStep usLayout false) (Queues usLayout false) sampleInst
      [⟨0x06, 0, #v[0xff, 0, 0, 0, 0, 0]⟩] := by
  rintro ⟨⟨inst', hstep, -⟩, -⟩
  have hnone : (usbHidPollStep usLayout false sampleInst ⟨0x06, 0, #v[0xff, 0, 0, 0, 0, 0]⟩).isNone := by
    decide +kernel
  rw [hstep] at hnone
  exact Bool.false_ne_true hnone

end ApuBios.UsbHid
