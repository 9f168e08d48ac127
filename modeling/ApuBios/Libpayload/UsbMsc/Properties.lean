import ApuBios.Libpayload.UsbMsc.Basic

/-!
# Disks and devices that are lost

The only way for the driver to lose a device is a reset of the transport that fails. As long as
none does, a disk is there exactly if the instance data says that one was created and is ready.
-/

namespace ApuBios.UsbMsc

open Faulting Transition

variable {w w' w'' : World}

/-! ### What a command leaves -/

/-- A transfer of a reset has failed. -/
def Answer.Fails : Answer → Prop
  | .command _ => False
  | .control fails => fails = true
  | .clearStall fails => fails = true

instance (a : Answer) : Decidable a.Fails := by
  unfold Answer.Fails
  split <;> infer_instance

/-- The device has instance data. -/
def HasInst (w : World) : Prop := ∃ dev inst, w.device = some dev ∧ dev.data = some inst

/-- No reset has failed, and whether the disk was created has not changed. -/
structure Kept (w w' : World) : Prop where
  answers : ∃ l, w.answers = l ++ w'.answers ∧ ∀ a ∈ l, ¬a.Fails
  trace : w'.trace = w.trace
  inst : ∃ dev inst inst', w.device = some dev ∧ dev.data = some inst ∧
    w'.device = some { dev with data := some inst' } ∧
    inst'.usbdiskCreated = inst.usbdiskCreated

/-- A reset has failed, and the device has been freed. -/
structure Lost (w w' : World) : Prop where
  answers : ∃ l, w.answers = l ++ w'.answers ∧ ∃ a ∈ l, a.Fails
  device : w'.device = none

/-- The faults that there can be. -/
def Faults (w : World) : Fault → World → Prop
  | .nullPointer, w' => Kept w w'
  | .useAfterFree, w' => Lost w w'

lemma HasInst.kept (h : HasInst w) : Kept w w := by
  obtain ⟨dev, inst, hdev, hinst⟩ := h
  exact ⟨⟨[], rfl, by simp⟩, rfl, dev, inst, inst, hdev, hinst, by rw [hdev, ← hinst], rfl⟩

lemma Kept.hasInst (h : Kept w w') : HasInst w' := by
  obtain ⟨dev, inst, inst', -, -, hdev, -⟩ := h.inst
  exact ⟨_, inst', hdev, rfl⟩

lemma Kept.trans (h : Kept w w') (h' : Kept w' w'') : Kept w w'' := by
  obtain ⟨l, hl, hpass⟩ := h.answers
  obtain ⟨l', hl', hpass'⟩ := h'.answers
  obtain ⟨dev, inst, inst', hdev, hinst, hdev', hcreated⟩ := h.inst
  obtain ⟨dev₂, inst₂, inst'', hdev₂, hinst₂, hdev'', hcreated'⟩ := h'.inst
  obtain rfl := Option.some.inj (hdev'.symm.trans hdev₂)
  obtain rfl := Option.some.inj hinst₂
  refine ⟨⟨l ++ l', by rw [hl, hl', List.append_assoc], ?_⟩, h'.trace.trans h.trace, dev, inst,
    inst'', hdev, hinst, hdev'', hcreated'.trans hcreated⟩
  exact List.forall_mem_append.mpr ⟨hpass, hpass'⟩

lemma Kept.lost (h : Kept w w') (h' : Lost w' w'') : Lost w w'' := by
  obtain ⟨l, hl, -⟩ := h.answers
  obtain ⟨l', hl', a, ha, hfails⟩ := h'.answers
  exact ⟨⟨l ++ l', by rw [hl, hl', List.append_assoc], a, List.mem_append_right _ ha, hfails⟩,
    h'.device⟩

lemma Kept.faults (h : Kept w w') {f : Fault} (h' : Faults w' f w'') : Faults w f w'' := by
  cases f with
  | nullPointer => exact h.trans h'
  | useAfterFree => exact h.lost h'

/-- What a command, or a reset, leaves. -/
def Answered (w : World) (ret : MscCommandResult) (w' : World) : Prop :=
  (ret = .detached ∧ Lost w w') ∨ (ret ≠ .detached ∧ Kept w w')

/-- The program ends with the device kept or lost, as its result `r` says. -/
def Answers {α : Type} (r : α → MscCommandResult) (m : M α) : Prop :=
  ∀ w, HasInst w → (m w).Sat (fun a => Answered w (r a)) (Faults w)

/-- The program does not end if the device is lost. -/
def Keeps {α : Type} (m : M α) : Prop := Answers (fun _ => .ok) m

section

variable {α β : Type} {m : M α} {f : α → M β} {r : α → MscCommandResult} {r' : β → MscCommandResult}

lemma answered_of_kept {ret : MscCommandResult} (h : Kept w w') (hret : ret ≠ .detached) :
    Answered w ret w' := .inr ⟨hret, h⟩

lemma keeps_iff : Keeps m ↔ ∀ w, HasInst w → (m w).Sat (fun _ => Kept w) (Faults w) := by
  refine forall₂_congr fun w hw => ⟨fun h => h.mono ?_ fun _ _ => id,
    fun h => h.mono (fun _ _ hkept => answered_of_kept hkept nofun) fun _ _ => id⟩
  rintro a w' (⟨hdetached, -⟩ | ⟨-, hkept⟩)
  · cases hdetached
  · exact hkept

lemma Answers.bind (hm : Answers r m) (hf : ∀ a, r a ≠ .detached → Answers r' (f a))
    (hlost : ∀ a w, r a = .detached → w.device = none →
      (f a w).Sat (fun b w' => r' b = .detached ∧ w' = w)
        (fun e w' => e = .useAfterFree ∧ w' = w)) :
    Answers r' (m >>= f) := by
  intro w hw
  refine sat_bind (hm w hw) fun a w' h => ?_
  rcases h with ⟨hdetached, hlost'⟩ | ⟨hne, hkept⟩
  · refine (hlost a w' hdetached hlost'.device).mono ?_ ?_
    · rintro b w'' ⟨hb, rfl⟩
      exact .inl ⟨hb, hlost'⟩
    · rintro e w'' ⟨rfl, rfl⟩
      exact hlost'
  · refine (hf a hne w' hkept.hasInst).mono (fun b w'' h => ?_) fun _ _ => hkept.faults
    exact h.imp (And.imp_right hkept.lost) (And.imp_right hkept.trans)

lemma Keeps.bind (hm : Keeps m) (hf : ∀ a, Answers r' (f a)) : Answers r' (m >>= f) :=
  Answers.bind hm (fun a _ => hf a) fun _ _ h => by cases h

lemma Answers.pure {a : α} (h : r a ≠ .detached) : Answers r (pure a : M α) :=
  fun _ hw => sat_pure (answered_of_kept hw.kept h)

lemma keeps_pure (a : α) : Keeps (pure a : M α) := Answers.pure nofun

lemma Answers.map (hm : Answers r m) {g : α → β}
    (hg : ∀ a, r' (g a) = .detached ↔ r a = .detached) :
    Answers r' (m >>= fun a => Pure.pure (g a)) :=
  hm.bind (fun a ha => .pure fun h => ha ((hg a).mp h)) fun a _ ha _ =>
    sat_pure ⟨(hg a).mpr ha, rfl⟩

end

/-! ### The instance data -/

lemma mscInst_eq {dev : Usbdev} {inst : UsbmscInst} (hdev : w.device = some dev)
    (hinst : dev.data = some inst) : mscInst w = .done inst w := by
  simp only [mscInst, hdev, hinst]

lemma keeps_mscInst : Keeps mscInst := by
  rw [keeps_iff]
  intro w hw
  obtain ⟨dev, inst, hdev, hinst⟩ := hw
  rw [mscInst_eq hdev hinst]
  exact HasInst.kept ⟨dev, inst, hdev, hinst⟩

lemma keeps_modifyInst {f : UsbmscInst → UsbmscInst}
    (hf : ∀ inst, (f inst).usbdiskCreated = inst.usbdiskCreated) : Keeps (modifyInst f) := by
  rw [keeps_iff]
  rintro w ⟨dev, inst, hdev, hinst⟩
  simp only [modifyInst, hdev, hinst]
  exact ⟨⟨[], rfl, by simp⟩, rfl, dev, inst, f inst, hdev, hinst, rfl, hf inst⟩

lemma modifyInst_of_none (f : UsbmscInst → UsbmscInst) (h : w.device = none) :
    modifyInst f w = .fault .useAfterFree w := by
  simp only [modifyInst, h]

lemma keeps_usbMscMarkReady : Keeps usbMscMarkReady := keeps_modifyInst fun _ => rfl

lemma keeps_usbMscMarkNotReady : Keeps usbMscMarkNotReady := keeps_modifyInst fun _ => rfl

lemma keeps_usbMscIsReady : Keeps usbMscIsReady := keeps_mscInst.bind fun _ => keeps_pure _

/-! ### Commands -/

/-- An answer that is not a transfer of a reset that fails. -/
lemma kept_of_answer (hw : HasInst w) {a : Answer} {answers : List Answer}
    (h : w.answers = a :: answers) (ha : ¬a.Fails) : Kept w { w with answers } := by
  obtain ⟨dev, inst, hdev, hinst⟩ := hw
  exact ⟨⟨[a], h, by simpa using ha⟩, rfl, dev, inst, inst, hdev, hinst, by rw [← hinst]; exact hdev,
    rfl⟩

lemma keeps_nextCommand : Keeps nextCommand := by
  rw [keeps_iff]
  intro w hw
  rw [nextCommand]
  split
  · next a answers h => exact kept_of_answer hw h id
  · trivial

lemma keeps_onEndpoint (ep : Option Endpoint) (fails : Bool) : Keeps (onEndpoint ep fails) := by
  rw [keeps_iff]
  intro w hw
  cases ep <;> exact hw.kept

/-- After a transfer of a reset. -/
def Transferred (w : World) (fails : Bool) (w' : World) : Prop :=
  if fails then HasInst w' ∧ ∃ l, w.answers = l ++ w'.answers ∧ ∃ a ∈ l, a.Fails else Kept w w'

lemma transferred_of_answer (hw : HasInst w) {a : Answer} {answers : List Answer} {fails : Bool}
    (h : w.answers = a :: answers) (ha : a.Fails ↔ fails = true) :
    Transferred w fails { w with answers } := by
  rw [Transferred]
  split_ifs with hfails
  · exact ⟨hw, [a], h, a, by simp, ha.mpr hfails⟩
  · exact kept_of_answer hw h fun hfail => hfails (ha.mp hfail)

lemma sat_control (hw : HasInst w) : (control w).Sat (Transferred w) (Faults w) := by
  rw [control]
  split
  · next fails answers h => exact transferred_of_answer hw h Iff.rfl
  · trivial

lemma sat_clearStall (ep : Option Endpoint) (hw : HasInst w) :
    (clearStall ep w).Sat (Transferred w) (Faults w) := by
  rw [clearStall.eq_def]
  split
  · exact hw.kept
  · split
    · next fails answers h => exact transferred_of_answer hw h Iff.rfl
    · trivial

/-! ### Detaching -/

/-- The callback, if the disk was created. -/
def removal (inst : UsbmscInst) : List Callback :=
  if inst.usbdiskCreated then [.usbdiskRemove] else []

lemma usbMscRemoveDisk_eq {dev : Usbdev} {inst : UsbmscInst} (hdev : w.device = some dev)
    (hinst : dev.data = some inst) :
    usbMscRemoveDisk w = .done () { w with trace := w.trace ++ removal inst } := by
  rw [usbMscRemoveDisk, bind_of_done (mscInst_eq hdev hinst), removal]
  cases inst.usbdiskCreated with
  | true => rfl
  | false => simp only [Bool.false_eq_true, if_false, List.append_nil]; rfl

lemma usbDetachDevice_eq {dev : Usbdev} {inst : UsbmscInst} (hdev : w.device = some dev)
    (hinst : dev.data = some inst) :
    usbDetachDevice w = .done () { w with device := none, trace := w.trace ++ removal inst } := by
  have hdestroy : usbMscDestroy w = .done () { w with
      device := some { dev with data := none }, trace := w.trace ++ removal inst } := by
    simp only [usbMscDestroy, hdev, hinst]
    rw [bind_of_done (usbMscRemoveDisk_eq hdev hinst)]
    rfl
  simp only [usbDetachDevice, hdev]
  rw [bind_of_done hdestroy]
  rfl

/-- A transfer of a reset that detaches the device if it fails. -/
lemma answers_detach {m : M Bool} {n : M MscCommandResult}
    (hm : ∀ w, HasInst w → (m w).Sat (Transferred w) (Faults w)) (hn : Answers id n) :
    Answers id (m >>= fun fails => if fails = true then detach else n) := by
  intro w hw
  refine sat_bind (hm w hw) fun fails w' h => ?_
  rw [Transferred] at h
  cases fails with
  | true =>
    simp only [if_true] at h ⊢
    obtain ⟨⟨dev, inst, hdev, hinst⟩, hfails⟩ := h
    have hdetach : detach w' = .done .detached
        { w' with device := none, trace := w'.trace ++ removal inst } := by
      rw [detach, bind_of_done (usbDetachDevice_eq hdev hinst)]
      rfl
    rw [hdetach]
    exact .inl ⟨rfl, hfails, rfl⟩
  | false =>
    simp only [Bool.false_eq_true, if_false] at h ⊢
    refine (hn w' h.hasInst).mono (fun a w'' h' => ?_) fun _ _ => h.faults
    exact h'.imp (And.imp_right h.lost) (And.imp_right h.trans)

lemma answers_resetTransport : Answers id resetTransport :=
  answers_detach (fun _ => sat_control) <| keeps_mscInst.bind fun inst =>
    answers_detach (fun _ => sat_clearStall inst.bulkIn) <| keeps_mscInst.bind fun inst =>
      answers_detach (fun _ => sat_clearStall inst.bulkOut) (.pure nofun)

lemma answers_getCsw (ep : Option Endpoint) (a : CommandAnswer) : Answers id (getCsw ep a) := by
  refine (keeps_onEndpoint _ _).bind fun fails => ?_
  split_ifs
  · exact answers_resetTransport
  · exact .pure nofun
  · exact answers_resetTransport

/-! ### Commands -/

lemma keeps_transferData (cb : Command) : Keeps (transferData cb) := by
  rw [transferData]
  split_ifs
  · exact keeps_mscInst.bind fun inst => (keeps_onEndpoint inst.bulkIn _).bind fun _ => keeps_pure _
  · exact keeps_mscInst.bind fun inst => (keeps_onEndpoint inst.bulkOut _).bind fun _ => keeps_pure _
  · exact keeps_pure _

lemma answers_checkStatus {failed : M MscCommandResult} (hfailed : Answers id failed)
    (cb : Command) (a : CommandAnswer) : Answers id (checkStatus failed cb a) := by
  rw [checkStatus]
  split_ifs
  · exact .pure nofun
  · exact answers_resetTransport
  · exact .pure nofun
  · exact .pure nofun
  · exact hfailed

lemma answers_transfer {failed : M MscCommandResult} (hfailed : Answers id failed)
    (cb : Command) (a : CommandAnswer) : Answers id (transfer failed cb a) := by
  refine keeps_mscInst.bind fun inst => (keeps_onEndpoint _ _).bind fun fails => ?_
  split_ifs
  · exact answers_resetTransport
  · refine (keeps_transferData cb).bind fun _ => keeps_mscInst.bind fun inst =>
      (answers_getCsw inst.bulkIn a).bind (fun ret hret => ?_) fun ret w hret _ => ?_
    · cases ret with
      | ok => exact answers_checkStatus hfailed cb a
      | fail => exact .pure nofun
      | detached => exact absurd rfl hret
    · obtain rfl : ret = .detached := hret
      exact sat_pure ⟨rfl, rfl⟩

lemma answers_executeCommandWith {failed : M MscCommandResult} (hfailed : Answers id failed)
    (cb : Command) : Answers Prod.fst (executeCommandWith failed cb) :=
  keeps_nextCommand.bind fun a => (answers_transfer hfailed cb a).map fun _ => Iff.rfl

lemma answers_ok : Answers id (pure .ok : M MscCommandResult) := .pure nofun

lemma answers_fail : Answers id (pure .fail : M MscCommandResult) := .pure nofun

lemma answers_requestSense : Answers Prod.fst requestSense :=
  answers_executeCommandWith answers_fail _

lemma answers_requestSenseNoMedia : Answers id requestSenseNoMedia := by
  refine answers_requestSense.bind (fun ⟨ret, buf⟩ hret => ?_) fun ⟨ret, buf⟩ w hret _ => ?_
  · dsimp only at hret ⊢
    split_ifs
    · exact .pure hret
    · exact .pure nofun
    · exact .pure nofun
    · exact keeps_usbMscMarkNotReady.bind fun _ => answers_ok
  · obtain rfl : ret = .detached := hret
    exact sat_pure ⟨rfl, rfl⟩

lemma answers_executeCommand (cb : Command) : Answers Prod.fst (executeCommand cb) := by
  refine answers_executeCommandWith ?_ cb
  split_ifs
  · exact .pure nofun
  · exact answers_requestSenseNoMedia
  · refine answers_requestSense.map fun ⟨ret, buf⟩ => ?_
    cases ret <;> simp

lemma answers_readCapacityLoop (count rounds : ℕ) :
    Answers (fun o => if o.isNone then .detached else .ok) (readCapacityLoop count rounds) := by
  induction rounds generalizing count with
  | zero => exact .pure nofun
  | succ rounds ih =>
    refine (answers_executeCommand _).bind (fun ⟨ret, buf⟩ hret => ?_) fun ⟨ret, buf⟩ w hret _ => ?_
    · cases ret with
      | ok => exact .pure nofun
      | fail => exact ih _
      | detached => exact absurd rfl hret
    · obtain rfl : ret = .detached := hret
      exact sat_pure ⟨rfl, rfl⟩

lemma answers_readCapacity : Answers id readCapacity := by
  refine (answers_readCapacityLoop 0 20).bind (fun o ho => ?_) fun o w ho _ => ?_
  · cases o with
    | none => exact absurd rfl ho
    | some p =>
      refine (keeps_modifyInst fun inst => ?_).bind fun _ => answers_ok
      rw [setCapacity]
      split_ifs <;> rfl
  · cases o with
    | none => exact sat_pure ⟨rfl, rfl⟩
    | some p => cases ho

/-! ### Readiness -/

/-- A device that is lost is looked at once more. -/
lemma keeps_retryLoop {command : M MscCommandResult} (h : Answers id command) (rounds : ℕ) :
    Keeps (retryLoop command rounds) := by
  induction rounds with
  | zero => exact keeps_pure _
  | succ rounds ih =>
    refine h.bind (fun ret hret => ?_) fun ret w hret hnone => ?_
    · cases ret with
      | ok => exact keeps_pure _
      | fail => exact ih
      | detached => exact absurd rfl hret
    · obtain rfl : ret = .detached := hret
      have hfault : usbMscMarkDetached w = .fault .useAfterFree w := modifyInst_of_none _ hnone
      change ((usbMscMarkDetached >>= fun _ => pure .returned : M LoopEnd) w).Sat _ _
      rw [bind_of_fault hfault]
      exact ⟨rfl, rfl⟩

lemma answers_command (cb : Command) :
    Answers id (do let (ret, _) ← executeCommand cb; return ret : M MscCommandResult) :=
  (answers_executeCommand cb).map fun _ => Iff.rfl

lemma keeps_usbMscSpinUp : Keeps usbMscSpinUp := by
  refine keeps_usbMscIsReady.bind fun ready => ?_
  split_ifs
  · refine (keeps_retryLoop (answers_command _) 30).bind fun spun => ?_
    cases spun with
    | returned => exact keeps_pure _
    | _ =>
      refine answers_readCapacity.bind (fun ret hret => ?_) fun ret w hret hnone => ?_
      · split_ifs
        · exact keeps_usbMscMarkNotReady
        · exact keeps_pure _
      · obtain rfl : ret = .detached := hret
        have hfault : usbMscMarkNotReady w = .fault .useAfterFree w := modifyInst_of_none _ hnone
        change (usbMscMarkNotReady w).Sat _ _
        rw [hfault]
        exact ⟨rfl, rfl⟩
  · exact keeps_pure _

lemma keeps_usbMscTestUnitReady : Keeps usbMscTestUnitReady := by
  refine keeps_usbMscMarkReady.bind fun _ =>
    (keeps_retryLoop (answers_command _) 300).bind fun ready => ?_
  cases ready with
  | returned => exact keeps_pure _
  | timeout => exact keeps_usbMscMarkNotReady.bind fun _ => keeps_usbMscSpinUp
  | broken => exact keeps_usbMscSpinUp

/-! ### Calls -/

def UsbmscInst.isReady (inst : UsbmscInst) : Bool := inst.ready = .ready

/-- The callbacks for a change of readiness. -/
def callbacks (inst : UsbmscInst) (prevReady ready : Bool) : List Callback :=
  if !prevReady && ready then [.usbdiskCreate]
  else if prevReady && !ready then removal inst
  else []

/-- What a call leaves for a device that was ready or not. -/
structure Settled (w : World) (prevReady : Bool) (w' : World) : Prop where
  answers : ∃ l, w.answers = l ++ w'.answers ∧ ∀ a ∈ l, ¬a.Fails
  inst : ∃ dev inst inst' ready, w.device = some dev ∧ dev.data = some inst ∧
    w'.device = some { dev with data := some inst' } ∧ inst'.isReady = ready ∧
    inst'.usbdiskCreated = (inst.usbdiskCreated || (!prevReady && ready)) ∧
    w'.trace = w.trace ++ callbacks inst prevReady ready

lemma usbMscIsReady_eq {dev : Usbdev} {inst : UsbmscInst} (hdev : w.device = some dev)
    (hinst : dev.data = some inst) : usbMscIsReady w = .done inst.isReady w := by
  rw [usbMscIsReady, bind_of_done (mscInst_eq hdev hinst)]
  rfl

lemma removal_congr {inst inst' : UsbmscInst} (h : inst'.usbdiskCreated = inst.usbdiskCreated) :
    removal inst' = removal inst := by
  rw [removal, removal, h]

/-- The end of a call. -/
lemma sat_settle (hkept : Kept w w') (prevReady : Bool) :
    ((do
      let ready ← usbMscIsReady
      if !prevReady && ready then usbMscCreateDisk
      else if prevReady && !ready then usbMscRemoveDisk : M Unit) w').Sat
      (fun _ => Settled w prevReady) (Faults w) := by
  obtain ⟨dev, inst, inst', hdev, hinst, hdev', hcreated⟩ := hkept.inst
  rw [bind_of_done (usbMscIsReady_eq hdev' rfl)]
  split_ifs with hcreate hremove
  · have hdone : usbMscCreateDisk w' = .done () { w' with
        device := some { dev with data := some { inst' with usbdiskCreated := true } }
        trace := w'.trace ++ [.usbdiskCreate] } := by
      rw [usbMscCreateDisk, bind_of_done (show call .usbdiskCreate w' = .done () _ from rfl)]
      simp only [modifyInst, hdev']
    rw [hdone]
    refine ⟨hkept.answers, dev, inst, _, inst'.isReady, hdev, hinst, rfl, rfl, ?_, ?_⟩
    · rw [hcreate, Bool.or_true]
    · rw [callbacks, if_pos hcreate, hkept.trace]
  · rw [usbMscRemoveDisk_eq hdev' rfl]
    refine ⟨hkept.answers, dev, inst, inst', inst'.isReady, hdev, hinst, hdev', rfl, ?_, ?_⟩
    · rw [hcreated, Bool.eq_false_iff.mpr hcreate, Bool.or_false]
    · rw [callbacks, if_neg hcreate, if_pos hremove, hkept.trace, removal_congr hcreated]
  · refine ⟨hkept.answers, dev, inst, inst', inst'.isReady, hdev, hinst, hdev', rfl, ?_, ?_⟩
    · rw [hcreated, Bool.eq_false_iff.mpr hcreate, Bool.or_false]
    · rw [callbacks, if_neg hcreate, if_neg hremove, List.append_nil, hkept.trace]

/-- `usb_msc_poll` for a device that has instance data. -/
lemma sat_usbMscPoll {dev : Usbdev} {inst : UsbmscInst} (hdev : w.device = some dev)
    (hinst : dev.data = some inst) :
    (usbMscPoll w).Sat (fun _ => Settled w inst.isReady) (Faults w) := by
  have hw : HasInst w := ⟨dev, inst, hdev, hinst⟩
  have hdetached : usbMscIsDetached w = .done (decide (inst.ready = .detached)) w := by
    rw [usbMscIsDetached, bind_of_done (mscInst_eq hdev hinst)]
    rfl
  rw [usbMscPoll, bind_of_done hdetached]
  by_cases hready : inst.ready = .detached
  · simp only [hready, decide_true, if_true]
    refine ⟨⟨[], rfl, by simp⟩, dev, inst, inst, inst.isReady, hdev, hinst, by rw [← hinst, hdev],
      rfl, ?_, ?_⟩
    · simp
    · simp [callbacks]
  · simp only [hready, decide_false, Bool.false_eq_true, if_false]
    rw [bind_of_done (usbMscIsReady_eq hdev hinst)]
    exact sat_bind (keeps_iff.mp keeps_usbMscTestUnitReady w hw) fun _ w' h => sat_settle h _

/-- `usb_msc_init` for a device that has both endpoints. -/
lemma sat_usbMscInit {dev : Usbdev} (hw : w.device = some { dev with data := some (newInst dev) }) :
    ((do
      usbMscTestUnitReady
      if ← usbMscIsReady then usbMscCreateDisk : M Unit) w).Sat (fun _ => Settled w false)
      (Faults w) := by
  refine sat_bind (keeps_iff.mp keeps_usbMscTestUnitReady w ⟨_, _, hw, rfl⟩) fun _ w' h => ?_
  have hsettle := sat_settle h false
  simpa using hsettle

/-! ### Runs -/

/-- The callbacks alternate, beginning with a creation. -/
def Alternates (trace : List Callback) : Prop :=
  trace.head? ≠ some .usbdiskRemove ∧ trace.IsChain (· ≠ ·)

lemma alternates_append {trace : List Callback} {c : Callback} (h : Alternates trace) :
    Alternates (trace ++ [c]) ↔
      (trace.getLast? = some .usbdiskCreate ↔ c = .usbdiskRemove) := by
  obtain ⟨hhead, hchain⟩ := h
  rw [Alternates, List.isChain_append]
  rcases List.eq_nil_or_concat trace with rfl | ⟨front, last, rfl⟩
  · cases c <;> simp
  · have hhead' : ((front ++ [last]) ++ [c]).head? = (front ++ [last]).head? := by
      rw [List.head?_append_of_ne_nil _ (by simp)]
    simp only [List.concat_eq_append] at hhead hchain ⊢
    rw [hhead']
    simp only [List.getLast?_append, List.getLast?_singleton, Option.some_or]
    cases last <;> cases c <;> simp_all

/-- The disks are created and removed in turn, none is left when the device is gone, and nothing that
has been freed is accessed. -/
structure Good (s : State) : Prop where
  alternates : Alternates s.trace
  removed : s.device = none → s.trace.getLast? ≠ some .usbdiskCreate
  no_useAfterFree : s.fault ≠ some .useAfterFree

/-- No reset of the transport fails, and a device is not destroyed after its disk was removed for
want of a medium. -/
def Harmless (s : State) : Event → Prop
  | .init _ answers => ∀ a ∈ answers, ¬a.Fails
  | .poll answers => ∀ a ∈ answers, ¬a.Fails
  | .destroy => ∀ dev inst, s.device = some dev → dev.data = some inst →
    inst.usbdiskCreated = true → inst.isReady = true

/-- There is a disk exactly if the instance data says so. -/
def Consistent (s : State) : Prop :=
  s.fault = none → (s.trace.getLast? = some .usbdiskCreate ↔
    ∃ dev inst, s.device = some dev ∧ dev.data = some inst ∧ inst.usbdiskCreated = true ∧
      inst.isReady = true)

variable {s t : State}

lemma toState_of_sat {o : Outcome World Fault Unit} {Q : Unit → World → Prop}
    {F : Fault → World → Prop} (h : o.Sat Q F) (ht : Outcome.toState o = some t) :
    ∃ w, w.answers = [] ∧ t.device = w.device ∧ t.trace = w.trace ∧
      ((t.fault = none ∧ Q () w) ∨ ∃ f, t.fault = some f ∧ F f w) := by
  cases o with
  | done a w =>
    simp only [Outcome.toState, List.isEmpty_iff] at ht
    split_ifs at ht with hempty
    obtain rfl := Option.some.inj ht
    exact ⟨w, hempty, rfl, rfl, .inl ⟨rfl, h⟩⟩
  | fault f w =>
    simp only [Outcome.toState, List.isEmpty_iff] at ht
    split_ifs at ht with hempty
    obtain rfl := Option.some.inj ht
    exact ⟨w, hempty, rfl, rfl, .inr ⟨f, rfl, h⟩⟩
  | blocked => cases ht

lemma Good.of_fields (halternates : Alternates t.trace) (hdevice : t.device ≠ none)
    (hfault : t.fault ≠ some .useAfterFree) : Good t :=
  ⟨halternates, fun hnone => absurd hnone hdevice, hfault⟩

/-- A call for a device with instance data. -/
lemma call_spec {o : Outcome World Fault Unit} {dev : Usbdev} {inst : UsbmscInst}
    {prevReady : Bool} (hdev : w.device = some dev) (hinst : dev.data = some inst)
    (hlast : w.trace.getLast? = some .usbdiskCreate ↔
      inst.usbdiskCreated = true ∧ inst.isReady = true)
    (hprev : inst.usbdiskCreated = false ∨ prevReady = inst.isReady)
    (h : o.Sat (fun _ => Settled w prevReady) (Faults w)) (ht : Outcome.toState o = some t) :
    Consistent t ∧ (Alternates w.trace → (Good t ↔ ∀ a ∈ w.answers, ¬a.Fails)) := by
  obtain ⟨w', hanswers, hdevice', htrace', ⟨hfault, hsettled⟩ | ⟨f, hfault, hf⟩⟩ :=
    toState_of_sat h ht
  · obtain ⟨⟨l, hl, hpass⟩, dev', inst₀, inst', ready, hdev₀, hinst₀, hdev', hready, hcreated,
      htrace⟩ := hsettled
    obtain rfl := Option.some.inj (hdev.symm.trans hdev₀)
    obtain rfl := Option.some.inj (hinst.symm.trans hinst₀)
    rw [hanswers, List.append_nil] at hl
    rw [hdev'] at hdevice'
    rw [htrace] at htrace'
    have hgood : Alternates t.trace → Good t := fun halternates =>
      .of_fields halternates (by rw [hdevice']; nofun) (by rw [hfault]; nofun)
    have hconsistent : (t.trace.getLast? = some .usbdiskCreate ↔
        inst'.usbdiskCreated = true ∧ inst'.isReady = true) → Consistent t := by
      intro hiff _
      rw [hiff, hdevice']
      exact ⟨fun hinst' => ⟨_, inst', rfl, rfl, hinst'⟩,
        fun ⟨_, _, hdev, hinst, hinst'⟩ => by cases hdev; cases hinst; exact hinst'⟩
    suffices (t.trace.getLast? = some .usbdiskCreate ↔
        inst'.usbdiskCreated = true ∧ inst'.isReady = true) ∧
        (Alternates w.trace → Alternates t.trace) from
      ⟨hconsistent this.1, fun halternates =>
        iff_of_true (hgood (this.2 halternates)) (hl ▸ hpass)⟩
    rw [htrace', hcreated, hready]
    -- the cases of the readiness before and after the call
    cases prevReady <;> cases ready <;> cases hc : inst.usbdiskCreated <;>
      simp_all [callbacks, removal, alternates_append]
  · cases f with
    | nullPointer =>
      obtain ⟨⟨l, hl, hpass⟩, htrace, dev', inst₀, inst', -, -, hdev', -⟩ := hf
      rw [hanswers, List.append_nil] at hl
      refine ⟨fun hnone => (by rw [hfault] at hnone; cases hnone), fun halternates =>
        iff_of_true (.of_fields ?_ ?_ ?_) (hl ▸ hpass)⟩
      · rwa [htrace', htrace]
      · rw [hdevice', hdev']
        nofun
      · rw [hfault]
        nofun
    | useAfterFree =>
      obtain ⟨⟨l, hl, a, ha, hfails⟩, -⟩ := hf
      rw [hanswers, List.append_nil] at hl
      exact ⟨fun hnone => (by rw [hfault] at hnone; cases hnone), fun _ =>
        iff_of_false (fun hgood => hgood.no_useAfterFree hfault)
          fun hpass => hpass a (hl ▸ ha) hfails⟩

lemma Consistent.not_create (hs : Consistent s) (hfault : s.fault = none)
    (hnone : ∀ dev inst, s.device = some dev → dev.data = some inst →
      inst.usbdiskCreated = false ∨ inst.isReady = false) :
    s.trace.getLast? ≠ some .usbdiskCreate := by
  intro hlast
  obtain ⟨dev, inst, hdev, hinst, hcreated, hready⟩ := (hs hfault).mp hlast
  rcases hnone dev inst hdev hinst with h | h
  · rw [h] at hcreated
    cases hcreated
  · rw [h] at hready
    cases hready

lemma Consistent.iff_of_inst (hs : Consistent s) (hfault : s.fault = none) {dev : Usbdev}
    {inst : UsbmscInst} (hdev : s.device = some dev) (hinst : dev.data = some inst) :
    s.trace.getLast? = some .usbdiskCreate ↔
      inst.usbdiskCreated = true ∧ inst.isReady = true := by
  rw [hs hfault, hdev]
  refine ⟨fun ⟨dev', inst', h, h', hready⟩ => ?_, fun hready => ⟨dev, inst, rfl, hinst, hready⟩⟩
  obtain rfl := Option.some.inj h
  obtain rfl := Option.some.inj (hinst.symm.trans h')
  exact hready

/-- A call that changes nothing but the device, which has no disk. -/
lemma quiet_spec (htrace : s.trace.getLast? ≠ some .usbdiskCreate) {e : Event}
    (hharmless : Harmless s e) (ht : t.trace = s.trace) (hfault : t.fault ≠ some .useAfterFree)
    (hdevice : ∀ dev inst, t.device = some dev → dev.data = some inst →
      inst.usbdiskCreated = false) :
    Consistent t ∧ (Good s → (Good t ↔ Harmless s e)) := by
  refine ⟨fun _ => ?_, fun hgood =>
    iff_of_true ⟨ht ▸ hgood.alternates, fun _ => ht ▸ htrace, hfault⟩ hharmless⟩
  rw [ht]
  refine iff_of_false htrace ?_
  rintro ⟨dev, inst, hdev, hinst, hcreated, -⟩
  rw [hdevice dev inst hdev hinst] at hcreated
  cases hcreated

/-- `usb_msc_init` returns before it has talked to the device. -/
lemma toState_done {dev : Usbdev} {answers : List Answer} {trace : List Callback}
    (h : Outcome.toState (.done () ⟨some dev, answers, trace⟩) = some t) :
    answers = [] ∧ t = ⟨some dev, trace, none⟩ := by
  simp only [Outcome.toState, List.isEmpty_iff] at h
  split_ifs at h with hempty
  exact ⟨hempty, (Option.some.inj h).symm⟩

lemma step_init_spec {dev : Usbdev} {answers : List Answer} (hs : Consistent s)
    (h : step s (.init dev answers) = some t) :
    Consistent t ∧ (Good s → (Good t ↔ Harmless s (.init dev answers))) := by
  rw [step] at h
  split_ifs at h with hfault hdevice
  have hfault : s.fault = none := by simpa using hfault
  have hdevice : s.device = none := by simpa using hdevice
  have hlast := hs.not_create hfault fun dev inst h => by rw [hdevice] at h; cases h
  -- the device that is there when the call returns early
  have hquiet {dev' : Usbdev} (hdone : Outcome.toState
      (.done () ⟨some dev', answers, s.trace⟩) = some t)
      (hcreated : ∀ inst, dev'.data = some inst → inst.usbdiskCreated = false) :
      Consistent t ∧ (Good s → (Good t ↔ Harmless s (.init dev answers))) := by
    obtain ⟨rfl, rfl⟩ := toState_done hdone
    refine quiet_spec hlast (by simp [Harmless]) rfl (by simp) fun dev'' inst h h' => ?_
    rw [Option.some.injEq] at h
    exact hcreated inst (h ▸ h')
  rw [usbMscInit] at h
  split_ifs at h with hprotocol hsubClass hin hout
  · exact hquiet h (by simp)
  · exact hquiet h (by simp)
  · exact hquiet h fun inst hinst => by cases hinst; rfl
  · exact hquiet h fun inst hinst => by cases hinst; rfl
  · have hspec := call_spec (w := ⟨some { dev with data := some (newInst dev) }, answers, s.trace⟩)
      rfl rfl (by simpa [newInst] using hlast) (.inl rfl) (sat_usbMscInit rfl) h
    exact ⟨hspec.1, fun hgood => hspec.2 hgood.alternates⟩

lemma step_poll_spec {answers : List Answer} (hs : Consistent s)
    (h : step s (.poll answers) = some t) :
    Consistent t ∧ (Good s → (Good t ↔ Harmless s (.poll answers))) := by
  rw [step] at h
  split_ifs at h with hfault hdevice
  have hfault : s.fault = none := by simpa using hfault
  obtain ⟨dev, hdev⟩ : ∃ dev, s.device = some dev := Option.ne_none_iff_exists'.mp (by simpa using hdevice)
  cases hinst : dev.data with
  | none =>
    have hnull : mscInst ⟨s.device, answers, s.trace⟩ =
        .fault .nullPointer ⟨s.device, answers, s.trace⟩ := by
      simp only [mscInst, hdev, hinst]
    have hdetached : usbMscIsDetached ⟨s.device, answers, s.trace⟩ =
        .fault .nullPointer ⟨s.device, answers, s.trace⟩ := bind_of_fault hnull
    rw [usbMscPoll, bind_of_fault hdetached] at h
    simp only [Outcome.toState, List.isEmpty_iff] at h
    split_ifs at h with hempty
    obtain rfl := Option.some.inj h
    have hdata : ∀ dev' inst, s.device = some dev' → dev'.data = some inst → False := by
      intro dev' inst h h'
      rw [hdev, Option.some.injEq] at h
      rw [← h, hinst] at h'
      cases h'
    exact quiet_spec (hs.not_create hfault fun dev' inst h h' => (hdata dev' inst h h').elim)
      (by simp [Harmless, hempty]) rfl (by simp) fun dev' inst h h' => (hdata dev' inst h h').elim
  | some inst =>
    have hspec := call_spec (w := ⟨s.device, answers, s.trace⟩) hdev hinst
      (hs.iff_of_inst hfault hdev hinst) (.inr rfl) (sat_usbMscPoll hdev hinst) h
    exact ⟨hspec.1, fun hgood => hspec.2 hgood.alternates⟩

lemma step_destroy_spec (hs : Consistent s) (h : step s .destroy = some t) :
    Consistent t ∧ (Good s → (Good t ↔ Harmless s .destroy)) := by
  obtain ⟨hfault, hstep⟩ : s.fault = none ∧
      Outcome.toState (usbDetachDevice ⟨s.device, [], s.trace⟩) = some t := by
    rw [step] at h
    split_ifs at h with hsome
    exact ⟨by simpa using hsome, h⟩
  cases hdev : s.device with
  | none =>
    rw [hdev] at hstep
    obtain rfl : (⟨none, s.trace, none⟩ : State) = t := Option.some.inj hstep
    exact quiet_spec (hs.not_create hfault fun dev inst h => by rw [hdev] at h; cases h)
      (fun dev inst h => by rw [hdev] at h; cases h) rfl (by simp) (by simp)
  | some dev =>
    cases hinst : dev.data with
    | none =>
      have hdetach : usbDetachDevice ⟨some dev, [], s.trace⟩ = .done () ⟨none, [], s.trace⟩ := by
        have hdestroy : usbMscDestroy ⟨some dev, [], s.trace⟩ = .done () ⟨some dev, [], s.trace⟩ := by
          simp only [usbMscDestroy, hinst]
        rw [usbDetachDevice]
        exact bind_of_done hdestroy
      rw [hdev, hdetach] at hstep
      obtain rfl : (⟨none, s.trace, none⟩ : State) = t := Option.some.inj hstep
      refine quiet_spec (hs.not_create hfault fun dev' inst h h' => ?_) (fun dev' inst h h' => ?_) rfl
        (by simp) (by simp)
      · rw [hdev, Option.some.injEq] at h
        rw [← h, hinst] at h'
        cases h'
      · rw [hdev, Option.some.injEq] at h
        rw [← h, hinst] at h'
        cases h'
    | some inst =>
      rw [hdev, usbDetachDevice_eq rfl hinst] at hstep
      obtain rfl : (⟨none, s.trace ++ removal inst, none⟩ : State) = t := Option.some.inj hstep
      have hiff := hs.iff_of_inst hfault hdev hinst
      have hharmless : Harmless s .destroy ↔ (inst.usbdiskCreated = true → inst.isReady = true) := by
        refine ⟨fun h => h dev inst hdev hinst, fun h dev' inst' hdev' hinst' => ?_⟩
        obtain rfl := Option.some.inj (hdev.symm.trans hdev')
        obtain rfl := Option.some.inj (hinst.symm.trans hinst')
        exact h
      rw [hharmless]
      cases hcreated : inst.usbdiskCreated with
      | false =>
        have hlast : s.trace.getLast? ≠ some .usbdiskCreate := by simp [hiff, hcreated]
        simp only [removal, hcreated, Bool.false_eq_true, if_false, List.append_nil]
        exact ⟨fun _ => iff_of_false hlast (by simp), fun hgood =>
          iff_of_true ⟨hgood.alternates, fun _ => hlast, by simp⟩ (by simp)⟩
      | true =>
        simp only [removal, hcreated, if_true, forall_const]
        have hlast : (s.trace ++ [Callback.usbdiskRemove]).getLast? ≠ some .usbdiskCreate := by simp
        refine ⟨fun _ => iff_of_false hlast (by simp), fun hgood => ?_⟩
        have halternates := alternates_append (c := .usbdiskRemove) hgood.alternates
        rw [hiff] at halternates
        simp only [hcreated, true_and, iff_true] at halternates
        exact ⟨fun h => halternates.mp h.alternates,
          fun hready => ⟨halternates.mpr hready, fun _ => hlast, by simp⟩⟩

theorem step_spec {e : Event} (hs : Consistent s) (h : step s e = some t) :
    Consistent t ∧ (Good s → (Good t ↔ Harmless s e)) := by
  cases e with
  | init dev answers => exact step_init_spec hs h
  | poll answers => exact step_poll_spec hs h
  | destroy => exact step_destroy_spec hs h

/-- The driver keeps its promises throughout a run exactly if no reset of the transport fails in it and
no device is destroyed after its disk was removed. -/
theorem good_iff_harmless (es : List Event) :
    (∀ p, p <+: es → ∀ s ∈ exec step initial p, Good s) ↔ Meets step Harmless initial es :=
  prefix_iff_meets (J := Consistent) (E := fun _ => True)
    (fun _ _ _ hs _ h => step_spec hs h)
    (fun _ => iff_of_false (by simp [initial]) (by simp [initial]))
    ⟨⟨by simp [initial], by simp [initial]⟩, by simp [initial], by simp [initial]⟩ (by simp)

/-- A card reader with an endpoint in each direction. -/
def cardReader : Usbdev where
  bInterfaceProtocol := 0x50
  bInterfaceSubClass := 6
  endpoints := [⟨0x81, .in_, .bulk⟩, ⟨0x02, .out, .bulk⟩]
  data := none

/-- A command that is answered with a status, and sense data for a reader without a medium. -/
def answer (status : ℕ) : Answer :=
  .command ⟨false, false, false, true, status, 0,
    fun i => if i = 2 then 2 else if i = 12 then 0x3a else 0⟩

/-- The reader is attached with a card, the card is taken out, and the reader is unplugged. -/
def unplugged : List Event :=
  [.init cardReader [answer 0, answer 0, answer 0], .poll [answer 1, answer 0], .destroy]

/-- The disk is removed twice. -/
theorem not_good_of_unplugged : ¬∀ es p : List Event, p <+: es →
    ∀ s ∈ exec step initial p, Good s := by
  intro h
  obtain ⟨s, hs⟩ := Option.isSome_iff_exists.mp
    (show (exec step initial unplugged).isSome by decide +kernel)
  have htrace : (exec step initial unplugged).map State.trace =
      some [.usbdiskCreate, .usbdiskRemove, .usbdiskRemove] := by decide +kernel
  rw [hs, Option.map_some, Option.some.injEq] at htrace
  have halternates := (h unplugged unplugged List.prefix_rfl s hs).alternates
  rw [htrace] at halternates
  simp [Alternates] at halternates

end ApuBios.UsbMsc
