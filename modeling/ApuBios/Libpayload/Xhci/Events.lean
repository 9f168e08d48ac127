import ApuBios.Libpayload.Xhci.Ring
import ApuBios.Library.CycleRing

/-!
# The event ring of the XHCI driver

Model of `drivers/usb/xhci_events.c` of libpayload. The controller posts events while the driver runs,
and tells them from old ones by the cycle bit. The driver tells the controller now and then how far it
has come. In every order of these steps the driver sees the events one by one, as they were posted
(`run_queue`). When it handles all events, it comes to the end (`handleEvents_drains`), and when it
waits for one, it gets the first of the kind (`waitForTransfer_first`, `waitForCommandDone_first`).
-/

namespace ApuBios.Xhci

open CycleRing

/-! ### Events -/

def trbEvTransfer : ℕ := 32

def trbEvCmdCmpl : ℕ := 33

def trbEvHost : ℕ := 37

def ccSuccess : ℕ := 1

def ccShortPacket : ℕ := 13

def ccEventRingFullError : ℕ := 21

/-- `TRB_GET` of the fields that only events have. -/
def Trb.evtl (ev : Trb) : ℕ := (⟨0, 24⟩ : BitField).get ev.status

def Trb.cc (ev : Trb) : ℕ := (⟨24, 8⟩ : BitField).get ev.status

def Trb.ep (ev : Trb) : ℕ := (⟨16, 5⟩ : BitField).get ev.control

def Trb.id (ev : Trb) : ℕ := (⟨24, 8⟩ : BitField).get ev.control

/-! ### The driver -/

def EVENT_RING_SIZE : ℕ := 64

/-- `event_ring_t`; the pointers are indices into the ring. -/
structure EventRing where
  ring : ℕ → Trb
  cur : ℕ
  ccs : ℕ
  adv : Bool

/-- The members of `intrq_t` that are used here, with `ready` as a physical address. -/
structure IntrQueue where
  size : ℕ
  ready : ℕ

/-- The members of `xhci_t` that are used here. `interruptQueues` gives the queue of a slot and an
endpoint, if there is a device with one, and `trbs` the TRBs of these queues in memory. -/
structure Instance where
  er : EventRing
  erdp : ℕ
  maxSlotsEn : ℕ
  interruptQueues : ℕ → ℕ → Option IntrQueue
  trbs : ℕ → Trb

def resetEventRing (er : EventRing) : EventRing where
  ring i := if i < EVENT_RING_SIZE then (er.ring i).set .c 0 else er.ring i
  cur := 0
  ccs := 1
  adv := true

def eventReady (er : EventRing) : Prop := (er.ring er.cur).get .c = er.ccs

instance (er : EventRing) : Decidable (eventReady er) := inferInstanceAs (Decidable (_ = _))

def updateEventDq (xhci : Instance) : Instance :=
  if xhci.er.adv then { xhci with erdp := xhci.er.cur, er := { xhci.er with adv := false } } else xhci

def advanceEventRing (xhci : Instance) : Instance :=
  if xhci.er.cur + 1 = EVENT_RING_SIZE then
    updateEventDq { xhci with er := { xhci.er with cur := 0, ccs := xhci.er.ccs ^^^ 1, adv := true } }
  else { xhci with er := { xhci.er with cur := xhci.er.cur + 1, adv := true } }

/-- A transfer of an interrupt queue is finished: how much of it was done is noted in its TRB. -/
def finishTransfer (xhci : Instance) (ev : Trb) (intrq : IntrQueue) : Instance :=
  let length := if ev.cc = ccSuccess ∨ ev.cc = ccShortPacket then Word.sub 32 intrq.size ev.evtl else 0
  { xhci with
    interruptQueues := Function.update xhci.interruptQueues ev.id
      (Function.update (xhci.interruptQueues ev.id) ev.ep (some { intrq with ready := ev.ptrLow }))
    trbs := Function.update xhci.trbs ev.ptrLow ((xhci.trbs ev.ptrLow).set .tl length) }

/-- All other events are passed with at most a message. -/
def handleTransferEvent (xhci : Instance) : Instance :=
  let ev := xhci.er.ring xhci.er.cur
  if ev.id ≠ 0 ∧ ev.id ≤ xhci.maxSlotsEn then
    match xhci.interruptQueues ev.id ev.ep with
    | some intrq => advanceEventRing (finishTransfer xhci ev intrq)
    | none => advanceEventRing xhci
  else advanceEventRing xhci

def handleHostControllerEvent (xhci : Instance) : Instance :=
  if (xhci.er.ring xhci.er.cur).cc = ccEventRingFullError then updateEventDq (advanceEventRing xhci)
  else advanceEventRing xhci

/-- Command completions, port changes and unknown events are passed. -/
def handleEvent (xhci : Instance) : Instance :=
  if (xhci.er.ring xhci.er.cur).get .tt = trbEvTransfer then handleTransferEvent xhci
  else if (xhci.er.ring xhci.er.cur).get .tt = trbEvHost then handleHostControllerEvent xhci
  else advanceEventRing xhci

/-! ### The driver and the controller -/

/-- Besides the driver, where the controller stores the next event and with which bit, what has
happened so far, and how many of the events seen the controller was told about. -/
structure System where
  xhci : Instance
  enqueue : ℕ
  pcs : ℕ
  posted : List Trb
  seen : List Trb
  reported : ℕ

/-- As `xhci_reinit` leaves it. -/
def start (xhci : Instance) : System where
  xhci := updateEventDq { xhci with er := resetEventRing xhci.er }
  enqueue := 0
  pcs := 1
  posted := []
  seen := []
  reported := 0

namespace System

/-- The event that the driver looks at. -/
def event (s : System) : Trb := s.xhci.er.ring s.xhci.er.cur

/-- The controller posts an event. It does not store over events that it does not know to be seen. -/
def post (s : System) (ev : Trb) : System :=
  if s.posted.length < s.reported + EVENT_RING_SIZE then
    { s with
      xhci := { s.xhci with er := { s.xhci.er with
        ring := Function.update s.xhci.er.ring s.enqueue (ev.set .c s.pcs) } }
      enqueue := if s.enqueue + 1 = EVENT_RING_SIZE then 0 else s.enqueue + 1
      pcs := if s.enqueue + 1 = EVENT_RING_SIZE then s.pcs ^^^ 1 else s.pcs
      posted := s.posted ++ [ev] }
  else s

/-- After the dequeue pointer was written the controller knows what has been seen. -/
def told (s : System) : System := if s.xhci.er.adv then s else { s with reported := s.seen.length }

def advance (s : System) : System :=
  told { s with xhci := advanceEventRing s.xhci, seen := s.seen ++ [s.event] }

def handle (s : System) : System :=
  told { s with xhci := handleEvent s.xhci, seen := s.seen ++ [s.event] }

def update (s : System) : System := told { s with xhci := updateEventDq s.xhci }

end System

/-- What may happen next. -/
inductive Action where
  | post (ev : Trb)
  | handle
  | advance
  | update

/-- The driver passes an event only if there is one. -/
def step (s : System) : Action → System
  | .post ev => s.post ev
  | .handle => if eventReady s.xhci.er then s.handle else s
  | .advance => if eventReady s.xhci.er then s.advance else s
  | .update => s.update

def run (s : System) (as : List Action) : System := as.foldl step s

/-! ### The loops -/

/-- The loop with one round for each look at the ring, before which events may arrive. -/
def handleEvents : List (List Trb) → System → Option System
  | [], _ => none
  | arrived :: rest, s =>
    let s := arrived.foldl System.post s
    if eventReady s.xhci.er then handleEvents rest s.handle else some s.update

def TIMEOUT : ℤ := -1

/-- The loop of the waiting functions, with those of `xhci_wait_for_event_type` and
`xhci_wait_for_event`. It ends with an event that is wanted, or when the time is over. -/
def waitFor (trbType : ℕ) (wanted : Trb → Bool) : List (List Trb) → ℕ → System → Option (Bool × System)
  | [], _, _ => none
  | arrived :: rest, timeoutUs, s =>
    let s := arrived.foldl System.post s
    if timeoutUs = 0 then some (false, s)
    else if eventReady s.xhci.er then
      if s.event.get .tt = trbType ∧ wanted s.event then some (true, s)
      else waitFor trbType wanted rest timeoutUs s.handle
    else waitFor trbType wanted rest (timeoutUs - 1) s

def waitForTransfer (arrivals : List (List Trb)) (s : System) (slotId epId : ℕ) : Option (ℤ × System) :=
  (waitFor trbEvTransfer (fun ev => ev.id = slotId ∧ ev.ep = epId) arrivals (2 * 1000 * 1000) s).map
    fun (found, s) => if found then (s.event.cc, s.advance.update) else (TIMEOUT, s.update)

/-- The command is the one whose completion points to `address`. -/
def waitForCommandDone (arrivals : List (List Trb)) (s : System) (address : ℕ) (clearEvent : Bool) :
    Option (ℤ × System) :=
  (waitFor trbEvCmdCmpl (fun ev => ev.ptrLow = address ∧ ev.ptrHigh = 0) arrivals (100 * 1000) s).map
    fun (found, s) =>
      if found then (s.event.cc, (if clearEvent then s.advance else s).update) else (TIMEOUT, s.update)

/-! ### The ring is a queue -/

variable {xhci y : Instance} {s s' : System} {ev : Trb}

def cycle (trb : Trb) : ℕ := trb.get .c

def stamp (ev : Trb) (pcs : ℕ) : Trb := ev.set .c pcs

lemma cycle_stamp (ev : Trb) (pcs : ℕ) (hpcs : pcs < 2) : cycle (stamp ev pcs) = pcs := by
  rw [cycle, stamp, Trb.get_set_self]
  exact Nat.mod_eq_of_lt hpcs

/-- The events with the bits that the controller has stored them with. -/
def stamped (posted : List Trb) : List Trb :=
  posted.mapIdx fun k ev => stamp ev (lap EVENT_RING_SIZE k)

lemma stamped_concat (posted : List Trb) (ev : Trb) : stamped (posted ++ [ev]) =
    stamped posted ++ [stamp ev (lap EVENT_RING_SIZE posted.length)] := List.mapIdx_concat

lemma length_stamped (posted : List Trb) : (stamped posted).length = posted.length := List.length_mapIdx

lemma size_pos : 0 < EVENT_RING_SIZE := by decide

/-- Both sides are where the numbers of their events say, and the slots hold the events in between. -/
structure System.Good (s : System) : Prop where
  queue : Queue EVENT_RING_SIZE cycle stamp s.xhci.er.ring s.posted s.seen.length
  cur : s.xhci.er.cur = s.seen.length % EVENT_RING_SIZE
  ccs : s.xhci.er.ccs = lap EVENT_RING_SIZE s.seen.length
  enqueue : s.enqueue = s.posted.length % EVENT_RING_SIZE
  pcs : s.pcs = lap EVENT_RING_SIZE s.posted.length
  seen : s.seen <+: stamped s.posted
  reported : s.reported ≤ s.seen.length

/-- The dequeue pointer is the one for the number of events that the controller knows about. -/
structure System.Told (s : System) : Prop where
  erdp : s.xhci.erdp = s.reported % EVENT_RING_SIZE
  settled : s.xhci.er.adv = false → s.reported = s.seen.length

lemma System.Good.ready_iff (h : s.Good) : eventReady s.xhci.er ↔ s.seen.length < s.posted.length := by
  rw [eventReady, h.ccs, h.cur]
  exact h.queue.ready_iff cycle_stamp size_pos

/-- The event that the driver looks at is the next one that was posted. -/
lemma System.Good.event (h : s.Good) (hlt : s.seen.length < s.posted.length) :
    (stamped s.posted)[s.seen.length]? = some s.event := by
  rw [System.event, h.cur, h.queue.pending _ hlt le_rfl, stamped, List.getElem?_mapIdx,
    List.getElem?_eq_getElem hlt]
  rfl

lemma prefix_concat {α : Type*} {l l' : List α} {a : α} (h : l <+: l') (ha : l'[l.length]? = some a) :
    l ++ [a] <+: l' := by
  obtain ⟨t, rfl⟩ := h
  cases t with
  | nil => simp at ha
  | cons b t =>
    simp only [List.getElem?_append_right le_rfl, Nat.sub_self, List.getElem?_cons_zero,
      Option.some.injEq] at ha
    subst ha
    exact ⟨t, by simp⟩

/-! ### The steps of the controller and of the driver -/

lemma good_start (xhci : Instance) : (start xhci).Good ∧ (start xhci).Told := by
  have hclear : ∀ i < EVENT_RING_SIZE, cycle ((resetEventRing xhci.er).ring i) = 0 := by
    intro i hi
    simp only [resetEventRing, if_pos hi]
    exact cycle_stamp _ 0 (by decide)
  refine ⟨⟨queue_nil hclear, rfl, lap_zero.symm, rfl, lap_zero.symm, List.nil_prefix, le_rfl⟩, rfl, ?_⟩
  exact fun _ => rfl

lemma System.Good.post (h : s.Good) (ev : Trb) : (s.post ev).Good := by
  by_cases hroom : s.posted.length < s.reported + EVENT_RING_SIZE
  · rw [System.post, if_pos hroom]
    have hqueue := h.queue.produce (a := ev) (hroom.trans_le (Nat.add_le_add_right h.reported _))
    refine ⟨?_, h.cur, h.ccs, ?_, ?_, ?_, h.reported⟩
    · rw [← h.enqueue, ← h.pcs] at hqueue
      exact hqueue
    · rw [List.length_append, List.length_singleton, succ_mod size_pos, ← h.enqueue]
    · rw [List.length_append, List.length_singleton, lap_succ size_pos, ← h.enqueue, ← h.pcs]
    · rw [stamped_concat]
      exact h.seen.trans (List.prefix_append _ _)
  · rw [System.post, if_neg hroom]
    exact h

lemma System.Told.post (h : s.Told) (ev : Trb) : (s.post ev).Told := by
  by_cases hroom : s.posted.length < s.reported + EVENT_RING_SIZE
  · rw [System.post, if_pos hroom]
    exact ⟨h.erdp, h.settled⟩
  · rw [System.post, if_neg hroom]
    exact h

/-- What a pass of the driver along the ring does, whatever else it changes. -/
structure Advances (xhci y : Instance) : Prop where
  ring : y.er.ring = xhci.er.ring
  cur : y.er.cur = if xhci.er.cur + 1 = EVENT_RING_SIZE then 0 else xhci.er.cur + 1
  ccs : y.er.ccs = if xhci.er.cur + 1 = EVENT_RING_SIZE then xhci.er.ccs ^^^ 1 else xhci.er.ccs
  erdp : y.erdp = if y.er.adv then xhci.erdp else y.er.cur

lemma advanceEventRing_advances (her : y.er = xhci.er) (herdp : y.erdp = xhci.erdp) :
    Advances xhci (advanceEventRing y) := by
  rw [advanceEventRing, her]
  split_ifs with hlast
  · exact ⟨rfl, (if_pos hlast).symm, (if_pos hlast).symm, rfl⟩
  · exact ⟨rfl, (if_neg hlast).symm, (if_neg hlast).symm, herdp⟩

lemma Advances.update (h : Advances xhci y) : Advances xhci (updateEventDq y) := by
  rw [updateEventDq]
  split_ifs
  · exact ⟨h.ring, h.cur, h.ccs, rfl⟩
  · exact h

/-- Every event is passed exactly once, whatever its type is. -/
lemma handleEvent_advances (xhci : Instance) : Advances xhci (handleEvent xhci) := by
  rw [handleEvent]
  split_ifs
  · simp only [handleTransferEvent]
    split_ifs
    · split
      · exact advanceEventRing_advances rfl rfl
      · exact advanceEventRing_advances rfl rfl
    · exact advanceEventRing_advances rfl rfl
  · rw [handleHostControllerEvent]
    split_ifs
    · exact (advanceEventRing_advances rfl rfl).update
    · exact advanceEventRing_advances rfl rfl
  · exact advanceEventRing_advances rfl rfl

lemma System.Good.told (h : s.Good) : s.told.Good := by
  rw [System.told]
  split_ifs
  · exact h
  · exact ⟨h.queue, h.cur, h.ccs, h.enqueue, h.pcs, h.seen, le_rfl⟩

lemma System.Good.told_told (h : s.Good)
    (hadv : s.xhci.er.adv → s.xhci.erdp = s.reported % EVENT_RING_SIZE)
    (hupdated : s.xhci.er.adv = false → s.xhci.erdp = s.xhci.er.cur) : s.told.Told := by
  rw [System.told]
  split_ifs with hold
  · exact ⟨hadv hold, fun hfalse => by rw [hfalse] at hold; cases hold⟩
  · refine ⟨?_, fun _ => rfl⟩
    exact (hupdated (Bool.eq_false_iff.2 hold)).trans h.cur

/-- The driver passes the next event. -/
lemma System.Good.advances (h : s.Good) (ht : s.Told) (hready : eventReady s.xhci.er)
    (hy : Advances s.xhci y) :
    (System.told { s with xhci := y, seen := s.seen ++ [s.event] }).Good ∧
      (System.told { s with xhci := y, seen := s.seen ++ [s.event] }).Told := by
  have hlt := h.ready_iff.1 hready
  have hqueue := h.queue.consume cycle_stamp size_pos hlt
  have hgood : System.Good { s with xhci := y, seen := s.seen ++ [s.event] } := by
    refine ⟨?_, ?_, ?_, h.enqueue, h.pcs, prefix_concat h.seen (h.event hlt), ?_⟩
    · rw [List.length_append, List.length_singleton, hy.ring]
      exact hqueue
    · rw [List.length_append, List.length_singleton, succ_mod size_pos, ← h.cur]
      exact hy.cur
    · rw [List.length_append, List.length_singleton, lap_succ size_pos, ← h.cur, ← h.ccs]
      exact hy.ccs
    · rw [List.length_append]
      exact Nat.le_add_right_of_le h.reported
  refine ⟨hgood.told, hgood.told_told (fun hadv => ?_) fun hadv => ?_⟩
  · exact (hy.erdp.trans (if_pos hadv)).trans ht.erdp
  · have hfalse : ¬ y.er.adv = true := by
      rw [show y.er.adv = false from hadv]
      decide
    exact hy.erdp.trans (if_neg hfalse)

lemma System.Good.update (h : s.Good) (ht : s.Told) : s.update.Good ∧ s.update.Told := by
  rw [System.update, updateEventDq]
  by_cases hadv : s.xhci.er.adv = true
  · rw [if_pos hadv]
    have hgood : System.Good { s with
        xhci := { s.xhci with erdp := s.xhci.er.cur, er := { s.xhci.er with adv := false } } } :=
      ⟨h.queue, h.cur, h.ccs, h.enqueue, h.pcs, h.seen, h.reported⟩
    exact ⟨hgood.told, hgood.told_told (fun hfalse => by cases hfalse) fun _ => rfl⟩
  · rw [if_neg hadv]
    refine ⟨h.told, h.told_told (fun htrue => absurd htrue hadv) fun hfalse => ?_⟩
    rw [ht.erdp, ht.settled hfalse, h.cur]

lemma System.Good.handle (h : s.Good) (ht : s.Told) (hready : eventReady s.xhci.er) :
    s.handle.Good ∧ s.handle.Told := h.advances ht hready (handleEvent_advances s.xhci)

lemma System.Good.advance (h : s.Good) (ht : s.Told) (hready : eventReady s.xhci.er) :
    s.advance.Good ∧ s.advance.Told := h.advances ht hready (advanceEventRing_advances rfl rfl)

lemma good_step (h : s.Good) (ht : s.Told) (a : Action) : (step s a).Good ∧ (step s a).Told := by
  cases a with
  | post ev => exact ⟨h.post ev, ht.post ev⟩
  | handle =>
    rw [step]
    split_ifs with hready
    · exact h.handle ht hready
    · exact ⟨h, ht⟩
  | advance =>
    rw [step]
    split_ifs with hready
    · exact h.advance ht hready
    · exact ⟨h, ht⟩
  | update => exact h.update ht

lemma good_run (h : s.Good) (ht : s.Told) (as : List Action) : (run s as).Good ∧ (run s as).Told := by
  induction as generalizing s with
  | nil => exact ⟨h, ht⟩
  | cons a as ih =>
    obtain ⟨hstep, htstep⟩ := good_step h ht a
    exact ih hstep htstep

lemma good_reached (xhci : Instance) (as : List Action) :
    (run (start xhci) as).Good ∧ (run (start xhci) as).Told := by
  obtain ⟨h, ht⟩ := good_start xhci
  exact good_run h ht as

/-- In every order of the steps of the controller and of the driver no event is lost, seen twice or
seen out of order: what the driver has seen is how the posted events begin, it finds an event exactly
if there is one that it has not seen, and the one that it finds is the next one. The controller is
never told more than what has been seen, so that it stores over no event that has not been seen. -/
theorem run_queue (xhci : Instance) (as : List Action) :
    (run (start xhci) as).seen <+: stamped (run (start xhci) as).posted ∧
      (eventReady (run (start xhci) as).xhci.er ↔
        (run (start xhci) as).seen.length < (run (start xhci) as).posted.length) ∧
      (eventReady (run (start xhci) as).xhci.er →
        (stamped (run (start xhci) as).posted)[(run (start xhci) as).seen.length]? =
          some (run (start xhci) as).event) ∧
      (run (start xhci) as).xhci.erdp = (run (start xhci) as).reported % EVENT_RING_SIZE ∧
      (run (start xhci) as).reported ≤ (run (start xhci) as).seen.length ∧
      (run (start xhci) as).posted.length ≤ (run (start xhci) as).seen.length + EVENT_RING_SIZE := by
  obtain ⟨h, ht⟩ := good_reached xhci as
  exact ⟨h.seen, h.ready_iff, fun hready => h.event (h.ready_iff.1 hready), ht.erdp, h.reported,
    h.queue.length_le⟩

/-! ### Events that arrive -/

variable {trbType timeoutUs : ℕ} {wanted : Trb → Bool} {arrivals : List (List Trb)} {found : Bool}

@[simp] lemma System.seen_told : s.told.seen = s.seen := by
  rw [System.told]
  split_ifs <;> rfl

@[simp] lemma System.xhci_told : s.told.xhci = s.xhci := by
  rw [System.told]
  split_ifs <;> rfl

@[simp] lemma System.posted_told : s.told.posted = s.posted := by
  rw [System.told]
  split_ifs <;> rfl

@[simp] lemma System.seen_handle : s.handle.seen = s.seen ++ [s.event] := System.seen_told

@[simp] lemma System.posted_handle : s.handle.posted = s.posted := System.posted_told

@[simp] lemma System.seen_advance : s.advance.seen = s.seen ++ [s.event] := System.seen_told

@[simp] lemma System.posted_advance : s.advance.posted = s.posted := System.posted_told

@[simp] lemma System.seen_update : s.update.seen = s.seen := System.seen_told

@[simp] lemma System.posted_update : s.update.posted = s.posted := System.posted_told

@[simp] lemma System.seen_post : (s.post ev).seen = s.seen := by
  rw [System.post]
  split <;> rfl

/-- Events that arrive change nothing of what has been seen. -/
lemma System.Good.arrive (h : s.Good) (ht : s.Told) (evs : List Trb) :
    (evs.foldl System.post s).Good ∧ (evs.foldl System.post s).Told ∧
      (evs.foldl System.post s).seen = s.seen := by
  induction evs generalizing s with
  | nil => exact ⟨h, ht, rfl⟩
  | cons ev evs ih =>
    obtain ⟨hgood, htold, hseen⟩ := ih (h.post ev) (ht.post ev)
    exact ⟨hgood, htold, hseen.trans System.seen_post⟩

lemma adv_updateEventDq (xhci : Instance) : (updateEventDq xhci).er.adv = false := by
  rw [updateEventDq]
  split_ifs with hadv
  · rfl
  · exact Bool.eq_false_iff.2 hadv

/-- After an update the controller knows of everything that has been seen. -/
lemma System.Good.updated (h : s.Good) (ht : s.Told) :
    s.update.seen <+: stamped s.update.posted ∧ s.update.reported = s.update.seen.length ∧
      s.update.xhci.erdp = s.update.seen.length % EVENT_RING_SIZE := by
  obtain ⟨hgood, htold⟩ := h.update ht
  have hreported : s.update.reported = s.update.seen.length := by
    refine htold.settled ?_
    rw [System.update, System.xhci_told]
    exact adv_updateEventDq s.xhci
  exact ⟨hgood.seen, hreported, hreported ▸ htold.erdp⟩

/-! ### Handling all events -/

/-- When the loop ends, all events are seen, and the controller has been told so. -/
lemma handleEvents_spec (h : s.Good) (ht : s.Told) (hres : handleEvents arrivals s = some s') :
    s'.seen = stamped s'.posted ∧ s'.reported = s'.posted.length ∧
      s'.xhci.erdp = s'.posted.length % EVENT_RING_SIZE := by
  induction arrivals generalizing s with
  | nil => cases hres
  | cons arrived rest ih =>
    obtain ⟨hgood, htold, -⟩ := h.arrive ht arrived
    rw [handleEvents] at hres
    generalize arrived.foldl System.post s = t at hgood htold hres
    by_cases hready : eventReady t.xhci.er
    · rw [if_pos hready] at hres
      obtain ⟨hgood', htold'⟩ := hgood.handle htold hready
      exact ih hgood' htold' hres
    · rw [if_neg hready] at hres
      cases hres
      obtain ⟨hpre, hknown⟩ := hgood.updated htold
      have hall : t.posted.length ≤ t.seen.length := not_lt.1 fun hlt => hready (hgood.ready_iff.2 hlt)
      have hseen : t.update.seen = stamped t.update.posted := by
        refine hpre.eq_of_length_le ?_
        rw [length_stamped, System.seen_update, System.posted_update]
        exact hall
      have hlen : t.update.seen.length = t.update.posted.length := by rw [hseen, length_stamped]
      rw [← hlen]
      exact ⟨hseen, hknown⟩

/-- Without new events, each round leaves one event less. -/
lemma handleEvents_replicate {n : ℕ} (h : s.Good) (ht : s.Told)
    (hn : s.posted.length < s.seen.length + n) :
    ∃ s', handleEvents (List.replicate n []) s = some s' ∧ s'.posted = s.posted := by
  induction n generalizing s with
  | zero =>
    have hle := h.seen.length_le
    rw [length_stamped] at hle
    omega
  | succ n ih =>
    rw [List.replicate_succ, handleEvents]
    by_cases hready : eventReady s.xhci.er
    · obtain ⟨hgood, htold⟩ := h.handle ht hready
      have hless : s.handle.posted.length < s.handle.seen.length + n := by
        rw [System.posted_handle, System.seen_handle, List.length_append, List.length_singleton]
        omega
      obtain ⟨s', hs', hsame⟩ := ih hgood htold hless
      refine ⟨s', ?_, hsame.trans System.posted_handle⟩
      rw [List.foldl_nil, if_pos hready]
      exact hs'
    · refine ⟨s.update, ?_, System.posted_update⟩
      rw [List.foldl_nil, if_neg hready]

/-- `xhci_handle_events` ends: if no events arrive in the meantime, it looks at the ring at most once
more than the ring is long. Then the driver has seen all events that were posted, and the register of
the controller says so. -/
theorem handleEvents_drains (xhci : Instance) (as : List Action) :
    ∃ s', handleEvents (List.replicate (EVENT_RING_SIZE + 1) []) (run (start xhci) as) = some s' ∧
      s'.posted = (run (start xhci) as).posted ∧ s'.seen = stamped s'.posted ∧
      s'.reported = s'.posted.length ∧ s'.xhci.erdp = s'.posted.length % EVENT_RING_SIZE := by
  obtain ⟨h, ht⟩ := good_reached xhci as
  have hpending := h.queue.length_le
  obtain ⟨s', hs', hposted⟩ := handleEvents_replicate (n := EVENT_RING_SIZE + 1) h ht (by omega)
  exact ⟨s', hs', hposted, handleEvents_spec h ht hs'⟩

/-! ### Waiting for an event -/

/-- What has been waited for is the first such event, and the time is over only after so many looks
at the ring. -/
lemma waitFor_spec (h : s.Good) (ht : s.Told)
    (hres : waitFor trbType wanted arrivals timeoutUs s = some (found, s')) :
    s'.Good ∧ s'.Told ∧ ∃ skipped, s'.seen = s.seen ++ skipped ∧
      (∀ ev ∈ skipped, ¬ (ev.get .tt = trbType ∧ wanted ev)) ∧
      (found = true → eventReady s'.xhci.er ∧ s'.event.get .tt = trbType ∧ wanted s'.event) ∧
      (found = false → timeoutUs < arrivals.length) := by
  induction arrivals generalizing timeoutUs s with
  | nil => cases hres
  | cons arrived rest ih =>
    obtain ⟨hgood, htold, hseen⟩ := h.arrive ht arrived
    rw [waitFor] at hres
    rw [← hseen]
    generalize arrived.foldl System.post s = t at hgood htold hres ⊢
    by_cases htime : timeoutUs = 0
    · rw [if_pos htime] at hres
      cases hres
      refine ⟨hgood, htold, [], (List.append_nil _).symm, by simp, ?_, ?_⟩
      · intro hfalse
        cases hfalse
      · intro _
        rw [htime]
        exact Nat.succ_pos _
    · rw [if_neg htime] at hres
      by_cases hready : eventReady t.xhci.er
      · rw [if_pos hready] at hres
        by_cases hwanted : t.event.get .tt = trbType ∧ wanted t.event
        · rw [if_pos hwanted] at hres
          cases hres
          exact ⟨hgood, htold, [], (List.append_nil _).symm, by simp, fun _ => ⟨hready, hwanted⟩,
            fun hfalse => by cases hfalse⟩
        · rw [if_neg hwanted] at hres
          obtain ⟨hgood', htold'⟩ := hgood.handle htold hready
          obtain ⟨hg, hto, skipped, hskipped, hnone, hfound, hlen⟩ := ih hgood' htold' hres
          refine ⟨hg, hto, t.event :: skipped, ?_, ?_, hfound, fun hfalse => ?_⟩
          · rw [hskipped, System.seen_handle, List.append_assoc, List.singleton_append]
          · exact List.forall_mem_cons.2 ⟨hwanted, hnone⟩
          · exact (hlen hfalse).trans (Nat.lt_succ_self _)
      · rw [if_neg hready] at hres
        obtain ⟨hg, hto, skipped, hskipped, hnone, hfound, hlen⟩ := ih hgood htold hres
        refine ⟨hg, hto, skipped, hskipped, hnone, hfound, fun hfalse => ?_⟩
        have hrest := hlen hfalse
        rw [List.length_cons]
        omega

lemma System.length_posted_post (s : System) (ev : Trb) :
    (s.post ev).posted.length ≤ s.posted.length + 1 := by
  rw [System.post]
  split
  · exact List.length_append.le
  · exact Nat.le_succ _

lemma System.length_posted_le (s : System) (evs : List Trb) :
    (evs.foldl System.post s).posted.length ≤ s.posted.length + evs.length := by
  induction evs generalizing s with
  | nil => exact le_rfl
  | cons ev evs ih =>
    have hevs := ih (s.post ev)
    have hev := s.length_posted_post ev
    rw [List.foldl_cons, List.length_cons]
    omega

/-- Each look at the ring takes a microsecond off the time, or an event out of the ring. -/
lemma waitFor_returns (h : s.Good) (ht : s.Told)
    (hlong : timeoutUs + s.posted.length + arrivals.flatten.length < arrivals.length + s.seen.length) :
    ∃ res, waitFor trbType wanted arrivals timeoutUs s = some res := by
  induction arrivals generalizing timeoutUs s with
  | nil =>
    have hle := h.seen.length_le
    rw [length_stamped] at hle
    simp only [List.flatten_nil, List.length_nil] at hlong
    omega
  | cons arrived rest ih =>
    obtain ⟨hgood, htold, hseen⟩ := h.arrive ht arrived
    have hposted := s.length_posted_le arrived
    rw [List.flatten_cons, List.length_append, List.length_cons, ← hseen] at hlong
    rw [waitFor]
    generalize arrived.foldl System.post s = t at hgood htold hposted hlong ⊢
    by_cases htime : timeoutUs = 0
    · exact ⟨_, if_pos htime⟩
    · rw [if_neg htime]
      by_cases hready : eventReady t.xhci.er
      · rw [if_pos hready]
        by_cases hwanted : t.event.get .tt = trbType ∧ wanted t.event
        · exact ⟨_, if_pos hwanted⟩
        · rw [if_neg hwanted]
          obtain ⟨hgood', htold'⟩ := hgood.handle htold hready
          refine ih hgood' htold' ?_
          rw [System.posted_handle, System.seen_handle, List.length_append, List.length_singleton]
          omega
      · rw [if_neg hready]
        exact ih hgood htold (by omega)

/-- `xhci_wait_for_transfer` returns the completion code of the first event for the endpoint that was
posted after what the driver has seen before, whatever else is posted before, in between and after.
All events up to that one are handled in their order, none behind it is, and the register of the
controller says so. It gives up only after 2000001 looks at the ring. -/
theorem waitForTransfer_first (xhci : Instance) (as : List Action) {slotId epId : ℕ} {cc : ℤ}
    (hres : waitForTransfer arrivals (run (start xhci) as) slotId epId = some (cc, s')) :
    ∃ skipped, (∀ ev ∈ skipped, ¬ (ev.get .tt = trbEvTransfer ∧ ev.id = slotId ∧ ev.ep = epId)) ∧
      ((∃ ev, ev.get .tt = trbEvTransfer ∧ ev.id = slotId ∧ ev.ep = epId ∧ cc = ev.cc ∧
          s'.seen = (run (start xhci) as).seen ++ skipped ++ [ev]) ∨
        (cc = TIMEOUT ∧ 2000000 < arrivals.length ∧ s'.seen = (run (start xhci) as).seen ++ skipped)) ∧
      s'.seen <+: stamped s'.posted ∧ s'.reported = s'.seen.length ∧
      s'.xhci.erdp = s'.seen.length % EVENT_RING_SIZE := by
  obtain ⟨h, ht⟩ := good_reached xhci as
  rw [waitForTransfer, Option.map_eq_some_iff] at hres
  obtain ⟨⟨found, t⟩, hwait, heq⟩ := hres
  obtain ⟨hgood, htold, skipped, hskipped, hnone, hfound, hlen⟩ := waitFor_spec h ht hwait
  simp only [decide_eq_true_eq] at hnone hfound
  refine ⟨skipped, hnone, ?_⟩
  cases found with
  | true =>
    obtain ⟨hready, htype, hid, hep⟩ := hfound rfl
    obtain ⟨hadvanced, htadvanced⟩ := hgood.advance htold hready
    simp only [if_true, Prod.mk.injEq] at heq
    obtain ⟨rfl, rfl⟩ := heq
    refine ⟨.inl ⟨t.event, htype, hid, hep, rfl, ?_⟩, hadvanced.updated htadvanced⟩
    rw [← hskipped, System.seen_update, System.seen_advance]
  | false =>
    simp only [Bool.false_eq_true, if_false, Prod.mk.injEq] at heq
    obtain ⟨rfl, rfl⟩ := heq
    refine ⟨.inr ⟨rfl, hlen rfl, ?_⟩, hgood.updated htold⟩
    rw [← hskipped, System.seen_update]

def exampleInstance : Instance where
  er := ⟨fun _ => ⟨0, 0, 0, 0⟩, 0, 0, false⟩
  erdp := 0
  maxSlotsEn := 4
  interruptQueues _ _ := none
  trbs _ := ⟨0, 0, 0, 0⟩

/-- A port changes before the transfer of the endpoint 2 of the slot 3 is done. -/
theorem waitForTransfer_first_port :
    ∃ (s' : System) (skipped : List Trb),
      (∀ ev ∈ skipped, ¬ (ev.get .tt = trbEvTransfer ∧ ev.id = 3 ∧ ev.ep = 2)) ∧
      ((∃ ev, ev.get .tt = trbEvTransfer ∧ ev.id = 3 ∧ ev.ep = 2 ∧ (1 : ℤ) = ev.cc ∧
          s'.seen = (run (start exampleInstance) []).seen ++ skipped ++ [ev]) ∨
        ((1 : ℤ) = TIMEOUT ∧
          2000000 < [[(⟨0, 0, 0, 0x8800⟩ : Trb)], [⟨0, 0, 0x1000000, 0x3028000⟩]].length ∧
          s'.seen = (run (start exampleInstance) []).seen ++ skipped)) ∧
      s'.seen <+: stamped s'.posted ∧ s'.reported = s'.seen.length ∧
      s'.xhci.erdp = s'.seen.length % EVENT_RING_SIZE :=
  ⟨_, waitForTransfer_first exampleInstance [] rfl⟩

/-- `xhci_wait_for_transfer` returns: it looks at the ring at most 2000001 times, once more than it may
wait, and once more for every event in the ring and every event that arrives. -/
theorem waitForTransfer_returns (xhci : Instance) (as : List Action) (slotId epId : ℕ)
    (hlong : 2000000 + EVENT_RING_SIZE + arrivals.flatten.length < arrivals.length) :
    ∃ cc s', waitForTransfer arrivals (run (start xhci) as) slotId epId = some (cc, s') := by
  obtain ⟨h, ht⟩ := good_reached xhci as
  have hpending := h.queue.length_le
  have hwait : ∃ res, waitFor trbEvTransfer (fun ev => ev.id = slotId ∧ ev.ep = epId) arrivals
      (2 * 1000 * 1000) (run (start xhci) as) = some res := waitFor_returns h ht (by omega)
  obtain ⟨⟨found, t⟩, hres⟩ := hwait
  rw [waitForTransfer, hres]
  exact ⟨_, _, rfl⟩

/-- No event arrives at all. -/
theorem waitForTransfer_returns_timeout : ∃ cc s',
    waitForTransfer (List.replicate 2000065 []) (run (start exampleInstance) []) 3 2 = some (cc, s') :=
  waitForTransfer_returns exampleInstance [] 3 2 (by
    rw [List.flatten_replicate_nil, List.length_nil, List.length_replicate]
    decide)

/-- `xhci_wait_for_command_done` returns the completion code of the first event that points to the
command. Only if it is told to clear the event, that event is passed, too. -/
theorem waitForCommandDone_first (xhci : Instance) (as : List Action) {address : ℕ} {clearEvent : Bool}
    {cc : ℤ}
    (hres : waitForCommandDone arrivals (run (start xhci) as) address clearEvent = some (cc, s')) :
    ∃ skipped,
      (∀ ev ∈ skipped, ¬ (ev.get .tt = trbEvCmdCmpl ∧ ev.ptrLow = address ∧ ev.ptrHigh = 0)) ∧
      ((∃ ev, ev.get .tt = trbEvCmdCmpl ∧ ev.ptrLow = address ∧ ev.ptrHigh = 0 ∧ cc = ev.cc ∧
          (run (start xhci) as).seen ++ skipped ++ [ev] <+: stamped s'.posted ∧
          s'.seen = (run (start xhci) as).seen ++ skipped ++ (if clearEvent then [ev] else [])) ∨
        (cc = TIMEOUT ∧ 100000 < arrivals.length ∧ s'.seen = (run (start xhci) as).seen ++ skipped)) ∧
      s'.seen <+: stamped s'.posted ∧ s'.reported = s'.seen.length ∧
      s'.xhci.erdp = s'.seen.length % EVENT_RING_SIZE := by
  obtain ⟨h, ht⟩ := good_reached xhci as
  rw [waitForCommandDone, Option.map_eq_some_iff] at hres
  obtain ⟨⟨found, t⟩, hwait, heq⟩ := hres
  obtain ⟨hgood, htold, skipped, hskipped, hnone, hfound, hlen⟩ := waitFor_spec h ht hwait
  simp only [decide_eq_true_eq] at hnone hfound
  refine ⟨skipped, hnone, ?_⟩
  cases found with
  | true =>
    obtain ⟨hready, htype, hlow, hhigh⟩ := hfound rfl
    obtain ⟨hadvanced, htadvanced⟩ := hgood.advance htold hready
    have hnext : t.seen ++ [t.event] <+: stamped t.posted :=
      prefix_concat hgood.seen (hgood.event (hgood.ready_iff.1 hready))
    simp only [if_true, Prod.mk.injEq] at heq
    obtain ⟨rfl, rfl⟩ := heq
    cases clearEvent with
    | true =>
      refine ⟨.inl ⟨t.event, htype, hlow, hhigh, rfl, ?_, ?_⟩, hadvanced.updated htadvanced⟩
      · rw [← hskipped, if_pos rfl, System.posted_update, System.posted_advance]
        exact hnext
      · rw [← hskipped, if_pos rfl, if_pos rfl, System.seen_update, System.seen_advance]
    | false =>
      refine ⟨.inl ⟨t.event, htype, hlow, hhigh, rfl, ?_, ?_⟩, hgood.updated htold⟩
      · rw [← hskipped, if_neg Bool.false_ne_true, System.posted_update]
        exact hnext
      · rw [← hskipped, if_neg Bool.false_ne_true, if_neg Bool.false_ne_true, List.append_nil,
          System.seen_update]
  | false =>
    simp only [Bool.false_eq_true, if_false, Prod.mk.injEq] at heq
    obtain ⟨rfl, rfl⟩ := heq
    refine ⟨.inr ⟨rfl, hlen rfl, ?_⟩, hgood.updated htold⟩
    rw [← hskipped, System.seen_update]

end ApuBios.Xhci
