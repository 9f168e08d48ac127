import ApuBios.Library.Memory
import ApuBios.Library.Rescan
import ApuBios.Library.Word

/-!
# The capability list of a PCI device

Model of `pci_find_next_capability` and of the loop of `get_pci_bridge_ops` in
`device/pci_device.c`. A call starts at the head of the list and goes on until it has passed the
last result; the list is what the device says, and a call ends after 48 entries of it.
-/

namespace ApuBios.Pci

def PCI_STATUS : ℕ := 0x06
def PCI_STATUS_CAP_LIST : ℕ := 0x10
def PCI_HEADER_TYPE_NORMAL : ℕ := 0
def PCI_HEADER_TYPE_BRIDGE : ℕ := 1
def PCI_HEADER_TYPE_CARDBUS : ℕ := 2
def PCI_CAPABILITY_LIST : ℕ := 0x34
def PCI_CB_CAPABILITY_LIST : ℕ := 0x14
def PCI_CAP_LIST_ID : ℕ := 0
def PCI_CAP_LIST_NEXT : ℕ := 1
def PCI_CAP_FLAGS : ℕ := 2
def PCI_CAP_ID_HT : ℕ := 0x08

/-- A device with its configuration space. -/
structure Device where
  config : Mem
  hdrType : ℕ

def Device.readConfig8 (dev : Device) (pos : ℕ) : ℕ := (dev.config pos).toNat

def Device.readConfig16 (dev : Device) (pos : ℕ) : ℕ := dev.config.readLE pos 2

variable (dev : Device)

/-- The register that has the position of the first entry. -/
def capabilityPointer : Option ℕ :=
  if dev.readConfig16 PCI_STATUS &&& PCI_STATUS_CAP_LIST = 0 then
    none
  else if dev.hdrType &&& 0x7f = PCI_HEADER_TYPE_NORMAL ∨
      dev.hdrType &&& 0x7f = PCI_HEADER_TYPE_BRIDGE then
    some PCI_CAPABILITY_LIST
  else if dev.hdrType &&& 0x7f = PCI_HEADER_TYPE_CARDBUS then
    some PCI_CB_CAPABILITY_LIST
  else
    none

def findLoop (cap : ℕ) : (reps : ℕ) → (last pos : ℕ) → ℕ
  | 0, _, _ => 0
  | reps + 1, last, pos =>
    if pos ≥ 0x40 then
      let pos := Word.alignDown 32 pos 4
      let thisCap := dev.readConfig8 (pos + PCI_CAP_LIST_ID)
      if thisCap = 0xff then
        0
      else if last = 0 ∧ thisCap = cap then
        pos
      else
        findLoop cap reps (if last = pos then 0 else last)
          (dev.readConfig8 (pos + PCI_CAP_LIST_NEXT))
    else
      0

def pciFindNextCapability (cap last : ℕ) : ℕ :=
  match capabilityPointer dev with
  | none => 0
  | some pos => findLoop dev cap 48 last (dev.readConfig8 pos)

/-- The results of calls that each get the last result, up to the call that returns 0; no value if
that is not among the first `n` calls. -/
def findCapabilities (cap : ℕ) : (n : ℕ) → (last : ℕ) → Option (List ℕ)
  | 0, _ => none
  | n + 1, last =>
    let pos := pciFindNextCapability dev cap last
    if pos = 0 then some [] else (findCapabilities cap n pos).map (pos :: ·)

/-- The loop of `get_pci_bridge_ops` over HyperTransport capabilities: whether a host or secondary
interface is found, no value if the loop goes on for more than `n` rounds. -/
def hypertransportLoop : (n : ℕ) → (htpos : ℕ) → Option Bool
  | 0, _ => none
  | n + 1, htpos =>
    let htpos := pciFindNextCapability dev PCI_CAP_ID_HT htpos
    if htpos = 0 then
      some false
    else if dev.readConfig16 (htpos + PCI_CAP_FLAGS) >>> 13 = 1 then
      some true
    else
      hypertransportLoop n htpos

/-! ### The entries of the list -/

/-- The positions of the first entries of the list from `pos` on, `reps` of them if it does not
end before. -/
def entries : (reps : ℕ) → (pos : ℕ) → List ℕ
  | 0, _ => []
  | reps + 1, pos =>
    if pos ≥ 0x40 ∧ dev.readConfig8 (Word.alignDown 32 pos 4 + PCI_CAP_LIST_ID) ≠ 0xff then
      Word.alignDown 32 pos 4 ::
        entries reps (dev.readConfig8 (Word.alignDown 32 pos 4 + PCI_CAP_LIST_NEXT))
    else
      []

/-- The positions that can be reached in 48 hops. -/
def capabilityList : List ℕ :=
  ((capabilityPointer dev).map fun pos => entries dev 48 (dev.readConfig8 pos)).getD []

/-- Whether the entry is the capability. -/
def isCapability (cap pos : ℕ) : Bool := dev.readConfig8 (pos + PCI_CAP_LIST_ID) == cap

/-- The value that stands for no result. -/
def toPos (result : Option ℕ) : ℕ := result.getD 0

variable {dev} {cap reps pos last n : ℕ} {l : List ℕ}

lemma alignDown_ne_zero (hpos : 0x40 ≤ pos) (hlt : pos < 256) : Word.alignDown 32 pos 4 ≠ 0 := by
  have heq : Word.alignDown 32 pos 4 = pos / 4 * 4 :=
    @Word.alignDown_eq 32 2 pos (by decide) (hlt.trans (by decide))
  omega

lemma readConfig8_lt (pos : ℕ) : dev.readConfig8 pos < 256 := (dev.config pos).toNat_lt

lemma entries_cons (h : pos ≥ 0x40 ∧
    dev.readConfig8 (Word.alignDown 32 pos 4 + PCI_CAP_LIST_ID) ≠ 0xff) :
    entries dev (reps + 1) pos = Word.alignDown 32 pos 4 ::
      entries dev reps (dev.readConfig8 (Word.alignDown 32 pos 4 + PCI_CAP_LIST_NEXT)) := if_pos h

lemma entries_of_end (h : ¬(pos ≥ 0x40 ∧
    dev.readConfig8 (Word.alignDown 32 pos 4 + PCI_CAP_LIST_ID) ≠ 0xff)) :
    entries dev (reps + 1) pos = [] := if_neg h

lemma ne_zero_of_mem_entries (hlt : pos < 256) {a : ℕ} (ha : a ∈ entries dev reps pos) : a ≠ 0 := by
  induction reps generalizing pos with
  | zero => cases ha
  | succ reps ih =>
    rw [entries] at ha
    split_ifs at ha with h
    · rcases List.mem_cons.mp ha with rfl | ha
      · exact alignDown_ne_zero h.1 hlt
      · exact ih (readConfig8_lt _) ha
    · cases ha

/-- Once the last result has been passed, the next match is returned. -/
lemma findLoop_zero : findLoop dev cap reps 0 pos =
    toPos ((entries dev reps pos).find? (isCapability dev cap)) := by
  induction reps generalizing pos with
  | zero => rfl
  | succ reps ih =>
    by_cases hpos : pos ≥ 0x40
    · rw [findLoop, if_pos hpos]
      by_cases hend : dev.readConfig8 (Word.alignDown 32 pos 4 + PCI_CAP_LIST_ID) = 0xff
      · rw [if_pos hend, entries_of_end fun h => h.2 hend]
        rfl
      · rw [entries_cons ⟨hpos, hend⟩]
        simp only [if_neg hend]
        by_cases hcap : dev.readConfig8 (Word.alignDown 32 pos 4 + PCI_CAP_LIST_ID) = cap
        · rw [if_pos ⟨trivial, hcap⟩, List.find?_cons_of_pos (by simp [isCapability, hcap])]
          rfl
        · rw [if_neg fun h => hcap h.2, List.find?_cons_of_neg (by simp [isCapability, hcap]),
            ite_self]
          exact ih
    · rw [findLoop, if_neg hpos, entries_of_end fun h => hpos h.1]
      rfl

/-- A call passes the last result before it looks for a match. -/
lemma findLoop_of_ne_zero (hlast : last ≠ 0) : findLoop dev cap reps last pos =
    toPos ((((entries dev reps pos).dropWhile (· ≠ last)).tail).find? (isCapability dev cap)) := by
  induction reps generalizing pos with
  | zero => rfl
  | succ reps ih =>
    by_cases hpos : pos ≥ 0x40
    · rw [findLoop, if_pos hpos]
      by_cases hend : dev.readConfig8 (Word.alignDown 32 pos 4 + PCI_CAP_LIST_ID) = 0xff
      · rw [if_pos hend, entries_of_end fun h => h.2 hend]
        rfl
      · rw [entries_cons ⟨hpos, hend⟩]
        simp only [if_neg hend]
        rw [if_neg fun h => hlast h.1]
        by_cases heq : last = Word.alignDown 32 pos 4
        · rw [if_pos heq, findLoop_zero, List.dropWhile_cons_of_neg (by simp [heq])]
          rfl
        · rw [if_neg heq, List.dropWhile_cons_of_pos (by simpa using Ne.symm heq)]
          exact ih
    · rw [findLoop, if_neg hpos, entries_of_end fun h => hpos h.1]
      rfl

/-- A call returns the first match, or the one behind the last result. -/
lemma pciFindNextCapability_eq : pciFindNextCapability dev cap last =
    toPos (Rescan.next (isCapability dev cap) (capabilityList dev)
      (if last = 0 then none else some last)) := by
  rw [pciFindNextCapability, capabilityList]
  cases capabilityPointer dev with
  | none => split_ifs <;> rfl
  | some p =>
    by_cases hlast : last = 0
    · subst hlast
      rw [if_pos rfl]
      exact findLoop_zero
    · rw [if_neg hlast]
      exact findLoop_of_ne_zero hlast

lemma ne_zero_of_mem {a : ℕ} (ha : a ∈ capabilityList dev) : a ≠ 0 := by
  rw [capabilityList] at ha
  cases hp : capabilityPointer dev with
  | none =>
    rw [hp] at ha
    cases ha
  | some p =>
    rw [hp] at ha
    exact ne_zero_of_mem_entries (readConfig8_lt _) ha

lemma mem_of_next {result : Option ℕ} {a : ℕ}
    (h : Rescan.next (isCapability dev cap) (capabilityList dev) result = some a) :
    a ∈ capabilityList dev := by
  cases result with
  | none => exact List.mem_of_find?_eq_some h
  | some b =>
    have htail := List.mem_of_find?_eq_some h
    exact (List.dropWhile_sublist _).subset (List.mem_of_mem_tail htail)

/-- The calls are those of a caller that goes on from the last result. -/
lemma findCapabilities_eq : findCapabilities dev cap n last =
    Rescan.results (isCapability dev cap) (capabilityList dev) n
      (if last = 0 then none else some last) := by
  induction n generalizing last with
  | zero => rfl
  | succ n ih =>
    rw [findCapabilities, Rescan.results, pciFindNextCapability_eq]
    cases hnext : Rescan.next (isCapability dev cap) (capabilityList dev)
        (if last = 0 then none else some last) with
    | none => rfl
    | some a =>
      have ha : a ≠ 0 := ne_zero_of_mem (mem_of_next hnext)
      change (if a = 0 then some [] else (findCapabilities dev cap n a).map (a :: ·)) = _
      rw [if_neg ha, ih, if_neg ha]

/-! ### Completeness -/

/-- The calls come to an end, and have returned each capability that can be reached in 48 hops
once, and nothing else. -/
def FindsEach (dev : Device) (cap : ℕ) : Prop :=
  ∃ n found, findCapabilities dev cap n 0 = some found ∧ found.Nodup ∧
    ∀ pos, pos ∈ found ↔ pos ∈ capabilityList dev ∧ dev.readConfig8 (pos + PCI_CAP_LIST_ID) = cap

/-- Each capability is found once if and only if the list does not come to one of them twice within
48 hops. -/
theorem findsEach_iff : FindsEach dev cap ↔
    ((capabilityList dev).filter (isCapability dev cap)).Nodup := by
  rw [← Rescan.results_complete_iff, FindsEach]
  simp only [findCapabilities_eq, if_true, isCapability, beq_iff_eq]

/-- The loop of `get_pci_bridge_ops` stops at the first interface that it looks for. -/
lemma hypertransportLoop_of_findCapabilities {found : List ℕ}
    (h : findCapabilities dev PCI_CAP_ID_HT n last = some found) :
    hypertransportLoop dev n last =
      some (found.any fun htpos => dev.readConfig16 (htpos + PCI_CAP_FLAGS) >>> 13 == 1) := by
  induction n generalizing last found with
  | zero => cases h
  | succ n ih =>
    rw [findCapabilities] at h
    rw [hypertransportLoop]
    split_ifs at h ⊢ with hzero hflags
    · obtain rfl := Option.some.inj h
      rfl
    · obtain ⟨rest, -, rfl⟩ := Option.map_eq_some_iff.mp h
      simp [hflags]
    · obtain ⟨rest, hrest, rfl⟩ := Option.map_eq_some_iff.mp h
      rw [ih hrest]
      simp [hflags]

/-- If no HyperTransport capability is come to twice, the loop ends, with the answer for the list. -/
theorem hypertransportLoop_eq
    (h : ((capabilityList dev).filter (isCapability dev PCI_CAP_ID_HT)).Nodup) :
    ∃ n, hypertransportLoop dev n 0 =
      some (((capabilityList dev).filter (isCapability dev PCI_CAP_ID_HT)).any fun htpos =>
        dev.readConfig16 (htpos + PCI_CAP_FLAGS) >>> 13 == 1) := by
  have hresults := Rescan.results_none h (Nat.lt_succ_self _)
  exact ⟨_, hypertransportLoop_of_findCapabilities (findCapabilities_eq.trans hresults)⟩

/-! ### A list that does not end -/

/-- The configuration space of a device with one capability at 0x40 and the next one at `next`. -/
def oneCapability (cap next : UInt8) : Device where
  config pos :=
    if pos = PCI_STATUS then 0x10
    else if pos = PCI_CAPABILITY_LIST then 0x40
    else if pos = 0x40 + PCI_CAP_LIST_ID then cap
    else if pos = 0x40 + PCI_CAP_LIST_NEXT then next
    else 0
  hdrType := PCI_HEADER_TYPE_BRIDGE

/-- A HyperTransport capability that names itself as the next one is returned again and again, also
to `get_pci_bridge_ops`. -/
theorem not_findsEach_of_loop : ¬FindsEach (oneCapability 0x08 0x40) PCI_CAP_ID_HT ∧
    ∀ n, hypertransportLoop (oneCapability 0x08 0x40) n 0 = none := by
  have hnext : ∀ last, last = 0 ∨ last = 0x40 →
      pciFindNextCapability (oneCapability 0x08 0x40) PCI_CAP_ID_HT last = 0x40 := by
    rintro last (rfl | rfl)
    · decide
    · decide
  constructor
  · have hnone : ∀ n last, last = 0 ∨ last = 0x40 →
        findCapabilities (oneCapability 0x08 0x40) PCI_CAP_ID_HT n last = none := by
      intro n
      induction n with
      | zero => exact fun _ _ => rfl
      | succ n ih =>
        intro last hlast
        rw [findCapabilities, hnext last hlast]
        simp [ih 0x40 (Or.inr rfl)]
    rintro ⟨n, found, heq, -⟩
    rw [hnone n 0 (Or.inl rfl)] at heq
    cases heq
  · have hnone : ∀ n last, last = 0 ∨ last = 0x40 →
        hypertransportLoop (oneCapability 0x08 0x40) n last = none := by
      intro n
      induction n with
      | zero => exact fun _ _ => rfl
      | succ n ih =>
        intro last hlast
        have hflags : (oneCapability 0x08 0x40).readConfig16 (0x40 + PCI_CAP_FLAGS) >>> 13 ≠ 1 := by
          decide
        rw [hypertransportLoop, hnext last hlast]
        simp [ih 0x40 (Or.inr rfl), hflags]
    exact fun n => hnone n 0 (Or.inl rfl)

end ApuBios.Pci
