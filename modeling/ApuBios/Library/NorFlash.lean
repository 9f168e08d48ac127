import ApuBios.Library.Memory

/-!
# Serial NOR flash

A NOR flash chip on a serial bus receives commands as strings of bytes. Programming a cell can
only clear bits of it, and the page program command wraps around inside its page. Two ways of
programming are modelled: the page program command, which is the byte program command of a chip
whose pages hold one byte, and programming of words with automatic increment of the address.
-/

/-- A chip: its size and its page size in bytes, and for how many reads of the status register
a program command keeps it busy. -/
structure NorFlash where
  size : ℕ
  page : ℕ
  delay : ℕ

namespace NorFlash

/-- What the chip stores, its write enable latch, for how many status reads it is busy, the next
address of automatic increment while that mode is active, and the cells programmed so far. -/
structure State where
  mem : Mem
  wel : Bool
  busy : ℕ
  aai : Option ℕ
  log : List (ℕ × UInt8)

/-- The commands of a chip. -/
inductive Command
  | writeEnable
  | writeDisable
  | readStatus
  | program (address : ℕ) (data : List UInt8)
  | wordFirst (address : ℕ) (d₀ d₁ : UInt8)
  | wordNext (d₀ d₁ : UInt8)
  | other
  deriving DecidableEq

/-- Three address bytes, the most significant one first. -/
def address (a₂ a₁ a₀ : UInt8) : ℕ :=
  a₂.toNat * 65536 + a₁.toNat * 256 + a₀.toNat

/-- The command that a string of bytes stands for. -/
def decode : List UInt8 → Command
  | [] => .other
  | op :: args =>
    if op = 0x06 then .writeEnable
    else if op = 0x04 then .writeDisable
    else if op = 0x05 then .readStatus
    else if op = 0x02 then
      match args with
      | a₂ :: a₁ :: a₀ :: data => .program (address a₂ a₁ a₀) data
      | _ => .other
    else if op = 0xAD then
      match args with
      | [a₂, a₁, a₀, d₀, d₁] => .wordFirst (address a₂ a₁ a₀) d₀ d₁
      | [d₀, d₁] => .wordNext d₀ d₁
      | _ => .other
    else .other

/-- Programming a cell clears bits of it. -/
def burn (m : Mem) (cell : ℕ × UInt8) : Mem :=
  Function.update m cell.1 (m cell.1 &&& cell.2)

/-- The cells that a page program command reaches: it wraps inside its page, and of more bytes
than a page holds the last ones stay. -/
def pageCells (chip : NorFlash) (address : ℕ) (data : List UInt8) : List (ℕ × UInt8) :=
  let skipped := data.length - chip.page
  let base := address - address % chip.page
  (data.drop skipped).zipIdx.map fun c =>
    ((base + (address % chip.page + skipped + c.2) % chip.page) % chip.size, c.1)

/-- The two cells of a word. -/
def wordCells (chip : NorFlash) (address : ℕ) (d₀ d₁ : UInt8) : List (ℕ × UInt8) :=
  [(address % chip.size, d₀), ((address + 1) % chip.size, d₁)]

/-- A program command that reaches the given cells. -/
def State.programmed (s : State) (cells : List (ℕ × UInt8)) (delay : ℕ) : State :=
  { s with mem := cells.foldl burn s.mem, log := s.log ++ cells, busy := delay }

/-- The chip when a program command is over, which takes the write enable latch back. -/
def State.written (s : State) (cells : List (ℕ × UInt8)) : State :=
  { s.programmed cells 0 with wel := false }

/-- Programs a word. Automatic increment ends behind the last word of the chip. -/
def programWord (chip : NorFlash) (s : State) (address : ℕ) (d₀ d₁ : UInt8) : State :=
  let even := address - address % 2
  let s := s.programmed (chip.wordCells even d₀ d₁) chip.delay
  if even + 2 < chip.size then { s with aai := some (even + 2) }
  else { s with aai := none, wel := false }

/-- What a command does. A busy chip answers to reads of the status register only, and programs
nothing before writing is enabled. -/
def execute (chip : NorFlash) (s : State) : Command → State
  | .readStatus => { s with busy := s.busy - 1 }
  | .writeEnable => if s.busy = 0 then { s with wel := true } else s
  | .writeDisable => if s.busy = 0 then { s with wel := false, aai := none } else s
  | .program address data =>
    if s.busy = 0 ∧ s.wel = true ∧ s.aai = none then
      { s.programmed (chip.pageCells address data) chip.delay with wel := false }
    else s
  | .wordFirst address d₀ d₁ =>
    if s.busy = 0 ∧ s.wel = true ∧ s.aai = none then chip.programWord s address d₀ d₁ else s
  | .wordNext d₀ d₁ =>
    match s.aai with
    | some address =>
      if s.busy = 0 ∧ s.wel = true then chip.programWord s address d₀ d₁ else s
    | none => s
  | .other => s

/-- The status register: write in progress, the write enable latch and automatic increment. -/
def status (s : State) : UInt8 :=
  (if s.busy = 0 then 0 else 0x01) ||| (if s.wel then 0x02 else 0)
    ||| (if s.aai.isSome then 0x40 else 0)

/-- No command is under way. -/
structure State.Idle (s : State) : Prop where
  ready : s.busy = 0
  plain : s.aai = none

/-- The consecutive cells from an address on. -/
def cellsFrom (address : ℕ) : List UInt8 → List (ℕ × UInt8)
  | [] => []
  | b :: bs => (address, b) :: cellsFrom (address + 1) bs

variable {chip : NorFlash} {s : State} {m : Mem} {a : ℕ} {data data' : List UInt8}

lemma State.Idle.written {cells : List (ℕ × UInt8)} (h : s.Idle) : (s.written cells).Idle :=
  ⟨rfl, h.plain⟩

/-! ### Cells -/

@[simp] lemma cellsFrom_nil : cellsFrom a [] = [] := rfl

lemma cellsFrom_append :
    cellsFrom a (data ++ data') = cellsFrom a data ++ cellsFrom (a + data.length) data' := by
  induction data generalizing a with
  | nil => simp
  | cons b bs ih =>
    simp only [List.cons_append, cellsFrom, ih, List.length_cons, List.cons.injEq, true_and,
      List.append_cancel_left_eq]
    rw [Nat.add_assoc, Nat.add_comm 1]

lemma mem_cellsFrom {c : ℕ × UInt8} (h : c ∈ cellsFrom a data) :
    a ≤ c.1 ∧ c.1 < a + data.length := by
  induction data generalizing a with
  | nil => cases h
  | cons b bs ih =>
    rcases List.mem_cons.1 h with rfl | h
    · simp
    · have := ih h
      rw [List.length_cons]
      omega

/-- The last cell. -/
lemma last_mem_cellsFrom (h : data ≠ []) :
    (a + data.length - 1, data.getLast h) ∈ cellsFrom a data := by
  induction data generalizing a with
  | nil => exact absurd rfl h
  | cons b bs ih =>
    cases bs with
    | nil => simp [cellsFrom]
    | cons c cs =>
      have hlast := ih (a := a + 1) (List.cons_ne_nil c cs)
      rw [cellsFrom, List.getLast_cons (List.cons_ne_nil c cs)]
      have hindex : a + (b :: c :: cs).length - 1 = a + 1 + (c :: cs).length - 1 := by
        simp only [List.length_cons]
        omega
      rw [hindex]
      exact List.mem_cons_of_mem _ hlast

/-- Cells that are not reached stay as they are. -/
lemma burn_foldl_frame {cells : List (ℕ × UInt8)} (h : ∀ c ∈ cells, c.1 ≠ a) :
    cells.foldl burn m a = m a := by
  induction cells generalizing m with
  | nil => rfl
  | cons c cells ih =>
    rw [List.foldl_cons, ih fun c hc => h c (List.mem_cons_of_mem _ hc), burn,
      Function.update_of_ne (h c List.mem_cons_self).symm]

/-- Programming consecutive cells. -/
lemma burn_cellsFrom (x : ℕ) :
    (cellsFrom a data).foldl burn m x =
      match data[x - a]? with
      | some b => if a ≤ x then m x &&& b else m x
      | none => m x := by
  induction data generalizing a m with
  | nil => simp
  | cons b bs ih =>
    rw [cellsFrom, List.foldl_cons]
    rcases Nat.lt_trichotomy x a with hlt | rfl | hgt
    · rw [ih, burn, Function.update_of_ne (by simpa using hlt.ne)]
      have hx : ¬ a ≤ x := by omega
      have hx' : ¬ a + 1 ≤ x := by omega
      simp only [hx, hx', if_false]
      split <;> split <;> rfl
    · rw [burn_foldl_frame fun c hc => (Nat.lt_of_succ_le (mem_cellsFrom hc).1).ne']
      simp [burn]
    · rw [ih, burn, Function.update_of_ne (by simpa using hgt.ne')]
      have hx : a ≤ x := hgt.le
      have hx' : a + 1 ≤ x := hgt
      obtain ⟨k, rfl⟩ : ∃ k, x = a + 1 + k := ⟨x - (a + 1), by omega⟩
      have hidx : a + 1 + k - a = k + 1 := by omega
      simp only [hx, hx', if_true, hidx, Nat.add_sub_cancel_left, List.getElem?_cons_succ]

/-- A page program command that stays inside its page reaches consecutive cells. -/
lemma pageCells_eq (hpage : a % chip.page + data.length ≤ chip.page)
    (hsize : a + data.length ≤ chip.size) : chip.pageCells a data = cellsFrom a data := by
  have hskip : data.length - chip.page = 0 := by omega
  have key : ∀ (l : List UInt8) (k : ℕ), k + l.length = data.length →
      (l.zipIdx k).map (fun c => ((a - a % chip.page + (a % chip.page + 0 + c.2) % chip.page)
        % chip.size, c.1)) = cellsFrom (a + k) l := by
    intro l
    induction l with
    | nil => intro k _; rfl
    | cons b bs ih =>
      intro k hk
      rw [List.length_cons] at hk
      have hinside : (a % chip.page + 0 + k) % chip.page = a % chip.page + k :=
        Nat.mod_eq_of_lt (by omega)
      have hlow := Nat.mod_le a chip.page
      have hcell : (a - a % chip.page + (a % chip.page + k)) % chip.size = a + k := by
        rw [Nat.mod_eq_of_lt (by omega)]
        omega
      rw [List.zipIdx_cons, List.map_cons, ih (k + 1) (by omega), cellsFrom]
      dsimp only
      rw [hinside, hcell, Nat.add_assoc]
  simpa [pageCells, hskip] using key data 0 (by simp)

/-! ### Commands -/

/-- The three low bytes of a number are its address bytes. -/
lemma address_ofNat (n : ℕ) :
    address (UInt8.ofNat (n / 65536)) (UInt8.ofNat (n / 256)) (UInt8.ofNat n) = n % 2 ^ 24 := by
  simp only [address, UInt8.toNat_ofNat']
  omega

@[simp] lemma decode_writeEnable : decode [0x06] = .writeEnable := rfl
@[simp] lemma decode_writeDisable : decode [0x04] = .writeDisable := rfl
@[simp] lemma decode_readStatus : decode [0x05] = .readStatus := rfl

@[simp] lemma decode_program (a₂ a₁ a₀ : UInt8) :
    decode (0x02 :: a₂ :: a₁ :: a₀ :: data) = .program (address a₂ a₁ a₀) data := rfl

@[simp] lemma decode_wordFirst (a₂ a₁ a₀ d₀ d₁ : UInt8) :
    decode [0xAD, a₂, a₁, a₀, d₀, d₁] = .wordFirst (address a₂ a₁ a₀) d₀ d₁ := rfl

@[simp] lemma decode_wordNext (d₀ d₁ : UInt8) : decode [0xAD, d₀, d₁] = .wordNext d₀ d₁ := rfl

/-- Every command leaves in the log what it has done to the cells, and cells of the chip only. -/
def Logged (chip : NorFlash) (s s' : State) : Prop :=
  ∃ cells, s'.log = s.log ++ cells ∧ s'.mem = cells.foldl burn s.mem ∧
    ∀ c ∈ cells, c.1 < chip.size

lemma Logged.refl : Logged chip s s := ⟨[], by simp⟩

lemma Logged.trans {s s' s'' : State} (h : Logged chip s s') (h' : Logged chip s' s'') :
    Logged chip s s'' := by
  obtain ⟨cells, hlog, hmem, hcells⟩ := h
  obtain ⟨cells', hlog', hmem', hcells'⟩ := h'
  refine ⟨cells ++ cells', ?_, ?_, ?_⟩
  · rw [hlog', hlog, List.append_assoc]
  · rw [hmem', hmem, List.foldl_append]
  · intro c hc
    rcases List.mem_append.1 hc with hc | hc
    · exact hcells c hc
    · exact hcells' c hc

lemma pageCells_lt (hsize : 0 < chip.size) : ∀ c ∈ chip.pageCells a data, c.1 < chip.size := by
  intro c hc
  simp only [pageCells, List.mem_map] at hc
  obtain ⟨x, _, rfl⟩ := hc
  exact Nat.mod_lt _ hsize

lemma programWord_logged (hsize : 0 < chip.size) (d₀ d₁ : UInt8) :
    Logged chip s (chip.programWord s a d₀ d₁) := by
  refine ⟨chip.wordCells (a - a % 2) d₀ d₁, ?_, ?_, ?_⟩
  · unfold programWord State.programmed
    dsimp only
    split <;> rfl
  · unfold programWord State.programmed
    dsimp only
    split <;> rfl
  · intro c hc
    simp only [wordCells, List.mem_cons, List.not_mem_nil, or_false] at hc
    rcases hc with rfl | rfl
    · exact Nat.mod_lt _ hsize
    · exact Nat.mod_lt _ hsize

lemma execute_logged (hsize : 0 < chip.size) (c : Command) :
    Logged chip s (chip.execute s c) := by
  cases c with
  | writeEnable =>
    unfold execute
    dsimp only
    split
    · exact ⟨[], by simp⟩
    · exact .refl
  | writeDisable =>
    unfold execute
    dsimp only
    split
    · exact ⟨[], by simp⟩
    · exact .refl
  | readStatus => exact ⟨[], by simp [execute]⟩
  | program address data =>
    unfold execute
    dsimp only
    split
    · exact ⟨_, rfl, rfl, pageCells_lt hsize⟩
    · exact .refl
  | wordFirst address d₀ d₁ =>
    unfold execute
    dsimp only
    split
    · exact programWord_logged hsize d₀ d₁
    · exact .refl
  | wordNext d₀ d₁ =>
    unfold execute
    dsimp only
    cases s.aai with
    | none => exact .refl
    | some address =>
      dsimp only
      split
      · exact programWord_logged hsize d₀ d₁
      · exact .refl
  | other => exact .refl

end NorFlash
