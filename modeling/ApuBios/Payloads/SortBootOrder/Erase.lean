import ApuBios.Payloads.SortBootOrder.Flash

/-!
# A boot order that cannot be erased

`save_flash` over a driver whose erase may fail. The drivers of all chips erase with
`spi_flash_cmd_erase`, in units of the sector size of the chip. `save_flash` does not look at what
that returns, and programs the list into what is there.
-/

namespace ApuBios.SortBootOrder

/-- What differs between the chips and the runs: the sector size, the return values when the bus is
claimed and for the three steps that erase the sector at an address, and which bytes are programmed.
A step that fails has not reached the chip, but the one that waits for it. -/
structure Driver where
  sector_size : ℕ
  sector_size_pos : 0 < sector_size
  claim_bus : ℤ
  write_enable : ℕ → ℤ
  cmd_write : ℕ → ℤ
  wait_ready : ℕ → ℤ
  programs : ℕ → Bool

namespace Driver

variable (d : Driver)

/-- The sector at an address is set to `0xff`. -/
def eraseSector (flash : Flash) (offset : ℕ) : Flash := fun a =>
  if offset ≤ a ∧ a < offset + d.sector_size then 0xff else flash a

/-- The body of the loop in `spi_flash_cmd_erase`. -/
def erasePass (offset : ℕ) (flash : Flash) : ℤ × Flash :=
  if d.write_enable offset ≠ 0 then (d.write_enable offset, flash)
  else if d.cmd_write offset ≠ 0 then (d.cmd_write offset, flash)
  else (d.wait_ready offset, d.eraseSector flash offset)

/-- The loop, with `none` for one that runs out of fuel. -/
def eraseLoop (stop : ℕ) : ℕ → (offset : ℕ) → ℤ × Flash → Option (ℤ × Flash)
  | 0, _, _ => none
  | fuel + 1, offset, r =>
    if offset < stop then
      let pass := d.erasePass offset r.2
      if pass.1 ≠ 0 then some pass
      else eraseLoop stop fuel (Word.add 32 offset d.sector_size) pass
    else
      some r

/-- The return value, and the content of the chip. -/
def spiFlashCmdErase (flash : Flash) (offset len : ℕ) : Option (ℤ × Flash) :=
  if offset % d.sector_size ≠ 0 ∨ len % d.sector_size ≠ 0 then some (-1, flash)
  else if d.claim_bus ≠ 0 then some (d.claim_bus, flash)
  else d.eraseLoop (Word.add 32 offset len) (len + 1) offset (d.claim_bus, flash)

/-- Programming a byte clears bits of it. -/
def write (flash : Flash) (address : ℕ) (bytes : List Char8) : Flash := fun a =>
  if address ≤ a ∧ d.programs a then flash a &&& (bytes[a - address]?).getD 0xff else flash a

/-- `save_flash` over the driver. -/
def saveFlash (stack : ℕ → Char8) (flash : Flash) (flash_address : ℕ) (buffer : Table)
    (max_lines : ℕ) : Option Flash :=
  (packLines buffer max_lines).bind fun list =>
    let list := list ++ [NUL]
    let i := list.length
    if i ≤ MAX_DEVICES * MAX_LENGTH then
      (d.spiFlashCmdErase flash flash_address FLASH_SIZE_CHUNK).map fun erased =>
        let piece nvram_pos :=
          (List.range' nvram_pos 4).map fun p => (list[p]?).getD (stack p)
        let pieces := (i &&& 0xfc) / 4
        let flash := (List.range pieces).foldl
          (fun flash n => d.write flash (Word.add 32 (4 * n) flash_address) (piece (4 * n)))
          erased.2
        d.write flash (Word.add 32 (4 * pieces) flash_address) (piece (4 * pieces))
    else
      none

/-- The erase that `save_flash` requests reports failure. -/
def EraseFails (flash : Flash) (flash_address : ℕ) : Prop :=
  ∃ r ∈ d.spiFlashCmdErase flash flash_address FLASH_SIZE_CHUNK, r.1 ≠ 0

/-- Sectors of the chip make up the file, and every step succeeds. -/
structure Succeeds (flash_address : ℕ) : Prop where
  aligned : d.sector_size ∣ flash_address
  whole : d.sector_size ∣ FLASH_SIZE_CHUNK
  claimed : d.claim_bus = 0
  reaches : ∀ offset, d.write_enable offset = 0 ∧ d.cmd_write offset = 0
  waited : ∀ offset, d.wait_ready offset = 0
  programs : ∀ a, d.programs a

/-- The first bytes of the boot order are as before. -/
def Unchanged (stack : ℕ → Char8) (flash : Flash) (flash_address : ℕ) (buffer : Table)
    (max_lines len : ℕ) : Prop :=
  ∃ flash' ∈ d.saveFlash stack flash flash_address buffer max_lines, ∀ p < len,
    cbfsFile flash' flash_address p = cbfsFile flash flash_address p

/-- Both steps that erase a sector succeed. -/
def Reaches (offset : ℕ) : Prop := d.write_enable offset = 0 ∧ d.cmd_write offset = 0

/-- The loop gets to the sector of a byte and erases it. -/
def Erases (offset a : ℕ) : Prop :=
  ∀ sector, offset ≤ sector → sector ≤ a → d.sector_size ∣ sector →
    d.Reaches sector ∧ (sector + d.sector_size ≤ a → d.wait_ready sector = 0)

/-- An erase that fails has erased a byte of the file. -/
def PartlyErases (flash_address p : ℕ) : Prop :=
  d.sector_size ∣ flash_address ∧ d.sector_size ∣ FLASH_SIZE_CHUNK ∧ d.claim_bus = 0 ∧
    d.Erases flash_address (flash_address + p)

end Driver

/-- The characters of a row, its newline included. -/
def rowText (row : List Char8) : List Char8 := row.takeWhile (· ≠ NEWLINE) ++ [NEWLINE]

/-- The text of a table. -/
def tableText (buffer : Table) (max_lines : ℕ) : List Char8 :=
  (List.range max_lines).flatMap fun i => rowText (buffer i).1

/-- What is written at a place of the file. -/
def savedByte (stack : ℕ → Char8) (text : List Char8) (p : ℕ) : Char8 :=
  ((text ++ [NUL])[p]?).getD (stack p)

/-- The place of the file is programmed with a byte of the list. -/
def Programs (d : Driver) (flash_address : ℕ) (text : List Char8) (p : ℕ) : Prop :=
  p < writtenSize (text.length + 1) ∧ d.programs (flash_address + p)

instance (d : Driver) (flash_address : ℕ) (text : List Char8) (p : ℕ) :
    Decidable (Programs d flash_address text p) := inferInstanceAs (Decidable (_ ∧ _))

/-- The lines end and fit into the buffer, no byte that is programmed clears a bit of the old order,
and where a sector has been erased the order has been the same before, or empty. -/
structure KeepsOrder (d : Driver) (stack : ℕ → Char8) (flash : Flash) (flash_address : ℕ)
    (buffer : Table) (max_lines len : ℕ) : Prop where
  ends : ∀ i < max_lines, NEWLINE ∈ (buffer i).1
  fits : (tableText buffer max_lines).length + 1 ≤ MAX_DEVICES * MAX_LENGTH
  kept : ∀ p < len, ¬d.PartlyErases flash_address p →
    Programs d flash_address (tableText buffer max_lines) p →
      cbfsFile flash flash_address p &&& savedByte stack (tableText buffer max_lines) p =
        cbfsFile flash flash_address p
  erased : ∀ p < len, d.PartlyErases flash_address p →
    cbfsFile flash flash_address p =
      if Programs d flash_address (tableText buffer max_lines) p then
        savedByte stack (tableText buffer max_lines) p
      else
        0xff

variable {d : Driver} {stack byte : ℕ → Char8} {flash flash' : Flash} {buffer : Table}
  {row text : List Char8} {n m p k a offset stop flash_address : ℕ}

/-! ### The text -/

lemma packLine_eq_rowText (h : NEWLINE ∈ row) : packLine row = some (rowText row) := by
  induction row with
  | nil => cases h
  | cons c cs ih =>
    rw [packLine, rowText]
    by_cases hc : c = NEWLINE
    · rw [if_pos hc, List.takeWhile_cons_of_neg (by simpa using hc), hc, List.nil_append]
    · rw [if_neg hc, ih (List.mem_of_ne_of_mem (Ne.symm hc) h),
        List.takeWhile_cons_of_pos (by simpa using hc)]
      rfl

lemma packLine_eq_none (h : NEWLINE ∉ row) : packLine row = none := by
  induction row with
  | nil => rfl
  | cons c cs ih =>
    rw [List.mem_cons, not_or] at h
    rw [packLine, if_neg (Ne.symm h.1), ih h.2, Option.map_none]

lemma packLines_eq_tableText (h : ∀ i < n, NEWLINE ∈ (buffer i).1) :
    packLines buffer n = some (tableText buffer n) := by
  induction n with
  | zero => rfl
  | succ n ih =>
    rw [packLines_succ, ih fun i hi => h i (by omega), Option.bind_some,
      packLine_eq_rowText (h n (Nat.lt_succ_self n)), Option.map_some, tableText, tableText,
      List.range_succ, List.flatMap_append, List.flatMap_singleton]

/-! ### Erasing -/

/-- No other sector starts inside of a sector. -/
lemma sector_unique {size sector : ℕ} (hdvd : size ∣ offset) (hdvd' : size ∣ sector)
    (hle : offset ≤ sector) (hlt : sector < offset + size) : sector = offset := by
  have hzero : sector - offset = 0 :=
    Nat.eq_zero_of_dvd_of_lt (Nat.dvd_sub hdvd' hdvd) (by omega)
  omega

lemma Driver.erases_inside (hle : offset ≤ a) (h : a < offset + d.sector_size)
    (hdvd : d.sector_size ∣ offset) : d.Erases offset a ↔ d.Reaches offset := by
  constructor
  · intro herases
    exact (herases offset le_rfl hle hdvd).1
  · intro hreaches sector hge hsector hdvd'
    obtain rfl := sector_unique hdvd hdvd' hge (by omega)
    exact ⟨hreaches, fun hnext => absurd h (by omega)⟩

lemma Driver.erases_behind (h : offset + d.sector_size ≤ a) (hdvd : d.sector_size ∣ offset) :
    d.Erases offset a ↔
      d.Reaches offset ∧ d.wait_ready offset = 0 ∧ d.Erases (offset + d.sector_size) a := by
  constructor
  · intro herases
    obtain ⟨hreaches, hwait⟩ := herases offset le_rfl (by omega) hdvd
    exact ⟨hreaches, hwait h, fun sector hge => herases sector (by omega)⟩
  · rintro ⟨hreaches, hwait, herases⟩ sector hge hsector hdvd'
    rcases Nat.lt_or_ge sector (offset + d.sector_size) with hlt | hge'
    · obtain rfl := sector_unique hdvd hdvd' hge hlt
      exact ⟨hreaches, fun _ => hwait⟩
    · exact herases sector hge' hsector hdvd'

/-- A pass that fails before the chip has the command, and one that erases the sector. -/
lemma Driver.erasePass_cases (d : Driver) (offset : ℕ) (flash : Flash) :
    (¬d.Reaches offset ∧ (d.erasePass offset flash).1 ≠ 0 ∧ (d.erasePass offset flash).2 = flash) ∨
      (d.Reaches offset ∧
        d.erasePass offset flash = (d.wait_ready offset, d.eraseSector flash offset)) := by
  unfold Driver.erasePass Driver.Reaches
  split_ifs with henable hcmd
  · exact Or.inl ⟨fun h => henable h.1, henable, rfl⟩
  · exact Or.inl ⟨fun h => hcmd h.2, hcmd, rfl⟩
  · exact Or.inr ⟨⟨not_not.mp henable, not_not.mp hcmd⟩, rfl⟩

/-- Some bytes are erased, and the others are as before. -/
structure Erased (bytes : ℕ → Prop) (flash flash' : Flash) : Prop where
  inside : ∀ a, bytes a → flash' a = 0xff
  outside : ∀ a, ¬bytes a → flash' a = flash a

/-- The loop ends, and the sectors that it gets to are erased. -/
lemma Driver.eraseLoop_spec {r : ℤ × Flash} (hdvd : d.sector_size ∣ offset) (hfuel : k < n)
    (hstop : offset + k * d.sector_size < 2 ^ 32) :
    ∃ r' ∈ d.eraseLoop (offset + k * d.sector_size) n offset r,
      Erased (fun a => offset ≤ a ∧ a < offset + k * d.sector_size ∧ d.Erases offset a) r.2 r'.2 := by
  induction n generalizing k offset r with
  | zero => exact absurd hfuel (Nat.not_lt_zero k)
  | succ n ih =>
    rw [eraseLoop]
    cases k with
    | zero =>
      rw [Nat.zero_mul, Nat.add_zero, if_neg (lt_irrefl offset)]
      refine ⟨r, rfl, fun a ha => absurd ha.1 (by omega), fun _ _ => rfl⟩
    | succ k =>
      have hpos := d.sector_size_pos
      have hsize : (k + 1) * d.sector_size = d.sector_size + k * d.sector_size := by
        rw [Nat.succ_mul, Nat.add_comm]
      rw [hsize] at hstop ⊢
      rw [if_pos (by omega)]
      dsimp only
      rcases d.erasePass_cases offset r.2 with ⟨hnot, hfail, hsame⟩ | ⟨hreaches, hpass⟩
      · rw [if_pos hfail]
        refine ⟨_, rfl, fun a ha => ?_, fun a _ => by rw [hsame]⟩
        exact absurd (ha.2.2 offset le_rfl ha.1 hdvd).1 hnot
      · have hsector : Erased (fun a => offset ≤ a ∧ a < offset + d.sector_size) r.2
            (d.eraseSector r.2 offset) := ⟨fun a ha => if_pos ha, fun a ha => if_neg ha⟩
        rw [hpass]
        by_cases hwait : d.wait_ready offset = 0
        · -- behind the sector the loop goes on
          rw [if_neg (not_not.mpr hwait), Word.add_eq (by omega), ← Nat.add_assoc]
          obtain ⟨r', hr', hrest⟩ := @ih k (offset + d.sector_size)
            (d.wait_ready offset, d.eraseSector r.2 offset) (hdvd.add (dvd_refl _)) (by omega)
            (by omega)
          refine ⟨r', hr', fun a ha => ?_, fun a ha => ?_⟩
          · rcases Nat.lt_or_ge a (offset + d.sector_size) with hlt | hge
            · exact (hrest.outside a (by omega)).trans (hsector.inside a ⟨ha.1, hlt⟩)
            · exact hrest.inside a ⟨hge, ha.2.1, ((d.erases_behind hge hdvd).mp ha.2.2).2.2⟩
          · rcases Nat.lt_or_ge a (offset + d.sector_size) with hlt | hge
            · have hbelow : ¬offset ≤ a := fun hle =>
                ha ⟨hle, by omega, (d.erases_inside hle hlt hdvd).mpr hreaches⟩
              exact (hrest.outside a (by omega)).trans (hsector.outside a fun h => hbelow h.1)
            · refine (hrest.outside a fun h => ha ⟨by omega, h.2.1, ?_⟩).trans
                (hsector.outside a (by omega))
              exact (d.erases_behind hge hdvd).mpr ⟨hreaches, hwait, h.2.2⟩
        · rw [if_pos hwait]
          refine ⟨_, rfl, fun a ha => ?_, fun a ha => ?_⟩
          · refine hsector.inside a ⟨ha.1, ?_⟩
            by_contra hge
            exact hwait ((d.erases_behind (by omega) hdvd).mp ha.2.2).2.1
          · refine hsector.outside a fun h => ha ⟨h.1, by omega, ?_⟩
            exact (d.erases_inside h.1 h.2 hdvd).mpr hreaches

/-- What an erase of the file that fails has erased. -/
lemma Driver.eraseFails_erased (h : d.EraseFails flash flash_address)
    (hfits : flash_address + FLASH_SIZE_CHUNK ≤ 2 ^ 32) :
    ∃ r ∈ d.spiFlashCmdErase flash flash_address FLASH_SIZE_CHUNK,
      Erased (fun a => flash_address ≤ a ∧ a < flash_address + FLASH_SIZE_CHUNK ∧
        d.PartlyErases flash_address (a - flash_address)) flash r.2 := by
  have hsize : FLASH_SIZE_CHUNK = 4096 := rfl
  obtain ⟨r, hr, hfail⟩ := h
  refine ⟨r, hr, ?_⟩
  rw [Option.mem_def, spiFlashCmdErase] at hr
  split_ifs at hr with halign hclaim
  · -- the sectors of the chip do not fit, and nothing is sent
    obtain rfl := Option.some.inj hr
    refine ⟨fun a ha => ?_, fun _ _ => rfl⟩
    rcases halign with hoffset | hlen
    · exact absurd (Nat.mod_eq_zero_of_dvd ha.2.2.1) hoffset
    · exact absurd (Nat.mod_eq_zero_of_dvd ha.2.2.2.1) hlen
  · obtain rfl := Option.some.inj hr
    exact ⟨fun a ha => absurd ha.2.2.2.2.1 hclaim, fun _ _ => rfl⟩
  · rw [not_or, not_not, not_not] at halign
    rw [not_not] at hclaim
    have hdvd := Nat.dvd_of_mod_eq_zero halign.1
    have hdvd' := Nat.dvd_of_mod_eq_zero halign.2
    obtain ⟨k, hk⟩ := hdvd'
    have hcount : FLASH_SIZE_CHUNK = k * d.sector_size := by rw [hk, Nat.mul_comm]
    have hfuel : k ≤ FLASH_SIZE_CHUNK := by
      rw [hcount]
      exact Nat.le_mul_of_pos_right k d.sector_size_pos
    rcases Nat.lt_or_ge (flash_address + FLASH_SIZE_CHUNK) (2 ^ 32) with hlt | hge
    · rw [Word.add_eq hlt, hcount] at hr
      rw [hcount] at hlt hfuel
      obtain ⟨r', hr', herased⟩ := @eraseLoop_spec d (k * d.sector_size + 1) k flash_address
        (d.claim_bus, flash) hdvd (by omega) hlt
      obtain rfl := Option.some.inj (hr.symm.trans hr')
      rw [← hcount] at herased
      have hset : ∀ a, flash_address ≤ a → (d.PartlyErases flash_address (a - flash_address) ↔
          d.Erases flash_address a) := by
        intro a ha
        rw [PartlyErases, Nat.add_sub_cancel' ha]
        exact ⟨fun h => h.2.2.2, fun h => ⟨hdvd, ⟨k, hk⟩, hclaim, h⟩⟩
      refine ⟨fun a ha => herased.inside a ⟨ha.1, ha.2.1, (hset a ha.1).mp ha.2.2⟩,
        fun a ha => herased.outside a fun h => ha ⟨h.1, h.2.1, (hset a h.1).mpr h.2.2⟩⟩
    · -- the end of the file wraps, and the loop ends at once
      rw [Word.add_eq_wrap hge (by omega), eraseLoop, if_neg (by omega)] at hr
      obtain rfl := Option.some.inj hr
      exact absurd hclaim hfail

/-! ### Programming -/

lemma Driver.write_piece : d.write flash (4 * m + flash_address) ((List.range' (4 * m) 4).map byte)
    (flash_address + p) =
      if (4 * m ≤ p ∧ p < 4 * m + 4) ∧ d.programs (flash_address + p) then
        flash (flash_address + p) &&& byte p
      else
        flash (flash_address + p) := by
  unfold Driver.write
  by_cases hlow : 4 * m ≤ p
  · have hindex : flash_address + p - (4 * m + flash_address) = p - 4 * m := by omega
    by_cases hhigh : p < 4 * m + 4
    · have hpos : 4 * m + 1 * (p - 4 * m) = p := by omega
      rw [hindex, List.getElem?_map, List.getElem?_range' (by omega), Option.map_some,
        Option.getD_some, hpos]
      exact if_congr (and_congr_left' (iff_of_true (by omega) ⟨hlow, hhigh⟩)) rfl rfl
    · have hnone : ((List.range' (4 * m) 4).map byte)[p - 4 * m]? = none := by
        rw [List.getElem?_eq_none (by rw [List.length_map, List.length_range']; omega)]
      have hones : ∀ c : Char8, c &&& 0xff = c := fun c => BitVec.and_allOnes
      rw [hindex, hnone, Option.getD_none, hones, ite_self, if_neg fun h => hhigh h.1.2]
  · rw [if_neg (by omega), if_neg fun h => hlow h.1.1]

lemma Driver.write_pieces (hfits : 4 * m + flash_address ≤ 2 ^ 32) : (List.range m).foldl
    (fun flash n => d.write flash (Word.add 32 (4 * n) flash_address)
      ((List.range' (4 * n) 4).map byte)) flash (flash_address + p) =
        if p < 4 * m ∧ d.programs (flash_address + p) then flash (flash_address + p) &&& byte p
        else flash (flash_address + p) := by
  induction m with
  | zero => rw [if_neg (by omega)]; rfl
  | succ m ih =>
    rw [List.range_succ, List.foldl_append, List.foldl_cons, List.foldl_nil,
      Word.add_eq (by omega), write_piece, ih (by omega)]
    cases d.programs (flash_address + p) with
    | true =>
      simp only [and_true]
      split_ifs <;> first | rfl | omega
    | false => simp

/-- What `save_flash` leaves of the file, if the lines end and fit into the buffer. -/
lemma Driver.saveFlash_eq {r : ℤ × Flash} (stack : ℕ → Char8) (hends : ∀ i < n, NEWLINE ∈ (buffer i).1)
    (hsize : (tableText buffer n).length + 1 ≤ MAX_DEVICES * MAX_LENGTH)
    (hr : r ∈ d.spiFlashCmdErase flash flash_address FLASH_SIZE_CHUNK)
    (hfits : flash_address + FLASH_SIZE_CHUNK ≤ 2 ^ 32) :
    ∃ flash' ∈ d.saveFlash stack flash flash_address buffer n, ∀ p,
      cbfsFile flash' flash_address p =
        if Programs d flash_address (tableText buffer n) p then
          cbfsFile r.2 flash_address p &&& savedByte stack (tableText buffer n) p
        else
          cbfsFile r.2 flash_address p := by
  have hchunk : FLASH_SIZE_CHUNK = 4096 := rfl
  have hlen : (tableText buffer n ++ [NUL]).length = (tableText buffer n).length + 1 :=
    List.length_append
  rw [saveFlash, packLines_eq_tableText hends, Option.bind_some, hr]
  simp only [hlen, and_fc, Nat.mul_div_cancel_left _ (show 0 < 4 by decide)]
  rw [if_pos hsize]
  refine ⟨_, rfl, fun p => ?_⟩
  -- the last piece is one more of them
  have hpieces := @Driver.write_pieces d (savedByte stack (tableText buffer n)) r.2
    (((tableText buffer n).length + 1) / 4 % 64 + 1) p flash_address (by omega)
  rw [List.range_succ, List.foldl_append] at hpieces
  exact hpieces

/-! ### Where nothing fails -/

/-- Programming erased cells. -/
lemma Driver.write_erased {address : ℕ} {bytes : List Char8} (hprograms : ∀ a, d.programs a)
    (herased : ∀ i < bytes.length, flash (address + i) = 0xff) :
    d.write flash address bytes = SortBootOrder.write flash address bytes := by
  funext a
  unfold Driver.write SortBootOrder.write
  by_cases ha : address ≤ a
  · obtain ⟨i, rfl⟩ := Nat.exists_eq_add_of_le ha
    rw [if_pos ⟨ha, hprograms _⟩, if_pos ha, Nat.add_sub_cancel_left]
    by_cases hi : i < bytes.length
    · rw [List.getElem?_eq_getElem hi, Option.getD_some, Option.getD_some, herased i hi]
      exact BitVec.allOnes_and
    · rw [List.getElem?_eq_none (by omega), Option.getD_none, Option.getD_none]
      exact BitVec.and_allOnes
  · rw [if_neg fun h => ha h.1, if_neg ha]

lemma Driver.writes_erased (hprograms : ∀ a, d.programs a)
    (herased : ∀ p < FLASH_SIZE_CHUNK, flash (flash_address + p) = 0xff)
    (hfits : flash_address + FLASH_SIZE_CHUNK ≤ 2 ^ 32) (hm : 4 * m ≤ FLASH_SIZE_CHUNK) :
    (List.range m).foldl (fun flash n => d.write flash (Word.add 32 (4 * n) flash_address)
      ((List.range' (4 * n) 4).map byte)) flash =
    (List.range m).foldl (fun flash n => SortBootOrder.write flash (4 * n + flash_address)
      ((List.range' (4 * n) 4).map byte)) flash := by
  have hchunk : FLASH_SIZE_CHUNK = 4096 := rfl
  induction m with
  | zero => rfl
  | succ m ih =>
    rw [List.range_succ, List.foldl_append, List.foldl_append, ih (by omega), List.foldl_cons,
      List.foldl_nil, List.foldl_cons, List.foldl_nil, Word.add_eq (by omega)]
    refine write_erased hprograms fun i hi => ?_
    rw [List.length_map, List.length_range'] at hi
    have hplace : 4 * m + flash_address + i = flash_address + (4 * m + i) := by omega
    rw [hplace, SortBootOrder.write_pieces, if_neg (by omega)]
    exact herased _ (by omega)

/-- Over a driver that does not fail, the list is saved as over a sector that is set to `0xff`. -/
theorem Driver.saveFlash_of_succeeds (h : d.Succeeds flash_address)
    (hfits : flash_address + FLASH_SIZE_CHUNK < 2 ^ 32) (stack : ℕ → Char8) (flash : Flash)
    (buffer : Table) (n : ℕ) :
    d.saveFlash stack flash flash_address buffer n =
      SortBootOrder.saveFlash stack flash flash_address buffer n := by
  have hchunk : FLASH_SIZE_CHUNK = 4096 := rfl
  have herase : ∃ ret, d.spiFlashCmdErase flash flash_address FLASH_SIZE_CHUNK =
      some (ret, erase flash flash_address) := by
    have halign : ¬(flash_address % d.sector_size ≠ 0 ∨ FLASH_SIZE_CHUNK % d.sector_size ≠ 0) := by
      rw [Nat.mod_eq_zero_of_dvd h.aligned, Nat.mod_eq_zero_of_dvd h.whole]
      simp
    obtain ⟨k, hk⟩ := h.whole
    have hcount : FLASH_SIZE_CHUNK = k * d.sector_size := by rw [hk, Nat.mul_comm]
    have hfuel : k < FLASH_SIZE_CHUNK + 1 := by
      rw [hcount, Nat.lt_succ_iff]
      exact Nat.le_mul_of_pos_right k d.sector_size_pos
    rw [spiFlashCmdErase, if_neg halign, if_neg (not_not.mpr h.claimed), Word.add_eq hfits]
    rw [hcount] at hfits hfuel ⊢
    obtain ⟨⟨ret, flash'⟩, hr, herased⟩ := @eraseLoop_spec d (k * d.sector_size + 1) k flash_address
      (d.claim_bus, flash) h.aligned hfuel hfits
    refine ⟨ret, hr.trans ?_⟩
    have hflash : flash' = erase flash flash_address := by
      funext a
      rw [← hcount] at herased
      rw [erase]
      split_ifs with ha
      · exact herased.inside a ⟨ha.1, ha.2, fun _ _ _ _ => ⟨h.reaches _, fun _ => h.waited _⟩⟩
      · exact herased.outside a fun h => ha ⟨h.1, h.2.1⟩
    rw [hflash]
  obtain ⟨ret, herase⟩ := herase
  have hcells : ∀ p < FLASH_SIZE_CHUNK, erase flash flash_address (flash_address + p) = 0xff :=
    fun p hp => if_pos ⟨by omega, by omega⟩
  rw [saveFlash, SortBootOrder.saveFlash]
  congr 1
  funext list
  dsimp only
  split_ifs with hlist
  · rw [herase, Option.map_some]
    congr 1
    -- the last piece is one more of them
    have hpieces : (list ++ [NUL]).length &&& 0xfc ≤ 0xfc := Nat.and_le_right
    have hall := @writes_erased d (fun p => ((list ++ [NUL])[p]?).getD (stack p))
      (erase flash flash_address) (((list ++ [NUL]).length &&& 0xfc) / 4 + 1) flash_address
      h.programs hcells hfits.le (by omega)
    rw [List.range_succ, List.foldl_append, List.foldl_append] at hall
    exact hall
  · rfl

/-! ### Where the erase fails -/

/-- The order survives an erase that fails exactly if the lines end and fit into the buffer, no byte
that is programmed clears a bit of it, and where sectors have been erased it was the same before. -/
theorem unchanged_iff {len : ℕ} (hfail : d.EraseFails flash flash_address)
    (hfits : flash_address + FLASH_SIZE_CHUNK ≤ 2 ^ 32) (hlen : len ≤ BOOTORDER_SIZE) :
    d.Unchanged stack flash flash_address buffer n len ↔
      KeepsOrder d stack flash flash_address buffer n len := by
  obtain ⟨r, hr, herased⟩ := Driver.eraseFails_erased hfail hfits
  have hsize : BOOTORDER_SIZE = FLASH_SIZE_CHUNK := rfl
  have hinside : ∀ p < len, d.PartlyErases flash_address p → cbfsFile r.2 flash_address p = 0xff :=
    fun p hp hpart => herased.inside _ ⟨by omega, by omega, by rwa [Nat.add_sub_cancel_left]⟩
  have houtside : ∀ p, ¬d.PartlyErases flash_address p →
      cbfsFile r.2 flash_address p = cbfsFile flash flash_address p := by
    intro p hpart
    refine herased.outside _ fun h => hpart ?_
    have hplace := h.2.2
    rwa [Nat.add_sub_cancel_left] at hplace
  have hones : ∀ c : Char8, 0xff &&& c = c := fun c => BitVec.allOnes_and
  constructor
  · rintro ⟨flash', hsave, hsame⟩
    have hends : ∀ i < n, NEWLINE ∈ (buffer i).1 := by
      intro i hi
      by_contra hnot
      rw [Driver.saveFlash, packLines_none hi (packLine_eq_none hnot)] at hsave
      cases hsave
    have hsize : (tableText buffer n).length + 1 ≤ MAX_DEVICES * MAX_LENGTH := by
      by_contra hnot
      have hlong : ¬(tableText buffer n ++ [NUL]).length ≤ MAX_DEVICES * MAX_LENGTH := by
        rwa [List.length_append]
      rw [Driver.saveFlash, packLines_eq_tableText hends, Option.bind_some, if_neg hlong] at hsave
      cases hsave
    obtain ⟨flash'', hsave', hfile⟩ := Driver.saveFlash_eq stack hends hsize hr hfits
    obtain rfl := Option.some.inj (hsave.symm.trans hsave')
    refine ⟨hends, hsize, fun p hp hpart hprograms => ?_, fun p hp hpart => ?_⟩
    · rw [← hsame p hp, hfile, if_pos hprograms, houtside p hpart, BitVec.and_assoc, BitVec.and_self]
    · rw [← hsame p hp, hfile, hinside p hp hpart, hones]
  · rintro ⟨hends, hsize, hkept, hpart⟩
    obtain ⟨flash', hsave, hfile⟩ := Driver.saveFlash_eq stack hends hsize hr hfits
    refine ⟨flash', hsave, fun p hp => ?_⟩
    rw [hfile]
    by_cases herases : d.PartlyErases flash_address p
    · rw [hpart p hp herases, hinside p hp herases, hones]
    · rw [houtside p herases]
      split_ifs with hprograms
      · exact hkept p hp herases hprograms
      · rfl

/-- A chip whose sectors are larger than the file. -/
def exampleDriver : Driver where
  sector_size := 0x10000
  sector_size_pos := by decide
  claim_bus := 0
  write_enable _ := 0
  cmd_write _ := 0
  wait_ready _ := 0
  programs _ := true

/-- The order `usb` in a file at `0xffff1000`. -/
def exampleFlash : Flash := fun a =>
  (([0x75, 0x73, 0x62, 0x0a, 0x00] : List Char8)[a - 0xffff1000]?).getD 0xff

lemma exampleDriver_eraseFails : exampleDriver.EraseFails exampleFlash 0xffff1000 :=
  ⟨(-1, exampleFlash), rfl, by decide⟩

theorem unchanged_iff_usb :
    exampleDriver.Unchanged (fun _ => 0xff) exampleFlash 0xffff1000
      (fun _ => exampleRow [0x75, 0x73, 0x62, 0x0a]) 1 BOOTORDER_SIZE := by
  have hbytes : ∀ p < 8, cbfsFile exampleFlash 0xffff1000 p &&&
      savedByte (fun _ => 0xff) (tableText (fun _ => exampleRow [0x75, 0x73, 0x62, 0x0a]) 1) p =
        cbfsFile exampleFlash 0xffff1000 p := by decide
  refine (unchanged_iff exampleDriver_eraseFails (by decide) le_rfl).mpr
    ⟨by decide, by decide, fun p _ _ hprograms => ?_, fun p _ hpart => ?_⟩
  · exact hbytes p hprograms.1
  · exact absurd hpart.1 (by decide)

/-- The new order is `hdd`, and of the old one not even the first bytes are left. -/
theorem not_unchanged :
    exampleDriver.EraseFails exampleFlash 0xffff1000 ∧
      ¬exampleDriver.Unchanged (fun _ => 0xff) exampleFlash 0xffff1000
        (fun _ => exampleRow [0x68, 0x64, 0x64, 0x0a]) 1 5 := by
  refine ⟨exampleDriver_eraseFails, ?_⟩
  rintro ⟨flash', hsave, hsame⟩
  obtain ⟨flash'', hsave', hfile⟩ := @Driver.saveFlash_eq exampleDriver exampleFlash
    (fun _ => exampleRow [0x68, 0x64, 0x64, 0x0a]) 1 0xffff1000 (-1, exampleFlash) (fun _ => 0xff)
    (by decide) (by decide) rfl (by decide)
  obtain rfl := Option.some.inj (hsave.symm.trans hsave')
  have hfirst := (hfile 0).symm.trans (hsame 0 (by decide))
  revert hfirst
  decide

end ApuBios.SortBootOrder
