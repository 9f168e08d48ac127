import ApuBios.Library.Word
import ApuBios.Payloads.SortBootOrder.Basic

/-!
# Saving and reading the boot order

A list that is saved is read again exactly if its size fits into one byte, and it leaves a row of
the table free.
-/

namespace ApuBios.SortBootOrder

variable {l body list : List Char8} {lines : List (List Char8)} {buffer dest destination : Table}
  {dat stack byte : ℕ → Char8} {flash : Flash} {c : Char8} {row : Row}
  {n m p k r i lc cc off address flash_address cbfs_length : ℕ}

/-- A line ends with its newline and leaves room for a terminator. -/
def IsLine (l : List Char8) : Prop :=
  ∃ body, l = body ++ [NEWLINE] ∧ NEWLINE ∉ body ∧ NUL ∉ body ∧ l.length < MAX_LENGTH

/-- The first rows of the table start with the lines. -/
def Holds (t : Table) (lines : List (List Char8)) : Prop :=
  ∀ i (h : i < lines.length), lines[i] <+: (t i).1

lemma not_mem_nul (h : IsLine l) : NUL ∉ l := by
  obtain ⟨body, rfl, -, hnul, -⟩ := h
  rw [List.mem_append, not_or]
  exact ⟨hnul, by decide⟩

/-! ### Writing -/

lemma packLine_eq (h : IsLine l) (hrow : l <+: row.1) : packLine row.1 = some l := by
  obtain ⟨body, rfl, hbody, -, -⟩ := h
  obtain ⟨tail, htail⟩ := hrow
  rw [← htail, List.append_assoc]
  clear htail
  induction body with
  | nil => rfl
  | cons c cs ih =>
    rw [List.mem_cons, not_or] at hbody
    rw [List.cons_append, packLine, if_neg (Ne.symm hbody.1), ih hbody.2]
    rfl

lemma packLines_succ (buffer : Table) (m : ℕ) :
    packLines buffer (m + 1) =
      (packLines buffer m).bind fun list => (packLine (buffer m).1).map (list ++ ·) := by
  rw [packLines, List.range_succ, List.foldlM_append]
  simp [packLines]

/-- Each row is packed to its line. -/
lemma packLines_of_rows (h : ∀ j (hj : j < lines.length), packLine (buffer j).1 = some lines[j]) :
    packLines buffer lines.length = some lines.flatten := by
  have hpart : ∀ m ≤ lines.length, packLines buffer m = some (lines.take m).flatten := by
    intro m hm
    induction m with
    | zero => rfl
    | succ m ih =>
      rw [packLines_succ, ih (by omega), Option.bind_some, h m hm, Option.map_some,
        List.take_succ_eq_append_getElem hm, List.flatten_append, List.flatten_singleton]
  rw [hpart lines.length le_rfl, List.take_length]

/-- A row without a newline. -/
lemma packLines_none (hi : i < n) (h : packLine (buffer i).1 = none) :
    packLines buffer n = none := by
  induction n with
  | zero => exact absurd hi (Nat.not_lt_zero i)
  | succ n ih =>
    rw [packLines_succ]
    rcases Nat.lt_succ_iff_lt_or_eq.mp hi with hlt | rfl
    · rw [ih hlt]
      rfl
    · rw [h]
      cases packLines buffer i <;> rfl

lemma packLines_eq (hlines : ∀ l ∈ lines, IsLine l) (hbuffer : Holds buffer lines) :
    packLines buffer lines.length = some lines.flatten :=
  packLines_of_rows fun j hj => packLine_eq (hlines _ (List.getElem_mem hj)) (hbuffer j hj)

/-- Only the low byte of the size is used, rounded down to whole pieces. -/
lemma and_fc (i : ℕ) : i &&& 0xfc = 4 * (i / 4 % 64) := by
  have hi : i = 2 ^ 2 * (i / 4) + i % 4 := by omega
  have hmask : (2 ^ 2 * (i / 4) + i % 4) &&& (2 ^ 2 * 63) = 2 ^ 2 * (i / 4 &&& 63) :=
    Word.and_mul_two_pow (Nat.mod_lt i (by decide))
  calc i &&& 0xfc = (2 ^ 2 * (i / 4) + i % 4) &&& (2 ^ 2 * 63) := congrArg (· &&& 0xfc) hi
    _ = 4 * (i / 4 &&& (2 ^ 6 - 1)) := hmask
    _ = 4 * (i / 4 % 64) := by rw [Nat.and_two_pow_sub_one_eq_mod]

lemma write_piece : write flash (4 * m + flash_address) ((List.range' (4 * m) 4).map byte)
    (flash_address + p) =
      if 4 * m ≤ p ∧ p < 4 * m + 4 then byte p else flash (flash_address + p) := by
  unfold write
  by_cases hlow : 4 * m ≤ p
  · rw [if_pos (by omega), List.getElem?_map,
      show flash_address + p - (4 * m + flash_address) = p - 4 * m by omega]
    by_cases hhigh : p < 4 * m + 4
    · rw [if_pos ⟨hlow, hhigh⟩, List.getElem?_range' (by omega), Option.map_some, Option.getD_some,
        show 4 * m + 1 * (p - 4 * m) = p by omega]
    · rw [if_neg (by omega), List.getElem?_eq_none (by rw [List.length_range']; omega)]
      rfl
  · rw [if_neg (by omega), if_neg (by omega)]

lemma write_pieces : (List.range m).foldl
    (fun flash n => write flash (4 * n + flash_address) ((List.range' (4 * n) 4).map byte)) flash
      (flash_address + p) = if p < 4 * m then byte p else flash (flash_address + p) := by
  induction m with
  | zero => rw [if_neg (by omega)]; rfl
  | succ m ih =>
    rw [List.range_succ, List.foldl_append, List.foldl_cons, List.foldl_nil, write_piece, ih]
    split_ifs <;> first | rfl | omega

lemma write_below (h : p < address) (l : List Char8) : write flash address l p = flash p :=
  if_neg (by omega)

lemma write_pieces_below (h : p < flash_address) : (List.range m).foldl
    (fun flash n => write flash (4 * n + flash_address) ((List.range' (4 * n) 4).map byte)) flash
      p = flash p := by
  induction m with
  | zero => rfl
  | succ m ih =>
    rw [List.range_succ, List.foldl_append, List.foldl_cons, List.foldl_nil,
      write_below (by omega), ih]

/-- How many bytes of a list `save_flash` writes. -/
def writtenSize (size : ℕ) : ℕ := 4 * (size / 4 % 64) + 4

/-- What `save_flash` leaves of a list in the sector. -/
def sector (stack : ℕ → Char8) (text : List Char8) (p : ℕ) : Char8 :=
  if p < writtenSize (text.length + 1) then ((text ++ [NUL])[p]?).getD (stack p) else 0xff

/-- The sector is written, and nothing else. -/
structure Written (stack : ℕ → Char8) (flash : Flash) (flash_address : ℕ) (text : List Char8)
    (flash' : Flash) : Prop where
  inside : ∀ p < FLASH_SIZE_CHUNK, cbfsFile flash' flash_address p = sector stack text p
  outside : ∀ a, a < flash_address ∨ flash_address + FLASH_SIZE_CHUNK ≤ a → flash' a = flash a

lemma saveFlash_packed {text : List Char8} (stack : ℕ → Char8) (flash : Flash) (flash_address : ℕ)
    (hpack : packLines buffer n = some text) (hsize : text.length + 1 ≤ MAX_DEVICES * MAX_LENGTH) :
    ∃ flash', saveFlash stack flash flash_address buffer n = some flash' ∧
      Written stack flash flash_address text flash' := by
  have hlen : (text ++ [NUL]).length = text.length + 1 := List.length_append
  have hsector : FLASH_SIZE_CHUNK = 4096 := rfl
  rw [saveFlash, hpack, Option.bind_some]
  simp only [hlen, and_fc, Nat.mul_div_cancel_left _ (show 0 < 4 by decide)]
  rw [if_pos hsize]
  refine ⟨_, rfl, fun p hp => ?_, fun a ha => ?_⟩
  · rw [cbfsFile, write_piece, write_pieces, erase,
      if_pos (⟨by omega, by omega⟩ : flash_address ≤ flash_address + p ∧ _), sector, writtenSize]
    split_ifs <;> first | rfl | omega
  · have herase : erase flash flash_address a = flash a := if_neg (by omega)
    rcases Nat.lt_or_ge a flash_address with hbelow | habove
    · rw [write_below (by omega), write_pieces_below hbelow, herase]
    · obtain ⟨p, rfl⟩ := Nat.exists_eq_add_of_le habove
      rw [write_piece, write_pieces, if_neg (by omega), if_neg (by omega), herase]

lemma saveFlash_eq (stack : ℕ → Char8) (flash : Flash) (flash_address : ℕ)
    (hlines : ∀ l ∈ lines, IsLine l) (hbuffer : Holds buffer lines)
    (hsize : lines.flatten.length + 1 ≤ MAX_DEVICES * MAX_LENGTH) :
    ∃ flash', saveFlash stack flash flash_address buffer lines.length = some flash' ∧
      ∀ p < FLASH_SIZE_CHUNK, cbfsFile flash' flash_address p =
        if p < writtenSize (lines.flatten.length + 1) then
          ((lines.flatten ++ [NUL])[p]?).getD (stack p)
        else 0xff := by
  obtain ⟨flash', hsave, hwritten⟩ :=
    saveFlash_packed stack flash flash_address (packLines_eq hlines hbuffer) hsize
  exact ⟨flash', hsave, hwritten.inside⟩

/-! ### Reading -/

/-- The characters that are read from the offset. -/
def Reads (dat : ℕ → Char8) (off : ℕ) (l : List Char8) : Prop :=
  ∀ i (h : i < l.length), dat (off + i) = l[i]

lemma Reads.head (h : Reads dat off (c :: l)) : dat off = c := h 0 (Nat.succ_pos _)

lemma Reads.tail (h : Reads dat off (c :: l)) : Reads dat (off + 1) l := fun i hi => by
  have := h (i + 1) (Nat.succ_lt_succ hi)
  rwa [show off + (i + 1) = off + 1 + i by omega] at this

lemma Reads.left (h : Reads dat off (l ++ body)) : Reads dat off l := fun i hi => by
  rw [h i (by rw [List.length_append]; omega), List.getElem_append_left hi]

lemma Reads.right (h : Reads dat off (l ++ body)) : Reads dat (off + l.length) body := fun i hi => by
  have := h (l.length + i) (by rw [List.length_append]; omega)
  rw [List.getElem_append_right (by omega)] at this
  simpa only [Nat.add_assoc, Nat.add_sub_cancel_left] using this

/-- The table after a character is stored. -/
def stored (dest : Table) (lc cc : ℕ) (c : Char8) : Table :=
  Function.update dest lc ((dest lc).set cc c)

lemma fetchLoop_char (hlc : lc < MAX_DEVICES) (hcc : cc < MAX_LENGTH)
    (hnl : dat off ≠ NEWLINE) (hnul : dat off ≠ NUL) (hoff : off + 1 ≤ cbfs_length)
    (hmax : off + 1 ≤ MAX_LENGTH * MAX_DEVICES) :
    fetchLoop dat cbfs_length (n + 1) dest lc cc off =
      fetchLoop dat cbfs_length n (stored dest lc cc (dat off)) lc (cc + 1) (off + 1) := by
  rw [fetchLoop, if_pos ⟨hlc, hcc⟩, if_neg (by rintro ⟨-, h | h⟩; exacts [hnul h, by omega]),
    if_neg hnl, if_neg hnl, if_neg (by omega)]
  rfl

lemma fetchLoop_newline (hlc : lc < MAX_DEVICES) (hcc : cc < MAX_LENGTH)
    (hnl : dat off = NEWLINE) (hmax : off + 1 ≤ MAX_LENGTH * MAX_DEVICES) :
    fetchLoop dat cbfs_length (n + 1) dest lc cc off =
      fetchLoop dat cbfs_length n (stored dest lc cc NEWLINE) (lc + 1) 0 (off + 1) := by
  rw [fetchLoop, if_pos ⟨hlc, hcc⟩, if_neg (fun h => h.1 hnl), if_pos hnl, if_pos hnl,
    if_neg (by omega), hnl]
  rfl

private lemma fetchLoop_nul (hlc : lc < MAX_DEVICES) (hcc : cc < MAX_LENGTH)
    (hnul : dat off = NUL) :
    fetchLoop dat cbfs_length (n + 1) dest lc cc off = some (stored dest lc cc NUL, lc) := by
  rw [fetchLoop, if_pos ⟨hlc, hcc⟩, if_pos ⟨by rw [hnul]; decide, Or.inl hnul⟩, hnul]
  rfl

lemma fetchLoop_outside (h : ¬(lc < MAX_DEVICES ∧ cc < MAX_LENGTH)) :
    fetchLoop dat cbfs_length (n + 1) dest lc cc off = none := by
  rw [fetchLoop, if_neg h]

lemma take_set (hcc : cc < MAX_LENGTH) :
    (row.set cc c).1.take (cc + 1) = row.1.take cc ++ [c] := by
  have hlen : (row.1.take cc).length = cc := by
    rw [List.length_take, row.2, min_eq_left hcc.le]
  change (row.1.set cc c).take (cc + 1) = _
  rw [List.set_eq_take_append_cons_drop, if_pos (by rw [row.2]; exact hcc), List.take_append,
    List.take_of_length_le (by omega), hlen]
  simp

/-- The characters of a line before its newline. -/
private lemma fetchLoop_chars (n : ℕ) (dest : Table) (hlc : lc < MAX_DEVICES)
    (hcc : cc + body.length ≤ MAX_LENGTH) (hdat : Reads dat off body)
    (hnl : NEWLINE ∉ body) (hnul : NUL ∉ body) (hoff : off + body.length ≤ cbfs_length)
    (hmax : off + body.length ≤ MAX_LENGTH * MAX_DEVICES) :
    ∃ dest', fetchLoop dat cbfs_length (n + body.length) dest lc cc off =
        fetchLoop dat cbfs_length n dest' lc (cc + body.length) (off + body.length) ∧
      (dest' lc).1.take (cc + body.length) = (dest lc).1.take cc ++ body ∧
      ∀ i, i ≠ lc → dest' i = dest i := by
  induction body generalizing dest cc off with
  | nil => exact ⟨dest, rfl, (List.append_nil _).symm, fun _ _ => rfl⟩
  | cons c cs ih =>
    rw [List.mem_cons, not_or] at hnl hnul
    rw [List.length_cons] at hcc hoff hmax ⊢
    have hc : dat off = c := hdat.head
    obtain ⟨dest', hrun, hrow, hframe⟩ := ih (stored dest lc cc c)
      (by omega : cc + 1 + cs.length ≤ MAX_LENGTH) hdat.tail hnl.2 hnul.2 (by omega)
      (by omega)
    refine ⟨dest', ?_, ?_, fun i hi => ?_⟩
    · rw [← Nat.add_assoc, fetchLoop_char hlc (by omega) (by rw [hc]; exact Ne.symm hnl.1)
        (by rw [hc]; exact Ne.symm hnul.1) (by omega) (by omega), hc, hrun]
      congr 1 <;> omega
    · rw [show cc + (cs.length + 1) = cc + 1 + cs.length by omega, hrow, stored,
        Function.update_self, take_set (show cc < MAX_LENGTH by omega), List.append_assoc,
        List.singleton_append]
    · rw [hframe i hi, stored, Function.update_of_ne hi]

/-- A line is stored in the next row. -/
private lemma fetchLoop_line (n : ℕ) (dest : Table) (hl : IsLine l) (hlc : lc < MAX_DEVICES)
    (hdat : Reads dat off l)
    (hoff : off + l.length ≤ cbfs_length) (hmax : off + l.length ≤ MAX_LENGTH * MAX_DEVICES) :
    ∃ dest', fetchLoop dat cbfs_length (n + l.length) dest lc 0 off =
        fetchLoop dat cbfs_length n dest' (lc + 1) 0 (off + l.length) ∧
      l <+: (dest' lc).1 ∧ ∀ i, i ≠ lc → dest' i = dest i := by
  obtain ⟨body, rfl, hnl, hnul, hlen⟩ := hl
  rw [List.length_append, List.length_singleton] at hlen hoff hmax ⊢
  obtain ⟨dest', hrun, hrow, hframe⟩ := fetchLoop_chars (n + 1) dest hlc
    (by omega : 0 + body.length ≤ MAX_LENGTH) hdat.left hnl hnul
    (by omega : off + body.length ≤ cbfs_length) (by omega)
  have hlast : dat (off + body.length) = NEWLINE := hdat.right.head
  rw [Nat.zero_add] at hrun hrow
  refine ⟨stored dest' lc body.length NEWLINE, ?_, ?_, fun i hi => ?_⟩
  · rw [show n + (body.length + 1) = n + 1 + body.length by omega, hrun,
      fetchLoop_newline hlc (show body.length < MAX_LENGTH by omega) hlast (by omega)]
    rfl
  · have htake : (stored dest' lc body.length NEWLINE lc).1.take (body.length + 1) =
        body ++ [NEWLINE] := by
      rw [stored, Function.update_self, take_set (show body.length < MAX_LENGTH by omega), hrow,
        List.take_zero, List.nil_append]
    rw [← htake]
    exact List.take_prefix _ _
  · rw [stored, Function.update_of_ne hi, hframe i hi]

private lemma fetchLoop_lines (n : ℕ) (dest : Table) (hlines : ∀ l ∈ lines, IsLine l)
    (hlc : lc + lines.length ≤ MAX_DEVICES) (hdat : Reads dat off lines.flatten)
    (hoff : off + lines.flatten.length ≤ cbfs_length)
    (hmax : off + lines.flatten.length ≤ MAX_LENGTH * MAX_DEVICES) :
    ∃ dest', fetchLoop dat cbfs_length (n + lines.flatten.length) dest lc 0 off =
        fetchLoop dat cbfs_length n dest' (lc + lines.length) 0 (off + lines.flatten.length) ∧
      (∀ i (h : i < lines.length), lines[i] <+: (dest' (lc + i)).1) ∧
      ∀ i < lc, dest' i = dest i := by
  induction lines generalizing dest lc off with
  | nil => exact ⟨dest, rfl, fun i h => absurd h (Nat.not_lt_zero i), fun _ _ => rfl⟩
  | cons l ls ih =>
    rw [List.length_cons] at hlc
    rw [List.flatten_cons] at hdat
    rw [List.flatten_cons, List.length_append] at hoff hmax ⊢
    obtain ⟨dest₁, hrun₁, hrow₁, hframe₁⟩ := fetchLoop_line (n + ls.flatten.length) dest
      (hlines l List.mem_cons_self) (by omega : lc < MAX_DEVICES) hdat.left
      (by omega : off + l.length ≤ cbfs_length) (by omega)
    obtain ⟨dest', hrun, hrows, hframe⟩ := ih dest₁
      (fun l hl => hlines l (List.mem_cons_of_mem _ hl)) (by omega : lc + 1 + ls.length ≤ _)
      hdat.right (by omega) (by omega)
    refine ⟨dest', ?_, fun i hi => ?_, fun i hi => ?_⟩
    · rw [show n + (l.length + ls.flatten.length) = n + ls.flatten.length + l.length by omega,
        hrun₁, hrun, List.length_cons]
      congr 1 <;> omega
    · cases i with
      | zero =>
        rw [Nat.add_zero, hframe lc (Nat.lt_succ_self lc)]
        exact hrow₁
      | succ i =>
        rw [show lc + (i + 1) = lc + 1 + i by omega]
        exact hrows i (Nat.lt_of_succ_lt_succ hi)
    · rw [hframe i (by omega), hframe₁ i (by omega)]

/-- A row that is never ended is overrun. -/
private lemma fetchLoop_overrun (hn : n + off = MAX_LENGTH * MAX_DEVICES + 1)
    (htext : ∀ p, off ≤ p → p < off + k → dat p ≠ NUL)
    (hfill : ∀ p, off + k ≤ p → p < off + k + r → dat p = 0xff)
    (hmax : off + k + r ≤ MAX_LENGTH * MAX_DEVICES)
    (hr : MAX_LENGTH < r ∨ k = 0 ∧ MAX_LENGTH < cc + r) :
    fetchLoop dat BOOTORDER_SIZE n dest lc cc off = none := by
  have hsize : MAX_LENGTH * MAX_DEVICES = BOOTORDER_SIZE := rfl
  induction n generalizing dest lc cc off k r with
  | zero => omega
  | succ n ih =>
    by_cases hin : lc < MAX_DEVICES ∧ cc < MAX_LENGTH
    · cases k with
      | zero =>
        obtain ⟨r, rfl⟩ : ∃ r', r = r' + 1 := ⟨r - 1, by omega⟩
        have hff : dat off = 0xff := hfill off le_rfl (by omega)
        rw [fetchLoop_char hin.1 hin.2 (by rw [hff]; decide) (by rw [hff]; decide) (by omega)
          (by omega)]
        exact ih (k := 0) (r := r) (by omega) (fun p hp hp' => by omega)
          (fun p hp hp' => hfill p (by omega) (by omega)) (by omega) (Or.inr ⟨rfl, by omega⟩)
      | succ k =>
        have hnul := htext off le_rfl (by omega)
        have htext' : ∀ p, off + 1 ≤ p → p < off + 1 + k → dat p ≠ NUL := fun p hp hp' =>
          htext p (by omega) (by omega)
        have hfill' : ∀ p, off + 1 + k ≤ p → p < off + 1 + k + r → dat p = 0xff := fun p hp hp' =>
          hfill p (by omega) (by omega)
        by_cases hnl : dat off = NEWLINE
        · rw [fetchLoop_newline hin.1 hin.2 hnl (by omega)]
          exact ih (by omega) htext' hfill' (by omega) (Or.inl (by omega))
        · rw [fetchLoop_char hin.1 hin.2 hnl hnul (by omega) (by omega)]
          exact ih (by omega) htext' hfill' (by omega) (Or.inl (by omega))
    · exact fetchLoop_outside hin

/-! ### The round trip -/

/-- The list that is saved is the one that is read from the file then. -/
def RoundTrip (stack : ℕ → Char8) (flash : Flash) (flash_address : ℕ) (buffer destination : Table)
    (lines : List (List Char8)) : Prop :=
  ∃ flash' ∈ saveFlash stack flash flash_address buffer lines.length,
    ∃ r ∈ fetchFileFromCbfs (cbfsFile flash' flash_address) BOOTORDER_SIZE destination,
      r.2 = lines.length ∧ Holds r.1 lines

lemma length_flatten_le (hlines : ∀ l ∈ lines, IsLine l) :
    lines.flatten.length ≤ lines.length * (MAX_LENGTH - 1) := by
  rw [List.length_flatten]
  have := List.sum_le_card_nsmul (lines.map List.length) (MAX_LENGTH - 1) fun x hx => by
    obtain ⟨l, hl, rfl⟩ := List.mem_map.mp hx
    obtain ⟨-, -, -, -, hlen⟩ := hlines l hl
    omega
  simpa using this

private lemma flatten_nul (hlines : ∀ l ∈ lines, IsLine l) (hp : p < lines.flatten.length) :
    ((lines.flatten ++ [NUL])[p]?).getD c ≠ NUL := by
  rw [List.getElem?_append_left hp, List.getElem?_eq_getElem hp, Option.getD_some]
  obtain ⟨l, hl, hmem⟩ := List.mem_flatten.mp (List.getElem_mem hp)
  exact fun h => not_mem_nul (hlines l hl) (h ▸ hmem)

/-- Of a list of at least 256 bytes only the first ones are written. -/
lemma not_roundTrip_of_size (hlines : ∀ l ∈ lines, IsLine l) (hcount : lines.length ≤ MAX_DEVICES)
    (hbuffer : Holds buffer lines) (hsize : 256 ≤ lines.flatten.length + 1) :
    ¬RoundTrip stack flash flash_address buffer destination lines := by
  have hflat : lines.flatten.length ≤ lines.length * 63 := length_flatten_le hlines
  have hrows : MAX_DEVICES = 64 := rfl
  have hcols : MAX_LENGTH = 64 := rfl
  have hbytes : MAX_DEVICES * MAX_LENGTH = 4096 := rfl
  have hbytes' : MAX_LENGTH * MAX_DEVICES = 4096 := rfl
  have hsector : FLASH_SIZE_CHUNK = 4096 := rfl
  obtain ⟨flash', hsave, hfile⟩ := saveFlash_eq stack flash flash_address hlines
    hbuffer (by omega)
  have hnone : fetchFileFromCbfs (cbfsFile flash' flash_address) BOOTORDER_SIZE destination =
      none := by
    refine fetchLoop_overrun (k := 4 * ((lines.flatten.length + 1) / 4 % 64) + 4)
      (r := MAX_LENGTH + 1) (by omega) (fun p _ hp => ?_) (fun p hp hp' => ?_) (by omega)
      (Or.inl (by omega))
    · rw [hfile p (by omega), if_pos (by rw [writtenSize]; omega)]
      exact flatten_nul hlines (by omega)
    · rw [hfile p (by omega), if_neg (by rw [writtenSize]; omega)]
  rintro ⟨flash'', hsave', r, hr, -⟩
  obtain rfl := Option.some.inj (hsave.symm.trans hsave')
  rw [hnone] at hr
  cases hr

/-- A smaller list is read, unless there are 64 lines. -/
private lemma fetch_of_size (destination : Table) (hlines : ∀ l ∈ lines, IsLine l)
    (hcount : lines.length ≤ MAX_DEVICES) (hsize : lines.flatten.length + 1 < 256)
    (hfile : Reads dat 0 (lines.flatten ++ [NUL])) :
    ∃ dest', Holds dest' lines ∧ fetchFileFromCbfs dat BOOTORDER_SIZE destination =
      if lines.length < MAX_DEVICES then some (dest', lines.length) else none := by
  have hbytes : MAX_LENGTH * MAX_DEVICES = 4096 := rfl
  have hcols : MAX_LENGTH = 64 := rfl
  have hlength : BOOTORDER_SIZE = 4096 := rfl
  obtain ⟨dest', hrun, hheld, -⟩ := fetchLoop_lines (4096 - lines.flatten.length + 1) destination
    hlines (by omega : 0 + lines.length ≤ MAX_DEVICES) hfile.left
    (by omega : 0 + lines.flatten.length ≤ BOOTORDER_SIZE) (by omega)
  rw [show 4096 - lines.flatten.length + 1 + lines.flatten.length = MAX_LENGTH * MAX_DEVICES + 1 by
    omega, Nat.zero_add] at hrun
  refine ⟨stored dest' lines.length 0 NUL, fun i hi => ?_, ?_⟩
  · have := hheld i hi
    rw [Nat.zero_add] at this
    rwa [stored, Function.update_of_ne (by omega)]
  · rw [fetchFileFromCbfs, hrun]
    split_ifs with hlast
    · exact fetchLoop_nul hlast (by omega) hfile.right.head
    · exact fetchLoop_outside fun h => hlast h.1

/-- A list of at most 64 lines survives exactly if its size, with the terminator, is less than 256
and there are less than 64 lines. -/
theorem saveFlash_fetch_iff (hlines : ∀ l ∈ lines, IsLine l) (hcount : lines.length ≤ MAX_DEVICES)
    (hbuffer : Holds buffer lines) :
    RoundTrip stack flash flash_address buffer destination lines ↔
      lines.flatten.length + 1 < 256 ∧ lines.length < MAX_DEVICES := by
  by_cases hsize : lines.flatten.length + 1 < 256
  · have hbytes : MAX_DEVICES * MAX_LENGTH = 4096 := rfl
    have hsector : FLASH_SIZE_CHUNK = 4096 := rfl
    obtain ⟨flash', hsave, hfile⟩ := saveFlash_eq stack flash flash_address hlines
      hbuffer (by omega)
    have hreads : Reads (cbfsFile flash' flash_address) 0 (lines.flatten ++ [NUL]) := fun i hi => by
      have hi' := hi
      rw [List.length_append, List.length_singleton] at hi'
      rw [Nat.zero_add, hfile i (by omega), if_pos (by rw [writtenSize]; omega),
        List.getElem?_eq_getElem hi,
        Option.getD_some]
    obtain ⟨dest', hheld, hfetch⟩ := fetch_of_size destination hlines hcount hsize
      hreads
    constructor
    · rintro ⟨flash'', hsave', r, hr, -⟩
      obtain rfl := Option.some.inj (hsave.symm.trans hsave')
      rw [hfetch] at hr
      split_ifs at hr with hlast
      · exact ⟨hsize, hlast⟩
      · cases hr
    · rintro ⟨-, hlast⟩
      rw [if_pos hlast] at hfetch
      exact ⟨flash', hsave, _, hfetch, rfl, hheld⟩
  · exact iff_of_false (not_roundTrip_of_size hlines hcount hbuffer (by omega)) fun h => hsize h.1

/-! ### A short list and a long one -/

lemma length_fill (l : List Char8) :
    ((l ++ List.replicate MAX_LENGTH NUL).take MAX_LENGTH).length = MAX_LENGTH := by
  rw [List.length_take, List.length_append, List.length_replicate]
  omega

/-- A row with a line and nothing behind it. -/
def exampleRow (l : List Char8) : Row := ⟨_, length_fill l⟩

lemma exampleRow_prefix (h : IsLine l) : l <+: (exampleRow l).1 := by
  obtain ⟨-, -, -, -, hlen⟩ := h
  change l <+: (l ++ List.replicate MAX_LENGTH NUL).take MAX_LENGTH
  rw [List.take_append, List.take_of_length_le hlen.le]
  exact List.prefix_append _ _

theorem saveFlash_fetch_iff_usb :
    RoundTrip (fun _ => 0) (fun _ => 0) 0x1000 (fun _ => exampleRow [0x75, 0x73, 0x62, 0x0a])
      (fun _ => exampleRow []) [[0x75, 0x73, 0x62, 0x0a]] := by
  have hline : ∀ l ∈ [[0x75, 0x73, 0x62, 0x0a]], IsLine l := by
    intro l hl
    obtain rfl := List.mem_singleton.mp hl
    exact ⟨[0x75, 0x73, 0x62], rfl, by decide, by decide, by decide⟩
  refine (saveFlash_fetch_iff hline (by decide) fun i hi => ?_).mpr ⟨by decide, by decide⟩
  obtain rfl : i = 0 := Nat.lt_one_iff.mp hi
  exact exampleRow_prefix (hline _ List.mem_cons_self)

/-- Five lines of 63 characters. -/
theorem not_roundTrip_of_five_lines :
    ¬RoundTrip (fun _ => 0) (fun _ => 0) 0x1000
      (fun _ => exampleRow (List.replicate 62 0x61 ++ [NEWLINE])) (fun _ => exampleRow [])
      (List.replicate 5 (List.replicate 62 0x61 ++ [NEWLINE])) := by
  have hline : IsLine (List.replicate 62 0x61 ++ [NEWLINE]) :=
    ⟨_, rfl, by decide, by decide, by decide⟩
  refine not_roundTrip_of_size (fun l hl => ?_) (by decide) (fun i hi => ?_) ?_
  · obtain rfl := List.eq_of_mem_replicate hl
    exact hline
  · rw [List.getElem_replicate]
    exact exampleRow_prefix hline
  · rw [List.length_flatten, List.map_replicate]
    decide

end ApuBios.SortBootOrder
