import Mathlib.Data.List.TakeWhile
import ApuBios.Payloads.SortBootOrder.Flash

/-!
# Reading any boot order file

A file is read character by character, and its bounds are checked behind the stores: rows and
columns are compared with their numbers by `>`, so that each check comes one character too late.
-/

namespace ApuBios.SortBootOrder

/-- A text by its lines, each with its newline, and what follows the last newline. -/
structure Split where
  lines : List (List Char8)
  current : List Char8

def Split.push (t : Split) (c : Char8) : Split :=
  if c = NEWLINE then ⟨t.lines ++ [t.current ++ [c]], []⟩ else ⟨t.lines, t.current ++ [c]⟩

def splitLines (text : List Char8) : Split := text.foldl Split.push ⟨[], []⟩

def fileBytes (cbfs_dat : ℕ → Char8) (cbfs_length : ℕ) : List Char8 :=
  (List.range cbfs_length).map cbfs_dat

/-- The file up to its terminator, if it has one. -/
def fileText (cbfs_dat : ℕ → Char8) (cbfs_length : ℕ) : List Char8 :=
  (fileBytes cbfs_dat cbfs_length).takeWhile (· ≠ NUL)

/-- At most 64 lines of at most 64 characters, with the one that has no newline. -/
def Split.Within (t : Split) : Prop :=
  t.lines.length + (if t.current = [] then 0 else 1) ≤ MAX_DEVICES ∧
    (∀ l ∈ t.lines, l.length ≤ MAX_LENGTH) ∧ t.current.length ≤ MAX_LENGTH

/-- The rows hold the lines, and behind them what follows the last newline. -/
structure Split.Stored (t : Split) (table : Table) : Prop where
  lines : Holds table t.lines
  current : t.current <+: (table t.lines.length).1

/-- Nothing is stored outside the table, and of a file within its limits the lines and their number
are returned. -/
def Fetched (cbfs_dat : ℕ → Char8) (cbfs_length : ℕ) (destination : Table) : Prop :=
  ∃ table count, fetchFileFromCbfs cbfs_dat cbfs_length destination = some (table, count) ∧
    ((splitLines (fileText cbfs_dat cbfs_length)).Within →
      count = (splitLines (fileText cbfs_dat cbfs_length)).lines.length ∧
        (splitLines (fileText cbfs_dat cbfs_length)).Stored table)

/-- There is room for one more character behind the text. -/
structure Split.Fits (t : Split) : Prop where
  count : t.lines.length < MAX_DEVICES
  lines : ∀ l ∈ t.lines, l.length ≤ MAX_LENGTH
  current : t.current.length < MAX_LENGTH

variable {t : Split} {dat : ℕ → Char8} {dest : Table} {cs l : List Char8} {c : Char8} {row : Row}
  {n o lc cc cbfs_length : ℕ}

/-! ### Splitting -/

lemma Split.Fits.within (h : t.Fits) : t.Within := by
  refine ⟨?_, h.lines, h.current.le⟩
  have hcount := h.count
  split_ifs <;> omega

lemma Split.push_newline : t.push NEWLINE = ⟨t.lines ++ [t.current ++ [NEWLINE]], []⟩ := if_pos rfl

lemma Split.push_char (hc : c ≠ NEWLINE) : t.push c = ⟨t.lines, t.current ++ [c]⟩ := if_neg hc

/-- What does not fit does not fit with more characters. -/
lemma Split.Fits.of_push (h : (t.push c).Fits) : t.Fits := by
  by_cases hc : c = NEWLINE
  · rw [hc, push_newline] at h
    obtain ⟨hcount, hlines, -⟩ := h
    rw [List.length_append, List.length_singleton] at hcount
    have hlast := hlines (t.current ++ [NEWLINE]) (by simp)
    rw [List.length_append, List.length_singleton] at hlast
    exact ⟨by omega, fun l hl => hlines l (List.mem_append_left _ hl), hlast⟩
  · rw [push_char hc] at h
    obtain ⟨hcount, hlines, hcurrent⟩ := h
    rw [List.length_append, List.length_singleton] at hcurrent
    exact ⟨hcount, hlines, by omega⟩

lemma Split.Fits.of_foldl (h : (cs.foldl Split.push t).Fits) : t.Fits := by
  induction cs generalizing t with
  | nil => exact h
  | cons c cs ih => exact (ih h).of_push

/-- The next character has no place if it makes the text too large. -/
lemma Split.Fits.full (h : t.Fits) (hpush : ¬ (t.push c).Fits) :
    ¬ ((t.push c).lines.length < MAX_DEVICES ∧ (t.push c).current.length < MAX_LENGTH) := by
  rintro ⟨hcount, hcurrent⟩
  refine hpush ⟨hcount, ?_, hcurrent⟩
  by_cases hc : c = NEWLINE
  · rw [hc, push_newline]
    intro l hl
    rcases List.mem_append.mp hl with hl | hl
    · exact h.lines l hl
    · rw [List.mem_singleton.mp hl, List.length_append, List.length_singleton]
      exact h.current
  · rw [push_char hc]
    exact h.lines

def Split.size (t : Split) : ℕ := t.lines.flatten.length + t.current.length

lemma Split.size_push (t : Split) (c : Char8) : (t.push c).size = t.size + 1 := by
  by_cases hc : c = NEWLINE
  · rw [hc, push_newline, size, size, List.flatten_append, List.length_append]
    simp
    omega
  · rw [push_char hc, size, size, List.length_append, List.length_singleton, Nat.add_assoc]

lemma Split.Fits.size (h : t.Fits) : t.size + 1 ≤ MAX_LENGTH * MAX_DEVICES := by
  have hlines : t.lines.flatten.length ≤ t.lines.length * MAX_LENGTH := by
    rw [List.length_flatten]
    refine (List.sum_le_card_nsmul _ MAX_LENGTH ?_).trans_eq ?_
    · intro n hn
      obtain ⟨l, hl, rfl⟩ := List.mem_map.mp hn
      exact h.lines l hl
    · rw [List.length_map, smul_eq_mul]
  have hcount := h.count
  have hcurrent := h.current
  have hmul : t.lines.length * MAX_LENGTH ≤ (MAX_DEVICES - 1) * MAX_LENGTH :=
    Nat.mul_le_mul_right _ (by omega)
  simp only [Split.size, MAX_DEVICES, MAX_LENGTH] at *
  omega

/-! ### Storing -/

lemma prefix_set (h : l <+: row.1) (hl : l.length < MAX_LENGTH) (c : Char8) :
    l ++ [c] <+: (row.set l.length c).1 := by
  have htake : (row.set l.length c).1.take (l.length + 1) = row.1.take l.length ++ [c] := take_set hl
  rw [← List.prefix_iff_eq_take.mp h] at htake
  rw [← htake]
  exact List.take_prefix _ _

/-- The next character is stored behind the text. -/
lemma Split.Stored.push (h : t.Stored dest) (hfits : t.Fits) (c : Char8) :
    (t.push c).Stored (stored dest t.lines.length t.current.length c) ∧
      t.Stored (stored dest t.lines.length t.current.length c) := by
  have hrow := prefix_set h.current hfits.current c
  have hlines : Holds (stored dest t.lines.length t.current.length c) t.lines := by
    intro i hi
    rw [stored, Function.update_of_ne hi.ne]
    exact h.lines i hi
  have hself : (stored dest t.lines.length t.current.length c) t.lines.length =
      (dest t.lines.length).set t.current.length c := Function.update_self _ _ _
  constructor
  · by_cases hc : c = NEWLINE
    · subst hc
      rw [push_newline]
      refine ⟨?_, List.nil_prefix⟩
      intro i hi
      rw [List.length_append, List.length_singleton] at hi
      rcases Nat.lt_succ_iff_lt_or_eq.mp hi with hi | rfl
      · rw [List.getElem_append_left hi]
        exact hlines i hi
      · rw [List.getElem_concat_length rfl, hself]
        exact hrow
    · rw [push_char hc]
      refine ⟨hlines, ?_⟩
      dsimp only
      rw [hself]
      exact hrow
  · refine ⟨hlines, ?_⟩
    rw [hself]
    exact (List.prefix_append _ _).trans hrow

/-! ### The loop -/

/-- The loop behind a text that was read. -/
def fetchFrom (dat : ℕ → Char8) (cbfs_length : ℕ) (dest : Table) (t : Split) : Option (Table × ℕ) :=
  fetchLoop dat cbfs_length (MAX_LENGTH * MAX_DEVICES + 1 - t.size) dest t.lines.length
    t.current.length t.size

lemma fetchFrom_push (hfits : t.Fits) (hnul : dat t.size ≠ NUL)
    (hin : dat t.size ≠ NEWLINE → t.size < cbfs_length) :
    fetchFrom dat cbfs_length dest t = fetchFrom dat cbfs_length
      (stored dest t.lines.length t.current.length (dat t.size)) (t.push (dat t.size)) := by
  have hsize := hfits.size
  have hfuel : MAX_LENGTH * MAX_DEVICES + 1 - t.size =
      MAX_LENGTH * MAX_DEVICES + 1 - (t.push (dat t.size)).size + 1 := by
    rw [Split.size_push]
    omega
  rw [fetchFrom, fetchFrom, hfuel]
  by_cases hc : dat t.size = NEWLINE
  · rw [fetchLoop_newline hfits.count hfits.current hc hsize, hc, Split.size_push,
      Split.push_newline, List.length_append, List.length_singleton, List.length_nil]
  · rw [fetchLoop_char hfits.count hfits.current hc hnul (hin hc) hsize, Split.size_push,
      Split.push_char hc, List.length_append, List.length_singleton]

/-- Nothing ends the loop before a character is stored outside the table. -/
lemma fetchFrom_full (hfits : t.Fits) (hpush : ¬ (t.push c).Fits) :
    fetchFrom dat cbfs_length dest (t.push c) = none := by
  have hsize := hfits.size
  obtain ⟨n, hn⟩ : ∃ n, MAX_LENGTH * MAX_DEVICES + 1 - (t.push c).size = n + 1 := by
    rw [Split.size_push]
    exact ⟨MAX_LENGTH * MAX_DEVICES + 1 - (t.size + 1) - 1, by omega⟩
  rw [fetchFrom, hn, fetchLoop_outside (hfits.full hpush)]

/-- A text that fits is read. -/
lemma fetchFrom_text (hfits : (cs.foldl Split.push t).Fits) (hstored : t.Stored dest)
    (hdat : Reads dat t.size cs) (hnul : NUL ∉ cs) (hlength : t.size + cs.length ≤ cbfs_length) :
    ∃ dest', (cs.foldl Split.push t).Stored dest' ∧
      fetchFrom dat cbfs_length dest t =
        fetchFrom dat cbfs_length dest' (cs.foldl Split.push t) := by
  induction cs generalizing t dest with
  | nil => exact ⟨dest, hstored, rfl⟩
  | cons c cs ih =>
    rw [List.mem_cons, not_or] at hnul
    rw [List.length_cons] at hlength
    have hc := hdat.head
    have ht : t.Fits := Split.Fits.of_push (Split.Fits.of_foldl hfits)
    obtain ⟨dest', hstored', heq⟩ := ih hfits (hstored.push ht c).1
      (by rw [Split.size_push]; exact hdat.tail) hnul.2 (by rw [Split.size_push]; omega)
    refine ⟨dest', hstored', ?_⟩
    rw [fetchFrom_push ht (by rw [hc]; exact Ne.symm hnul.1) (fun _ => by omega), hc]
    exact heq

/-- A text that does not fit is stored outside the table. -/
lemma fetchFrom_overrun (hfits : t.Fits) (hfull : ¬ (cs.foldl Split.push t).Fits)
    (hdat : Reads dat t.size cs) (hnul : NUL ∉ cs) (hlength : t.size + cs.length ≤ cbfs_length) :
    fetchFrom dat cbfs_length dest t = none := by
  induction cs generalizing t dest with
  | nil => exact absurd hfits hfull
  | cons c cs ih =>
    rw [List.mem_cons, not_or] at hnul
    rw [List.length_cons] at hlength
    have hc := hdat.head
    rw [fetchFrom_push hfits (by rw [hc]; exact Ne.symm hnul.1) (fun _ => by omega), hc]
    by_cases hpush : (t.push c).Fits
    · exact ih hpush hfull (by rw [Split.size_push]; exact hdat.tail) hnul.2
        (by rw [Split.size_push]; omega)
    · exact fetchFrom_full hfits hpush

/-- The character that ends the loop is stored behind the text. -/
lemma fetchFrom_stop (hfits : t.Fits) (hnl : dat t.size ≠ NEWLINE)
    (hstop : dat t.size = NUL ∨ cbfs_length ≤ t.size) :
    fetchFrom dat cbfs_length dest t =
      some (stored dest t.lines.length t.current.length (dat t.size), t.lines.length) := by
  have hsize := hfits.size
  obtain ⟨n, hn⟩ : ∃ n, MAX_LENGTH * MAX_DEVICES + 1 - t.size = n + 1 :=
    ⟨MAX_LENGTH * MAX_DEVICES - t.size, by omega⟩
  rw [fetchFrom, hn, fetchLoop, if_pos ⟨hfits.count, hfits.current⟩,
    if_pos ⟨hnl, hstop.imp id Nat.lt_succ_of_le⟩]
  rfl

/-- Lines are only added. -/
lemma fetchLoop_count {table : Table} {count : ℕ}
    (h : fetchLoop dat cbfs_length n dest lc cc o = some (table, count)) : lc ≤ count := by
  induction n generalizing dest lc cc o with
  | zero =>
    rw [fetchLoop, Option.some_inj, Prod.mk.injEq] at h
    exact h.2.le
  | succ n ih =>
    rw [fetchLoop] at h
    dsimp only at h
    split_ifs at h
    · rw [Option.some_inj, Prod.mk.injEq] at h
      exact h.2.le
    · rw [Option.some_inj, Prod.mk.injEq] at h
      omega
    · exact (Nat.le_succ lc).trans (ih h)
    · rw [Option.some_inj, Prod.mk.injEq] at h
      exact h.2.le
    · exact ih h

/-! ### Files -/

lemma fetchFileFromCbfs_eq (dat : ℕ → Char8) (cbfs_length : ℕ) (destination : Table) :
    fetchFileFromCbfs dat cbfs_length destination =
      fetchFrom dat cbfs_length destination ⟨[], []⟩ := rfl

lemma reads_fileBytes (dat : ℕ → Char8) (cbfs_length : ℕ) :
    Reads dat 0 (fileBytes dat cbfs_length) := by
  intro i hi
  simp [fileBytes]

lemma length_fileBytes (dat : ℕ → Char8) (cbfs_length : ℕ) :
    (fileBytes dat cbfs_length).length = cbfs_length := by
  rw [fileBytes, List.length_map, List.length_range]

lemma size_foldl (t : Split) (cs : List Char8) :
    (cs.foldl Split.push t).size = t.size + cs.length := by
  induction cs generalizing t with
  | nil => rfl
  | cons c cs ih =>
    rw [List.foldl_cons, ih, Split.size_push, List.length_cons]
    omega

lemma size_splitLines (text : List Char8) : (splitLines text).size = text.length := by
  rw [splitLines, size_foldl]
  exact Nat.zero_add _

lemma fits_nil : (⟨[], []⟩ : Split).Fits :=
  ⟨by decide, fun _ hl => absurd hl List.not_mem_nil, by decide⟩

lemma stored_nil (destination : Table) : (⟨[], []⟩ : Split).Stored destination :=
  ⟨fun _ hi => absurd hi (Nat.not_lt_zero _), List.nil_prefix⟩

/-- The text is in front of the terminator, or the whole file. -/
lemma fileText_cases (dat : ℕ → Char8) (cbfs_length : ℕ) :
    NUL ∉ fileText dat cbfs_length ∧ Reads dat 0 (fileText dat cbfs_length) ∧
      (NUL ∈ fileBytes dat cbfs_length ∧ (fileText dat cbfs_length).length < cbfs_length ∧
          dat (fileText dat cbfs_length).length = NUL ∨
        NUL ∉ fileBytes dat cbfs_length ∧ (fileText dat cbfs_length).length = cbfs_length) := by
  have hreads := reads_fileBytes dat cbfs_length
  have hlength := length_fileBytes dat cbfs_length
  by_cases hmem : NUL ∈ fileBytes dat cbfs_length
  · obtain ⟨text, rest, heq, hnul⟩ := List.eq_append_cons_of_mem hmem
    have htext : fileText dat cbfs_length = text := by
      rw [fileText, heq, List.takeWhile_append_of_pos fun c hc => by
        simpa using ne_of_mem_of_not_mem hc hnul]
      simp
    rw [heq] at hreads hlength
    rw [List.length_append, List.length_cons] at hlength
    have hlast := hreads.right.head
    rw [Nat.zero_add] at hlast
    rw [htext]
    exact ⟨hnul, hreads.left, .inl ⟨hmem, by omega, hlast⟩⟩
  · have htext : fileText dat cbfs_length = fileBytes dat cbfs_length :=
      List.takeWhile_eq_self_iff.mpr fun c hc => by
        simpa using ne_of_mem_of_not_mem hc hmem
    rw [htext]
    exact ⟨hmem, hreads, .inr ⟨hmem, hlength⟩⟩

/-- What is read of a file that fits. -/
lemma fetchFile_of_fits {destination : Table}
    (hfits : (splitLines (fileText dat cbfs_length)).Fits) :
    ∃ dest', (splitLines (fileText dat cbfs_length)).Stored dest' ∧
      fetchFileFromCbfs dat cbfs_length destination =
        fetchFrom dat cbfs_length dest' (splitLines (fileText dat cbfs_length)) := by
  obtain ⟨hnul, hreads, hend⟩ := fileText_cases dat cbfs_length
  refine fetchFrom_text hfits (stored_nil destination) hreads hnul ?_
  change 0 + _ ≤ _
  rcases hend with ⟨-, hlt, -⟩ | ⟨-, heq⟩ <;> omega

lemma Fetched.fits {destination : Table} (h : Fetched dat cbfs_length destination) :
    (splitLines (fileText dat cbfs_length)).Fits := by
  by_contra hfull
  obtain ⟨table, count, hrun, -⟩ := h
  obtain ⟨hnul, hreads, hend⟩ := fileText_cases dat cbfs_length
  rw [fetchFileFromCbfs_eq, fetchFrom_overrun fits_nil hfull hreads hnul] at hrun
  · cases hrun
  · change 0 + _ ≤ _
    rcases hend with ⟨-, hlt, -⟩ | ⟨-, heq⟩ <;> omega

/-- A newline behind the file is read, and counted. -/
lemma Fetched.end {destination : Table} (h : Fetched dat cbfs_length destination) :
    NUL ∈ fileBytes dat cbfs_length ∨ dat cbfs_length ≠ NEWLINE := by
  by_contra hnot
  obtain ⟨hnul, hnl⟩ := not_or.mp hnot
  rw [not_not] at hnl
  have hfits := h.fits
  obtain ⟨table, count, hrun, hlines⟩ := h
  obtain ⟨hcount, -⟩ := hlines hfits.within
  obtain ⟨dest', -, heq⟩ := @fetchFile_of_fits dat cbfs_length destination hfits
  have hsize : (splitLines (fileText dat cbfs_length)).size = cbfs_length := by
    rw [size_splitLines]
    rcases (fileText_cases dat cbfs_length).2.2 with ⟨hmem, -⟩ | ⟨-, hlength⟩
    · exact absurd hmem hnul
    · exact hlength
  rw [heq, fetchFrom_push hfits (by rw [hsize, hnl]; decide)
    (fun hne => absurd (hsize.symm ▸ hnl) hne), hsize, hnl, Split.push_newline] at hrun
  have hle := fetchLoop_count hrun
  rw [hcount, List.length_append, List.length_singleton] at hle
  omega

/-- A file is read as it is exactly if there is room for a character behind its last line, and no
newline is read from behind the file. -/
theorem fetched_iff (cbfs_dat : ℕ → Char8) (cbfs_length : ℕ) (destination : Table) :
    Fetched cbfs_dat cbfs_length destination ↔
      (splitLines (fileText cbfs_dat cbfs_length)).Fits ∧
        (NUL ∈ fileBytes cbfs_dat cbfs_length ∨ cbfs_dat cbfs_length ≠ NEWLINE) := by
  constructor
  · intro h
    exact ⟨h.fits, h.end⟩
  · rintro ⟨hfits, hend⟩
    obtain ⟨dest', hstored, heq⟩ := @fetchFile_of_fits cbfs_dat cbfs_length destination hfits
    have hsize := size_splitLines (fileText cbfs_dat cbfs_length)
    have hstop : cbfs_dat (splitLines (fileText cbfs_dat cbfs_length)).size ≠ NEWLINE ∧
        (cbfs_dat (splitLines (fileText cbfs_dat cbfs_length)).size = NUL ∨
          cbfs_length ≤ (splitLines (fileText cbfs_dat cbfs_length)).size) := by
      rw [hsize]
      rcases (fileText_cases cbfs_dat cbfs_length).2.2 with ⟨-, -, hnul⟩ | ⟨hnul, hlength⟩
      · rw [hnul]
        exact ⟨by decide, .inl rfl⟩
      · rw [hlength]
        exact ⟨hend.resolve_left hnul, .inr le_rfl⟩
    refine ⟨_, _, heq.trans (fetchFrom_stop hfits hstop.1 hstop.2), fun _ => ⟨rfl, ?_⟩⟩
    exact (hstored.push hfits _).2

/-- A file of 64 empty lines, with a terminator. -/
def emptyLines : ℕ → Char8 := fun i => if i < 64 then NEWLINE else NUL

/-- Behind the last line that the table has room for, the terminator is stored. -/
theorem not_fetched_emptyLines :
    ¬ Fetched emptyLines 65 fun _ => ⟨List.replicate MAX_LENGTH NUL, List.length_replicate⟩ := by
  intro h
  have hcount : (splitLines (fileText emptyLines 65)).lines.length = 64 := by decide
  have hlt := h.fits.count
  rw [hcount] at hlt
  exact absurd hlt (by decide)

end ApuBios.SortBootOrder
