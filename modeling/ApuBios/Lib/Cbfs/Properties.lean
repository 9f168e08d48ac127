import ApuBios.Lib.Cbfs.Basic

/-!
# The search for a file

A search that ends without a division by zero returns a record with the name that was asked for.
Whether it ends depends on the records it meets: each one says where the next one is.
-/

namespace ApuBios.Cbfs

open Orbit

variable {m : Mem} {name : CString} {s : Search} {offset p : ℕ}

/-- A record with this name. -/
structure IsRecord (m : Mem) (name : CString) (p : ℕ) : Prop where
  magic : m.slice p 8 = CBFS_FILE_MAGIC
  name : m.Holds (p + sizeofCbfsFile) (name.1 ++ [0])

/-- `cbfs_get_file` returns `NULL` or a record with the name that was asked for. -/
def Finds (memory : Mem) (romSize : ℕ) (name : CString) : Prop :=
  ∃ fuel p, cbfsGetFile memory romSize fuel name = some (.returned p) ∧
    (p ≠ 0 → IsRecord (flat memory) name p)

/-! ### One round -/

/-- The record at `offset` is taken for the file. -/
structure Matches (m : Mem) (name : CString) (s : Search) (offset : ℕ) : Prop where
  inside : offset < s.romsize
  magic : m.slice (x86RomMap s.context offset) 8 = CBFS_FILE_MAGIC
  mapped : x86RomMap s.context (Word.add 32 offset sizeofCbfsFile) ≠ CBFS_MEDIA_INVALID_MAP_ADDRESS
  name : m.Holds (x86RomMap s.context (Word.add 32 offset sizeofCbfsFile)) (name.1 ++ [0])

/-- The offset that the search goes on with. -/
def nextRecord (m : Mem) (name : CString) (s : Search) (offset : ℕ) : Option ℕ :=
  match cbfsRound m name s offset with
  | .goto offset => some offset
  | _ => none

/-- What one round can do. -/
inductive RoundCases (m : Mem) (name : CString) (s : Search) (offset : ℕ) : Round → Prop where
  | behind (h : s.romsize ≤ offset) : RoundCases m name s offset (.stop 0)
  | found (h : Matches m name s offset) :
    RoundCases m name s offset (.stop (x86RomMap s.context offset))
  | divisionByZero (h : offset < s.romsize) (h' : ¬Matches m name s offset) (halign : s.align = 0) :
    RoundCases m name s offset .divisionByZero
  | goto (h : offset < s.romsize) (h' : ¬Matches m name s offset) (halign : s.align ≠ 0)
    {offset' : ℕ} (hlt : offset' < 2 ^ 32) : RoundCases m name s offset (.goto offset')

lemma alignOffset_lt {align : ℕ} (h : offset < 2 ^ 32) : alignOffset align offset < 2 ^ 32 := by
  rw [alignOffset]
  split_ifs
  · exact Word.add_lt
  · exact h

lemma cbfsRound_cases (m : Mem) (name : CString) (s : Search) (offset : ℕ) :
    RoundCases m name s offset (cbfsRound m name s offset) := by
  by_cases hbehind : s.romsize ≤ offset
  · rw [cbfsRound, if_pos hbehind]
    exact .behind hbehind
  have hinside : offset < s.romsize := not_le.mp hbehind
  by_cases hmagic : m.slice (x86RomMap s.context offset) 8 = CBFS_FILE_MAGIC
  · have hiff := Mem.strcmp_eq_zero_iff_holds (m := m)
      (p := x86RomMap s.context (Word.add 32 offset sizeofCbfsFile)) name.2
    rw [cbfsRound, if_neg hbehind]
    simp only [hmagic, ne_eq, not_true_eq_false, if_false]
    split_ifs with hname halign
    · exact .found ⟨hinside, hmagic, hname.1, hiff.mp hname.2⟩
    · exact .divisionByZero hinside (fun h => hname ⟨h.mapped, hiff.mpr h.name⟩) halign
    · exact .goto hinside (fun h => hname ⟨h.mapped, hiff.mpr h.name⟩) halign (alignOffset_lt Word.add_lt)
  · have hnot : ¬Matches m name s offset := fun h => hmagic h.magic
    rw [cbfsRound, if_neg hbehind, if_pos hmagic]
    by_cases halign : s.align = 0
    · rw [if_pos halign]
      exact .divisionByZero hinside hnot halign
    · rw [if_neg halign]
      exact .goto hinside hnot halign Word.add_lt

lemma Matches.round_eq (h : Matches m name s offset) :
    cbfsRound m name s offset = .stop (x86RomMap s.context offset) := by
  have hcases := cbfsRound_cases m name s offset
  generalize cbfsRound m name s offset = round at hcases
  cases hcases with
  | behind hbehind => exact absurd h.inside (not_lt.mpr hbehind)
  | found => rfl
  | divisionByZero _ hnot => exact absurd h hnot
  | goto _ hnot => exact absurd h hnot

lemma round_eq_of_le (h : s.romsize ≤ offset) : cbfsRound m name s offset = .stop 0 := by
  rw [cbfsRound, if_pos h]

lemma nextRecord_lt {offset' : ℕ} (h : offset' ∈ nextRecord m name s offset) :
    offset' < 2 ^ 32 := by
  have hcases := cbfsRound_cases m name s offset
  rw [nextRecord] at h
  generalize cbfsRound m name s offset = round at h hcases
  cases hcases with
  | goto _ _ _ hlt => exact Option.some.inj h ▸ hlt
  | behind => cases h
  | found => cases h
  | divisionByZero => cases h

/-! ### The search -/

lemma nextRecord_eq_none (h : nextRecord m name s p = none) :
    (∃ q, cbfsRound m name s p = .stop q) ∨ cbfsRound m name s p = .divisionByZero := by
  rw [nextRecord] at h
  cases hround : cbfsRound m name s p with
  | stop q => exact Or.inl ⟨q, rfl⟩
  | divisionByZero => exact Or.inr rfl
  | goto offset => simp [hround] at h

/-- The search ends with what the last round comes to. -/
lemma cbfsLoop_of_orbit {out : Outcome} {n : ℕ}
    (h : orbit (nextRecord m name s) n offset = some p)
    (hout : ∀ fuel, cbfsLoop m name s (fuel + 1) p = some out) :
    cbfsLoop m name s (n + 1) offset = some out := by
  induction n generalizing offset with
  | zero =>
    obtain rfl : offset = p := Option.some.inj h
    exact hout 0
  | succ n ih =>
    rw [orbit, nextRecord] at h
    rw [cbfsLoop]
    cases hnext : cbfsRound m name s offset with
    | goto offset' =>
      rw [hnext] at h
      exact ih h
    | stop p => simp [hnext] at h
    | divisionByZero => simp [hnext] at h

lemma exists_last_of_cbfsLoop {fuel q : ℕ} (h : cbfsLoop m name s fuel offset = some (.returned q)) :
    ∃ n p, orbit (nextRecord m name s) n offset = some p ∧ cbfsRound m name s p = .stop q := by
  induction fuel generalizing offset with
  | zero => cases h
  | succ fuel ih =>
    rw [cbfsLoop] at h
    cases hround : cbfsRound m name s offset with
    | stop p =>
      rw [hround] at h
      obtain rfl : p = q := Outcome.returned.inj (Option.some.inj h)
      exact ⟨0, offset, rfl, hround⟩
    | divisionByZero => simp [hround] at h
    | goto offset' =>
      rw [hround] at h
      obtain ⟨n, p, hn, hp⟩ := ih h
      exact ⟨n + 1, p, by rw [orbit, nextRecord, hround]; exact hn, hp⟩

/-- The images in which a search comes to its end. -/
structure Searchable (m : Mem) (name : CString) (s : Search) (offset : ℕ) : Prop where
  /-- Without an alignment, only the first record may be looked at. -/
  aligned : s.align ≠ 0 ∨ s.romsize ≤ offset ∨ Matches m name s offset
  /-- No record leads back to an earlier one. -/
  forward : ¬Revisits (nextRecord m name s) offset
  /-- The name that is compared is the one behind the record that is returned. -/
  whole : ∀ n p, orbit (nextRecord m name s) n offset = some p → Matches m name s p →
    x86RomMap s.context p = 0 ∨ m.Holds (x86RomMap s.context p + sizeofCbfsFile) (name.1 ++ [0])

lemma Searchable.exists_stop (h : Searchable m name s offset) (hlt : offset < 2 ^ 32) :
    ∃ n p q, orbit (nextRecord m name s) n offset = some p ∧ cbfsRound m name s p = .stop q ∧
      (q ≠ 0 → IsRecord m name q) := by
  have hends : Ends (nextRecord m name s) offset :=
    (ends_iff_not_revisits (Set.finite_Iio (2 ^ 32)) (fun a _ b hb => nextRecord_lt hb) hlt).mpr
      h.forward
  obtain ⟨n, p, hn, hp⟩ := ends_iff_exists_last.mp hends
  have hcases := cbfsRound_cases m name s p
  rcases nextRecord_eq_none hp with ⟨q, hround⟩ | hround
  · refine ⟨n, p, q, hn, hround, fun hq => ?_⟩
    rw [hround] at hcases
    cases hcases with
    | behind => exact absurd rfl hq
    | found hmatch => exact ⟨hmatch.magic, (h.whole n p hn hmatch).resolve_left hq⟩
  · -- a division by zero needs more than one record
    rw [hround] at hcases
    cases hcases with
    | divisionByZero hinside hnot halign =>
      obtain ⟨q, hstop⟩ : ∃ q, cbfsRound m name s offset = .stop q := by
        rcases h.aligned with hne | hbehind | hmatch
        · exact absurd halign hne
        · exact ⟨0, round_eq_of_le hbehind⟩
        · exact ⟨_, hmatch.round_eq⟩
      have hnone : nextRecord m name s offset = none := by rw [nextRecord, hstop]
      obtain rfl := last_unique (show orbit (nextRecord m name s) 0 offset = some offset from rfl)
        hnone hn hp
      rw [hstop] at hround
      cases hround

lemma searchable_of_stop {fuel q : ℕ} (h : cbfsLoop m name s fuel offset = some (.returned q))
    (hq : q ≠ 0 → IsRecord m name q) : Searchable m name s offset := by
  obtain ⟨n, p, hn, hstop⟩ := exists_last_of_cbfsLoop h
  have hnone : nextRecord m name s p = none := by rw [nextRecord, hstop]
  refine ⟨?_, fun hrevisits => hrevisits.not_ends (ends_iff_exists_last.mpr ⟨n, p, hn, hnone⟩), ?_⟩
  · by_cases halign : s.align = 0
    · right
      have hcases := cbfsRound_cases m name s offset
      cases hround : cbfsRound m name s offset with
      | stop r =>
        rw [hround] at hcases
        cases hcases with
        | behind hbehind => exact Or.inl hbehind
        | found hmatch => exact Or.inr hmatch
      | divisionByZero =>
        have hnone' : nextRecord m name s offset = none := by rw [nextRecord, hround]
        obtain rfl := last_unique
          (show orbit (nextRecord m name s) 0 offset = some offset from rfl) hnone' hn hnone
        rw [hround] at hstop
        cases hstop
      | goto offset' =>
        rw [hround] at hcases
        cases hcases with
        | goto _ _ hne => exact absurd halign hne
    · exact Or.inl halign
  · intro k p' hk hmatch
    have hround := hmatch.round_eq
    have hnone' : nextRecord m name s p' = none := by rw [nextRecord, hround]
    obtain rfl := last_unique hn hnone hk hnone'
    rw [hstop] at hround
    obtain rfl := Round.stop.inj hround
    by_cases hzero : x86RomMap s.context p = 0
    · exact Or.inl hzero
    · exact Or.inr (hq hzero).name

/-- Where the search comes to a right end, the records lead to one. -/
lemma Finds.searchable {memory : Mem} {romSize : ℕ} {name : CString} (h : Finds memory romSize name) :
    ∀ header ∈ cbfsGetHeader (flat memory) (initX86romCbfsMedia (flat memory) romSize),
      Searchable (flat memory) name
        (searchOf (flat memory) (initX86romCbfsMedia (flat memory) romSize) header)
        (firstOffset (flat memory) header) := by
  intro header hheader
  obtain ⟨fuel, p, hloop, hp⟩ := h
  rw [cbfsGetFile, Option.mem_def.mp hheader] at hloop
  exact searchable_of_stop hloop hp

/-- The search finds the file, or that there is none, exactly if there is no master header, or the
records lead from the first one to an end. -/
theorem finds_iff_searchable (memory : Mem) (romSize : ℕ) (name : CString) :
    Finds memory romSize name ↔
      ∀ header ∈ cbfsGetHeader (flat memory) (initX86romCbfsMedia (flat memory) romSize),
        Searchable (flat memory) name
          (searchOf (flat memory) (initX86romCbfsMedia (flat memory) romSize) header)
          (firstOffset (flat memory) header) := by
  refine ⟨Finds.searchable, fun h => ?_⟩
  rw [Finds]
  simp only [cbfsGetFile]
  cases hheader : cbfsGetHeader (flat memory) (initX86romCbfsMedia (flat memory) romSize) with
  | none => exact ⟨0, 0, rfl, fun h => absurd rfl h⟩
  | some header =>
    obtain ⟨n, p, q, hn, hstop, hq⟩ := (h header hheader).exists_stop (ntohl_lt _)
    refine ⟨n + 1, q, cbfsLoop_of_orbit hn fun fuel => ?_, hq⟩
    rw [cbfsLoop, hstop]

/-! ### Regular images -/

lemma holds_flat_congr {q : ℕ} {bs : List UInt8} (h : p % 2 ^ 32 = q % 2 ^ 32) :
    (flat m).Holds p bs ↔ (flat m).Holds q bs := by
  induction bs generalizing p q with
  | nil => rfl
  | cons b bs ih =>
    rw [Mem.holds_cons, Mem.holds_cons, flat, flat, h]
    exact and_congr_right fun _ => ih (by omega)

/-- The records of an image lie one behind the other, away from the top of the address space. -/
structure Regular (m : Mem) (s : Search) : Prop where
  aligned : 0 < s.align
  fits : s.romsize + 2 * s.align ≤ 2 ^ 32
  low : s.romsize + sizeofCbfsFile ≤ 0xf0000000
  records : ∀ offset < s.romsize,
    0 < be32 m (x86RomMap s.context offset + 8) + be32 m (x86RomMap s.context offset + 20) ∧
      offset + (be32 m (x86RomMap s.context offset + 8) +
        be32 m (x86RomMap s.context offset + 20)) + s.align < 2 ^ 32

lemma le_alignOffset {align : ℕ} (halign : 0 < align) (h : offset + align < 2 ^ 32) :
    offset ≤ alignOffset align offset := by
  have hmod := Nat.mod_lt offset halign
  rw [alignOffset]
  split_ifs
  · rw [Word.add_eq (by omega)]
    omega
  · exact le_rfl

lemma Regular.lt_nextRecord (h : Regular m s) {offset' : ℕ}
    (hnext : offset' ∈ nextRecord m name s offset) : offset < offset' ∧ offset < s.romsize := by
  have hfits := h.fits
  have halign := h.aligned
  have hmod := Nat.mod_lt offset halign
  rw [nextRecord] at hnext
  by_cases hbehind : s.romsize ≤ offset
  · rw [round_eq_of_le hbehind] at hnext
    cases hnext
  have hinside : offset < s.romsize := not_le.mp hbehind
  obtain ⟨hpos, hend⟩ := h.records offset hinside
  refine ⟨?_, hinside⟩
  rw [cbfsRound, if_neg hbehind] at hnext
  by_cases hmagic : m.slice (x86RomMap s.context offset) 8 = CBFS_FILE_MAGIC
  · simp only [hmagic, ne_eq, not_true_eq_false, if_false, halign.ne'] at hnext
    split_ifs at hnext
    · cases hnext
    · obtain rfl := Option.some.inj hnext
      have hsum : Word.add 32 (be32 m (x86RomMap s.context offset + 8))
          (be32 m (x86RomMap s.context offset + 20)) = _ := Word.add_eq (by omega)
      rw [hsum, Word.add_eq (by omega)]
      exact (Nat.lt_add_of_pos_right hpos).trans_le (le_alignOffset halign hend)
  · simp only [hmagic, ne_eq, not_false_eq_true, if_true, halign.ne', if_false] at hnext
    obtain rfl := Option.some.inj hnext
    have hskip : s.align + (s.align - offset % s.align) < 2 ^ 32 := by omega
    split_ifs
    · rw [Word.add_eq (by omega)]
      omega
    · rw [Word.add_eq hskip, Word.add_eq (by omega)]
      omega

/-- In a regular image the search comes to its end. -/
theorem Regular.searchable {memory : Mem} (h : Regular (flat memory) s) :
    Searchable (flat memory) name s offset where
  aligned := Or.inl h.aligned.ne'
  forward hrevisits := hrevisits.not_ends
    (ends_of_lt s.romsize fun _ _ hb => h.lt_nextRecord hb)
  whole n p _ hmatch := by
    have hlow := h.low
    have hinside := hmatch.inside
    have hname := hmatch.name
    have hsize : sizeofCbfsFile = 24 := rfl
    right
    rw [Word.add_eq (by omega)] at hname
    refine (holds_flat_congr ?_).mp hname
    rw [x86RomMap, x86RomMap, if_neg (by omega), if_neg (by omega), Word.add, Word.add]
    omega

/-- A flash of 8 MiB in which an update stopped behind the magic of the first record. -/
def interrupted : Mem :=
  let erased : Mem := fun _ => 0xff
  let header := [0x4f, 0x52, 0x42, 0x43, 0x31, 0x31, 0x31, 0x32, 0, 0x80, 0, 0, 0, 0, 4, 0,
    0, 0, 0, 0x40, 0, 0, 0, 0]
  ((erased.writeBytes 0xff800000 CBFS_FILE_MAGIC).writeBytes 0xffff0000 header).writeBytes
    0xfffffffc [0, 0, 0xff, 0xff]

/-- The erased lengths of the first record lead back to it. -/
theorem not_finds_interrupted : ¬∀ memory romSize name, Finds memory romSize name := by
  intro h
  have hsearch := (h interrupted 0x800000 ⟨[0x61], by decide⟩).searchable 0xffff0000 (by decide +kernel)
  exact hsearch.forward ⟨0, 1, 0, by decide, by decide +kernel, by decide +kernel⟩

end ApuBios.Cbfs
