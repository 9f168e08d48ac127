import ApuBios.Library.Tiling
import ApuBios.Libpayload.Ohci.Basic

/-!
# Transfers of the OHCI driver

Each descriptor but the last one takes what is left of a page and the page after it. The number of
descriptors, which is computed from the number of pages, is the number that the buffer needs.
-/

namespace ApuBios.Ohci

open Usb Tiling

variable {cur td : Td} {mem : ℕ → ℕ} {config data dalen i left extra : ℕ} {pages : ℤ}

/-- A buffer lies in the address space. -/
structure Buffer where
  data : ℕ
  dalen : ℕ
  le : data + dalen ≤ 2 ^ 32

/-! ### One descriptor -/

namespace Td

/-- How many bytes there are from the start of the buffer to its end, which is in the same page, or else
in a second one. -/
def len (td : Td) : ℕ :=
  if td.bufferEnd / 4096 = td.currentBufferPointer / 4096 then td.bufferEnd + 1 - td.currentBufferPointer
  else 4096 - td.currentBufferPointer % 4096 + (td.bufferEnd % 4096 + 1)

/-- The end of the buffer is in the page of its start or in the one after it. -/
def TwoPages (td : Td) : Prop :=
  td.currentBufferPointer ≤ td.bufferEnd ∧
    td.bufferEnd / 4096 ≤ td.currentBufferPointer / 4096 + 1

end Td

lemma lastByte_eq (hdalen : 0 < dalen) (hle : data + dalen ≤ 2 ^ 32) :
    lastByte data dalen = data + dalen - 1 := Word.sub_add_one (by omega) hle

lemma pageCount_eq (hle : data + dalen ≤ 2 ^ 32) :
    pageCount data dalen = if dalen = 0 then 0 else (data + dalen - 1) / 4096 - data / 4096 + 1 := by
  rw [pageCount]
  by_cases hzero : dalen = 0
  · simp only [if_pos hzero]
  · have hmono : data / 4096 ≤ (data + dalen - 1) / 4096 := Nat.div_le_div_right (by omega)
    simp only [if_neg hzero]
    rw [lastByte_eq (by omega) hle, if_neg (by omega)]

/-- How many bytes of a buffer a descriptor takes. -/
def pieceLen (data dalen : ℕ) : ℕ := min dalen (8192 - data % 4096)

/-- What is left of a buffer of which a descriptor has taken its part. -/
lemma fillEnd_rest :
    (fillEnd cur ⟨data, dalen, pages⟩).2 =
      if dalen ≤ 4096 - data % 4096 then ⟨data, 0, pages⟩
      else ⟨Word.add 32 data (pieceLen data dalen), dalen - pieceLen data dalen, pages - 1⟩ := by
  rw [fillEnd]
  simp only [ge_iff_le]
  split
  · rfl
  · rename_i hlt
    rw [pieceLen]
    simp only [Rest.mk.injEq, and_true, Word.add]
    split <;> omega

/-- What is left of a buffer that does not fit starts behind the piece. -/
lemma fillEnd_rest_of_lt (hle : data + dalen ≤ 2 ^ 32) (hlt : pieceLen data dalen < dalen) :
    (fillEnd cur ⟨data, dalen, pages⟩).2 =
      ⟨data + pieceLen data dalen, dalen - pieceLen data dalen, pages - 1⟩ := by
  have hadd : Word.add 32 data (pieceLen data dalen) = data + pieceLen data dalen :=
    Word.add_eq (by omega)
  rw [pieceLen] at hlt
  rw [fillEnd_rest, if_neg (by omega), hadd]

lemma virtToPhys_lastByte (hdalen : 0 < dalen) (hle : data + dalen ≤ 2 ^ 32) :
    virtToPhys (lastByte data dalen) = data + dalen - 1 := by
  have hlt : data + dalen - 1 < 2 ^ 32 := by omega
  rw [lastByte_eq hdalen hle, virtToPhys_eq, Nat.mod_eq_of_lt hlt]

lemma fillEnd_td (hdalen : 0 < dalen) (hle : data + dalen ≤ 2 ^ 32) :
    (fillEnd cur ⟨data, dalen, pages⟩).1 =
      { cur with bufferEnd := data + pieceLen data dalen - 1 } := by
  have hmod : data % 4096 < 4096 := Nat.mod_lt _ (by norm_num)
  rw [fillEnd]
  simp only [ge_iff_le]
  split
  · have hpiece : pieceLen data dalen = dalen := min_eq_left (by omega)
    rw [virtToPhys_lastByte hdalen hle, hpiece]
  · have hdata : Word.add 32 data (4096 - data % 4096) = data + (4096 - data % 4096) :=
      Word.add_eq (by omega)
    have hend : data + (4096 - data % 4096) +
        (if 4096 < dalen - (4096 - data % 4096) then 4096 else dalen - (4096 - data % 4096)) - 1 =
          data + pieceLen data dalen - 1 := by
      rw [pieceLen]
      split <;> omega
    simp only [gt_iff_lt, hdata]
    rw [virtToPhys_lastByte (by split <;> omega) (by split <;> omega), hend]

lemma pieceLen_le (data dalen : ℕ) : pieceLen data dalen ≤ dalen := min_le_left ..

/-- The part of a descriptor lies in two pages. -/
lemma twoPages_piece (hdalen : 0 < dalen) (hstart : td.currentBufferPointer = data)
    (hend : td.bufferEnd = data + pieceLen data dalen - 1) :
    td.len = pieceLen data dalen ∧ td.TwoPages := by
  have hpos : 0 < pieceLen data dalen := by
    rw [pieceLen]
    omega
  have hbound : data % 4096 + pieceLen data dalen ≤ 8192 := by
    rw [pieceLen]
    omega
  rw [Td.len, Td.TwoPages, hstart, hend]
  refine ⟨?_, by omega, by omega⟩
  split <;> omega

/-- A buffer that does not fit has two pages more than what is left of it. -/
lemma pageCount_rest (hle : data + dalen ≤ 2 ^ 32) (hlt : pieceLen data dalen < dalen) :
    pageCount (data + pieceLen data dalen) (dalen - pieceLen data dalen) + 2 = pageCount data dalen := by
  have hpiece : pieceLen data dalen = 8192 - data % 4096 := by
    rw [pieceLen] at hlt ⊢
    omega
  rw [pageCount_eq hle, pageCount_eq (by omega), if_neg (by omega), if_neg (by omega)]
  omega

/-- A buffer that fits has one or two pages. -/
lemma pageCount_last (hdalen : 0 < dalen) (hle : data + dalen ≤ 2 ^ 32)
    (heq : pieceLen data dalen = dalen) : (pageCount data dalen + 1) / 2 = 1 := by
  rw [pieceLen] at heq
  rw [pageCount_eq hle, if_neg (by omega)]
  omega

/-! ### The descriptors of a buffer -/

/-- Descriptors that cover a buffer in order, each within two pages. -/
structure Pieces (data dalen : ℕ) (tds : List Td) : Prop where
  tiles : Tiles Td.currentBufferPointer Td.len data tds (data + dalen)
  twoPages : ∀ td ∈ tds, td.TwoPages

/-- A descriptor for an empty packet. -/
def Td.Empty (td : Td) : Prop := td.currentBufferPointer = 0

lemma bulkLoop_succ (r : Rest) : bulkLoop mem config (left + 1) i r =
    let cur := if r.dalen = 0 then ⟨config, 0, 0, 0⟩ else ⟨config, virtToPhys r.data, 0, 0⟩
    let filled := fillEnd cur { r with pages := r.pages - 1 }
    ({ filled.1 with nextTd := virtToPhys (mem (i + 1)) } ::
      (bulkLoop mem config left (i + 1) filled.2).1, (bulkLoop mem config left (i + 1) filled.2).2) := rfl

/-- If nothing is left of the buffer, all descriptors are for empty packets. -/
lemma bulkLoop_empty (mem : ℕ → ℕ) (config left i : ℕ) (r : Rest) (hr : r.dalen = 0) :
    ∃ empties, bulkLoop mem config left i r = (empties, 0) ∧ empties.length = left ∧
      ∀ td ∈ empties, td.Empty := by
  induction left generalizing i r with
  | zero => exact ⟨[], by rw [bulkLoop, hr], rfl, by simp⟩
  | succ left ih =>
    have hfill (cur : Td) (pages : ℤ) : fillEnd cur { r with pages := pages } =
        ({ cur with bufferEnd := virtToPhys (lastByte r.data r.dalen) },
          { r with dalen := 0, pages := pages }) := by
      have hend : 4096 - r.data % 4096 ≥ r.dalen := by omega
      exact if_pos hend
    obtain ⟨empties, hloop, hlength, hempty⟩ := ih (i + 1) ⟨r.data, 0, r.pages - 1⟩ rfl
    rw [bulkLoop_succ]
    simp only [if_pos hr, hfill, hloop]
    refine ⟨_, rfl, by simp [hlength], fun td htd => ?_⟩
    rcases List.mem_cons.mp htd with rfl | htd
    · rfl
    · exact hempty td htd

/-- If something is left of the buffer, the first descriptor takes a piece of it. -/
lemma bulkLoop_first (mem : ℕ → ℕ) (config left i : ℕ) (pages : ℤ) (hpos : 0 < dalen)
    (hle : data + dalen ≤ 2 ^ 32) :
    ∃ td r, bulkLoop mem config (left + 1) i ⟨data, dalen, pages⟩ =
        (td :: (bulkLoop mem config left (i + 1) r).1, (bulkLoop mem config left (i + 1) r).2) ∧
      r = (fillEnd ⟨config, virtToPhys data, 0, 0⟩ ⟨data, dalen, pages - 1⟩).2 ∧
      td.currentBufferPointer = data ∧ td.len = pieceLen data dalen ∧ td.TwoPages := by
  set filled := fillEnd ⟨config, virtToPhys data, 0, 0⟩ ⟨data, dalen, pages - 1⟩ with hfilled
  have hround : bulkLoop mem config (left + 1) i ⟨data, dalen, pages⟩ =
      ({ filled.1 with nextTd := virtToPhys (mem (i + 1)) } ::
        (bulkLoop mem config left (i + 1) filled.2).1, (bulkLoop mem config left (i + 1) filled.2).2) := by
    rw [bulkLoop_succ]
    simp only [if_neg hpos.ne']
    rfl
  have hstart : filled.1.currentBufferPointer = data := by
    rw [hfilled, fillEnd_td hpos hle, virtToPhys_eq]
    exact Nat.mod_eq_of_lt (by omega)
  have hend : filled.1.bufferEnd = data + pieceLen data dalen - 1 := by
    rw [hfilled, fillEnd_td hpos hle]
  exact ⟨_, _, hround, rfl, hstart, twoPages_piece hpos hstart hend⟩

/-- As many descriptors as the pages need cover the buffer, and the ones after them are empty. -/
lemma bulkLoop_pieces (mem : ℕ → ℕ) (config i : ℕ) (pages : ℤ) (hle : data + dalen ≤ 2 ^ 32)
    (hleft : left = (pageCount data dalen + 1) / 2 + extra) :
    ∃ tds empties, bulkLoop mem config left i ⟨data, dalen, pages⟩ = (tds ++ empties, 0) ∧
      Pieces data dalen tds ∧ empties.length = extra ∧ ∀ td ∈ empties, td.Empty := by
  induction left generalizing i data dalen pages with
  | zero =>
    have hzero : dalen = 0 := by
      by_contra hne
      rw [pageCount_eq hle, if_neg hne] at hleft
      omega
    refine ⟨[], [], ?_, ⟨by simp [hzero], by simp⟩, ?_, by simp⟩
    · rw [hzero]
      rfl
    · rw [List.length_nil]
      omega
  | succ left ih =>
    rcases Nat.eq_zero_or_pos dalen with rfl | hpos
    · obtain ⟨empties, hloop, hlength, hempty⟩ :=
        bulkLoop_empty mem config (left + 1) i ⟨data, 0, pages⟩ rfl
      refine ⟨[], empties, hloop, ⟨by simp, by simp⟩, ?_, hempty⟩
      rw [hlength, hleft, pageCount_eq hle]
      simp
    · obtain ⟨td, r, hround, hr, hstart, hlen, htwo⟩ := bulkLoop_first mem config left i pages hpos hle
      rw [hround]
      rcases (pieceLen_le data dalen).eq_or_lt with heq | hlt
      · -- nothing is left of the buffer
        have hnone : r.dalen = 0 := by
          rw [hr, fillEnd_rest]
          split
          · rfl
          · exact Nat.sub_eq_zero_of_le heq.ge
        obtain ⟨empties, hloop, hlength, hempty⟩ := bulkLoop_empty mem config left (i + 1) r hnone
        have hcount := pageCount_last hpos hle heq
        refine ⟨[td], empties, by rw [hloop]; rfl, ⟨⟨hstart, ?_⟩, by simpa using htwo⟩, by omega, hempty⟩
        rw [hlen, heq]
        rfl
      · -- the rest of the buffer starts at a page
        have hcount := pageCount_rest hle hlt
        have hrest : r = ⟨data + pieceLen data dalen, dalen - pieceLen data dalen, pages - 1 - 1⟩ := by
          rw [hr, fillEnd_rest_of_lt hle hlt]
        obtain ⟨tds, empties, hloop, hpieces, hlength, hempty⟩ :=
          ih (i + 1) (pages - 1 - 1) (by omega : data + pieceLen data dalen + (dalen - pieceLen data dalen) ≤ _)
            (by omega)
        refine ⟨td :: tds, empties, by rw [hrest, hloop]; rfl, ⟨⟨hstart, ?_⟩, ?_⟩, hlength, hempty⟩
        · have htiles := hpieces.tiles
          rw [hlen]
          convert htiles using 1
          omega
        · intro x hx
          rcases List.mem_cons.mp hx with rfl | hx
          · exact htwo
          · exact hpieces.twoPages x hx

/-- Each descriptor is linked to the one that is allocated after it. -/
def Linked (mem : ℕ → ℕ) (i : ℕ) (tds : List Td) : Prop :=
  ∀ (j : ℕ) (hj : j < tds.length), tds[j].nextTd = virtToPhys (mem (i + j + 1))

lemma linked_bulkLoop (mem : ℕ → ℕ) (config left i : ℕ) (r : Rest) :
    Linked mem i (bulkLoop mem config left i r).1 := by
  induction left generalizing i r with
  | zero =>
    intro j hj
    exact absurd hj (Nat.not_lt_zero j)
  | succ left ih =>
    intro j hj
    rcases j with _ | j
    · rfl
    · have hrest := ih (i := i + 1) _ j (Nat.lt_of_succ_lt_succ hj)
      rw [Nat.add_right_comm i 1 j, Nat.add_assoc i j 1] at hrest
      exact hrest

lemma dataLoop_succ {fuel : ℕ} {r : Rest} (h : r.pages > 0) :
    dataLoop mem config (fuel + 1) i r =
      let filled := fillEnd ⟨config, virtToPhys r.data, 0, 0⟩ { r with pages := r.pages - 1 }
      (dataLoop mem config fuel (i + 1) filled.2).map fun tds =>
        ({ filled.1 with nextTd := virtToPhys (mem (i + 2)) } :: tds.1, tds.2) :=
  if_pos h

lemma dataLoop_done {fuel : ℕ} {r : Rest} (hfuel : 0 < fuel) (h : r.pages ≤ 0) :
    dataLoop mem config fuel i r = some ([], r.dalen) := by
  obtain ⟨fuel, rfl⟩ := Nat.exists_eq_succ_of_ne_zero hfuel.ne'
  rw [dataLoop, if_neg (by omega)]

/-- The loop of `ohci_control` queues the same descriptors as the one of `ohci_bulk` without an empty
packet. -/
lemma dataLoop_eq (mem : ℕ → ℕ) (config i : ℕ) {fuel : ℕ} (hle : data + dalen ≤ 2 ^ 32)
    (hfuel : pageCount data dalen < fuel) :
    dataLoop mem config fuel i ⟨data, dalen, pageCount data dalen⟩ =
      some (bulkLoop mem config ((pageCount data dalen + 1) / 2) (i + 1)
        ⟨data, dalen, pageCount data dalen⟩) := by
  induction fuel generalizing i data dalen with
  | zero => exact absurd hfuel (Nat.not_lt_zero _)
  | succ fuel ih =>
    rcases Nat.eq_zero_or_pos dalen with rfl | hpos
    · have hzero : pageCount data 0 = 0 := by rw [pageCount_eq hle, if_pos rfl]
      rw [hzero]
      rfl
    · have hcount := pageCount_eq hle
      rw [if_neg hpos.ne'] at hcount
      set pages := pageCount data dalen with hpages
      set r := (fillEnd ⟨config, virtToPhys data, 0, 0⟩ ⟨data, dalen, (pages : ℤ) - 1⟩).2 with hr
      rw [dataLoop_succ (by rw [gt_iff_lt, Nat.cast_pos]; omega)]
      simp only [← hr]
      rcases (pieceLen_le data dalen).eq_or_lt with heq | hlt
      · -- nothing is left of the buffer
        have hone : (pages + 1) / 2 = 1 := pageCount_last hpos hle heq
        have hnone : r.pages ≤ 0 := by
          rw [hr, fillEnd_rest]
          split
          · rename_i hfit
            simp only
            omega
          · simp only
            omega
        rw [dataLoop_done (by omega) hnone, hone, bulkLoop_succ]
        simp only [if_neg hpos.ne', ← hr]
        rfl
      · -- the rest of the buffer starts at a page
        have htwo := pageCount_rest hle hlt
        set pages' := pageCount (data + pieceLen data dalen) (dalen - pieceLen data dalen) with hpages'
        have hrest : r = ⟨data + pieceLen data dalen, dalen - pieceLen data dalen, pages'⟩ := by
          have hpages'' : (pages : ℤ) - 1 - 1 = pages' := by omega
          rw [hr, fillEnd_rest_of_lt hle hlt, hpages'']
        have hleft : (pages + 1) / 2 = (pages' + 1) / 2 + 1 := by omega
        rw [hleft, bulkLoop_succ]
        simp only [if_neg hpos.ne', ← hr]
        rw [hrest, ih (i + 1) (by omega) (by omega)]
        rfl

/-! ### Whole transfers -/

/-- What is changed in one descriptor does not matter if its buffer and its link stay. -/
lemma Pieces.modify {tds : List Td} {f : Td → Td} (k : ℕ) (h : Pieces data dalen tds)
    (hstart : ∀ td, (f td).currentBufferPointer = td.currentBufferPointer)
    (hend : ∀ td, (f td).bufferEnd = td.bufferEnd) : Pieces data dalen (tds.modify k f) := by
  refine ⟨(tiles_modify hstart fun td => ?_).mpr h.tiles, fun td htd => ?_⟩
  · rw [Td.len, Td.len, hstart, hend]
  · obtain ⟨j, hj, rfl⟩ := List.mem_iff_getElem.mp htd
    rw [List.length_modify] at hj
    rw [List.getElem_modify]
    split
    · rw [Td.TwoPages, hstart, hend]
      exact h.twoPages _ (List.getElem_mem hj)
    · exact h.twoPages _ (List.getElem_mem hj)

lemma modify_append (tds empties : List Td) (f : Td → Td) (k : ℕ) :
    ∃ j, (tds ++ empties).modify k f = tds.modify k f ++ empties.modify j f := by
  induction tds generalizing k with
  | nil => exact ⟨k, by simp⟩
  | cons td tds ih =>
    cases k with
    | zero => exact ⟨empties.length, by simp [List.modify_eq_self]⟩
    | succ k =>
      obtain ⟨j, hj⟩ := ih k
      exact ⟨j, by simp [hj]⟩

lemma linked_modify {tds : List Td} {f : Td → Td} (k : ℕ) (h : Linked mem i tds)
    (hnext : ∀ td, (f td).nextTd = td.nextTd) : Linked mem i (tds.modify k f) := by
  intro j hj
  rw [List.length_modify] at hj
  rw [List.getElem_modify]
  split
  · rw [hnext]
    exact h j hj
  · exact h j hj

/-- Descriptors that cover a buffer which is not at address zero are not empty. -/
lemma Pieces.not_empty {tds : List Td} (h : Pieces data dalen tds) (hdata : data ≠ 0) :
    ∀ td ∈ tds, ¬td.Empty := by
  intro td htd hempty
  have hstart := (h.tiles.mem_bounds htd).1
  rw [Td.Empty] at hempty
  omega

lemma ohciBulk_pieces (mem : ℕ → ℕ) (ep : Endpoint) (finalize : Bool) (hle : data + dalen ≤ 2 ^ 32) :
    ∃ tds empties, ohciBulk mem ep dalen data finalize = (tds ++ empties, 0) ∧
      Pieces data dalen tds ∧ Linked mem 0 (tds ++ empties) ∧
      empties.length = (if finalize ∧ dalen % ep.maxpacketsize = 0 then 1 else 0) ∧
      ∀ td ∈ empties, td.Empty := by
  set extra := if finalize ∧ dalen % ep.maxpacketsize = 0 then 1 else 0 with hextra
  set config := (if ep.direction = .in_ then tdDirectionIn else tdDirectionOut) |||
    tdDelayInterruptNointr ||| tdToggleFromEd ||| tdCcNoaccess with hconfig
  obtain ⟨tds, empties, hloop, hpieces, hlength, hempty⟩ :=
    bulkLoop_pieces mem config 0 (pageCount data dalen) hle (Eq.refl ((pageCount data dalen + 1) / 2 + extra))
  have hlinked := linked_bulkLoop mem config ((pageCount data dalen + 1) / 2 + extra) 0
    ⟨data, dalen, pageCount data dalen⟩
  rw [hloop] at hlinked
  set f : Td → Td := fun cur => { cur with config := cur.config &&& Word.not 32 tdDelayInterruptMask } with hf
  have hcount : (if finalize ∧ dalen % ep.maxpacketsize = 0 then (pageCount data dalen + 1) / 2 + 1
      else (pageCount data dalen + 1) / 2) = (pageCount data dalen + 1) / 2 + extra := by
    rw [hextra]
    split <;> rfl
  have hbulk : ohciBulk mem ep dalen data finalize =
      ((tds ++ empties).modify ((tds ++ empties).length - 1) f, 0) := by
    rw [ohciBulk]
    simp only [hcount]
    rw [hloop]
  obtain ⟨j, hmodify⟩ := modify_append tds empties f ((tds ++ empties).length - 1)
  have hlinked' := linked_modify ((tds ++ empties).length - 1) hlinked (f := f) fun _ => rfl
  rw [hmodify] at hbulk hlinked'
  refine ⟨_, _, hbulk, hpieces.modify _ (fun _ => rfl) (fun _ => rfl), hlinked', ?_, fun td htd => ?_⟩
  · rw [List.length_modify, hlength]
  · obtain ⟨n, hn, rfl⟩ := List.mem_iff_getElem.mp htd
    rw [List.length_modify] at hn
    rw [List.getElem_modify]
    split
    · exact hempty empties[n] (List.getElem_mem hn)
    · exact hempty empties[n] (List.getElem_mem hn)

/-- The descriptors between the one for the request and the one for the status. -/
lemma ohciControl_pieces (mem : ℕ → ℕ) (dir : Direction) (drlen devreq : ℕ)
    (hle : data + dalen ≤ 2 ^ 32) :
    ∃ tds, (∀ fuel, pageCount data dalen < fuel → ohciControl mem dir drlen devreq dalen data fuel =
        some (firstTd drlen devreq (mem 1) :: tds ++ [statusTd dir (mem (tds.length + 2))], 0)) ∧
      Pieces data dalen tds ∧ Linked mem 1 tds := by
  set config := (if dir = .in_ then tdDirectionIn else tdDirectionOut) ||| tdDelayInterruptNointr |||
    tdToggleFromEd ||| tdCcNoaccess with hconfig
  obtain ⟨tds, empties, hloop, hpieces, hlength, -⟩ := bulkLoop_pieces mem config 1 (pageCount data dalen)
    hle (Eq.refl ((pageCount data dalen + 1) / 2 + 0))
  have hlinked := linked_bulkLoop mem config ((pageCount data dalen + 1) / 2) 1
    ⟨data, dalen, pageCount data dalen⟩
  rw [Nat.add_zero, List.eq_nil_of_length_eq_zero hlength, List.append_nil] at hloop
  rw [hloop] at hlinked
  refine ⟨tds, fun fuel hfuel => ?_, hpieces, hlinked⟩
  rw [ohciControl, dataLoop_eq mem _ 0 hle hfuel, ← hconfig, hloop]
  rfl

/-- The descriptors of a bulk transfer, and those of the data stage of a control transfer, cover the buffer
in order and leave no byte of it. A bulk transfer ends with an empty packet exactly if that is asked for
and the last packet is a whole one. -/
theorem transfers_cover (mem : ℕ → ℕ) (buf : Buffer) :
    (∀ (ep : Endpoint) (finalize : Bool), ∃ tds empties,
      ohciBulk mem ep buf.dalen buf.data finalize = (tds ++ empties, 0) ∧
        Pieces buf.data buf.dalen tds ∧ Linked mem 0 (tds ++ empties) ∧
        (buf.data ≠ 0 → ∀ td ∈ tds, ¬td.Empty) ∧
        empties.length = (if finalize ∧ buf.dalen % ep.maxpacketsize = 0 then 1 else 0) ∧
        ∀ td ∈ empties, td.Empty) ∧
    ∀ (dir : Direction) (drlen devreq : ℕ), ∃ tds,
      (∀ fuel, pageCount buf.data buf.dalen < fuel →
        ohciControl mem dir drlen devreq buf.dalen buf.data fuel =
          some (firstTd drlen devreq (mem 1) :: tds ++ [statusTd dir (mem (tds.length + 2))], 0)) ∧
        Pieces buf.data buf.dalen tds ∧ Linked mem 1 tds ∧
        (buf.data ≠ 0 → ∀ td ∈ tds, ¬td.Empty) := by
  refine ⟨fun ep finalize => ?_, fun dir drlen devreq => ?_⟩
  · obtain ⟨tds, empties, hbulk, hpieces, hlinked, hlength, hempty⟩ :=
      ohciBulk_pieces mem ep finalize buf.le
    exact ⟨tds, empties, hbulk, hpieces, hlinked, hpieces.not_empty, hlength, hempty⟩
  · obtain ⟨tds, hcontrol, hpieces, hlinked⟩ := ohciControl_pieces mem dir drlen devreq buf.le
    exact ⟨tds, hcontrol, hpieces, hlinked, hpieces.not_empty⟩

/-- A buffer in three pages, of a whole number of packets. -/
def threePages : Buffer := ⟨0x1ff0, 0x1800, by decide⟩

theorem transfers_cover_threePages :
    ∃ tds empties, ohciBulk (fun i => 0x4000 + 16 * i) ⟨1, .in_, 0, 64, 2, 0⟩ 0x1800 0x1ff0 true =
        (tds ++ empties, 0) ∧
      Pieces 0x1ff0 0x1800 tds ∧ (∀ td ∈ tds, ¬td.Empty) ∧ empties.length = 1 := by
  obtain ⟨tds, empties, hbulk, hpieces, -, hne, hlength, -⟩ :=
    (transfers_cover (fun i => 0x4000 + 16 * i) threePages).1 ⟨1, .in_, 0, 64, 2, 0⟩ true
  exact ⟨tds, empties, hbulk, hpieces, hne (by decide), hlength.trans (if_pos (by decide))⟩

end ApuBios.Ohci
