import ApuBios.Lib.Cbmem.Basic

/-!
# The CBMEM table invariant

The table is always the free entry, then the sections in the order they were added, then empty
slots, and the sections followed by the free space tile the area behind the table
(`CbmemArea.WellFormed`). A successful `cbmem_add` moves the front of the free space into a new
section; every other call leaves the area alone.
-/

namespace ApuBios.Cbmem

open Tiling

/-- The table with the given free entry and sections. -/
def layout (free : CbmemEntry) (sections : List CbmemEntry) : List CbmemEntry :=
  free :: (sections ++ List.replicate (MAX_CBMEM_ENTRIES - 1 - sections.length) .zero)

/-- The area consists of the table, the given sections and the free space, in this order. -/
structure CbmemArea.WellFormed (s : CbmemArea) (free : CbmemEntry) (sections : List CbmemEntry) :
    Prop where
  area : IsArea s.baseaddr s.size
  toc_eq : s.toc = layout free sections
  length_le : sections.length ≤ MAX_CBMEM_ENTRIES - 1
  magic : free.magic = CBMEM_MAGIC
  free_id : free.id = CBMEM_ID_FREESPACE
  ids : ∀ e ∈ sections, IsSectionId e.id
  nodup : (sections.map CbmemEntry.id).Nodup
  tiles : Tiles CbmemEntry.base CbmemEntry.size (s.baseaddr + CBMEM_TOC_RESERVED)
    (sections ++ [free]) (s.baseaddr + s.size)

/-! ### Reading the table -/

lemma headD_layout (free : CbmemEntry) (sections : List CbmemEntry) :
    (layout free sections).headD .zero = free := rfl

lemma set_zero_layout (free free' : CbmemEntry) (sections : List CbmemEntry) :
    (layout free sections).set 0 free' = layout free' sections := rfl

lemma find?_layout {free : CbmemEntry} {sections : List CbmemEntry} {id : ℕ}
    (hfree : free.id = CBMEM_ID_FREESPACE) (hid : IsSectionId id) :
    (layout free sections).find? (fun e => e.id == id) = sections.find? fun e => e.id == id := by
  have hhead : (free.id == id) = false := by
    rw [hfree, beq_eq_false_iff_ne]
    exact hid.2.symm
  have hrest : (List.replicate (MAX_CBMEM_ENTRIES - 1 - sections.length) CbmemEntry.zero).find?
      (fun e => e.id == id) = none := by
    rw [List.find?_eq_none]
    intro e he
    obtain rfl := List.eq_of_mem_replicate he
    simpa [CbmemEntry.zero] using hid.1.symm
  rw [layout, List.find?_cons, hhead, List.find?_append, hrest, Option.or_none]

lemma findIdx?_layout {free : CbmemEntry} {sections : List CbmemEntry}
    (hfree : free.id = CBMEM_ID_FREESPACE) (hids : ∀ e ∈ sections, IsSectionId e.id) :
    (layout free sections).findIdx? (fun e => e.id == CBMEM_ID_NONE) =
      if sections.length < MAX_CBMEM_ENTRIES - 1 then some (sections.length + 1) else none := by
  have hhead : (free.id == CBMEM_ID_NONE) = false := by rw [hfree]; rfl
  have hsections : sections.findIdx? (fun e => e.id == CBMEM_ID_NONE) = none := by
    rw [List.findIdx?_eq_none_iff]
    intro e he
    simpa using (hids e he).1
  rw [layout, List.findIdx?_cons, hhead, if_neg Bool.false_ne_true, List.findIdx?_append,
    hsections, Option.none_or]
  split_ifs with hlt
  · obtain ⟨k, hk⟩ := Nat.exists_eq_add_of_lt hlt
    rw [show MAX_CBMEM_ENTRIES - 1 - sections.length = k + 1 by omega, List.replicate_succ,
      List.findIdx?_cons]
    simp [CbmemEntry.zero]
  · rw [Nat.sub_eq_zero_of_le (by omega)]
    simp

lemma set_layout {free new : CbmemEntry} {sections : List CbmemEntry}
    (hlt : sections.length < MAX_CBMEM_ENTRIES - 1) :
    (layout free sections).set (sections.length + 1) new = layout free (sections ++ [new]) := by
  obtain ⟨k, hk⟩ := Nat.exists_eq_add_of_lt hlt
  rw [layout, layout, show MAX_CBMEM_ENTRIES - 1 - sections.length = k + 1 by omega,
    List.length_append, List.length_singleton,
    show MAX_CBMEM_ENTRIES - 1 - (sections.length + 1) = k by omega, List.replicate_succ,
    List.set_cons_succ, List.set_append_right _ _ le_rfl]
  simp

namespace CbmemArea.WellFormed

variable {s : CbmemArea} {free e : CbmemEntry} {sections : List CbmemEntry} {id : ℕ}

lemma free_eq (h : s.WellFormed free sections) : s.free = free := by
  rw [CbmemArea.free, h.toc_eq]
  rfl

lemma used_eq (h : s.WellFormed free sections) : s.used = sections := by
  rw [CbmemArea.used, h.toc_eq, layout, List.tail_cons, List.filter_append,
    List.filter_eq_self.mpr fun e he => by simpa using (h.ids e he).1]
  simp [CbmemEntry.zero]

lemma baseaddr_pointer (h : s.WellFormed free sections) : toPointer s.baseaddr ≠ 0 := by
  have := h.area
  simp only [IsArea, CBMEM_TOC_RESERVED] at this
  rw [toPointer, Nat.mod_eq_of_lt (by omega)]
  omega

/-- The address of a section is a 32-bit pointer other than `NULL`. -/
lemma section_pointer (h : s.WellFormed free sections) (he : e ∈ sections ++ [free]) :
    toPointer e.base = e.base ∧ e.base ≠ 0 := by
  have harea := h.area
  have hbounds := h.tiles.mem_bounds he
  simp only [IsArea, CBMEM_TOC_RESERVED] at harea hbounds
  exact ⟨Nat.mod_eq_of_lt (by omega), by omega⟩

lemma cbmemFind_eq (h : s.WellFormed free sections) (hid : IsSectionId id) :
    cbmemFind s id = ((sections.find? fun e => e.id == id).map CbmemEntry.base).getD 0 := by
  rw [cbmemFind, if_neg h.baseaddr_pointer, h.toc_eq, find?_layout h.free_id hid]
  cases hfind : sections.find? fun e => e.id == id with
  | none => rfl
  | some e =>
    have he := List.mem_of_find?_eq_some hfind
    exact (h.section_pointer (by simp [he])).1

/-- Ids name sections uniquely. -/
lemma cbmemFind_mem (h : s.WellFormed free sections) (he : e ∈ sections) :
    cbmemFind s e.id = e.base := by
  rw [h.cbmemFind_eq (h.ids e he)]
  cases hfind : sections.find? fun f => f.id == e.id with
  | none =>
    have := List.find?_eq_none.mp hfind e he
    simp at this
  | some f =>
    have hid : f.id = e.id := by simpa using List.find?_some hfind
    obtain rfl := List.inj_on_of_nodup_map h.nodup (List.mem_of_find?_eq_some hfind) he hid
    rfl

lemma cbmemFind_ne_zero (h : s.WellFormed free sections) (hid : IsSectionId id) :
    cbmemFind s id ≠ 0 ↔ ∃ e ∈ sections, e.id = id := by
  rw [h.cbmemFind_eq hid]
  cases hfind : sections.find? fun e => e.id == id with
  | none => simpa using hfind
  | some e =>
    have he := List.mem_of_find?_eq_some hfind
    have := List.find?_some hfind
    simp only [Option.map_some, Option.getD_some]
    exact iff_of_true (h.section_pointer (by simp [he])).2 ⟨e, he, by simpa using this⟩

/-! ### Adding a section -/

/-- A call for a section that is present, or that does not fit, leaves the area alone; any other
call takes a block from the front of the free space, gives it the requested id and returns its
address. -/
lemma cbmemAdd_cases (h : s.WellFormed free sections) (hid : IsSectionId id) (size : ℕ) :
    (cbmemAdd s id size = (s, cbmemFind s id) ∧
        (cbmemFind s id ≠ 0 ∨ free.size < size ∨ MAX_CBMEM_ENTRIES - 1 ≤ sections.length)) ∨
      (cbmemFind s id = 0 ∧ sections.length < MAX_CBMEM_ENTRIES - 1 ∧
        ∃ size', size' ≤ free.size ∧ size ≤ size' ∧
        (cbmemAdd s id size).2 = free.base ∧
        (cbmemAdd s id size).1.WellFormed
          { free with base := free.base + size', size := free.size - size' }
          (sections ++ [⟨CBMEM_MAGIC, id, free.base, size'⟩])) := by
  have harea := h.area
  have hbounds := h.tiles.mem_bounds (x := free) (by simp)
  simp only [IsArea, CBMEM_TOC_RESERVED] at harea hbounds
  have hmagic : s.free.magic = CBMEM_MAGIC := h.free_eq ▸ h.magic
  rw [cbmemAdd]
  by_cases hfind : cbmemFind s id = 0
  swap
  · rw [if_pos hfind]
    exact Or.inl ⟨rfl, Or.inl hfind⟩
  rw [if_neg (not_not.mpr hfind), if_neg h.baseaddr_pointer, if_neg (not_not.mpr hmagic),
    h.free_eq]
  by_cases hfit : free.size < size
  · rw [if_pos hfit, hfind]
    exact Or.inl ⟨rfl, Or.inr (Or.inl hfit)⟩
  rw [if_neg hfit]
  -- what is taken never exceeds the free space, however the request is rounded
  set size' := if Word.alignUp 64 size 512 < free.size then Word.alignUp 64 size 512
    else free.size with hsize'
  have hle : size' ≤ free.size := by
    rw [hsize']
    split_ifs <;> omega
  have hge : size ≤ size' := by
    have hround := Word.roundUp_lt (x := size) (k := 9)
    rw [hsize', show (512 : ℕ) = 2 ^ 9 by norm_num, Word.alignUp_eq (by norm_num) (by omega)]
    have := Word.le_roundUp (x := size) (k := 9)
    split_ifs <;> omega
  by_cases hroom : sections.length < MAX_CBMEM_ENTRIES - 1
  swap
  · simp only [h.toc_eq, findIdx?_layout h.free_id h.ids, if_neg hroom, hfind]
    exact Or.inl ⟨trivial, Or.inr (Or.inr (not_lt.mp hroom))⟩
  refine Or.inr ⟨hfind, hroom, size', hle, hge, ?_⟩
  have hadd : Word.add 64 free.base size' = free.base + size' := Word.add_eq (by omega)
  have hsub : Word.sub 64 free.size size' = free.size - size' := Word.sub_eq hle (by omega)
  have hbase := (h.section_pointer (e := free) (by simp)).1
  simp only [h.toc_eq, findIdx?_layout h.free_id h.ids, if_pos hroom, set_layout hroom,
    headD_layout, set_zero_layout, hadd, hsub]
  refine ⟨?_, h.area, rfl, ?_, h.magic, h.free_id, ?_, ?_, ?_⟩
  · rw [layout, List.getD_cons_succ, List.getD_append _ _ _ _ (by simp)]
    simpa using hbase
  · rw [List.length_append, List.length_singleton]
    omega
  · intro e he
    rcases List.mem_append.mp he with he | he
    · exact h.ids e he
    · obtain rfl := List.mem_singleton.mp he
      exact hid
  · have hnew : id ∉ sections.map CbmemEntry.id := fun hmem => by
      obtain ⟨e, he, heq⟩ := List.mem_map.mp hmem
      exact (h.cbmemFind_ne_zero hid).mpr ⟨e, he, heq⟩ hfind
    simpa [List.nodup_append, h.nodup] using fun e he heq => hnew (List.mem_map.mpr ⟨e, he, heq⟩)
  · obtain ⟨c, hpre, hfree, hend⟩ := tiles_append.mp h.tiles
    rw [List.append_assoc]
    refine tiles_append.mpr ⟨c, hpre, hfree, by rw [← hfree], ?_⟩
    simp only [tiles_nil] at hend ⊢
    omega

end CbmemArea.WellFormed

/-! ### Runs -/

/-- Some table contents describe the area. -/
def CbmemArea.Sound (s : CbmemArea) : Prop := ∃ free sections, s.WellFormed free sections

lemma cbmemInitializeEmpty_wellFormed {baseaddr size : ℕ} (harea : IsArea baseaddr size)
    (garbage : List CbmemEntry) :
    (cbmemInitializeEmpty ⟨baseaddr, size, garbage⟩).WellFormed
      ⟨CBMEM_MAGIC, CBMEM_ID_FREESPACE, baseaddr + CBMEM_TOC_RESERVED,
        size - CBMEM_TOC_RESERVED⟩ [] := by
  obtain ⟨hpos, hroom, hfit⟩ := harea
  have hnum : CBMEM_TOC_RESERVED = 512 := rfl
  rw [cbmemInitializeEmpty, if_neg (by simp only; omega),
    Word.add_eq (show baseaddr + CBMEM_TOC_RESERVED < 2 ^ 64 by omega),
    Word.sub_eq hroom (show size < 2 ^ 64 by omega)]
  refine ⟨⟨hpos, hroom, hfit⟩, rfl, by simp, rfl, rfl, by simp, by simp, ?_⟩
  simp only [List.nil_append, tiles_cons, tiles_nil, true_and]
  omega

/-- One call keeps the table well formed, never moves the area, and keeps every section. -/
lemma Call.exec_wellFormed {c : Call} (hc : IsSectionId c.id) {s : CbmemArea} {free : CbmemEntry}
    {sections : List CbmemEntry} (h : s.WellFormed free sections) :
    ∃ free' new, (Call.exec s c).WellFormed free' (sections ++ new) ∧
      (Call.exec s c).baseaddr = s.baseaddr ∧ (Call.exec s c).size = s.size := by
  cases c with
  | find id => exact ⟨free, [], by simpa [Call.exec] using h, rfl, rfl⟩
  | add id size =>
    have hplace : (cbmemAdd s id size).1.baseaddr = s.baseaddr ∧
        (cbmemAdd s id size).1.size = s.size := by
      rw [cbmemAdd]
      grind
    rcases h.cbmemAdd_cases hc size with ⟨heq, -⟩ | ⟨-, -, size', -, -, -, hwf⟩
    · have hsame : (cbmemAdd s id size).1 = s := congrArg Prod.fst heq
      exact ⟨free, [], by rwa [Call.exec, hsame, List.append_nil], hplace⟩
    · exact ⟨_, _, hwf, hplace⟩

/-- Over a run the table stays well formed and sections stay in it where they are. -/
lemma exec_wellFormed {calls : List Call} (hcalls : ∀ c ∈ calls, IsSectionId c.id)
    {s : CbmemArea} {free : CbmemEntry} {sections : List CbmemEntry}
    (h : s.WellFormed free sections) :
    ∃ free' new, (exec s calls).WellFormed free' (sections ++ new) ∧
      (exec s calls).baseaddr = s.baseaddr ∧ (exec s calls).size = s.size := by
  induction calls generalizing s free sections with
  | nil => exact ⟨free, [], by simpa [exec] using h, rfl, rfl⟩
  | cons c calls ih =>
    obtain ⟨free₁, new₁, hwf₁, hbase₁, hsize₁⟩ := Call.exec_wellFormed (hcalls c (by simp)) h
    obtain ⟨free₂, new₂, hwf₂, hbase₂, hsize₂⟩ :=
      ih (fun d hd => hcalls d (by simp [hd])) hwf₁
    exact ⟨free₂, new₁ ++ new₂, by rwa [← List.append_assoc],
      hbase₂.trans hbase₁, hsize₂.trans hsize₁⟩

/-- A section is no smaller than the least request for it. -/
lemma exec_le_size (id n : ℕ) {calls : List Call} (hcalls : ∀ c ∈ calls, IsSectionId c.id)
    (hadd : ∀ k, Call.add id k ∈ calls → n ≤ k) {s : CbmemArea} {free : CbmemEntry}
    {sections : List CbmemEntry} (h : s.WellFormed free sections)
    (hle : ∀ e ∈ sections, e.id = id → n ≤ e.size) :
    ∃ free' sections', (exec s calls).WellFormed free' sections' ∧
      ∀ e ∈ sections', e.id = id → n ≤ e.size := by
  induction calls generalizing s free sections with
  | nil => exact ⟨free, sections, h, hle⟩
  | cons c calls ih =>
    rw [List.forall_mem_cons] at hcalls
    have hadd' : ∀ k, Call.add id k ∈ calls → n ≤ k :=
      fun k hk => hadd k (List.mem_cons_of_mem _ hk)
    cases c with
    | find => exact ih hcalls.2 hadd' h hle
    | add id' k =>
      rcases h.cbmemAdd_cases hcalls.1 k with ⟨heq, -⟩ | ⟨-, -, k', -, hk, -, hwf⟩
      · have hsame : Call.exec s (.add id' k) = s := congrArg Prod.fst heq
        rw [exec, List.foldl_cons, hsame]
        exact ih hcalls.2 hadd' h hle
      · refine ih hcalls.2 hadd' hwf fun e he hid => ?_
        rcases List.mem_append.mp he with he | he
        · exact hle e he hid
        · obtain rfl := List.mem_singleton.mp he
          have hid' : id' = id := hid
          exact (hadd k (by rw [hid']; exact List.mem_cons_self)).trans hk

/-- A section that can be found stays at its address for the rest of the run. -/
lemma cbmemFind_exec {calls : List Call} (hcalls : ∀ c ∈ calls, IsSectionId c.id)
    {s : CbmemArea} {free : CbmemEntry} {sections : List CbmemEntry}
    (h : s.WellFormed free sections) {id : ℕ} (hid : IsSectionId id)
    (hfind : cbmemFind s id ≠ 0) : cbmemFind (exec s calls) id = cbmemFind s id := by
  obtain ⟨free', new, hwf, -, -⟩ := exec_wellFormed hcalls h
  rw [hwf.cbmemFind_eq hid, h.cbmemFind_eq hid, List.find?_append]
  rw [h.cbmemFind_eq hid] at hfind
  cases hsec : sections.find? fun e => e.id == id with
  | none => simp [hsec] at hfind
  | some e => simp

/-- A section just added is found at the address that was returned. -/
lemma cbmemFind_cbmemAdd {s : CbmemArea} {free : CbmemEntry} {sections : List CbmemEntry}
    (h : s.WellFormed free sections) {id : ℕ} (hid : IsSectionId id) (size : ℕ) :
    cbmemFind (cbmemAdd s id size).1 id = (cbmemAdd s id size).2 := by
  rcases h.cbmemAdd_cases hid size with ⟨heq, -⟩ | ⟨hnone, -, size', -, -, hp, hwf⟩
  · rw [heq]
  · rw [hwf.cbmemFind_eq hid, hp, List.find?_append]
    cases hsec : sections.find? fun e => e.id == id with
    | none => simp
    | some e =>
      rw [h.cbmemFind_eq hid, hsec] at hnone
      exact absurd hnone (h.section_pointer (by simp [List.mem_of_find?_eq_some hsec])).2

/-- `cbmem_add` returns an address exactly for a section that is present, or that fits the free
space and finds an empty slot. -/
lemma cbmemAdd_ne_zero {s : CbmemArea} {free : CbmemEntry} {sections : List CbmemEntry}
    (h : s.WellFormed free sections) {id : ℕ} (hid : IsSectionId id) (size : ℕ) :
    (cbmemAdd s id size).2 ≠ 0 ↔ cbmemFind s id ≠ 0 ∨
      size ≤ free.size ∧ sections.length < MAX_CBMEM_ENTRIES - 1 := by
  rcases h.cbmemAdd_cases hid size with ⟨heq, hwhy⟩ | ⟨-, hroom, size', hle, hge, hp, -⟩
  · rw [heq]
    refine ⟨Or.inl, ?_⟩
    rintro (hfind | hfit)
    · exact hfind
    · exact hwhy.resolve_right (by omega)
  · rw [hp]
    exact iff_of_true (h.section_pointer (e := free) (by simp)).2
      (Or.inr ⟨hge.trans hle, hroom⟩)

/-- A section that was absent and is given an address is the last one of the table, and no smaller
than requested. -/
lemma cbmemAdd_used {s : CbmemArea} {free : CbmemEntry} {sections : List CbmemEntry}
    (h : s.WellFormed free sections) {id : ℕ} (hid : IsSectionId id) {size : ℕ}
    (hnone : cbmemFind s id = 0) (hne : (cbmemAdd s id size).2 ≠ 0) :
    ∃ e, (cbmemAdd s id size).1.used = sections ++ [e] ∧ e.id = id ∧
      e.base = (cbmemAdd s id size).2 ∧ size ≤ e.size := by
  rcases h.cbmemAdd_cases hid size with ⟨heq, -⟩ | ⟨-, -, size', -, hge, hp, hwf⟩
  · rw [heq] at hne
    exact absurd hnone hne
  · exact ⟨_, hwf.used_eq, rfl, hp.symm, hge⟩

/-- In every state of a run the sections and the free space tile the area behind the table, the
sections are pairwise disjoint and their sizes add up to a constant; adding a section that is
present returns its address and changes nothing, an added section is found at its address for
the rest of the run, and a call that fails changes nothing. A section that is absent is added
exactly if it fits the free space and a slot is empty, and is no smaller than requested. -/
theorem run_tiles {baseaddr size : ℕ} (harea : IsArea baseaddr size) (garbage : List CbmemEntry)
    (calls : List Call) (hcalls : ∀ c ∈ calls, IsSectionId c.id) :
    let s := run baseaddr size garbage calls
    s.free.id = CBMEM_ID_FREESPACE ∧
    Tiles CbmemEntry.base CbmemEntry.size (baseaddr + CBMEM_TOC_RESERVED) (s.used ++ [s.free])
      (baseaddr + size) ∧
    s.used.Pairwise (fun e f => e.base + e.size ≤ f.base) ∧
    ((s.used ++ [s.free]).map CbmemEntry.size).sum = size - CBMEM_TOC_RESERVED ∧
    (∀ e ∈ s.used, ∀ n, cbmemAdd s e.id n = (s, e.base)) ∧
    (∀ id n later, IsSectionId id → (∀ c ∈ later, IsSectionId c.id) → (cbmemAdd s id n).2 ≠ 0 →
      cbmemFind (exec (cbmemAdd s id n).1 later) id = (cbmemAdd s id n).2) ∧
    (∀ id n, IsSectionId id → (cbmemAdd s id n).2 = 0 → (cbmemAdd s id n).1 = s) ∧
    (∀ id n, IsSectionId id → ((cbmemAdd s id n).2 ≠ 0 ↔ cbmemFind s id ≠ 0 ∨
      n ≤ s.free.size ∧ s.used.length < MAX_CBMEM_ENTRIES - 1)) ∧
    (∀ id n, IsSectionId id → cbmemFind s id = 0 → (cbmemAdd s id n).2 ≠ 0 →
      ∃ e, (cbmemAdd s id n).1.used = s.used ++ [e] ∧ e.id = id ∧
        e.base = (cbmemAdd s id n).2 ∧ n ≤ e.size) := by
  intro s
  obtain ⟨free, sections, h, hbase, hsize⟩ :=
    exec_wellFormed hcalls (cbmemInitializeEmpty_wellFormed harea garbage)
  change s.WellFormed free _ at h
  have hbase' : s.baseaddr = baseaddr := hbase.trans (by rw [cbmemInitializeEmpty]; split <;> rfl)
  have hsize' : s.size = size := hsize.trans (by rw [cbmemInitializeEmpty]; split <;> rfl)
  have htiles := h.tiles
  rw [List.nil_append] at h
  rw [List.nil_append, hbase', hsize'] at htiles
  rw [h.free_eq, h.used_eq]
  refine ⟨h.free_id, htiles, (List.pairwise_append.mp htiles.pairwise).1, ?_, fun e he n => ?_,
    fun id n later hid hlater hne => ?_, fun id n hid hzero => ?_,
    fun id n hid => cbmemAdd_ne_zero h hid n,
    fun id n hid hnone hne => cbmemAdd_used h hid hnone hne⟩
  · have := htiles.sum_len
    omega
  · rcases h.cbmemAdd_cases (h.ids e he) n with ⟨heq, -⟩ | ⟨hnone, -⟩
    · rw [heq, h.cbmemFind_mem he]
    · exact absurd hnone ((h.cbmemFind_ne_zero (h.ids e he)).mpr ⟨e, he, rfl⟩)
  · have hfind := cbmemFind_cbmemAdd h hid n
    obtain ⟨free', new, hwf, -, -⟩ := Call.exec_wellFormed (c := .add id n) hid h
    exact (cbmemFind_exec hlater hwf hid (hfind ▸ hne)).trans hfind
  · rcases h.cbmemAdd_cases hid n with ⟨heq, -⟩ | ⟨-, -, size', -, -, hp, -⟩
    · rw [heq]
    · exact absurd (hp ▸ hzero) (h.section_pointer (e := free) (by simp)).2

theorem run_tiles_two_sections :
    let s := run 0x1000 0x1000 [] [.add 7 100, .find 7, .add 8 0x2000]
    Tiles CbmemEntry.base CbmemEntry.size (0x1000 + CBMEM_TOC_RESERVED) (s.used ++ [s.free])
        (0x1000 + 0x1000) ∧
      cbmemFind (exec (cbmemAdd s 9 600).1 [.add 7 5]) 9 = (cbmemAdd s 9 600).2 ∧
      (cbmemAdd s 9 0x2000).1 = s ∧ (cbmemAdd s 9 600).2 ≠ 0 ∧
      ∃ e, (cbmemAdd s 9 600).1.used = s.used ++ [e] ∧ e.id = 9 ∧
        e.base = (cbmemAdd s 9 600).2 ∧ 600 ≤ e.size := by
  have h := run_tiles (show IsArea 0x1000 0x1000 by decide) []
    [.add 7 100, .find 7, .add 8 0x2000] (by decide)
  obtain ⟨-, htiles, -, -, -, hfound, hfails, hadds, hnew⟩ := h
  exact ⟨htiles, hfound 9 600 [.add 7 5] (by decide) (by decide) (by decide),
    hfails 9 0x2000 (by decide) (by decide), (hadds 9 600 (by decide)).mpr (by decide),
    hnew 9 600 (by decide) (by decide) (by decide)⟩

end ApuBios.Cbmem
