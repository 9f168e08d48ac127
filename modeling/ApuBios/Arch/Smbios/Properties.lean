import ApuBios.Arch.Smbios.Structures

/-!
# What a reader finds in the tables

A table is read back when each of its structures has its two zero bytes and the table is shorter
than 64 KiB. A set without strings has only one zero byte, as `smbios_string_table_len` counts it.
-/

namespace ApuBios.Smbios

open Mem

variable {d : Definition} {m m₀ : Mem} {t fuel handle tables k : ℕ} {ss : List CString}
  {bs rest : List UInt8}

/-! ### The bytes of one structure -/

/-- A structure of the type is read, whatever follows. -/
def IsStructure (type : ℕ) (bs : List UInt8) : Prop :=
  ∃ s : Structure, s.type = type ∧ s.Valid ∧ ∀ rest, readStructure (bs ++ rest) = some (s, rest)

/-- Nothing is read, if a structure of any type but 0 follows. -/
def IsBroken (bs : List UInt8) : Prop :=
  ∀ b rest, b ≠ 0 → readStructure (bs ++ b :: rest) = none

/-- The type of a structure, and whether its string set has both zero bytes. -/
structure Piece where
  type : ℕ
  complete : Prop

/-- The bytes of a structure. -/
structure Piece.Is (p : Piece) (bs : List UInt8) : Prop where
  head : ∃ b bs', bs = b :: bs' ∧ b.toNat = p.type
  complete : p.complete → IsStructure p.type bs
  broken : ¬p.complete → IsBroken bs

lemma readStructure_formatted {formatted : List UInt8} (h₄ : 4 ≤ formatted.length)
    (h : (formatted.getD 1 0).toNat = formatted.length) :
    readStructure (formatted ++ rest) =
      (readStringSet rest).map fun r => (⟨formatted, r.1⟩, r.2) := by
  have hlength : ((formatted ++ rest).getD 1 0).toNat = formatted.length := by
    rw [List.getD_append _ _ _ _ (by omega), h]
  rw [readStructure, hlength, if_pos ⟨h₄, by simp⟩, List.drop_left, List.take_left]

private lemma getD_slice {p n i : ℕ} (h : i < n) : (slice m p n).getD i 0 = m (p + i) := by
  rw [List.getD_eq_getElem _ _ (by rwa [length_slice]), getElem_slice]

/-- A structure with strings. -/
lemma Written.is (h : Written d t m₀ m ss) (hd : d.Fits) :
    Piece.Is ⟨d.type, ss ≠ []⟩ (slice m t (d.size - 2 + (packed ss).length)) := by
  have hsize := hd.size_ge
  have hset : slice m (t + (d.size - 2)) (packed ss).length = packed ss := by
    rw [← Nat.add_sub_assoc (by omega)]
    exact h.set.slice_eq
  have htype : ((slice m t (d.size - 2)).getD 0 0).toNat = d.type := by
    rw [getD_slice (by omega)]
    exact h.type
  have hread : ∀ rest, readStructure (slice m t (d.size - 2) ++ rest) =
      (readStringSet rest).map fun r => (⟨slice m t (d.size - 2), r.1⟩, r.2) := fun rest => by
    refine readStructure_formatted (by rw [length_slice]; omega) ?_
    rw [getD_slice (by omega), h.length, length_slice]
  rw [slice_add, hset]
  refine ⟨?_, fun hne => ?_, fun hnil => ?_⟩
  · obtain ⟨n, hn⟩ : ∃ n, d.size - 2 = n + 1 := ⟨d.size - 3, by omega⟩
    exact ⟨m t, slice m (t + 1) n ++ packed ss, by rw [hn]; rfl, h.type⟩
  · refine ⟨⟨slice m t (d.size - 2), ss.map (·.1)⟩, htype, fun o ho => ?_, fun rest => ?_⟩
    · rw [Structure.type, htype] at ho
      rw [getD_slice (hd.inside o ho).2, List.length_map]
      exact h.numbers o ho
    · rw [List.append_assoc, hread, readStringSet_packed h.nonempty hne]
      rfl
  · intro b rest hb
    rw [not_not.mp hnil, List.append_assoc, hread, readStringSet_packed_nil hb]
    rfl

/-- A structure without strings, of which the reserved bytes are the end of its set. -/
lemma writePlainStructure_is (m : Mem) (t handle : ℕ) {type size : ℕ} (htype : type < 256)
    (hsize : 6 ≤ size) (hsize' : size - 2 < 256) (hmembers : stringMembers type = []) :
    Piece.Is ⟨type, True⟩ (slice (writePlainStructure m t handle type size).1 t size) := by
  obtain ⟨m', hm'⟩ : ∃ m', m' = (writePlainStructure m t handle type size).1 := ⟨_, rfl⟩
  have hzero : ∀ a, t + 4 ≤ a → a < t + size → m' a = 0 := fun a h h' => by
    rw [hm']
    exact header_eq_zero h h'
  have hlength : (m' (t + 1)).toNat = size - 2 := by
    rw [hm', writePlainStructure, writeLE_one, Nat.mod_eq_of_lt hsize']
  have htype' : (m' t).toNat = type := by
    rw [hm', writePlainStructure]
    dsimp only
    rw [writeLE_frame (Or.inl (by omega)), writeLE_frame (Or.inl (by omega)), writeLE_one,
      Nat.mod_eq_of_lt htype]
  rw [← hm']
  obtain ⟨n, rfl⟩ : ∃ n, size = n + 6 := ⟨size - 6, by omega⟩
  have hset : slice m' (t + (n + 4)) 2 = [0, 0] := by
    rw [slice, slice, slice, hzero _ (by omega) (by omega), hzero _ (by omega) (by omega)]
  refine ⟨⟨m' t, slice m' (t + 1) (n + 5), rfl, htype'⟩, fun _ => ?_, fun h => absurd trivial h⟩
  refine ⟨⟨slice m' t (n + 4), []⟩, ?_, fun o ho => ?_, fun rest => ?_⟩
  · rw [Structure.type, getD_slice (by omega)]
    exact htype'
  · rw [Structure.type, getD_slice (by omega), Nat.add_zero, htype', hmembers] at ho
    cases ho
  · rw [show n + 6 = n + 4 + 2 from rfl, slice_add, hset, List.append_assoc, readStructure_formatted]
    · rfl
    · rw [length_slice]
      omega
    · rw [getD_slice (by omega), hlength, length_slice]
      rfl

/-! ### Walking over the table -/

/-- The bytes of the structures, one after the other. -/
def Table : List Piece → List UInt8 → Prop
  | [], bs => bs = []
  | p :: ps, bs => ∃ bs₁ bs₂, bs = bs₁ ++ bs₂ ∧ p.Is bs₁ ∧ Table ps bs₂

lemma Table.concat {ps : List Piece} {p : Piece} {bs' : List UInt8} (h : Table ps bs)
    (hp : p.Is bs') : Table (ps ++ [p]) (bs ++ bs') := by
  induction ps generalizing bs with
  | nil => exact ⟨bs', [], by rw [show bs = [] from h, List.append_nil]; rfl, hp, rfl⟩
  | cons q ps ih =>
    obtain ⟨bs₁, bs₂, rfl, hq, h⟩ := h
    exact ⟨bs₁, bs₂ ++ bs', List.append_assoc _ _ _, hq, ih h⟩

/-- A table of structures that end with that of type 127; only the first can have type 0. -/
structure Ended (ps : List Piece) : Prop where
  types : ∀ p ∈ ps, p.type ≠ SMBIOS_END_OF_TABLE
  later : ∀ p ∈ ps.tail, p.type ≠ 0

def endPiece : Piece := ⟨SMBIOS_END_OF_TABLE, True⟩

private lemma Ended.tail {p : Piece} {ps : List Piece} (h : Ended (p :: ps)) : Ended ps :=
  ⟨fun q hq => h.types q (List.mem_cons_of_mem _ hq),
    fun q hq => h.later q (List.mem_of_mem_tail hq)⟩

/-- Where a structure is broken, the next one begins with a byte that is not zero. -/
private lemma Table.broken {p : Piece} {ps : List Piece} (hps : Ended (p :: ps)) {bs' : List UInt8}
    (hp : IsBroken bs) (h : Table (ps ++ [endPiece]) bs') : readStructure (bs ++ bs') = none := by
  obtain ⟨q, qs, hqs, hq⟩ : ∃ q qs, ps ++ [endPiece] = q :: qs ∧ q.type ≠ 0 := by
    cases ps with
    | nil => exact ⟨endPiece, [], rfl, by decide⟩
    | cons q qs =>
      exact ⟨q, qs ++ [endPiece], rfl, hps.later q List.mem_cons_self⟩
  rw [hqs] at h
  obtain ⟨bs₁, bs₂, rfl, hbs₁, -⟩ := h
  obtain ⟨b, bs₁, rfl, hb⟩ := hbs₁.head
  rw [List.cons_append]
  refine hp b _ fun hzero => hq ?_
  rw [← hb, hzero]
  rfl

/-- A walk that reaches the end has met complete structures only, and nothing is left. -/
lemma Table.of_walk {ps : List Piece} (hps : Ended ps) (h : Table (ps ++ [endPiece]) bs)
    {structures : List Structure} (hwalk : walk k bs = some (structures, rest)) :
    (∀ p ∈ ps, p.complete) ∧ rest = [] := by
  induction ps generalizing bs k structures with
  | nil =>
    obtain ⟨bs₁, bs₂, rfl, hp, rfl⟩ := h
    obtain ⟨s, hs, -, hread⟩ := hp.complete trivial
    cases k with
    | zero => cases hwalk
    | succ k =>
      rw [walk_end (hread []) hs] at hwalk
      cases hwalk
      exact ⟨List.forall_mem_nil _, rfl⟩
  | cons p ps ih =>
    obtain ⟨bs₁, bs₂, rfl, hp, h⟩ := h
    cases k with
    | zero => cases hwalk
    | succ k =>
      by_cases hcomplete : p.complete
      · obtain ⟨s, hs, -, hread⟩ := hp.complete hcomplete
        rw [walk_next (hread bs₂) (hs.trans_ne (hps.types p List.mem_cons_self))] at hwalk
        obtain ⟨r, hr, hr'⟩ := Option.map_eq_some_iff.mp hwalk
        cases hr'
        obtain ⟨hall, hrest⟩ := ih hps.tail h hr
        exact ⟨List.forall_mem_cons.mpr ⟨hcomplete, hall⟩, hrest⟩
      · rw [Smbios.walk, Table.broken hps (hp.broken hcomplete) h] at hwalk
        cases hwalk

/-- Where all structures are complete, a walk visits them. -/
lemma Table.walk {ps : List Piece} (hps : Ended ps) (h : Table (ps ++ [endPiece]) bs)
    (hcomplete : ∀ p ∈ ps, p.complete) :
    ∃ structures, walk (ps.length + 1) bs = some (structures, []) ∧
      structures.length = ps.length + 1 ∧ ∀ s ∈ structures, s.Valid := by
  induction ps generalizing bs with
  | nil =>
    obtain ⟨bs₁, bs₂, rfl, hp, rfl⟩ := h
    obtain ⟨s, hs, hvalid, hread⟩ := hp.complete trivial
    refine ⟨[s], walk_end (hread []) hs, rfl, fun s' hs' => ?_⟩
    rw [List.mem_singleton.mp hs']
    exact hvalid
  | cons p ps ih =>
    obtain ⟨bs₁, bs₂, rfl, hp, h⟩ := h
    rw [List.forall_mem_cons] at hcomplete
    obtain ⟨s, hs, hvalid, hread⟩ := hp.complete hcomplete.1
    obtain ⟨structures, hwalk, hlength, hall⟩ := ih hps.tail h hcomplete.2
    refine ⟨s :: structures, ?_, ?_, List.forall_mem_cons.mpr ⟨hvalid, hall⟩⟩
    · rw [List.length_cons, walk_next (hread bs₂) (hs.trans_ne (hps.types p List.mem_cons_self)),
        hwalk]
      rfl
    · rw [List.length_cons, hlength, List.length_cons]

/-! ### The run -/

/-- How far the writing is: the structures so far lie behind each other. -/
structure Progress (tables : ℕ) (s : State) (ps : List Piece) : Prop where
  current : s.current = tables + s.len
  handle : s.handle = ps.length
  table : Table ps (slice s.m tables s.len)

def Definition.piece (d : Definition) : Piece := ⟨d.type, d.stringSet ≠ []⟩

lemma Progress.write {s : State} {ps : List Piece} (h : Progress tables s ps) (hd : d.Fits)
    (hfuel : d.length ≤ fuel) : ∃ s', s.write fuel d = some s' ∧
      Progress tables s' (ps ++ [d.piece]) ∧ s'.len = s.len + d.length := by
  obtain ⟨m', hrun, hwritten⟩ := writeStructure_spec s.m s.current s.handle hd
    ((Nat.le_add_left _ _).trans hfuel)
  refine ⟨⟨m', s.current + d.length, s.handle + 1, s.len + d.length⟩, ?_, ⟨?_, ?_, ?_⟩, rfl⟩
  · rw [State.write, hrun]
    rfl
  · rw [h.current, Nat.add_assoc]
  · rw [List.length_append, List.length_singleton, h.handle]
  · have hbefore : slice m' tables s.len = slice s.m tables s.len :=
      slice_congr fun a _ ha => hwritten.frame a (by rw [h.current]; exact ha)
    have hpiece := hwritten.is hd
    rw [h.current] at hpiece
    dsimp only
    rw [slice_add, hbefore]
    exact h.table.concat hpiece

lemma Progress.writePlain {s : State} {ps : List Piece} (h : Progress tables s ps) (type size : ℕ)
    (htype : type < 256) (hsize : 6 ≤ size) (hsize' : size - 2 < 256)
    (hmembers : stringMembers type = []) :
    Progress tables (s.writePlain type size) (ps ++ [⟨type, True⟩]) where
  current := by
    dsimp only [State.writePlain, writePlainStructure]
    rw [h.current, Nat.add_assoc]
  handle := by rw [List.length_append, List.length_singleton, ← h.handle]; rfl
  table := by
    have hpiece := writePlainStructure_is s.m s.current s.handle htype hsize hsize' hmembers
    have hbefore : slice (writePlainStructure s.m s.current s.handle type size).1 tables s.len =
        slice s.m tables s.len := slice_congr fun a _ ha => by
      dsimp only [writePlainStructure]
      rw [h.current, writeLE_frame (Or.inl (by omega)), writeLE_frame (Or.inl (by omega)),
        writeLE_frame (Or.inl ha), memset_frame (Or.inl ha)]
    rw [h.current] at hpiece hbefore
    have hlen : (s.writePlain type size).len = s.len + size := rfl
    rw [hlen, slice_add]
    dsimp only [State.writePlain]
    rw [h.current, hbefore]
    exact h.table.concat hpiece

/-- Several structures with strings. -/
lemma Progress.writeAll {s : State} {ps : List Piece} (h : Progress tables s ps)
    (ds : List Definition) (hds : ∀ d ∈ ds, d.Fits)
    (hfuel : ∀ d ∈ ds, d.length ≤ fuel) : ∃ s', ds.foldlM (State.write fuel) s = some s' ∧
      Progress tables s' (ps ++ ds.map Definition.piece) ∧
        s'.len = s.len + (ds.map Definition.length).sum := by
  induction ds generalizing s ps with
  | nil => exact ⟨s, rfl, by simpa using h, rfl⟩
  | cons d ds ih =>
    rw [List.forall_mem_cons] at hds hfuel
    obtain ⟨s₁, hrun₁, h₁, hlen₁⟩ := h.write hds.1 hfuel.1
    obtain ⟨s', hrun, h', hlen⟩ := ih h₁ hds.2 hfuel.2
    refine ⟨s', ?_, ?_, ?_⟩
    · rw [List.foldlM_cons, hrun₁]
      exact hrun
    · rwa [List.append_assoc] at h'
    · rw [hlen, hlen₁, List.map_cons, List.sum_cons, Nat.add_assoc]

/-- What the devices contribute, in the order of the devices. -/
def contributions (devices : Devices) : List DeviceData := devices.flatMap (·.getD [])

lemma smbiosWalkDeviceTree_eq {s : State} {devices : Devices} :
    smbiosWalkDeviceTree fuel s devices =
      ((contributions devices).map DeviceData.definition).foldlM (State.write fuel) s := by
  induction devices generalizing s with
  | nil => rfl
  | cons dev devices ih =>
    rw [contributions, List.flatMap_cons, List.map_append, List.foldlM_append]
    rw [smbiosWalkDeviceTree, List.foldlM_cons]
    cases dev with
    | none => exact ih
    | some data =>
      rw [Option.elim_some, getSmbiosData, List.foldlM_map]
      exact congrArg _ (funext fun s => ih)

variable {cfg : Config} {devices : Devices}

/-- The structures with strings that every table has. -/
def mandatory (cfg : Config) : List Definition :=
  [type0 cfg, type1 cfg, type2 cfg, type3 cfg, type4 cfg]

/-- All structures but the last one. -/
def pieces (cfg : Config) (devices : Devices) : List Piece :=
  (mandatory cfg).map Definition.piece ++ [⟨SMBIOS_SYSTEM_BOOT_INFORMATION, True⟩] ++
    ((contributions devices).map DeviceData.definition).map Definition.piece

/-- The number of bytes of all structures. -/
def tableLength (cfg : Config) (devices : Devices) : ℕ :=
  ((mandatory cfg).map Definition.length).sum + 13 +
    (((contributions devices).map DeviceData.definition).map Definition.length).sum + 6

lemma fits_of {type size : ℕ} {members : List Member} (numbers : List ℕ)
    (h : stringMembers type = numbers) (hsize : type < SMBIOS_END_OF_TABLE ∧ 6 ≤ size ∧
      size - 2 < 256 ∧ ∀ o ∈ numbers, 4 ≤ o ∧ o < size - 2)
    (hmembers : ∀ member ∈ members, member.Fits size numbers) :
    Definition.Fits ⟨type, size, members⟩ := by
  subst h
  exact ⟨hsize.1, hsize.2.1, hsize.2.2.1, hsize.2.2.2, hmembers⟩

lemma fits_of_mem_mandatory (hd : d ∈ mandatory cfg) : d.Fits := by
  simp only [mandatory, List.mem_cons, List.not_mem_nil, or_false] at hd
  rcases hd with rfl | rfl | rfl | rfl | rfl
  · exact fits_of [4, 5, 8] rfl (by decide) (by simp [Member.Fits])
  · exact fits_of [4, 5, 6, 7, 25, 26] rfl (by decide) (by simp [Member.Fits])
  · exact fits_of [4, 5, 6, 7] rfl (by decide) (by simp [Member.Fits])
  · exact fits_of [4, 6, 7, 8] rfl (by decide) (by simp [Member.Fits])
  · exact fits_of [4, 7, 16, 32, 33, 34] rfl (by decide) (by simp [Member.Fits])

lemma DeviceData.fits (data : DeviceData) : data.definition.Fits := by
  cases data with
  | oemStrings strings =>
    refine fits_of [4] rfl (by decide) fun member hmember => ?_
    obtain ⟨s, -, rfl⟩ := List.mem_map.mp hmember
    exact ⟨le_rfl, by decide⟩
  | onboardDevice => exact fits_of [4] rfl (by decide) (by simp [Member.Fits])

lemma ended_pieces : Ended (pieces cfg devices) where
  types := by
    intro p hp
    rcases List.mem_append.mp hp with hp | hp
    · rcases List.mem_append.mp hp with hp | hp
      · obtain ⟨d, hd, rfl⟩ := List.mem_map.mp hp
        exact (fits_of_mem_mandatory hd).type_lt.ne
      · rw [List.mem_singleton.mp hp]
        decide
    · obtain ⟨d, hd, rfl⟩ := List.mem_map.mp hp
      obtain ⟨data, -, rfl⟩ := List.mem_map.mp hd
      exact data.fits.type_lt.ne
  later := by
    intro p hp
    change p ∈ [(type1 cfg).piece, (type2 cfg).piece, (type3 cfg).piece, (type4 cfg).piece,
      ⟨SMBIOS_SYSTEM_BOOT_INFORMATION, True⟩] ++ _ at hp
    rcases List.mem_append.mp hp with hp | hp
    · simp only [List.mem_cons, List.not_mem_nil, or_false] at hp
      rcases hp with rfl | rfl | rfl | rfl | rfl
      · exact Nat.one_ne_zero
      · exact Nat.succ_ne_zero 1
      · exact Nat.succ_ne_zero 2
      · exact Nat.succ_ne_zero 3
      · exact Nat.succ_ne_zero 31
    · obtain ⟨d, hd, rfl⟩ := List.mem_map.mp hp
      obtain ⟨data, -, rfl⟩ := List.mem_map.mp hd
      cases data with
      | oemStrings strings => exact Nat.succ_ne_zero 10
      | onboardDevice => exact Nat.succ_ne_zero 40

private lemma length_le_of_sum_le {ds : List Definition}
    (h : (ds.map Definition.length).sum ≤ fuel) : ∀ d ∈ ds, d.length ≤ fuel := fun _ hd =>
  (List.single_le_sum (fun _ _ => Nat.zero_le _) _ (List.mem_map_of_mem hd)).trans h

/-- All structures are written, one behind the other. -/
lemma writeStructures_spec (m : Mem) (tables : ℕ) (hfuel : tableLength cfg devices ≤ fuel) :
    ∃ s, writeStructures cfg fuel devices m tables = some s ∧
      Progress tables s (pieces cfg devices ++ [endPiece]) ∧ s.len = tableLength cfg devices := by
  have hstart : Progress tables ⟨m, tables, 0, 0⟩ [] := ⟨rfl, rfl, rfl⟩
  unfold tableLength at hfuel
  have hfuel₁ : ((mandatory cfg).map Definition.length).sum ≤ fuel := by omega
  have hfuel₂ : (((contributions devices).map DeviceData.definition).map Definition.length).sum ≤
      fuel := by omega
  obtain ⟨s₁, hrun₁, h₁, hlen₁⟩ := hstart.writeAll (mandatory cfg)
    (fun d => fits_of_mem_mandatory) (length_le_of_sum_le hfuel₁)
  have h₂ := h₁.writePlain SMBIOS_SYSTEM_BOOT_INFORMATION 13 (by decide) (by decide) (by decide) rfl
  obtain ⟨s₃, hrun₃, h₃, hlen₃⟩ := h₂.writeAll
    ((contributions devices).map DeviceData.definition) (fun d hd => by
      obtain ⟨data, -, rfl⟩ := List.mem_map.mp hd
      exact data.fits)
    (length_le_of_sum_le hfuel₂)
  have h₄ := h₃.writePlain SMBIOS_END_OF_TABLE 6 (by decide) (by decide) (by decide) rfl
  refine ⟨_, ?_, h₄, ?_⟩
  · rw [← smbiosWalkDeviceTree_eq] at hrun₃
    have hmandatory : writeStructures cfg fuel devices m tables =
        ((mandatory cfg).foldlM (State.write fuel) ⟨m, tables, 0, 0⟩).bind fun s =>
          (smbiosWalkDeviceTree fuel (s.writePlain SMBIOS_SYSTEM_BOOT_INFORMATION 13) devices).bind
            fun s => some (s.writePlain SMBIOS_END_OF_TABLE 6) := by
      simp only [mandatory, List.foldlM_cons, List.foldlM_nil, Option.bind_eq_bind,
        Option.bind_assoc]
      rfl
    rw [hmandatory, hrun₁, Option.bind_some, hrun₃]
    rfl
  · change s₃.len + 6 = _
    rw [hlen₃, show (s₁.writePlain SMBIOS_SYSTEM_BOOT_INFORMATION 13).len = s₁.len + 13 from rfl,
      hlen₁, Nat.zero_add]
    rfl

/-! ### The entry point -/

variable {se len : ℕ}

private lemma readLE_update {p n a : ℕ} {b : UInt8} (h : a < p ∨ p + n ≤ a) :
    readLE (Function.update m a b) p n = readLE m p n :=
  readLE_congr fun q hq hq' => Function.update_of_ne (by omega) _ _

lemma structCount_writeEntry : structCount (writeEntry m se handle tables len) se =
    handle % 2 ^ 16 := by
  rw [structCount, writeEntry, readLE_update (by omega), readLE_update (by omega),
    readLE_writeLE_disjoint (by omega), readLE_writeLE_disjoint (by omega),
    readLE_writeBytes_disjoint (by simp), readLE_writeLE_same]
  norm_num

lemma structTableAddress_writeEntry : structTableAddress (writeEntry m se handle tables len) se =
    tables % 2 ^ 32 := by
  rw [structTableAddress, writeEntry, readLE_update (by omega), readLE_update (by omega),
    readLE_writeLE_disjoint (by omega), readLE_writeLE_same]
  norm_num

lemma structTableLength_writeEntry : structTableLength (writeEntry m se handle tables len) se =
    len % 2 ^ 16 := by
  rw [structTableLength, writeEntry, readLE_update (by omega), readLE_update (by omega),
    readLE_writeLE_same]
  norm_num

lemma writeEntry_frame {a : ℕ} (h : se + sizeOfEntry ≤ a) :
    writeEntry m se handle tables len a = m a := by
  have hsize : sizeOfEntry = 31 := rfl
  rw [writeEntry, Function.update_of_ne (by omega), Function.update_of_ne (by omega),
    writeLE_frame (by omega), writeLE_frame (by omega), writeBytes_frame (by simp; omega),
    writeLE_frame (by omega), writeLE_frame (by omega), writeLE_frame (by omega),
    writeLE_frame (by omega), writeLE_frame (by omega), writeBytes_frame (by simp; omega),
    memset_frame (by omega)]

lemma Table.length_le {ps : List Piece} (h : Table ps bs) : ps.length ≤ bs.length := by
  induction ps generalizing bs with
  | nil => exact Nat.zero_le _
  | cons p ps ih =>
    obtain ⟨bs₁, bs₂, rfl, hp, h⟩ := h
    obtain ⟨b, bs₁, rfl, -⟩ := hp.head
    have hle := ih h
    simp only [List.length_cons, List.length_append]
    omega

/-- The tables are readable if and only if all structures are complete and the length of the table
fits into its member. -/
lemma Progress.readable_iff {s : State} {ps : List Piece} (hps : Ended ps)
    (h : Progress tables s (ps ++ [endPiece])) (hse : se + sizeOfEntry ≤ tables)
    (htables : tables < 2 ^ 32) : Readable (writeEntry s.m se s.handle tables s.len) se ↔
      (∀ p ∈ ps, p.complete) ∧ s.len < 2 ^ 16 := by
  have hslice : ∀ n, slice (writeEntry s.m se s.handle tables s.len) tables n =
      slice s.m tables n := fun n => slice_congr fun a ha _ => writeEntry_frame (hse.trans ha)
  unfold Readable
  rw [structCount_writeEntry, structTableAddress_writeEntry, structTableLength_writeEntry,
    Nat.mod_eq_of_lt htables, hslice]
  constructor
  · rintro ⟨structures, hwalk, -, -⟩
    -- what the reader sees is a prefix of the table, and a walk does not notice the rest
    obtain ⟨n, hn⟩ := Nat.exists_eq_add_of_le (Nat.mod_le s.len (2 ^ 16))
    have htable := h.table
    rw [hn, slice_add] at htable
    obtain ⟨hall, hrest⟩ := htable.of_walk hps (walk_append hwalk)
    refine ⟨hall, ?_⟩
    have hlength := congrArg List.length hrest
    simp only [List.nil_append, length_slice, List.length_nil] at hlength
    have := Nat.mod_lt s.len (show 0 < 2 ^ 16 by decide)
    omega
  · rintro ⟨hall, hlen⟩
    have hhandle : s.handle = ps.length + 1 := by
      rw [h.handle, List.length_append, List.length_singleton]
    have hle := h.table.length_le
    rw [length_slice, List.length_append, List.length_singleton] at hle
    rw [Nat.mod_eq_of_lt hlen, hhandle, Nat.mod_eq_of_lt (by omega)]
    exact h.table.walk hps hall

/-- Each structure with strings has at least one that is not empty. -/
structure HasStrings (cfg : Config) (devices : Devices) : Prop where
  board : cfg.mainboardManufacturer.1 ≠ [] ∨ cfg.mainboardProductName.1 ≠ [] ∨
    cfg.mainboardSerialNumber.1 ≠ [] ∨ cfg.mainboardVersion.1 ≠ []
  enclosure : cfg.CONFIG_MAINBOARD_SMBIOS_MANUFACTURER.1 ≠ []
  contributed : ∀ data ∈ contributions devices, ∃ s ∈ data.definition.strings, s.1 ≠ []

lemma piece_complete_iff : d.piece.complete ↔ ∃ s ∈ d.strings, s.1 ≠ [] := by
  change d.stringSet ≠ [] ↔ _
  rw [Ne, stringSet_eq_nil]
  push Not
  rfl

/-- The processor, the system and the firmware always have a string. -/
lemma pieces_complete_iff : (∀ p ∈ pieces cfg devices, p.complete) ↔ HasStrings cfg devices := by
  have htype0 : (type0 cfg).piece.complete :=
    piece_complete_iff.mpr ⟨.ofString "coreboot", by simp [Definition.strings, type0,
      Member.string?], by decide⟩
  have htype1 : (type1 cfg).piece.complete :=
    piece_complete_iff.mpr ⟨.ofString "None Provided", by simp [Definition.strings, type1,
      Member.string?], by decide⟩
  have htype4 : (type4 cfg).piece.complete :=
    piece_complete_iff.mpr ⟨.ofString "P0", by simp [Definition.strings, type4,
      Member.string?], by decide⟩
  have htype2 : (type2 cfg).piece.complete ↔ cfg.mainboardManufacturer.1 ≠ [] ∨
      cfg.mainboardProductName.1 ≠ [] ∨ cfg.mainboardSerialNumber.1 ≠ [] ∨
        cfg.mainboardVersion.1 ≠ [] := by
    rw [piece_complete_iff]
    simp [Definition.strings, type2, Member.string?]
  have htype3 : (type3 cfg).piece.complete ↔
      cfg.CONFIG_MAINBOARD_SMBIOS_MANUFACTURER.1 ≠ [] := by
    rw [piece_complete_iff]
    simp [Definition.strings, type3, Member.string?]
  simp only [pieces, mandatory, List.map_map, List.forall_mem_append, List.forall_mem_map,
    List.forall_mem_cons, List.not_mem_nil, false_imp_iff, implies_true, and_true, htype0, htype1,
    htype2, htype3, htype4, true_and]
  constructor
  · rintro ⟨⟨hboard, henclosure⟩, hcontributed⟩
    exact ⟨hboard, henclosure, fun data hdata => piece_complete_iff.mp (hcontributed data hdata)⟩
  · rintro ⟨hboard, henclosure, hcontributed⟩
    exact ⟨⟨hboard, henclosure⟩, fun data hdata => piece_complete_iff.mpr (hcontributed data hdata)⟩

/-! ### The tables -/

/-- Where the entry point and the table lie. -/
lemma align_current {current : ℕ} (hcurrent : current + 64 ≤ 2 ^ 32) :
    Word.alignUp 32 current 16 + sizeOfEntry ≤
        Word.alignUp 32 (Word.add 32 (Word.alignUp 32 current 16) sizeOfEntry) 16 ∧
      Word.alignUp 32 (Word.add 32 (Word.alignUp 32 current 16) sizeOfEntry) 16 < 2 ^ 32 := by
  have hsize : sizeOfEntry = 31 := rfl
  have hround : ∀ x, Word.roundUp x 4 < x + 16 := fun x => Word.roundUp_lt
  have hle : ∀ x, x ≤ Word.roundUp x 4 := fun x => Word.le_roundUp
  have h₁ := hround current
  have halign : Word.alignUp 32 current 16 = Word.roundUp current 4 :=
    Word.alignUp_eq (k := 4) (by decide) (by omega)
  have hadd : Word.add 32 (Word.roundUp current 4) sizeOfEntry =
      Word.roundUp current 4 + sizeOfEntry := Word.add_eq (by omega)
  have h₂ := hround (Word.roundUp current 4 + sizeOfEntry)
  have halign₂ : Word.alignUp 32 (Word.roundUp current 4 + sizeOfEntry) 16 =
      Word.roundUp (Word.roundUp current 4 + sizeOfEntry) 4 :=
    Word.alignUp_eq (k := 4) (by decide) (by omega)
  rw [halign, hadd, halign₂]
  exact ⟨hle _, by omega⟩

/-- What is written, with the condition on which it is readable. -/
lemma smbiosWriteTables_spec (cfg : Config) (devices : Devices) (m : Mem) {current : ℕ}
    (hcurrent : current + 64 ≤ 2 ^ 32) (hfuel : tableLength cfg devices ≤ fuel) :
    ∃ m' e, smbiosWriteTables cfg fuel devices m current = some (m', e) ∧
      (Readable m' (Word.alignUp 32 current 16) ↔
        (∀ p ∈ pieces cfg devices, p.complete) ∧ tableLength cfg devices < 2 ^ 16) := by
  obtain ⟨hse, htables⟩ := align_current hcurrent
  obtain ⟨s, hrun, h, hlen⟩ := writeStructures_spec m (Word.alignUp 32 (Word.add 32
    (Word.alignUp 32 current 16) sizeOfEntry) 16) hfuel
  refine ⟨writeEntry s.m (Word.alignUp 32 current 16) s.handle (Word.alignUp 32 (Word.add 32
    (Word.alignUp 32 current 16) sizeOfEntry) 16) s.len, s.current, ?_, ?_⟩
  · rw [smbiosWriteTables, hrun]
    rfl
  · rw [← hlen]
    exact h.readable_iff ended_pieces hse htables

/-- A reader finds the structures if and only if each structure with strings has one that is not
empty, and the table is shorter than 64 KiB. -/
theorem smbiosWriteTables_readable_iff (cfg : Config) (devices : Devices) (m : Mem)
    (current fuel : ℕ) (hcurrent : current + 64 ≤ 2 ^ 32) (hfuel : tableLength cfg devices ≤ fuel) :
    ∃ m' e, smbiosWriteTables cfg fuel devices m current = some (m', e) ∧
      (Readable m' (Word.alignUp 32 current 16) ↔
        HasStrings cfg devices ∧ tableLength cfg devices < 2 ^ 16) := by
  obtain ⟨m', e, hrun, h⟩ := smbiosWriteTables_spec cfg devices m hcurrent hfuel
  exact ⟨m', e, hrun, by rw [h, pieces_complete_iff]⟩

/-- A board of which the manufacturer can be left empty. -/
def apu (manufacturer : CString) : Config where
  COREBOOT_DMI_DATE := .ofString "09/08/2014"
  CONFIG_LOCALVERSION := .ofString ""
  COREBOOT_VERSION := .ofString "4.0"
  romsize := 0x200000
  CONFIG_CARDBUS_PLUGIN_SUPPORT := false
  CONFIG_GENERATE_ACPI_TABLES := true
  mainboardManufacturer := manufacturer
  mainboardProductName := .ofString "APU"
  mainboardVersion := .ofString "1.0"
  mainboardSerialNumber := .ofString "1234"
  mainboardSku := .ofString "4 GB"
  mainboardUuid := 0
  CONFIG_MAINBOARD_SMBIOS_MANUFACTURER := manufacturer
  CONFIG_SMBIOS_SYSTEM_ENCLOSURE_TYPE := 3
  cpuHaveCpuid := false
  cpuid := fun _ => ⟨0, 0, 0, 0⟩
  externalClock := 200

/-- With a manufacturer and an onboard device. -/
theorem smbiosWriteTables_readable_iff_apu :
    (0x1000 + 64 ≤ 2 ^ 32 ∧ tableLength (apu (.ofString "PC Engines"))
      [none, some [.onboardDevice (.ofString "LAN") 1 0 1 0 0]] ≤ 512) ∧
    ∃ m' e, smbiosWriteTables (apu (.ofString "PC Engines")) 512
        [none, some [.onboardDevice (.ofString "LAN") 1 0 1 0 0]] (fun _ => 0) 0x1000 =
          some (m', e) ∧
      Readable m' (Word.alignUp 32 0x1000 16) := by
  obtain ⟨m', e, hrun, hiff⟩ := smbiosWriteTables_readable_iff (apu (.ofString "PC Engines"))
    [none, some [.onboardDevice (.ofString "LAN") 1 0 1 0 0]] (fun _ => 0) 0x1000 512 (by decide)
    (by decide)
  exact ⟨⟨by decide, by decide⟩, m', e, hrun, hiff.mpr ⟨⟨by decide, by decide, by decide⟩, by decide⟩⟩

/-- Without the name of a manufacturer, the set of strings of the enclosure has one zero byte, and
the reader runs into the structure of the processor. -/
theorem not_readable_of_no_manufacturer :
    ∃ m' e, smbiosWriteTables (apu (.ofString "")) 512 [] (fun _ => 0) 0x1000 = some (m', e) ∧
      ¬Readable m' (Word.alignUp 32 0x1000 16) := by
  obtain ⟨m', e, hrun, h⟩ := smbiosWriteTables_spec (apu (.ofString "")) [] (fun _ => 0)
    (show 0x1000 + 64 ≤ 2 ^ 32 by decide) (show tableLength (apu (.ofString "")) [] ≤ 512 by decide)
  refine ⟨m', e, hrun, fun hreadable => ?_⟩
  rw [pieces_complete_iff] at h
  exact (h.mp hreadable).1.enclosure (by decide)

end ApuBios.Smbios
