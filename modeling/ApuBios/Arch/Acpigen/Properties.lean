import ApuBios.Arch.Acpigen.Uses

/-!
# What well-nested uses generate

Each generator is a sequence of simpler ones, or an object around one. The bytes that a well-nested
use appends are the encoding of its terms, so that a reader finds these terms.
-/

namespace ApuBios.Acpigen

open Aml

variable {α : Type} {g g' body opener : Gen ℕ} {t u : Terms} {d d' : ℕ} {h : Header}

/-! ### Rules -/

/-- The generator appends the terms, and returns the number of their bytes. -/
def Generates (d : ℕ) (g : Gen ℕ) (t : Terms) : Prop := Emits d g t.encode

lemma Generates.mono (hg : Generates d g t) (hd : d ≤ d') : Generates d' g t := Emits.mono hg hd

lemma Generates.add (hg : Generates d g t) (hg' : Generates d g' u) : Generates d (do
    let n ← g
    let k ← g'
    return n + k) (t.append u) := by
  rw [Generates, encode_append]
  exact Emits.add hg hg'

lemma generates_leaf {l : Leaf} (hg : Emits d g l.encode) : Generates d g (.leaf l .nil) := by
  rw [Generates, Terms.encode, Terms.encode, List.append_nil]
  exact hg

lemma generates_const_byte (v : ℕ) : Generates 0 (acpigenWriteByte v) (const .byte v) :=
  generates_leaf (writeByte_emits v)

lemma generates_const_dword (v : ℕ) : Generates 0 (acpigenWriteDword v) (const .dword v) :=
  generates_leaf (writeDword_emits v)

lemma generates_const_qword (v : ℕ) : Generates 0 (acpigenWriteQword v) (const .qword v) :=
  generates_leaf (writeQword_emits v)

lemma generates_named (path : NamePath) : Generates 0 (acpigenWriteName path.chars) (named path) :=
  generates_leaf (writeName_emits path)

lemma generates_ref (path : NamePath) :
    Generates 0 (acpigenEmitNamestring path.chars) (.leaf (.ref path.string) .nil) :=
  generates_leaf (emitNamestring_emits path)

/-- Several generators, one after the other. -/
lemma generates_writeAll {write : α → Gen ℕ} {xs : List α} {ts : List Terms}
    (h : List.Forall₂ (fun x t => Generates d (write x) t) xs ts) :
    Generates d (writeAll write xs) (concat ts) := by
  induction h with
  | nil => exact Appends.mono (appends_pure 0) (Nat.zero_le d)
  | cons hx _ ih => exact hx.add ih

lemma generates_writeAll_map {write : α → Gen ℕ} {terms : α → Terms} {xs : List α}
    (h : ∀ x ∈ xs, Generates d (write x) (terms x)) :
    Generates d (writeAll write xs) (concat (xs.map terms)) :=
  generates_writeAll (List.forall₂_map_right_iff.mpr (List.forall₂_same.mpr h))

lemma within_concat {ts : List Terms} {max : ℕ} :
    (concat ts).Within max ↔ ∀ t ∈ ts, t.Within max := by
  induction ts with
  | nil => simp [concat, Terms.Within]
  | cons t ts ih => rw [concat, List.foldr_cons, within_append, List.forall_mem_cons, ← ih, concat]

/-- An object whose length fits into two bytes. -/
lemma Opens.generates (ho : Opens opener h) (hb : Generates d body t)
    (hfits : (Terms.node h 1 t .nil).Within ACPIGEN_MAXLEN) :
    Generates (d + 1) (Acpigen.block opener h.opcode.length body) (.node h 1 t .nil) :=
  ho.block hb hfits.1

lemma Generates.package {elements : List Terms} (nrEl : ℕ) (hb : Generates d body (concat elements))
    (hfits : (package nrEl elements).Within ACPIGEN_MAXLEN) :
    Generates (d + 1) (block (acpigenWritePackage nrEl) 1 body) (package nrEl elements) :=
  (writePackage_opens nrEl).generates hb hfits

/-! ### Resource templates -/

lemma run_emits (item : ResourceItem) : Emits 0 item.run item.bytes := by
  cases item with
  | mem32fixed readwrite base size =>
    have h : Appends 0 (acpigenWriteMem32fixed readwrite base size) ([0x86] ++ ([0x09] ++ ([0x00] ++
        ([if readwrite then 0x01 else 0x00] ++ (leBytes 4 base ++ (leBytes 4 size ++ [])))))) 12 :=
      Appends.bind (appends_emitByte _) (Appends.bind (appends_emitByte _) (Appends.bind
        (appends_emitByte _) (Appends.bind (appends_emitByte _) (Appends.bind (emitDword_appends _)
          (Appends.bind (emitDword_appends _) (appends_pure _))))))
    rw [List.append_nil] at h
    exact h
  | register addr =>
    have h : Appends 0 (acpigenWriteRegister addr) ([0x82] ++ ([0x0c] ++ ([0x00] ++
        ([addr.spaceId] ++ ([addr.bitWidth] ++ ([addr.bitOffset] ++ ([addr.resv] ++
          (leBytes 4 addr.addrl ++ (leBytes 4 addr.addrh ++ []))))))))) 15 :=
      Appends.bind (appends_emitByte _) (Appends.bind (appends_emitByte _) (Appends.bind
        (appends_emitByte _) (Appends.bind (appends_emitByte _) (Appends.bind (appends_emitByte _)
          (Appends.bind (appends_emitByte _) (Appends.bind (appends_emitByte _) (Appends.bind
            (emitDword_appends _) (Appends.bind (emitDword_appends _) (appends_pure _)))))))))
    rw [List.append_nil] at h
    exact h
  | io16 min max align len decode16 =>
    have h : Appends 0 (acpigenWriteIo16 min max align len decode16) (([0x47] : List UInt8) ++
        (([if decode16 then 0x01 else 0x00] : List UInt8) ++ ([UInt8.ofNat (min &&& 0xff)] ++
          ([UInt8.ofNat (min >>> 8 &&& 0xff)] ++ ([UInt8.ofNat (max &&& 0xff)] ++
            ([UInt8.ofNat (max >>> 8 &&& 0xff)] ++ ([align] ++ ([len] ++ [])))))))) 8 :=
      Appends.bind (appends_emitByte _) (Appends.bind (appends_emitByte _) (Appends.bind
        (appends_emitByte _) (Appends.bind (appends_emitByte _) (Appends.bind (appends_emitByte _)
          (Appends.bind (appends_emitByte _) (Appends.bind (appends_emitByte _) (Appends.bind
            (appends_emitByte _) (appends_pure _))))))))
    have hmin := word_bytes min
    have hmax := word_bytes max
    rw [Emits, ResourceItem.bytes, ← hmin, ← hmax]
    exact h

/-- What is behind the length of a template, apart from its items, are seven bytes with the length. -/
lemma template_length (items : List ResourceItem)
    (hfits : (templateTerms items).Within ACPIGEN_MAXLEN) :
    (items.flatMap ResourceItem.bytes).length + 7 ≤ ACPIGEN_MAXLEN := by
  have h := hfits.1
  simp only [bufferContent, Size.bytes, List.length_append, List.length_cons, List.length_nil,
    length_leBytes] at h
  omega

lemma generates_template (items : List ResourceItem)
    (hfits : (templateTerms items).Within ACPIGEN_MAXLEN) {g : Gen ℕ}
    (hg : Emits 0 g (items.flatMap ResourceItem.bytes)) :
    Generates 1 (template g) (templateTerms items) :=
  generates_leaf (hg.template (template_length items hfits))

lemma writeAll_emits (items : List ResourceItem) :
    Emits 0 (writeAll ResourceItem.run items) (items.flatMap ResourceItem.bytes) := by
  induction items with
  | nil => exact appends_pure 0
  | cons item items ih => exact (run_emits item).add ih

/-! ### Packages -/

lemma generates_dwords (vs : List ℕ) :
    Generates 0 (writeAll acpigenWriteDword vs) (concat (vs.map (const .dword))) :=
  generates_writeAll_map fun v _ => generates_const_dword v

lemma generates_pss (coreFreq power transLat busmLat control status : ℕ)
    (hfits : (Call.pss coreFreq power transLat busmLat control status).terms.Within ACPIGEN_MAXLEN) :
    Generates 1 (acpigenWritePSSPackage coreFreq power transLat busmLat control status)
      (Call.pss coreFreq power transLat busmLat control status).terms := by
  have hblock : acpigenWritePSSPackage coreFreq power transLat busmLat control status =
      block (acpigenWritePackage 6) 1
        (writeAll acpigenWriteDword [coreFreq, power, transLat, busmLat, control, status]) := by
    simp only [acpigenWritePSSPackage, block, writeAll, bind_assoc, pure_bind, Nat.add_zero,
      Nat.add_assoc]
  rw [hblock]
  exact Generates.package 6 (generates_dwords _) hfits

lemma generates_tstate (tstate : AcpiTstate) (hfits : (tstateTerms tstate).Within ACPIGEN_MAXLEN) :
    Generates 1 (writeTstate tstate) (tstateTerms tstate) := by
  have hblock : writeTstate tstate = block (acpigenWritePackage 5) 1 (writeAll acpigenWriteDword
      [tstate.percent, tstate.power, tstate.latency, tstate.control, tstate.status]) := by
    simp only [writeTstate, block, writeAll, bind_assoc, pure_bind, Nat.add_zero, Nat.add_assoc]
  rw [hblock]
  exact Generates.package 5 (generates_dwords _) hfits

lemma generates_tss (tstateList : List AcpiTstate)
    (hfits : (Call.tss tstateList).terms.Within ACPIGEN_MAXLEN) :
    Generates 2 (acpigenWriteTSSPackage tstateList) (Call.tss tstateList).terms := by
  have hblock : acpigenWriteTSSPackage tstateList = (do
      let nlen ← acpigenWriteName nameTSS.chars
      let plen ← block (acpigenWritePackage tstateList.length) 1 (writeAll writeTstate tstateList)
      return nlen + plen) := by
    have hname : chars "_TSS" = nameTSS.chars := by decide
    simp only [acpigenWriteTSSPackage, hname, block, bind_assoc, pure_bind, Nat.add_comm]
  have hpackage := (within_append.mp hfits).2
  have hentries : ∀ tstate ∈ tstateList, (tstateTerms tstate).Within ACPIGEN_MAXLEN :=
    List.forall_mem_map.mp (within_concat.mp hpackage.2.1)
  rw [hblock]
  exact ((generates_named nameTSS).mono (Nat.zero_le 2)).add (Generates.package _
    (generates_writeAll_map fun tstate h => generates_tstate tstate (hentries tstate h)) hpackage)

lemma generates_dependency (path : NamePath) (domain numprocs coordtype : ℕ)
    (hfits : (dependencyTerms path domain numprocs coordtype).Within ACPIGEN_MAXLEN) :
    Generates 2 (writeDependency path.chars domain numprocs coordtype)
      (dependencyTerms path domain numprocs coordtype) := by
  have hblock : writeDependency path.chars domain numprocs coordtype = (do
      let lenh ← acpigenWriteName path.chars
      let len ← block (acpigenWritePackage 1) 1 (writeAll id [block (acpigenWritePackage 5) 1
        (writeAll id [acpigenWriteByte 5, acpigenWriteByte 0, acpigenWriteDword domain,
          acpigenWriteDword coordtype, acpigenWriteDword numprocs])])
      return lenh + len) := by
    simp only [writeDependency, block, writeAll, id, bind_assoc, pure_bind, Nat.add_zero,
      Nat.add_comm, Nat.add_left_comm]
  have hpackage := (within_append.mp hfits).2
  have hinner := within_concat.mp hpackage.2.1 _ List.mem_cons_self
  rw [hblock]
  refine ((generates_named path).mono (Nat.zero_le 2)).add (Generates.package 1
    (generates_writeAll (.cons (Generates.package 5 ?_ hinner) .nil)) hpackage)
  exact generates_writeAll (.cons (generates_const_byte _) (.cons (generates_const_byte _)
    (.cons (generates_const_dword _) (.cons (generates_const_dword _)
      (.cons (generates_const_dword _) .nil)))))

/-- The register that describes a state, as the entry of the package counts it. -/
lemma registerLength_emits (addr : AcpiAddr) : Emits 0 (do
    let start ← acpigenGetCurrent
    let _ ← acpigenWriteRegister addr
    let stop ← acpigenGetCurrent
    return stop - start) ([ResourceItem.register addr].flatMap ResourceItem.bytes) := by
  have hunit : Appends 0 (do let _ ← acpigenWriteRegister addr)
      ((ResourceItem.register addr).bytes ++ []) () :=
    Appends.bind (run_emits (.register addr)) (appends_pure ())
  have h := getCurrent_appends hunit
  simp only [bind_assoc, pure_bind] at h
  exact h

lemma generates_cstEntry (cstate : AcpiCstate) (hfits : (cstateTerms cstate).Within ACPIGEN_MAXLEN) :
    Generates 2 (acpigenWriteCSTPackageEntry cstate) (cstateTerms cstate) := by
  have hblock : acpigenWriteCSTPackageEntry cstate = block (acpigenWritePackage 4) 1 (do
      let len ← template (do
        let start ← acpigenGetCurrent
        let _ ← acpigenWriteRegister cstate.resource
        let stop ← acpigenGetCurrent
        return stop - start)
      let k ← writeAll acpigenWriteDword [cstate.ctype, cstate.latency, cstate.power]
      return len + k) := by
    simp only [acpigenWriteCSTPackageEntry, block, template, writeAll, bind_assoc, pure_bind,
      Nat.add_zero, Nat.add_comm, Nat.add_left_comm, Nat.add_assoc]
  have htemplate := within_concat.mp hfits.2.1 _ List.mem_cons_self
  rw [hblock]
  exact Generates.package 4 ((generates_template _ htemplate (registerLength_emits _)).add
    ((generates_dwords _).mono (Nat.zero_le 1))) hfits

lemma generates_cst (cstates : List AcpiCstate)
    (hfits : (Call.cst cstates).terms.Within ACPIGEN_MAXLEN) :
    Generates 3 (acpigenWriteCSTPackage cstates) (Call.cst cstates).terms := by
  have hblock : acpigenWriteCSTPackage cstates = (do
      let lenh ← acpigenWriteName nameCST.chars
      let len ← block (acpigenWritePackage (cstates.length + 1)) 1 (do
        let len ← acpigenWriteDword cstates.length
        let k ← writeAll acpigenWriteCSTPackageEntry cstates
        return len + k)
      return lenh + len) := by
    have hname : chars "_CST" = nameCST.chars := by decide
    simp only [acpigenWriteCSTPackage, hname, block, bind_assoc, pure_bind, Nat.add_comm]
  have hpackage := (within_append.mp hfits).2
  have hentries : ∀ cstate ∈ cstates, (cstateTerms cstate).Within ACPIGEN_MAXLEN :=
    List.forall_mem_map.mp (List.forall_mem_cons.mp (within_concat.mp hpackage.2.1)).2
  rw [hblock]
  exact ((generates_named nameCST).mono (Nat.zero_le 3)).add (Generates.package _
    (((generates_const_dword _).mono (Nat.zero_le 2)).add
      (generates_writeAll_map fun cstate h => generates_cstEntry cstate (hentries cstate h)))
    hpackage)

lemma generates_emptyPTC (hfits : Call.emptyPTC.terms.Within ACPIGEN_MAXLEN) :
    Generates 2 acpigenWriteEmptyPTC Call.emptyPTC.terms := by
  have hblock : acpigenWriteEmptyPTC = (do
      let nlen ← acpigenWriteName namePTC.chars
      let len ← block (acpigenWritePackage 2) 1 (writeAll id
        [template emptyRegister.run, template emptyRegister.run])
      return nlen + len) := by
    have hname : chars "_PTC" = namePTC.chars := by decide
    simp only [acpigenWriteEmptyPTC, hname, emptyRegister, ResourceItem.run, block, template,
      writeAll, id, bind_assoc, pure_bind, Nat.add_zero, Nat.add_comm, Nat.add_left_comm]
  have hpackage := (within_append.mp hfits).2
  have htemplate := within_concat.mp hpackage.2.1 _ List.mem_cons_self
  have hregister : Generates 1 (template emptyRegister.run) (templateTerms [emptyRegister]) :=
    generates_template _ htemplate (by simpa using run_emits emptyRegister)
  rw [hblock]
  exact ((generates_named namePTC).mono (Nat.zero_le 2)).add (Generates.package 2
    (generates_writeAll (.cons hregister (.cons hregister .nil))) hpackage)

lemma generates_emptyPCT : Generates 0 acpigenWriteEmptyPCT emptyPCTTerms := by
  have h := emitStream_appends emptyPCT emptyPCT.length
  rw [List.take_length] at h
  have hencode : emptyPCTTerms.encode = emptyPCT := by decide
  rw [Generates, hencode]
  exact h

/-! ### Methods -/

/-- A method that returns a value; the bytes in front of it are not counted by the generator. -/
lemma generates_method (path : NamePath) (hg : Generates 0 g t)
    (hfits : (method path t).Within ACPIGEN_MAXLEN) :
    Generates 1 (block (writeMethod path.chars) 1 (do
      let ret ← acpigenEmitByte 0xa4
      let arg ← g
      return ret + arg)) (method path t) := by
  have hbody : Generates 0 (do
      let ret ← acpigenEmitByte 0xa4
      let arg ← g
      return ret + arg) (.leaf .ret t) := by
    have h := (generates_leaf (l := .ret) (emitByte_emits 0xa4)).add hg
    exact h
  exact (writeMethod_opens path).generates hbody hfits

/-- The number of bytes that `acpigen_emit_byte` returns is known. -/
lemma emitByte_bind (c : UInt8) (f : ℕ → Gen α) :
    (acpigenEmitByte c >>= f) = (acpigenEmitByte c >>= fun _ => f 1) := rfl

lemma writePPC_eq (nr : ℕ) : acpigenWritePPC nr = block (writeMethod namePPC.chars) 1 (do
    let ret ← acpigenEmitByte 0xa4
    let arg ← acpigenWriteByte nr
    return ret + arg) := by
  have hname : chars "_PPC" = namePPC.chars := by decide
  have hlen : ∀ len name arg : ℕ, len + name + 2 + (1 + arg) = len + name + arg + 3 := by omega
  simp only [acpigenWritePPC, hname, block, writeMethod, bind_assoc, pure_bind]
  funext s
  simp only [emitByte_bind 0xa4, hlen]

lemma writePPCNVS_eq : acpigenWritePPCNVS = block (writeMethod namePPC.chars) 1 (do
    let ret ← acpigenEmitByte 0xa4
    let arg ← acpigenEmitNamestring namePPCM.chars
    return ret + arg) := by
  have hname : chars "_PPC" = namePPC.chars := by decide
  have harg : chars "PPCM" = namePPCM.chars := by decide
  have hlen : ∀ len name arg : ℕ, len + name + 2 + (1 + arg) = len + name + arg + 3 := by omega
  simp only [acpigenWritePPCNVS, hname, harg, block, writeMethod, bind_assoc, pure_bind]
  funext s
  simp only [emitByte_bind 0xa4, hlen]

lemma writeTPC_eq (path : NamePath) :
    acpigenWriteTPC path.chars = block (writeMethod nameTPC.chars) 1 (do
      let ret ← acpigenEmitByte 0xa4
      let arg ← acpigenEmitNamestring path.chars
      return ret + arg) := by
  have hname : chars "_TPC" = nameTPC.chars := by decide
  have hlen : ∀ len name arg : ℕ,
      1 + len + name + 1 + 1 + arg = len + name + 2 + (1 + arg) := by omega
  simp only [acpigenWriteTPC, hname, block, writeMethod, bind_assoc, pure_bind]
  funext s
  simp only [emitByte_bind 0x14, emitByte_bind 0x00, emitByte_bind 0xa4, hlen]

/-! ### The resources of the mainboard -/

/-- The generator returns nothing, but appends the same. -/
lemma Emits.unit {b : List UInt8} (hg : Emits d g b) : Appends d (do let _ ← g) b () := by
  have hunit : Appends d (do let _ ← g) (b ++ []) () :=
    Appends.bind hg ((appends_pure ()).mono (Nat.zero_le d))
  rwa [List.append_nil] at hunit

lemma rsvdIoLoop_appends (base size : ℕ) :
    Appends 0 (rsvdIoLoop base size) ((ioRanges base size).flatMap ResourceItem.bytes) () := by
  induction size using Nat.strong_induction_on generalizing base with
  | _ size ih =>
    unfold rsvdIoLoop ioRanges
    by_cases hpos : 0 < size
    · rw [dif_pos hpos, dif_pos hpos, List.flatMap_cons]
      have hrest := ih (size - if 255 < size then 255 else size) (by split_ifs <;> omega)
      exact Appends.bind (run_emits (.io16 base base 0 _ true)) (hrest _)
    · rw [dif_neg hpos, dif_neg hpos]
      exact appends_pure ()

lemma forM_appends {f : α → Gen Unit} {bytes : α → List UInt8} (h : ∀ x, Appends 0 (f x) (bytes x) ())
    (xs : List α) : Appends 0 (xs.forM f) (xs.flatMap bytes) () := by
  induction xs with
  | nil => exact appends_pure ()
  | cons x xs ih =>
    rw [List.flatMap_cons]
    exact Appends.bind (h x) ih

lemma searchGlobalResources_appends {search : Resource → Gen Unit} {items : Resource → List ResourceItem}
    (h : ∀ res, Appends 0 (search res) ((items res).flatMap ResourceItem.bytes) ())
    (devices : List Device) (type : BitVec 32) :
    Appends 0 (searchGlobalResources devices type type search)
      (((matching devices type).flatMap items).flatMap ResourceItem.bytes) () := by
  rw [matching, List.flatMap_assoc, List.flatMap_assoc]
  refine forM_appends (fun curdev => ?_) devices
  cases hen : curdev.enabled with
  | false => exact appends_pure ()
  | true =>
    rw [if_pos rfl, if_pos rfl]
    have hfilter : ∀ rs : List Resource,
        ((rs.filter fun res => res.flags &&& type = type ∧
          res.flags &&& Allocator.IORESOURCE_SUBTRACTIVE = 0).flatMap
            fun res => (items res).flatMap ResourceItem.bytes) =
        rs.flatMap fun res => if res.flags &&& type ≠ type then []
          else if res.flags &&& Allocator.IORESOURCE_SUBTRACTIVE ≠ 0 then []
          else (items res).flatMap ResourceItem.bytes := by
      intro rs
      induction rs with
      | nil => rfl
      | cons res rs ih =>
        rw [List.filter_cons, List.flatMap_cons, ← ih]
        split_ifs <;> simp_all
    rw [hfilter]
    refine forM_appends (fun res => ?_) _
    split_ifs
    · exact appends_pure ()
    · exact appends_pure ()
    · exact h res

lemma generates_mainboardTemplate (devices : List Device)
    (hfits : (templateTerms (mainboardItems devices)).Within ACPIGEN_MAXLEN) :
    Generates 1 (acpigenWriteMainboardResourceTemplate devices)
      (templateTerms (mainboardItems devices)) := by
  have hblock : acpigenWriteMainboardResourceTemplate devices = template (do
      let start ← acpigenGetCurrent
      searchGlobalResources devices (Allocator.IORESOURCE_MEM ||| IORESOURCE_RESERVE)
        (Allocator.IORESOURCE_MEM ||| IORESOURCE_RESERVE) acpigenAddMainboardRsvdMem32
      searchGlobalResources devices ( Allocator.IORESOURCE_IO ||| IORESOURCE_RESERVE)
        ( Allocator.IORESOURCE_IO ||| IORESOURCE_RESERVE) acpigenAddMainboardRsvdIo
      let stop ← acpigenGetCurrent
      return stop - start) := by
    simp only [acpigenWriteMainboardResourceTemplate, template, bind_assoc, pure_bind]
  have hmem : ∀ res : Resource, Appends 0 (acpigenAddMainboardRsvdMem32 res)
      ([ResourceItem.mem32fixed false res.base res.size].flatMap ResourceItem.bytes) () := by
    intro res
    rw [List.flatMap_singleton]
    exact (run_emits (.mem32fixed false res.base res.size)).unit
  have hbytes : (mainboardItems devices).flatMap ResourceItem.bytes =
      ((matching devices (Allocator.IORESOURCE_MEM ||| IORESOURCE_RESERVE)).flatMap
        fun res => [ResourceItem.mem32fixed false res.base res.size]).flatMap ResourceItem.bytes ++
      ((matching devices ( Allocator.IORESOURCE_IO ||| IORESOURCE_RESERVE)).flatMap
        fun res => ioRanges res.base res.size).flatMap ResourceItem.bytes := by
    rw [mainboardItems, List.flatMap_append, List.map_eq_flatMap]
  have hsearch : Appends 0 (do
      searchGlobalResources devices (Allocator.IORESOURCE_MEM ||| IORESOURCE_RESERVE)
        (Allocator.IORESOURCE_MEM ||| IORESOURCE_RESERVE) acpigenAddMainboardRsvdMem32
      searchGlobalResources devices ( Allocator.IORESOURCE_IO ||| IORESOURCE_RESERVE)
        ( Allocator.IORESOURCE_IO ||| IORESOURCE_RESERVE) acpigenAddMainboardRsvdIo)
      ((mainboardItems devices).flatMap ResourceItem.bytes) () := by
    rw [hbytes]
    exact Appends.bind (searchGlobalResources_appends hmem devices _)
      (searchGlobalResources_appends (fun res => rsvdIoLoop_appends res.base res.size) devices _)
  have hcurrent := getCurrent_appends hsearch
  simp only [bind_assoc] at hcurrent
  rw [hblock]
  exact generates_template _ hfits hcurrent

lemma generates_mainboardResources (devices : List Device) (scope path : NamePath)
    (hfits : (Call.mainboardResources devices scope path).terms.Within ACPIGEN_MAXLEN) :
    Generates 2 (acpigenWriteMainboardResources devices scope.chars path.chars)
      (Call.mainboardResources devices scope path).terms := by
  have hblock : acpigenWriteMainboardResources devices scope.chars path.chars =
      block (acpigenWriteScope scope.chars) 1 (do
        let len ← acpigenWriteName path.chars
        let k ← acpigenWriteMainboardResourceTemplate devices
        return len + k) := by
    simp only [acpigenWriteMainboardResources, block, bind_assoc, pure_bind, Nat.add_assoc]
  rw [hblock]
  have htemplate := (within_append.mp hfits.2.1).2
  exact (writeScope_opens scope).generates (((generates_named path).mono (Nat.zero_le 1)).add
    (generates_mainboardTemplate devices htemplate)) hfits

end ApuBios.Acpigen
