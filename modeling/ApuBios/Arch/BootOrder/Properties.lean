import ApuBios.Arch.BootOrder.Basic
import ApuBios.Lib.Cbmem.Properties

/-!
# The size of the boot order

The entry has a fixed size, but what is copied into it is as long as the file says.
-/

namespace ApuBios.BootOrder

open Cbfs Cbmem

variable {m : Mem} {s : CbmemArea} {tmpboot : BootorderContainer}
variable {fuel cbfsFile dataBuf cmosConsoleSetting : ℕ} {w : Written}

/-- The stores end behind the data. -/
lemma copyBootorder_frame {p data a : ℕ} {c : BootorderContainer}
    (h : a < p ∨ p + (c.size + sizeofBootorderContainer) ≤ a) :
    copyBootorder m p c data a = m a := by
  have hsize : sizeofBootorderContainer = 24 := rfl
  have hname := c.fileName.2
  rw [copyBootorder, Mem.memcpy_frame (by omega), Mem.writeBytes_frame (by omega),
    Mem.writeLE_frame (by omega), Mem.writeLE_frame (by omega)]

lemma size_of_readBootorderFromCbfs {c c' : BootorderContainer} {data : ℕ}
    (h : readBootorderFromCbfs m c cbfsFile = some (c', data)) :
    c'.size = be32 m (cbfsFile + 8) := by
  rw [readBootorderFromCbfs] at h
  split_ifs at h
  · rw [← (Prod.mk.inj (Option.some.inj h)).1]

lemma size_of_getMainboardBootorderTable {m' : Mem} {c : BootorderContainer} {data : ℕ}
    (h : getMainboardBootorderTable m fuel tmpboot cbfsFile dataBuf cmosConsoleSetting =
      some (m', c, data)) : c.size = be32 m (cbfsFile + 8) := by
  rw [getMainboardBootorderTable, Option.bind_eq_some_iff] at h
  obtain ⟨⟨c', data'⟩, hread, h⟩ := h
  obtain ⟨length, -, h⟩ := Option.bind_eq_some_iff.mp h
  obtain ⟨n, -, h⟩ := Option.map_eq_some_iff.mp h
  rw [← (Prod.mk.inj (Prod.mk.inj h).2).1]
  exact size_of_readBootorderFromCbfs hread

/-- What the copy consists of. -/
lemma writeTables_eq_some
    (h : writeTables m fuel s tmpboot cbfsFile dataBuf cmosConsoleSetting = some w) :
    w.area = (cbmemAdd s CBMEM_ID_BOOTORDER cbmemSize).1 ∧
      w.entry = (cbmemAdd s CBMEM_ID_BOOTORDER cbmemSize).2 ∧ w.entry ≠ 0 ∧
      w.totalSize = be32 m (cbfsFile + 8) + sizeofBootorderContainer ∧
      ∀ a, a < w.entry ∨ w.entry + w.totalSize ≤ a → w.after a = w.before a := by
  rw [writeTables, Option.bind_eq_some_iff] at h
  obtain ⟨⟨m', c, data⟩, hget, h⟩ := h
  have hsize := size_of_getMainboardBootorderTable hget
  rcases hadd : cbmemAdd s CBMEM_ID_BOOTORDER cbmemSize with ⟨s', p⟩
  simp only [hadd] at h
  split_ifs at h with hzero
  · obtain rfl := Option.some.inj h
    exact ⟨rfl, rfl, hzero, congrArg (· + _) hsize, fun a ha => copyBootorder_frame ha⟩

/-- The copy stays within the size of the entry, and leaves everything else in CBMEM alone. -/
structure Fits (w : Written) : Prop where
  le : w.totalSize ≤ cbmemSize
  others : ∀ e ∈ w.area.used ++ [w.area.free], e.id ≠ CBMEM_ID_BOOTORDER →
    ∀ a, e.base ≤ a → a < e.base + e.size → w.after a = w.before a

/-- The copy fits exactly if the file has at most 1000 bytes, in every state that CBMEM can be in. -/
theorem fits_iff_size_le {baseaddr size : ℕ} (garbage : List CbmemEntry) (calls : List Call)
    (m : Mem) (fuel : ℕ) (tmpboot : BootorderContainer)
    (cbfsFile dataBuf cmosConsoleSetting : ℕ) (w : Written) (harea : IsArea baseaddr size)
    (hcalls : ∀ c ∈ calls, IsSectionId c.id)
    (hadd : ∀ n, Call.add CBMEM_ID_BOOTORDER n ∈ calls → n = cbmemSize)
    (h : writeTables m fuel (run baseaddr size garbage calls) tmpboot cbfsFile dataBuf
      cmosConsoleSetting = some w) :
    Fits w ↔ be32 m (cbfsFile + 8) ≤ 1000 := by
  obtain ⟨hs, hentry, hne, htotal, hframe⟩ := writeTables_eq_some h
  have hsize : sizeofBootorderContainer = 24 := rfl
  have hcbmem : cbmemSize = 1024 := rfl
  have hid : IsSectionId CBMEM_ID_BOOTORDER := by decide
  refine ⟨fun hfits => by have := hfits.le; omega, fun hle => ⟨by omega, ?_⟩⟩
  -- the state after the call is that of a run
  have hrun : w.area = exec (cbmemInitializeEmpty ⟨baseaddr, size, garbage⟩)
      (calls ++ [.add CBMEM_ID_BOOTORDER cbmemSize]) := by
    rw [hs, exec, List.foldl_append]
    rfl
  have hcalls' : ∀ c ∈ calls ++ [.add CBMEM_ID_BOOTORDER cbmemSize], IsSectionId c.id := by
    intro c hc
    rcases List.mem_append.mp hc with hc | hc
    · exact hcalls c hc
    · rw [List.mem_singleton.mp hc]
      exact hid
  have hadd' : ∀ n, Call.add CBMEM_ID_BOOTORDER n ∈
      calls ++ [.add CBMEM_ID_BOOTORDER cbmemSize] → cbmemSize ≤ n := by
    intro n hn
    rcases List.mem_append.mp hn with hn | hn
    · exact (hadd n hn).ge
    · exact (Call.add.inj (List.mem_singleton.mp hn)).2.ge
  obtain ⟨free, sections, hwf, hsections⟩ := exec_le_size CBMEM_ID_BOOTORDER cbmemSize hcalls'
    hadd' (cbmemInitializeEmpty_wellFormed harea garbage) (by simp)
  rw [← hrun] at hwf
  -- the section that the copy goes to
  obtain ⟨free', new, hbefore, -⟩ :=
    exec_wellFormed hcalls (cbmemInitializeEmpty_wellFormed harea garbage)
  have hfind : cbmemFind w.area CBMEM_ID_BOOTORDER = w.entry := by
    rw [hs, hentry]
    exact cbmemFind_cbmemAdd hbefore hid cbmemSize
  obtain ⟨e₀, he₀, hid₀⟩ := (hwf.cbmemFind_ne_zero hid).mp (hfind ▸ hne)
  have hbase₀ : e₀.base = w.entry := by
    rw [← hwf.cbmemFind_mem he₀, hid₀, hfind]
  have hsize₀ := hsections e₀ he₀ hid₀
  intro e he hother a hlo hhi
  rw [hwf.used_eq, hwf.free_eq] at he
  refine hframe a ?_
  rcases hwf.tiles.eq_or_disjoint he (List.mem_append_left _ he₀) with rfl | hdisjoint
  · exact absurd hid₀ hother
  · omega

/-- A record in the flash with this length in big endian, and no data. -/
def record (len : List UInt8) : Mem :=
  Mem.writeBytes (fun _ => 0) 0xff800000
    (CBFS_FILE_MAGIC ++ len ++ [0, 0, 0, 0x50, 0, 0, 0, 0, 0, 0, 0, 0x28] ++ filename)

/-- What the stack holds is not looked at. -/
def stack : BootorderContainer := ⟨0, 0, ⟨List.replicate 16 0, rfl⟩⟩

def written (len : List UInt8) : Option Written :=
  writeTables (record len) 1 (run 0x1000 0x10000 [] []) stack 0xff800000 0x100000 0

/-- A file of 1000 bytes fits. -/
theorem fits_iff_size_le_thousand : ∃ w, written [0, 0, 3, 0xe8] = some w ∧ Fits w := by
  obtain ⟨w, hw⟩ := Option.isSome_iff_exists.mp
    (show (written [0, 0, 3, 0xe8]).isSome by decide +kernel)
  have hiff := fits_iff_size_le [] [] _ _ _ _ _ _ w (by decide) (by simp) (by simp) hw
  exact ⟨w, hw, hiff.mpr (by decide +kernel)⟩

/-- The file has 4096 bytes as it is built. -/
theorem not_fits_of_whole_file :
    ¬∀ (baseaddr size : ℕ) (garbage : List CbmemEntry) (calls : List Call) (m : Mem) (fuel : ℕ)
      (tmpboot : BootorderContainer) (cbfsFile dataBuf cmosConsoleSetting : ℕ) (w : Written),
      IsArea baseaddr size → (∀ c ∈ calls, IsSectionId c.id) →
      (∀ n, Call.add CBMEM_ID_BOOTORDER n ∈ calls → n = cbmemSize) →
      writeTables m fuel (run baseaddr size garbage calls) tmpboot cbfsFile dataBuf
        cmosConsoleSetting = some w → Fits w := by
  intro h
  obtain ⟨w, hw⟩ := Option.isSome_iff_exists.mp
    (show (written [0, 0, 0x10, 0]).isSome by decide +kernel)
  have hfits := h _ _ _ _ _ _ _ _ _ _ w (by decide) (by simp) (by simp) hw
  have hle := hfits.le
  rw [(writeTables_eq_some hw).2.2.2.1] at hle
  exact absurd hle (by decide +kernel)

end ApuBios.BootOrder
