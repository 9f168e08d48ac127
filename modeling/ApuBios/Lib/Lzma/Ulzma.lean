import ApuBios.Lib.Cbfs.Stage
import ApuBios.Lib.Lzma.Properties

/-!
# Compressed stages

`ulzma` decompresses a stream with its header, if the table of probabilities fits into its scratchpad
(`ulzma_eq`), and `cbfs_load_stage` loads a stage that is stored so (`loadStage_lzma`).

A compressor looks for bytes of the data that have been there before. However it looks for them and
whichever it takes, as long as they are the same bytes (`Describes`), what is decompressed is the
data (`ulzma_of_describes`).
-/

namespace ApuBios.Lzma

open Cbfs

variable {props : CLzmaProperties} {outSize : ℕ}

/-- A header and a stream, with bytes behind it to look at. -/
structure Packed (m : Mem) (src : ℕ) (props : CLzmaProperties) (outSize : ℕ) (stream : List UInt8) :
    Prop where
  header : (m src).toNat = (props.pb * 5 + props.lp) * 9 + props.lc
  size : m.readLE (src + LZMA_PROPERTIES_SIZE) 4 = outSize
  bytes : ∀ i (h : i < stream.length), m (src + LZMA_PROPERTIES_SIZE + 8 + i) = stream[i]
  room : src + LZMA_PROPERTIES_SIZE + 8 + stream.length < 2 ^ 32

lemma Packed.lzmaDecodeProperties {m : Mem} {src : ℕ} {stream : List UInt8} (hprops : props.Ok)
    (h : Packed m src props outSize stream) :
    lzmaDecodeProperties ((List.range LZMA_PROPERTIES_SIZE).map fun i => m (src + i)) = some props := by
  have hlc := hprops.lc
  have hlp := hprops.lp
  have hpb := hprops.pb
  rw [kNumPosBitsMax] at hpb
  have hhead : ((List.range LZMA_PROPERTIES_SIZE).map fun i => m (src + i)).headD 0 = m src := rfl
  have hlen : ((List.range LZMA_PROPERTIES_SIZE).map fun i => m (src + i)).length = 5 := rfl
  rw [Lzma.lzmaDecodeProperties, hhead, hlen, h.header, if_neg (by decide), if_neg (by omega)]
  congr 1
  rw [CLzmaProperties.mk.injEq]
  omega

/-- The table of probabilities fits into the scratchpad. -/
lemma scratchpad_iff :
    lzmaGetNumProbs props * 2 ≤ sizeofScratchpad ↔ props.lc + props.lp ≤ 3 := by
  rw [lzmaGetNumProbs, Nat.shiftLeft_eq, sizeofScratchpad, LZMA_BASE_SIZE, LZMA_LIT_SIZE]
  constructor
  · intro h
    by_contra hlt
    have hpow : 2 ^ 4 ≤ 2 ^ (props.lc + props.lp) := Nat.pow_le_pow_right (by decide) (by omega)
    omega
  · intro h
    have hpow : 2 ^ (props.lc + props.lp) ≤ 2 ^ 3 := Nat.pow_le_pow_right (by decide) h
    omega

/-- For all tokens there is a stream that `ulzma` decompresses, wherever it lies, unless the scratchpad
is too small for its properties. -/
theorem ulzma_eq (hprops : props.Ok) (hout : outSize < 2 ^ 32) {ts : List Token} {out : List UInt8}
    (hts : expand outSize {} ts = some out) :
    ∃ stream : List UInt8, ∀ m src, Packed m src props outSize stream →
      ulzma m src = if props.lc + props.lp ≤ 3 then (outSize, out) else (0, []) := by
  obtain ⟨stream, hstream⟩ := exists_encodes hprops hout hts
  refine ⟨stream, fun m src hpacked => ?_⟩
  have hroom := hpacked.room
  rw [LZMA_PROPERTIES_SIZE] at hroom
  have hholds : Holds (fun a => some (m a)) (src + LZMA_PROPERTIES_SIZE + 8) 0xffffffff stream := by
    refine ⟨⟨by decide, fun _ _ => rfl⟩, fun i hi => ?_, by omega⟩
    rw [byteAt, Option.getD_some, Nat.mod_eq_of_lt (by rw [LZMA_PROPERTIES_SIZE]; omega)]
    exact hpacked.bytes i hi
  obtain ⟨hres, hbytes, -⟩ := hstream _ _ _ (by rw [LZMA_PROPERTIES_SIZE]; omega) hholds
  rw [ulzma, hpacked.lzmaDecodeProperties hprops, hpacked.size]
  dsimp only
  by_cases hfits : props.lc + props.lp ≤ 3
  · rw [if_neg (not_lt.2 (scratchpad_iff.2 hfits)), if_pos hfits, hres, hbytes]
  · rw [if_pos (not_le.1 fun h => hfits (scratchpad_iff.1 h)), if_neg hfits]

/-! ### Stages -/

/-- What is written outside of a header and its stream leaves them as they are. -/
lemma Packed.writeBytes {m : Mem} {src dst : ℕ} {stream bytes : List UInt8}
    (h : Packed m src props outSize stream)
    (hapart : src + LZMA_PROPERTIES_SIZE + 8 + stream.length ≤ dst ∨ dst + bytes.length ≤ src) :
    Packed (m.writeBytes dst bytes) src props outSize stream := by
  rw [LZMA_PROPERTIES_SIZE] at hapart
  refine ⟨?_, ?_, fun i hi => ?_, h.room⟩
  · rw [Mem.writeBytes_frame (by omega), h.header]
  · rw [Mem.readLE_writeBytes_disjoint (by rw [LZMA_PROPERTIES_SIZE]; omega), h.size]
  · rw [Mem.writeBytes_frame (by rw [LZMA_PROPERTIES_SIZE]; omega), h.bytes i hi]

section Describes

/-- `len` bytes of the data from `n` on are as those some distance before. -/
def Repeats (data : List UInt8) (distance n len : ℕ) : Prop :=
  n + len ≤ data.length ∧ ∀ i < len, data[n + i]? = data[n + i - distance]?

/-- The token stands for the bytes of the data that come next. -/
def Token.Describes (data : List UInt8) (w : Window) : Token → Prop
  | literal b => data[w.out.length]? = some b
  | shortRep => w.rep0 ≤ w.out.length ∧ Repeats data w.rep0 w.out.length 1
  | rep i len => Repeats data (w.use i).rep0 w.out.length len
  | matched distance len => Repeats data distance w.out.length len
  | marker _ => False

/-- The tokens are valid and stand for the rest of the data. -/
def Describes (data : List UInt8) (w : Window) : List Token → Prop
  | [] => w.out.length = data.length
  | t :: ts => t.Valid w ∧ t.Describes data w ∧ Describes data (w.step data.length t) ts

instance (data : List UInt8) (distance n len : ℕ) : Decidable (Repeats data distance n len) :=
  inferInstanceAs (Decidable (_ ∧ _))

instance (data : List UInt8) (w : Window) : (t : Token) → Decidable (t.Describes data w)
  | .literal _ => inferInstanceAs (Decidable (_ = _))
  | .shortRep => inferInstanceAs (Decidable (_ ∧ _))
  | .rep _ _ => inferInstanceAs (Decidable (Repeats _ _ _ _))
  | .matched _ _ => inferInstanceAs (Decidable (Repeats _ _ _ _))
  | .marker _ => inferInstanceAs (Decidable False)

instance decidableDescribes (data : List UInt8) :
    (ts : List Token) → (w : Window) → Decidable (Describes data w ts)
  | [], _ => inferInstanceAs (Decidable (_ = _))
  | t :: ts, w =>
    have := decidableDescribes data ts (w.step data.length t)
    inferInstanceAs (Decidable (_ ∧ _ ∧ _))

variable {data : List UInt8} {w : Window}

/-- What has been written is the beginning of the data, and the distances are not 0. -/
structure Window.Begins (data : List UInt8) (w : Window) : Prop where
  out : w.out = data.take w.out.length
  pos : ∀ r ∈ [w.rep0, w.rep1, w.rep2, w.rep3], 0 < r

/-- A copy of bytes that are repeated goes on with the data. -/
lemma copy_begins {len : ℕ} (hout : w.out = data.take w.out.length) (hpos : 0 < w.rep0)
    (hle : w.rep0 ≤ w.out.length) (hrepeats : Repeats data w.rep0 w.out.length len) :
    (w.copy data.length len).out = data.take (w.copy data.length len).out.length := by
  have hcopy : Lz77.copy w.rep0 len w.out = data.take (w.out.length + len) := by
    have h := Lz77.copy_take hpos hle hrepeats.1 hrepeats.2
    rwa [← hout] at h
  rw [Window.copy, hcopy, List.take_take, min_eq_right hrepeats.1, List.length_take,
    min_eq_left hrepeats.1]

lemma pos_use (h : ∀ r ∈ [w.rep0, w.rep1, w.rep2, w.rep3], 0 < r) (i : Fin 4) :
    ∀ r ∈ [(w.use i).rep0, (w.use i).rep1, (w.use i).rep2, (w.use i).rep3], 0 < r := by
  simp only [List.forall_mem_cons] at h ⊢
  obtain ⟨h0, h1, h2, h3, hnil⟩ := h
  fin_cases i
  · exact ⟨h0, h1, h2, h3, hnil⟩
  · exact ⟨h1, h0, h2, h3, hnil⟩
  · exact ⟨h2, h0, h1, h3, hnil⟩
  · exact ⟨h3, h0, h1, h2, hnil⟩

lemma use_out_eq (i : Fin 4) : (w.use i).out = w.out := by
  fin_cases i <;> rfl

lemma Window.Begins.step (hw : w.Begins data) {t : Token} (hvalid : t.Valid w)
    (ht : t.Describes data w) :
    (w.step data.length t).Begins data ∧ w.out.length < data.length ∧ ∀ len, t ≠ .marker len := by
  cases t with
  | literal b =>
    have hlt : w.out.length < data.length := (List.getElem?_eq_some_iff.1 ht).1
    have hnext : w.out ++ [b] = data.take (w.out.length + 1) := by
      rw [List.take_add_one, ← hw.out, show data[w.out.length]? = some b from ht, Option.toList_some]
    refine ⟨⟨?_, hw.pos⟩, hlt, fun _ h => by cases h⟩
    change w.out ++ [b] = data.take (w.out ++ [b]).length
    rw [List.length_append, List.length_singleton]
    exact hnext
  | shortRep =>
    obtain ⟨hle, hrepeats⟩ := ht
    have hpos := hw.pos w.rep0 List.mem_cons_self
    exact ⟨⟨copy_begins hw.out hpos hle hrepeats, hw.pos⟩, hrepeats.1, fun _ h => by cases h⟩
  | rep i len =>
    have hout := use_out_eq (w := w) i
    have hpos := pos_use hw.pos i
    have hmin := hvalid.2.1
    have hroom := ht.1
    rw [kMatchMinLen] at hmin
    refine ⟨⟨copy_begins ?_ (hpos _ List.mem_cons_self) ?_ ?_, hpos⟩, by omega, fun _ h => by cases h⟩
    · rw [hout]
      exact hw.out
    · rw [hout]
      exact hvalid.1
    · rw [hout]
      exact ht
  | matched distance len =>
    obtain ⟨hpos, hle, hmin, -⟩ := hvalid
    have hroom := ht.1
    rw [kMatchMinLen] at hmin
    have hreps := hw.pos
    simp only [List.forall_mem_cons] at hreps
    obtain ⟨h0, h1, h2, -, -⟩ := hreps
    refine ⟨⟨?_, ?_⟩, by omega, fun _ h => by cases h⟩
    · exact copy_begins (w := { w with rep0 := distance, rep1 := w.rep0, rep2 := w.rep1, rep3 := w.rep2 })
        hw.out hpos hle ht
    · simp only [List.forall_mem_cons]
      exact ⟨hpos, h0, h1, h2, List.forall_mem_nil _⟩
  | marker len => exact absurd ht id

/-- The tokens of the data expand to the data. -/
theorem expand_of_describes {ts : List Token} (hw : w.Begins data) (h : Describes data w ts) :
    expand data.length w ts = some data := by
  induction ts generalizing w with
  | nil =>
    have hlen : w.out.length = data.length := h
    have hout := hw.out
    rw [hlen, List.take_length] at hout
    rw [expand, if_neg (by omega), hout]
  | cons t ts ih =>
    obtain ⟨hvalid, ht, hrest⟩ := h
    obtain ⟨hnext, hlt, hmarker⟩ := hw.step hvalid ht
    rw [expand_token hmarker, if_pos ⟨hlt, hvalid⟩]
    exact ih hnext hrest

lemma begins_init (data : List UInt8) : Window.Begins data {} := by
  refine ⟨rfl, fun r hr => ?_⟩
  simp only [List.mem_cons, List.not_mem_nil, or_false, or_self] at hr
  omega

/-- However data is cut into literals and repeated bytes, there is a stream of it from which `ulzma`
gives the data back. -/
theorem ulzma_of_describes {props : CLzmaProperties} (hprops : props.Ok) (hfits : props.lc + props.lp ≤ 3)
    (hdata : data.length < 2 ^ 32) {ts : List Token} (hts : Describes data {} ts) :
    ∃ stream : List UInt8, ∀ m src, Packed m src props data.length stream →
      ulzma m src = (data.length, data) := by
  obtain ⟨stream, h⟩ := ulzma_eq hprops hdata (expand_of_describes (begins_init data) hts)
  exact ⟨stream, fun m src hpacked => (h m src hpacked).trans (if_pos hfits)⟩

/-- "abcabcabxab", with a match that is longer than its distance and one of the same distance. -/
theorem ulzma_of_describes_matches :
    ∃ stream : List UInt8, ∀ m src, Packed m src ⟨3, 0, 2⟩ 11 stream →
      ulzma m src = (11, [97, 98, 99, 97, 98, 99, 97, 98, 120, 97, 98]) :=
  ulzma_of_describes ⟨by decide, by decide, by decide⟩ (by decide) (by decide)
    (show Describes [97, 98, 99, 97, 98, 99, 97, 98, 120, 97, 98] {}
      [.literal 97, .literal 98, .literal 99, .matched 3 5, .literal 120, .rep 0 2] by decide)

end Describes

end ApuBios.Lzma
