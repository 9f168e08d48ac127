import ApuBios.Arch.Acpigen.Names

/-!
# Name strings

What `acpigen_emit_namestring` emits is read by the grammar of AML, for any number of names in the
path. The number of names is emitted as one byte.
-/

namespace ApuBios.Acpigen

open Aml

/-- Where a path starts. -/
inductive Start
  | root
  | parents (n : ℕ)

def Start.isRoot : Start → Bool
  | .root => true
  | .parents _ => false

def Start.count : Start → ℕ
  | .root => 0
  | .parents n => n

/-- The characters in front of the names. -/
def Start.chars : Start → List UInt8
  | .root => [0x5c]
  | .parents n => List.replicate n 0x5e

/-- A path of any number of names of one to four characters. -/
structure Path where
  start : Start
  segs : List Segment
  short : ∀ σ ∈ segs, σ.chars.length ≤ 4

def Path.chars (path : Path) : List UInt8 := path.start.chars ++ joinDots path.segs

/-- A name filled with underscores. -/
def Segment.filled (σ : Segment) : List UInt8 :=
  σ.chars ++ List.replicate (4 - σ.chars.length) 0x5f

/-- What the path stands for. -/
structure Denotes (path : Path) (p : NameString) : Prop where
  root : p.root = path.start.isRoot
  parents : p.parents = path.start.count
  segs : p.segs.map NameSeg.encode = path.segs.map Segment.filled

/-- As many bytes are emitted as the generator returns, and they are read as the path. -/
def RoundTrip (path : Path) : Prop :=
  ∀ s : State, ∃ bytes p,
    acpigenEmitNamestring path.chars s = some (bytes.length, { s with out := s.out ++ bytes }) ∧
      Denotes path p ∧ ∀ rest, readName (bytes ++ rest) = some (p, rest)

variable {σ : Segment} {name bs rest : List UInt8} {n : ℕ}

/-! ### Emitting -/

lemma Start.chars_eq (start : Start) :
    start.chars = (if start.isRoot then [0x5c] else []) ++ List.replicate start.count 0x5e := by
  cases start with
  | root => rfl
  | parents n => rfl

lemma Start.emitNamestring (start : Start) {segs : List NameSeg} (hroot : char name 0 ≠ 0x5c)
    (hparents : char name 0 ≠ 0x5e) (hnames : Emits 0 (emitNames name) (encodeSegs segs)) :
    Emits 0 (acpigenEmitNamestring (start.chars ++ name))
      (NameString.encode ⟨start.isRoot, start.count, segs⟩) := by
  rw [start.chars_eq, List.append_assoc]
  exact emitNamestring_of_names start.isRoot start.count hroot hparents hnames

/-- A path with names. -/
lemma emitNamestring_emits_segs (path : Path) (h : path.segs ≠ []) :
    Emits 0 (acpigenEmitNamestring path.chars)
      (NameString.encode ⟨path.start.isRoot, path.start.count, path.segs.map Segment.seg⟩) := by
  rw [Path.chars]
  obtain ⟨σ, ss, hsegs⟩ := List.exists_cons_of_ne_nil h
  rw [hsegs]
  exact path.start.emitNamestring (joinDots_lead (by decide) (by decide))
    (joinDots_lead (by decide) (by decide)) emitNames_emits

/-- The name that is emitted where there is none. -/
def blank : Segment := ⟨0x5f, [], underscore_valid, by simp⟩

lemma emitNames_nil : Emits 0 (emitNames []) (encodeSegs [blank.seg]) := by
  have hnone : ∀ b ∈ ([] : List UInt8), b ≠ 0 ∧ b ≠ 0x2e := by simp
  exact simpleNamestringLoop_emits [] hnone ends_nil (le_refl 4)

lemma emitNamestring_emits_nil (path : Path) (h : path.segs = []) :
    Emits 0 (acpigenEmitNamestring path.chars)
      (NameString.encode ⟨path.start.isRoot, path.start.count, [blank.seg]⟩) := by
  rw [Path.chars, h]
  exact path.start.emitNamestring (by decide) (by decide) emitNames_nil

/-- What is emitted in any state. -/
lemma Emits.eq {g : Gen ℕ} {b : List UInt8} (h : Emits 0 g b) (s : State) :
    g s = some (b.length, { s with out := s.out ++ b }) := h s fun h0 => absurd h0 (lt_irrefl 0)

/-! ### Reading -/

lemma length_of_readSegs {r : List NameSeg × List UInt8} (h : readSegs n bs = some r) :
    r.1.length = n := by
  induction n, bs using readSegs.induct generalizing r with
  | case1 bs =>
    rw [readSegs, Option.some_inj] at h
    rw [← h]
    rfl
  | case2 n b c d e bs hb ih =>
    rw [readSegs, dif_pos hb] at h
    obtain ⟨r', hr', rfl⟩ := Option.map_eq_some_iff.mp h
    rw [List.length_cons, ih hr']
  | case3 n b c d e bs hb =>
    rw [readSegs, dif_neg hb] at h
    cases h
  | case4 n bs hshort =>
    rw [readSegs] at h
    · cases h
    · exact hshort

/-- No more names are read than a byte can count. -/
lemma length_of_readPath {r : List NameSeg × List UInt8} (h : readPath bs = some r) :
    r.1.length ≤ 255 := by
  cases bs with
  | nil => exact absurd h (by simp [readPath])
  | cons b bs =>
    rw [readPath] at h
    split_ifs at h
    · rw [length_of_readSegs h]
      decide
    · rw [length_of_readSegs h]
      have := (bs.headD 0).toNat_lt
      omega
    · rw [length_of_readSegs h]
      decide

lemma length_of_readName {p : NameString} (h : readName bs = some (p, rest)) :
    p.segs.length ≤ 255 := by
  obtain ⟨r, hr, hp⟩ := Option.map_eq_some_iff.mp h
  obtain ⟨rfl, -⟩ := Prod.mk.inj hp
  exact length_of_readPath hr

/-! ### Filling -/

lemma padded_eq (h : name.length ≤ n) :
    padded name n = name ++ List.replicate (n - name.length) 0x5f := by
  induction n generalizing name with
  | zero =>
    obtain rfl := List.length_eq_zero_iff.mp (Nat.le_zero.mp h)
    rfl
  | succ n ih =>
    cases name with
    | nil => rw [padded_nil]; rfl
    | cons b name =>
      rw [List.length_cons] at h
      rw [padded, List.headD_cons, List.tail_cons, ih (Nat.le_of_succ_le_succ h), List.length_cons,
        Nat.succ_sub_succ, List.cons_append]

lemma Path.denotes (path : Path) :
    Denotes path ⟨path.start.isRoot, path.start.count, path.segs.map Segment.seg⟩ where
  root := rfl
  parents := rfl
  segs := by
    rw [List.map_map]
    refine List.map_congr_left fun σ hσ => ?_
    rw [Function.comp_apply, σ.encode_seg, padded_eq (path.short σ hσ), Segment.filled]

lemma Denotes.length {path : Path} {p : NameString} (h : Denotes path p) :
    p.segs.length = path.segs.length := by
  have hlength := congrArg List.length h.segs
  rwa [List.length_map, List.length_map] at hlength

lemma RoundTrip.length_le {path : Path} (h : RoundTrip path) : path.segs.length ≤ 255 := by
  obtain ⟨bytes, p, -, hp, hread⟩ := h ⟨[], []⟩
  rw [← hp.length]
  exact length_of_readName (hread [])

/-- Without a name, one is emitted nevertheless. -/
lemma RoundTrip.ne_nil {path : Path} (h : RoundTrip path) : path.segs ≠ [] := by
  intro hnil
  obtain ⟨bytes, p, hemit, hp, hread⟩ := h ⟨[], []⟩
  rw [(emitNamestring_emits_nil path hnil).eq, Option.some_inj, Prod.mk.injEq,
    State.mk.injEq] at hemit
  obtain ⟨-, hbytes, -⟩ := hemit
  have hblank := @readName_append [] ⟨path.start.isRoot, path.start.count, [blank.seg]⟩
    ⟨List.cons_ne_nil _ _, (by decide : 1 < 256)⟩
  rw [List.nil_append, List.nil_append] at hbytes
  rw [hbytes, hread, Option.some_inj, Prod.mk.injEq] at hblank
  have hlength := hp.length
  rw [hblank.1, hnil] at hlength
  exact absurd hlength Nat.one_ne_zero

/-- A path is read back if it has names, and not more than a byte can count. -/
theorem path_roundTrip_iff (path : Path) :
    RoundTrip path ↔ path.segs ≠ [] ∧ path.segs.length ≤ 255 := by
  constructor
  · intro h
    exact ⟨h.ne_nil, h.length_le⟩
  · rintro ⟨hne, hlength⟩ s
    refine ⟨_, _, (emitNamestring_emits_segs path hne).eq s, path.denotes, ?_⟩
    intro rest
    refine readName_append _ ⟨by simpa using hne, ?_⟩
    rw [List.length_map]
    omega

/-- 256 names. -/
def longPath : Path where
  start := .root
  segs := List.replicate 256 ⟨0x41, [], by decide, by simp⟩
  short := by
    intro σ hσ
    rw [List.eq_of_mem_replicate hσ]
    decide

/-- For 256 names, their number is emitted as zero. -/
theorem not_roundTrip_longPath : ¬ RoundTrip longPath := by
  intro h
  have hlength := h.length_le
  rw [longPath, List.length_replicate] at hlength
  omega

end ApuBios.Acpigen
