import ApuBios.Lib.SelfBoot.Parts
import ApuBios.Library.Tiling

/-!
# How the loop splits a segment

The loop that loads the segments looks again at the pieces that `relocate_segment` has made, also at
the piece that it has moved to the bounce buffer if there is one in front of it. `tiled_iff` says
when the pieces that are loaded are those that the segment should be split into.
-/

namespace ApuBios.SelfBoot

open Tiling

variable {env : Env} {buffer : ℕ} {m : Mem} {seg new : Segment} {l rest loaded : List Segment}
  {rounds fuel : ℕ}

/-! ### The segments that are loaded -/

/-- The loop of `load_self_segments` without the memory: the segments that are loaded. -/
def loadedLoop (env : Env) (buffer : ℕ) : ℕ → List Segment → Option (List Segment)
  | _, [] => some []
  | 0, _ :: _ => none
  | fuel + 1, seg :: rest =>
    let r := relocateSegment env buffer seg
    let rest := r.after.toList ++ rest
    match r.before with
    | some new => loadedLoop env buffer fuel (new :: r.seg :: rest)
    | none => (loadedLoop env buffer fuel rest).map (r.seg :: ·)

/-- The memory after a segment has been loaded where it is. -/
def load (env : Env) (buffer : ℕ) (m : Mem) (seg : Segment) : Mem :=
  (loadSegment env m buffer seg).2

lemma loadSegment_eq_load (h : decision env seg = none) :
    loadSegment env m buffer seg = (none, load env buffer m seg) :=
  Prod.ext (loadSegment_fst.trans h) rfl

/-- More rounds change nothing. -/
lemma loadLoop_mono {x : ℤ × Mem} (h : loadLoop env buffer fuel m l = some x) (k : ℕ) :
    loadLoop env buffer (k + fuel) m l = some x := by
  induction fuel generalizing m l with
  | zero =>
    cases l with
    | nil => cases k <;> exact h
    | cons seg rest => cases h
  | succ fuel ih =>
    cases l with
    | nil => cases k <;> exact h
    | cons seg rest =>
      rw [← Nat.add_assoc, loadLoop]
      rw [loadLoop] at h
      split at h
      · exact ih h
      · split at h
        · exact h
        · exact ih h

/-- Segments for which the loop goes on. -/
def Quiet (env : Env) (seg : Segment) : Prop := Sized seg ∧ decision env seg = none

lemma RelocatedSpec.quiet {r : Relocated} (h : RelocatedSpec env seg r) (hseg : Quiet env seg) :
    (∀ new ∈ r.before, Quiet env new) ∧ Quiet env r.seg ∧ ∀ new ∈ r.after.toList, Quiet env new := by
  refine ⟨fun new hnew => ?_, ⟨h.sized, h.decision_eq.trans hseg.2⟩, fun new hnew => ?_⟩
  · obtain ⟨hpiece, -⟩ := h.before new hnew
    exact ⟨hpiece.sized, hpiece.decision_eq⟩
  · obtain ⟨hpiece, -⟩ := h.after new (Option.mem_toList.mp hnew)
    exact ⟨hpiece.sized, hpiece.decision_eq⟩

/-- The loop loads these segments one after the other, and goes on. -/
lemma loadLoop_of_loaded {x : ℤ × Mem} (hl : ∀ seg ∈ l, Quiet env seg)
    (h : loadedLoop env buffer rounds l = some loaded)
    (hrest : loadLoop env buffer fuel (loaded.foldl (load env buffer) m) rest = some x) :
    loadLoop env buffer (rounds + fuel) m (l ++ rest) = some x := by
  induction rounds generalizing m l loaded with
  | zero =>
    cases l with
    | nil =>
      obtain rfl := Option.some.inj h
      exact loadLoop_mono hrest 0
    | cons seg l => cases h
  | succ rounds ih =>
    cases l with
    | nil =>
      obtain rfl := Option.some.inj h
      exact loadLoop_mono hrest _
    | cons seg l =>
      rw [List.forall_mem_cons] at hl
      obtain ⟨hbefore, hseg, hafter⟩ :=
        (relocateSegment_spec env buffer hl.1.1).quiet hl.1
      have hbehind := List.forall_mem_append.mpr ⟨hafter, hl.2⟩
      rw [Nat.add_right_comm, List.cons_append, loadLoop]
      rw [loadedLoop] at h
      rw [← List.append_assoc]
      cases hnew : (relocateSegment env buffer seg).before with
      | some new =>
        rw [hnew] at h hbefore
        refine ih ?_ h hrest
        exact List.forall_mem_cons.mpr ⟨hbefore new rfl, List.forall_mem_cons.mpr ⟨hseg, hbehind⟩⟩
      | none =>
        rw [hnew] at h
        obtain ⟨loaded', hloaded, rfl⟩ := Option.map_eq_some_iff.mp h
        dsimp only
        rw [loadSegment_eq_load hseg.2]
        exact ih hbehind hloaded hrest

/-- The loop ends when the one with the memory does. -/
lemma exists_loaded_of_loadLoop {x : ℤ × Mem} (hl : ∀ seg ∈ l, Quiet env seg)
    (h : loadLoop env buffer rounds m l = some x) :
    ∃ loaded, loadedLoop env buffer rounds l = some loaded := by
  induction rounds generalizing m l with
  | zero =>
    cases l with
    | nil => exact ⟨[], rfl⟩
    | cons seg l => cases h
  | succ rounds ih =>
    cases l with
    | nil => exact ⟨[], rfl⟩
    | cons seg l =>
      rw [List.forall_mem_cons] at hl
      obtain ⟨hbefore, hseg, hafter⟩ :=
        (relocateSegment_spec env buffer hl.1.1).quiet hl.1
      have hbehind := List.forall_mem_append.mpr ⟨hafter, hl.2⟩
      rw [loadLoop] at h
      rw [loadedLoop]
      cases hnew : (relocateSegment env buffer seg).before with
      | some new =>
        rw [hnew] at h hbefore
        refine ih ?_ h
        exact List.forall_mem_cons.mpr ⟨hbefore new rfl, List.forall_mem_cons.mpr ⟨hseg, hbehind⟩⟩
      | none =>
        rw [hnew] at h
        dsimp only at h ⊢
        rw [loadSegment_eq_load hseg.2] at h
        obtain ⟨loaded, hloaded⟩ := ih hbehind h
        exact ⟨_, by rw [hloaded, Option.map_some]⟩

lemma exists_loadedLoop (buffer : ℕ) (hl : ∀ seg ∈ l, Quiet env seg) :
    ∃ rounds loaded, loadedLoop env buffer rounds l = some loaded := by
  obtain ⟨rounds, x, h⟩ := exists_loadLoop buffer (fun _ => 0) fun seg hseg => (hl seg hseg).1
  exact ⟨rounds, exists_loaded_of_loadLoop hl h⟩

/-! ### One round -/

/-- A segment that has been moved to the bounce buffer. -/
def redirect (env : Env) (buffer : ℕ) (seg : Segment) : Segment :=
  { seg with dstaddr := Word.add 32 buffer (Word.sub 32 seg.dstaddr env.image.lbStart) }

lemma loadedLoop_nil (h : loadedLoop env buffer rounds [] = some loaded) : loaded = [] := by
  cases rounds <;> exact (Option.some.inj h).symm

/-- A new segment in front is looked at first. -/
lemma loadedLoop_before (h : loadedLoop env buffer rounds (seg :: rest) = some loaded)
    (hnew : (relocateSegment env buffer seg).before = some new) :
    ∃ rounds, loadedLoop env buffer rounds (new :: (relocateSegment env buffer seg).seg ::
      ((relocateSegment env buffer seg).after.toList ++ rest)) = some loaded := by
  cases rounds with
  | zero => cases h
  | succ rounds =>
    rw [loadedLoop, hnew] at h
    exact ⟨rounds, h⟩

lemma loadedLoop_none (h : loadedLoop env buffer rounds (seg :: rest) = some loaded)
    (hnew : (relocateSegment env buffer seg).before = none) :
    ∃ rounds loaded', loadedLoop env buffer rounds
        ((relocateSegment env buffer seg).after.toList ++ rest) = some loaded' ∧
      loaded = (relocateSegment env buffer seg).seg :: loaded' := by
  cases rounds with
  | zero => cases h
  | succ rounds =>
    rw [loadedLoop, hnew] at h
    obtain ⟨loaded', hloaded, rfl⟩ := Option.map_eq_some_iff.mp h
    exact ⟨rounds, loaded', hloaded, rfl⟩

/-- A segment that does not overlap coreboot is loaded as it is. -/
lemma loadedLoop_apart (h : loadedLoop env buffer rounds (seg :: rest) = some loaded)
    (happart : overlapsCoreboot env seg = false) :
    ∃ rounds loaded', loadedLoop env buffer rounds rest = some loaded' ∧ loaded = seg :: loaded' := by
  have hwhole : relocateSegment env buffer seg = _ :=
    relocateSegment_of_whole buffer (by simp [happart])
  rw [place_of_apart happart] at hwhole
  obtain ⟨rounds, loaded', hloaded, rfl⟩ := loadedLoop_none h (by rw [hwhole])
  rw [hwhole] at hloaded ⊢
  exact ⟨rounds, loaded', hloaded, rfl⟩

lemma loadedLoop_of_apart (hl : ∀ seg ∈ l, overlapsCoreboot env seg = false)
    (h : loadedLoop env buffer rounds l = some loaded) : loaded = l := by
  induction l generalizing rounds loaded with
  | nil => exact loadedLoop_nil h
  | cons seg rest ih =>
    rw [List.forall_mem_cons] at hl
    obtain ⟨rounds, loaded', hloaded, rfl⟩ := loadedLoop_apart h hl.1
    rw [ih hl.2 hloaded]

/-- A segment that is seen to overlap coreboot although its end wraps around is moved as a whole. -/
lemma loadedLoop_wrapped (hoverlap : overlapsCoreboot env seg = true) (hsized : Sized seg)
    (hend : 2 ^ 32 ≤ seg.end_)
    (h : loadedLoop env buffer rounds (seg :: rest) = some loaded) :
    ∃ rounds loaded', loadedLoop env buffer rounds rest = some loaded' ∧
      loaded = redirect env buffer seg :: loaded' := by
  obtain ⟨hseen, hinside⟩ := overlapsCoreboot_iff.mp hoverlap
  have hfits := env.image.fits
  have hdst := hsized.dstaddr
  have hsize := hsized.memsz
  simp only [Segment.end_] at hend
  have hwrap : Word.add 32 seg.dstaddr seg.memsz = seg.dstaddr + seg.memsz - 2 ^ 32 :=
    Word.add_eq_wrap hend (by omega)
  rw [hwrap] at hseen
  have hrelocate : relocateSegment env buffer seg = ⟨none, redirect env buffer seg, none⟩ := by
    rw [relocateSegment, hoverlap, if_neg (by simp)]
    dsimp only
    rw [if_neg (by omega), if_neg (by omega)]
    rfl
  obtain ⟨rounds, loaded', hloaded, rfl⟩ := loadedLoop_none h (by rw [hrelocate])
  rw [hrelocate] at hloaded ⊢
  exact ⟨rounds, loaded', hloaded, rfl⟩

section Overlapping

variable (hoverlap : overlapsCoreboot env seg = true) (hnone : seg.compression = CBFS_COMPRESS_NONE)

include hoverlap hnone

/-- A segment that begins in coreboot is moved and loaded at once. -/
lemma loadedLoop_inside (hplain : Plain seg) (hstart : env.image.lbStart ≤ seg.dstaddr)
    (h : loadedLoop env buffer rounds (seg :: rest) = some loaded) :
    ∃ rounds loaded', loadedLoop env buffer rounds (late env seg ++ rest) = some loaded' ∧
      loaded = redirect env buffer (middle env seg) :: loaded' := by
  have hcut := relocateSegment_of_cut buffer hplain hoverlap hnone
  rw [early, if_neg (not_lt.mpr hstart), List.head?_nil, place,
    if_pos (overlaps_middle hplain hoverlap).2.2] at hcut
  obtain ⟨rounds, loaded', hloaded, rfl⟩ := loadedLoop_none h (by rw [hcut])
  rw [hcut] at hloaded ⊢
  rw [toList_head?_late] at hloaded
  exact ⟨rounds, loaded', hloaded, rfl⟩

/-- Of a segment that begins in front of coreboot the piece there is loaded first, and the one that
has been moved is looked at again. -/
lemma loadedLoop_front (hplain : Plain seg) (hstart : seg.dstaddr < env.image.lbStart)
    (h : loadedLoop env buffer rounds (seg :: rest) = some loaded) :
    ∃ rounds loaded', loadedLoop env buffer rounds
        (redirect env buffer (middle env seg) :: (late env seg ++ rest)) = some loaded' ∧
      loaded = seg.cut 0 (env.image.lbStart - seg.dstaddr) :: loaded' := by
  have hcut := relocateSegment_of_cut buffer hplain hoverlap hnone
  have hearly : early env seg = [seg.cut 0 (env.image.lbStart - seg.dstaddr)] := by
    rw [early, if_pos hstart]
  have hapart : overlapsCoreboot env (seg.cut 0 (env.image.lbStart - seg.dstaddr)) = false :=
    (overlaps_early hplain hoverlap (by rw [hearly]; simp)).2
  rw [hearly, List.head?_cons, place, if_pos (overlaps_middle hplain hoverlap).2.2] at hcut
  obtain ⟨rounds, hnew⟩ := loadedLoop_before h (by rw [hcut])
  rw [hcut] at hnew
  rw [toList_head?_late] at hnew
  exact loadedLoop_apart hnew hapart

end Overlapping

/-! ### The pieces -/

/-- No byte of the segment is in coreboot. -/
def Clear (env : Env) (seg : Segment) : Prop :=
  ∀ a, seg.dstaddr ≤ a → a < seg.dstaddr + seg.memsz → a < env.image.lbStart ∨ env.image.lbEnd ≤ a

/-- The segment that is loaded is the piece `c` of `seg`: as it is if it does not overlap coreboot,
or in the bounce buffer. -/
def IsPiece (env : Env) (buffer : ℕ) (seg : Segment) (c : ℕ × ℕ) (s : Segment) : Prop :=
  s = seg.cut c.1 c.2 ∧ Clear env s ∨ s = redirect env buffer (seg.cut c.1 c.2)

/-- The segments that are loaded are pieces of `seg`, which lie one behind the other and of which
there is one for each byte. -/
def Tiled (env : Env) (buffer : ℕ) (seg : Segment) (loaded : List Segment) : Prop :=
  ∃ cuts : List (ℕ × ℕ), Tiles Prod.fst Prod.snd 0 cuts seg.memsz ∧
    List.Forall₂ (IsPiece env buffer seg) cuts loaded

/-- The end of the segment does not wrap around, or the segment is behind coreboot, or it wraps
around so far that it is seen to overlap coreboot. -/
def Seen (env : Env) (seg : Segment) : Prop :=
  seg.dstaddr + seg.memsz < 2 ^ 32 ∨ env.image.lbEnd ≤ seg.dstaddr ∨
    env.image.lbStart + 2 ^ 32 < seg.dstaddr + seg.memsz

/-- If there is a piece in front of coreboot, the piece that is moved to the buffer does not overlap
coreboot there. -/
def Settles (env : Env) (buffer : ℕ) (seg : Segment) : Prop :=
  seg.dstaddr < env.image.lbStart → env.image.lbStart < seg.dstaddr + seg.memsz →
    overlapsCoreboot env { seg with
      dstaddr := buffer
      memsz := min (seg.dstaddr + seg.memsz) env.image.lbEnd - env.image.lbStart } = false

/-- The pieces that a segment should be split into. -/
lemma tiled_parts (hplain : Plain seg) (hoverlap : overlapsCoreboot env seg = true) :
    Tiled env buffer seg
      (early env seg ++ redirect env buffer (middle env seg) :: late env seg) := by
  obtain ⟨hend, hinside⟩ := hplain.overlaps_iff.mp hoverlap
  have hlt := env.image.lt
  have hmem : seg.end_ = seg.dstaddr + seg.memsz := rfl
  refine ⟨(if seg.dstaddr < env.image.lbStart then [(0, env.image.lbStart - seg.dstaddr)] else []) ++
    (env.image.lbStart - seg.dstaddr,
      min seg.end_ env.image.lbEnd - max seg.dstaddr env.image.lbStart) ::
    (if env.image.lbEnd < seg.end_ then
      [(env.image.lbEnd - seg.dstaddr, seg.end_ - env.image.lbEnd)] else []), ?_, ?_⟩
  · split_ifs <;>
      simp only [tiles_cons, tiles_nil, List.cons_append, List.nil_append, true_and] <;> omega
  · refine List.rel_append ?_ (.cons (.inr rfl) ?_)
    · rw [early]
      split_ifs with hstart
      · refine .cons (.inl ⟨rfl, fun a _ ha => .inl ?_⟩) .nil
        simp only [Segment.cut] at ha
        omega
      · exact .nil
    · rw [late]
      split_ifs with hlate
      · refine .cons (.inl ⟨rfl, fun a ha _ => .inr ?_⟩) .nil
        simp only [Segment.cut] at ha
        omega
      · exact .nil

/-- The first piece begins where the tiling begins and the others lie behind it. -/
lemma exists_of_forall₂ {a e : ℕ} {cuts : List (ℕ × ℕ)} {s : Segment}
    (htiles : Tiles Prod.fst Prod.snd a cuts e)
    (h : List.Forall₂ (IsPiece env buffer seg) cuts (s :: loaded)) :
    IsPiece env buffer seg (a, s.memsz) s ∧ ∃ cuts', Tiles Prod.fst Prod.snd (a + s.memsz) cuts' e ∧
      List.Forall₂ (IsPiece env buffer seg) cuts' loaded := by
  obtain ⟨c, cuts', hc, hcuts, rfl⟩ := List.forall₂_cons_right_iff.mp h
  have hsize : c.2 = s.memsz := by
    rcases hc with ⟨rfl, -⟩ | rfl <;> rfl
  obtain ⟨hstart, hrest⟩ := htiles
  obtain rfl : c = (a, s.memsz) := Prod.ext hstart hsize
  exact ⟨hc, cuts', hrest, hcuts⟩

lemma memsz_redirect : (redirect env buffer seg).memsz = seg.memsz := rfl

/-- Without an offset between coreboot and the buffer nothing is moved. -/
lemma redirect_self (h : buffer = env.image.lbStart) (hdst : seg.dstaddr < 2 ^ 32) :
    redirect env buffer seg = seg := by
  subst h
  have hlt := env.image.lt
  have hfits := env.image.fits
  have hsame : Word.add 32 env.image.lbStart (Word.sub 32 seg.dstaddr env.image.lbStart) =
      seg.dstaddr := by
    rcases le_or_gt env.image.lbStart seg.dstaddr with hle | hgt
    · rw [Word.sub_eq hle hdst, Word.add_eq (by omega)]
      omega
    · rw [Word.sub_eq_wrap hgt (by omega), Word.add_eq_wrap (by omega) (by omega)]
      omega
  rw [redirect, hsame]

lemma redirect_dstaddr_ne (h : buffer ≠ env.image.lbStart) (hbuffer : buffer < 2 ^ 32)
    (hdst : seg.dstaddr < 2 ^ 32) : (redirect env buffer seg).dstaddr ≠ seg.dstaddr := by
  have hlt := env.image.lt
  have hfits := env.image.fits
  simp only [redirect]
  rcases le_or_gt env.image.lbStart seg.dstaddr with hle | hgt
  · rw [Word.sub_eq hle hdst]
    rcases lt_or_ge (buffer + (seg.dstaddr - env.image.lbStart)) (2 ^ 32) with hno | hwrap
    · rw [Word.add_eq hno]
      omega
    · rw [Word.add_eq_wrap hwrap (by omega)]
      omega
  · rw [Word.sub_eq_wrap hgt (by omega)]
    rcases lt_or_ge (buffer + (seg.dstaddr + 2 ^ 32 - env.image.lbStart)) (2 ^ 32) with hno | hwrap
    · rw [Word.add_eq hno]
      omega
    · rw [Word.add_eq_wrap hwrap (by omega)]
      omega

/-- A piece that begins in coreboot and is not empty has been moved. -/
lemma IsPiece.redirected {i : ℕ} {s : Segment} (h : IsPiece env buffer seg (i, s.memsz) s)
    (hpos : 0 < s.memsz) (hlo : env.image.lbStart ≤ seg.dstaddr + i)
    (hhi : seg.dstaddr + i < env.image.lbEnd) : s = redirect env buffer (seg.cut i s.memsz) := by
  rcases h with ⟨heq, hclear⟩ | heq
  · have hdst : s.dstaddr = seg.dstaddr + i := by
      rw [heq]
      rfl
    have := hclear s.dstaddr le_rfl (by omega)
    omega
  · exact heq

/-! ### Segments that overlap coreboot -/

/-- What is loaded first of a segment in front of coreboot begins where the segment does. -/
lemma loadedLoop_head (hplain : Plain seg) (hnone : seg.compression = CBFS_COMPRESS_NONE)
    (hstart : seg.dstaddr < env.image.lbStart) (hpos : 0 < seg.memsz)
    (h : loadedLoop env buffer rounds (seg :: rest) = some loaded) :
    ∃ s loaded', loaded = s :: loaded' ∧ s.dstaddr = seg.dstaddr ∧ 0 < s.memsz := by
  cases hoverlap : overlapsCoreboot env seg with
  | false =>
    obtain ⟨-, loaded', -, rfl⟩ := loadedLoop_apart h hoverlap
    exact ⟨seg, loaded', rfl, rfl, hpos⟩
  | true =>
    obtain ⟨-, loaded', -, rfl⟩ := loadedLoop_front hoverlap hnone hplain hstart h
    exact ⟨_, loaded', rfl, rfl, Nat.sub_pos_of_lt hstart⟩

section Overlapping

variable (hplain : Plain seg) (hoverlap : overlapsCoreboot env seg = true)
  (hnone : seg.compression = CBFS_COMPRESS_NONE)

include hplain hoverlap

/-- What would overwrite coreboot is not split again. -/
lemma middle_middle :
    middle env (middle env seg) = middle env seg ∧ late env (middle env seg) = [] := by
  obtain ⟨hdst, hend, -⟩ := overlaps_middle hplain hoverlap
  obtain ⟨hinside, -⟩ := hplain.overlaps_iff.mp hoverlap
  have hlt := env.image.lt
  have hmem : seg.end_ = seg.dstaddr + seg.memsz := rfl
  have hcut : Plain (middle env seg) := hplain.cut (by omega)
  have hsize : (middle env seg).end_ = (middle env seg).dstaddr + (middle env seg).memsz := rfl
  constructor
  · conv_lhs => rw [middle]
    rw [show env.image.lbStart - (middle env seg).dstaddr = 0 by omega,
      show min (middle env seg).end_ env.image.lbEnd - max (middle env seg).dstaddr env.image.lbStart =
        (middle env seg).memsz by omega, hcut.cut_zero]
  · rw [late, if_neg (by omega)]

/-- The piece that is moved begins at the buffer if there is one in front of coreboot. -/
lemma overlaps_redirect_middle (hbuffer : buffer < 2 ^ 32) (hstart : seg.dstaddr < env.image.lbStart) :
    (redirect env buffer (middle env seg)).dstaddr = buffer ∧
      overlapsCoreboot env (redirect env buffer (middle env seg)) =
        overlapsCoreboot env { seg with
          dstaddr := buffer
          memsz := min (seg.dstaddr + seg.memsz) env.image.lbEnd - env.image.lbStart } := by
  have hlt := env.image.lt
  have hfits := env.image.fits
  have hdst : (middle env seg).dstaddr = env.image.lbStart := by
    rw [(overlaps_middle hplain hoverlap).1]
    omega
  have hplace : (redirect env buffer (middle env seg)).dstaddr = buffer := by
    simp only [redirect, hdst]
    rw [Word.sub_eq le_rfl (by omega), Nat.sub_self, Word.add_eq (by omega), Nat.add_zero]
  have hsize : (redirect env buffer (middle env seg)).memsz =
      min (seg.dstaddr + seg.memsz) env.image.lbEnd - env.image.lbStart := by
    simp only [memsz_redirect, middle, Segment.cut, Segment.end_]
    omega
  exact ⟨hplace, by rw [overlapsCoreboot, overlapsCoreboot, hplace, hsize]⟩

include hnone

/-- If the piece that is moved settles, the pieces are those that there should be. -/
lemma tiled_of_settles (hbuffer : buffer < 2 ^ 32)
    (hsettle : buffer = env.image.lbStart ∨ Settles env buffer seg)
    (h : loadedLoop env buffer rounds [seg] = some loaded) : Tiled env buffer seg loaded := by
  have hlate : ∀ part ∈ late env seg ++ [], overlapsCoreboot env part = false := by
    intro part hpart
    rw [List.append_nil] at hpart
    exact (overlaps_late hplain hoverlap hpart).2
  have hparts : Tiled env buffer seg _ := tiled_parts hplain hoverlap
  rcases le_or_gt env.image.lbStart seg.dstaddr with hstart | hstart
  · obtain ⟨rounds, loaded', hloaded, rfl⟩ := loadedLoop_inside hoverlap hnone hplain hstart h
    rw [loadedLoop_of_apart hlate hloaded, List.append_nil]
    rwa [early, if_neg (not_lt.mpr hstart), List.nil_append] at hparts
  · obtain ⟨rounds, loaded', hloaded, rfl⟩ := loadedLoop_front hoverlap hnone hplain hstart h
    obtain ⟨hdst, hsame⟩ := overlaps_redirect_middle hplain hoverlap hbuffer hstart
    have hinside := (hplain.overlaps_iff.mp hoverlap).1
    suffices hloaded' : loaded' = redirect env buffer (middle env seg) :: late env seg by
      rw [hloaded']
      rwa [early, if_pos hstart, List.singleton_append] at hparts
    rcases hsettle with hself | hsettle
    · -- the piece is moved to where it is
      obtain ⟨hmdst, -, hover⟩ := overlaps_middle hplain hoverlap
      obtain ⟨hmiddle, hmlate⟩ := middle_middle hplain hoverlap
      have hmem : seg.end_ = seg.dstaddr + seg.memsz := rfl
      have hlt := env.image.lt
      have hmid : Plain (middle env seg) := hplain.cut (by omega)
      have hfits := env.image.fits
      rw [redirect_self hself (by omega)] at hloaded
      obtain ⟨rounds, loaded'', hloaded', rfl⟩ :=
        loadedLoop_inside hover hnone hmid (by omega) hloaded
      rw [hmlate, List.nil_append] at hloaded'
      rw [loadedLoop_of_apart hlate hloaded', List.append_nil, hmiddle]
    · have happart := hsettle hstart hinside
      rw [← hsame] at happart
      obtain ⟨rounds, loaded'', hloaded', rfl⟩ := loadedLoop_apart hloaded happart
      rw [loadedLoop_of_apart hlate hloaded', List.append_nil]

/-- The piece that was moved is moved once more. -/
lemma not_tiled_of_overlaps (hbuffer : buffer < 2 ^ 32) (hne : buffer ≠ env.image.lbStart)
    (hstart : seg.dstaddr < env.image.lbStart)
    (hagain : overlapsCoreboot env (redirect env buffer (middle env seg)) = true)
    (h : loadedLoop env buffer rounds [seg] = some loaded) : ¬Tiled env buffer seg loaded := by
  have hlt := env.image.lt
  have hfits := env.image.fits
  have hmem : seg.end_ = seg.dstaddr + seg.memsz := rfl
  have hinside := (hplain.overlaps_iff.mp hoverlap).1
  have hsub : Word.sub 32 env.image.lbStart env.image.lbStart = 0 := by
    rw [Word.sub_eq le_rfl (by omega), Nat.sub_self]
  obtain ⟨rounds, loaded', hloaded, rfl⟩ := loadedLoop_front hoverlap hnone hplain hstart h
  have hdst := (overlaps_redirect_middle hplain hoverlap hbuffer hstart).1
  have hmid : Plain (middle env seg) := hplain.cut (by omega)
  have hsize : (redirect env buffer (middle env seg)).memsz =
      min seg.end_ env.image.lbEnd - env.image.lbStart := by
    simp only [memsz_redirect, middle, Segment.cut]
    omega
  have hrnone : (redirect env buffer (middle env seg)).compression = CBFS_COMPRESS_NONE := hnone
  have hfile : (redirect env buffer (middle env seg)).filesz ≤
      (redirect env buffer (middle env seg)).memsz := hmid.filesz_le
  have hsrc : (redirect env buffer (middle env seg)).srcaddr < 2 ^ 32 := hmid.src_lt
  rintro ⟨cuts, htiles, hall⟩
  obtain ⟨-, cuts, htiles, hall⟩ := exists_of_forall₂ htiles hall
  generalize redirect env buffer (middle env seg) = moved at *
  have hmoved : moved.end_ = moved.dstaddr + moved.memsz := rfl
  have hseen := overlapsCoreboot_iff.mp hagain
  rcases le_or_gt env.image.lbStart buffer with hle | hgt
  · -- what is loaded next is not at the beginning of the buffer
    obtain ⟨next, loaded'', t, rfl, hnext, ht, hpos⟩ : ∃ next loaded'' t, loaded' = next :: loaded'' ∧
        next.dstaddr = (redirect env buffer t).dstaddr ∧ t.dstaddr = buffer ∧ 0 < next.memsz := by
      rcases lt_or_ge moved.end_ (2 ^ 32) with hno | hwrap
      · have hmplain : Plain moved := ⟨hno, hfile, hsrc⟩
        obtain ⟨-, loaded'', -, rfl⟩ := loadedLoop_inside hagain hrnone hmplain (by omega) hloaded
        refine ⟨_, loaded'', middle env moved, rfl, rfl, ?_, ?_⟩
        · rw [(overlaps_middle hmplain hagain).1]
          omega
        · simp only [memsz_redirect, middle, Segment.cut]
          omega
      · have hmsized : Sized moved := ⟨by omega, by omega⟩
        obtain ⟨-, loaded'', -, rfl⟩ := loadedLoop_wrapped hagain hmsized hwrap hloaded
        refine ⟨_, loaded'', moved, rfl, rfl, hdst, ?_⟩
        rw [memsz_redirect]
        omega
    obtain ⟨hpiece, -⟩ := exists_of_forall₂ htiles hall
    have hcut := hpiece.redirected hpos (by simp only [Segment.cut]; omega)
      (by simp only [Segment.cut]; omega)
    have hend : next.dstaddr = buffer := by
      rw [hcut]
      simp only [redirect, Segment.cut]
      rw [show seg.dstaddr + (0 + (env.image.lbStart - seg.dstaddr)) = env.image.lbStart by omega,
        hsub, Word.add_eq (by omega), Nat.add_zero]
    exact redirect_dstaddr_ne hne hbuffer (show t.dstaddr < 2 ^ 32 by omega) (by rw [← hnext, hend, ht])
  · -- the piece is split again, and the rest of it is moved to the beginning of the buffer
    have hmplain : Plain moved := ⟨by omega, hfile, hsrc⟩
    obtain ⟨hmseen, -⟩ := hmplain.overlaps_iff.mp hagain
    have hmstart : moved.dstaddr < env.image.lbStart := by omega
    obtain ⟨rounds, loaded'', hloaded', rfl⟩ :=
      loadedLoop_front hagain hrnone hmplain hmstart hloaded
    have hmdst := (overlaps_redirect_middle hmplain hagain hbuffer hmstart).1
    have hmmid : Plain (middle env moved) := hmplain.cut (by omega)
    have hmsize : (redirect env buffer (middle env moved)).memsz =
        min moved.end_ env.image.lbEnd - env.image.lbStart := by
      simp only [memsz_redirect, middle, Segment.cut]
      omega
    have hmfile : (redirect env buffer (middle env moved)).filesz ≤
        (redirect env buffer (middle env moved)).memsz := hmmid.filesz_le
    have hmnone : (redirect env buffer (middle env moved)).compression = CBFS_COMPRESS_NONE := hrnone
    have hmplain' : Plain (redirect env buffer (middle env moved)) := by
      refine ⟨?_, hmfile, hmmid.src_lt⟩
      rw [Segment.end_]
      omega
    obtain ⟨next, loaded₃, rfl, hnext, hpos⟩ :=
      loadedLoop_head hmplain' hmnone (by omega) (by omega) hloaded'
    obtain ⟨-, cuts, htiles, hall⟩ := exists_of_forall₂ htiles hall
    obtain ⟨hpiece, -⟩ := exists_of_forall₂ htiles hall
    have hfirst : (moved.cut 0 (env.image.lbStart - moved.dstaddr)).memsz =
        env.image.lbStart - buffer := by rw [← hdst]; rfl
    rw [hfirst] at hpiece
    have hcut := hpiece.redirected hpos (by simp only [Segment.cut]; omega)
      (by simp only [Segment.cut]; omega)
    have hend : next.dstaddr = env.image.lbStart := by
      rw [hcut]
      simp only [redirect, Segment.cut]
      rw [Word.sub_eq (by omega) (by omega), Word.add_eq (by omega)]
      omega
    omega

end Overlapping

/-! ### All segments -/

/-- A segment that is loaded as it is. -/
lemma tiled_self_iff (hfile : seg.filesz ≤ seg.memsz) (hsrc : seg.srcaddr < 2 ^ 32) :
    Tiled env buffer seg [seg] ↔ Clear env seg ∨ seg = redirect env buffer seg := by
  have hcut := seg.cut_zero hfile hsrc
  constructor
  · rintro ⟨cuts, htiles, hall⟩
    obtain ⟨hpiece, -⟩ := exists_of_forall₂ htiles hall
    rw [IsPiece, hcut] at hpiece
    exact hpiece.imp_left fun h => h.2
  · intro h
    refine ⟨[(0, seg.memsz)], ⟨rfl, Nat.zero_add _⟩, .cons ?_ .nil⟩
    rw [IsPiece, hcut]
    exact h.imp_left fun h => ⟨rfl, h⟩

/-- A segment that the code does not see to overlap coreboot. -/
lemma tiled_of_apart (hsized : Sized seg) (hfile : seg.filesz ≤ seg.memsz)
    (hsrc : seg.srcaddr < 2 ^ 32) (hbuffer : buffer < 2 ^ 32)
    (happart : overlapsCoreboot env seg = false) :
    Tiled env buffer seg [seg] ↔
      buffer = env.image.lbStart ∨ Seen env seg ∧ Settles env buffer seg := by
  have hlt := env.image.lt
  have hfits := env.image.fits
  have hdst := hsized.dstaddr
  have hsize := hsized.memsz
  rw [tiled_self_iff hfile hsrc]
  by_cases hself : buffer = env.image.lbStart
  · exact iff_of_true (.inr (redirect_self hself hdst).symm) (.inl hself)
  have hmoved : seg ≠ redirect env buffer seg := fun heq =>
    redirect_dstaddr_ne hself hbuffer hdst (by rw [← heq])
  rw [or_iff_left hmoved, or_iff_right hself]
  rw [← Bool.not_eq_true, overlapsCoreboot_iff] at happart
  have hend : Word.add 32 seg.dstaddr seg.memsz =
      if seg.dstaddr + seg.memsz < 2 ^ 32 then seg.dstaddr + seg.memsz
      else seg.dstaddr + seg.memsz - 2 ^ 32 := by
    split_ifs with hno
    · exact Word.add_eq hno
    · exact Word.add_eq_wrap (by omega) (by omega)
  rw [hend] at happart
  constructor
  · intro hclear
    have hseen : Seen env seg := by
      by_contra hunseen
      rw [Seen] at hunseen
      have := hclear (max seg.dstaddr env.image.lbStart) (by omega) (by omega)
      omega
    refine ⟨hseen, fun hstart hinside => ?_⟩
    rw [Seen] at hseen
    split_ifs at happart <;> omega
  · rintro ⟨hseen, -⟩ a hlo hhi
    rw [Seen] at hseen
    split_ifs at happart <;> omega

/-- The loop loads an uncompressed segment in pieces, after which it goes on with the next segment.
The pieces are those that the segment should be split into if and only if the buffer is coreboot
itself, or an overlap is seen and the piece that is moved settles. -/
theorem tiled_iff (env : Env) {buffer : ℕ} {seg : Segment} (hbuffer : buffer < 2 ^ 32)
    (hnone : seg.compression = CBFS_COMPRESS_NONE) (hsized : Sized seg)
    (hfile : seg.filesz ≤ seg.memsz) (hsrc : seg.srcaddr < 2 ^ 32) :
    ∃ rounds loaded, loadedLoop env buffer rounds [seg] = some loaded ∧
      (∀ fuel m rest x, loadLoop env buffer fuel (loaded.foldl (load env buffer) m) rest = some x →
        loadLoop env buffer (rounds + fuel) m (seg :: rest) = some x) ∧
      (Tiled env buffer seg loaded ↔
        buffer = env.image.lbStart ∨ Seen env seg ∧ Settles env buffer seg) := by
  have hquiet : ∀ s ∈ [seg], Quiet env s := by
    simpa using ⟨hsized, decision_of_none hnone⟩
  obtain ⟨rounds, loaded, h⟩ := exists_loadedLoop buffer hquiet
  refine ⟨rounds, loaded, h, fun fuel m rest x hrest => loadLoop_of_loaded hquiet h hrest, ?_⟩
  have hlt := env.image.lt
  have hfits := env.image.fits
  have hdst := hsized.dstaddr
  have hsize := hsized.memsz
  cases hoverlap : overlapsCoreboot env seg with
  | false =>
    obtain ⟨_, loaded', hloaded, rfl⟩ := loadedLoop_apart h hoverlap
    rw [loadedLoop_nil hloaded]
    exact tiled_of_apart hsized hfile hsrc hbuffer hoverlap
  | true =>
    have hover := overlapsCoreboot_iff.mp hoverlap
    rcases lt_or_ge seg.end_ (2 ^ 32) with hno | hwrap
    · have hplain : Plain seg := ⟨hno, hfile, hsrc⟩
      have hseen : Seen env seg := .inl hno
      rw [and_iff_right hseen]
      refine ⟨fun htiled => ?_, fun hsettle => tiled_of_settles hplain hoverlap hnone hbuffer hsettle h⟩
      by_contra hunsettled
      rw [not_or, Settles] at hunsettled
      push Not at hunsettled
      obtain ⟨hne, hstart, -, hagain⟩ := hunsettled
      rw [← (overlaps_redirect_middle hplain hoverlap hbuffer hstart).2, ne_eq,
        Bool.not_eq_false] at hagain
      exact not_tiled_of_overlaps hplain hoverlap hnone hbuffer hne hstart hagain h htiled
    · obtain ⟨_, loaded', hloaded, rfl⟩ := loadedLoop_wrapped hoverlap hsized hwrap h
      have hmem : seg.end_ = seg.dstaddr + seg.memsz := rfl
      rw [loadedLoop_nil hloaded]
      rw [Word.add_eq_wrap (by omega) (by omega)] at hover
      refine iff_of_true ⟨[(0, seg.memsz)], ⟨rfl, Nat.zero_add _⟩, .cons (.inr ?_) .nil⟩
        (.inr ⟨.inr (.inr (by omega)), fun hstart => by omega⟩)
      rw [seg.cut_zero hfile hsrc]

/-- A segment of two pages, the first in front of coreboot and the second in it. -/
def low : Segment := ⟨0xff000, 0xffc00038, 0x2000, 0x2000, CBFS_COMPRESS_NONE⟩

theorem tiled_iff_low :
    ∃ rounds loaded, loadedLoop flash 0x7ff80000 rounds [low] = some loaded ∧
      Tiled flash 0x7ff80000 low loaded := by
  obtain ⟨rounds, loaded, h, -, hiff⟩ := tiled_iff flash (show 0x7ff80000 < 2 ^ 32 by norm_num)
    (show low.compression = CBFS_COMPRESS_NONE from rfl) ⟨by decide, by decide⟩ (by decide)
    (by decide)
  exact ⟨rounds, loaded, h, hiff.mpr (.inr ⟨.inl (by decide), fun _ _ => by decide⟩)⟩

/-- With little memory the bounce buffer overlaps coreboot, and the second page is moved twice. -/
theorem not_tiled_low :
    bounceBuffer flash ⟨[⟨0, 0x19ffff, Bootmem.LB_MEM_RAM⟩]⟩ [low] = 0x120000 ∧
      ∀ rounds loaded, loadedLoop flash 0x120000 rounds [low] = some loaded →
        ¬Tiled flash 0x120000 low loaded := by
  refine ⟨by decide +kernel, fun rounds loaded h => ?_⟩
  exact not_tiled_of_overlaps ⟨by decide, by decide, by decide⟩ (by decide) rfl (by norm_num)
    (by decide) (by decide) (by decide) h

end ApuBios.SelfBoot
