import ApuBios.Libpayload.Malloc.Runs

/-!
# Blocks of a new size

`realloc` frees the old block before it asks for the new one. If there is no space for the new
block, the old one stays free. If the new block begins in front of the old one, the header of what
is left of the free space can fall into the data that is still to be copied. `realloc_iff` says
exactly when a call keeps what it promises, on every heap that a program can reach.
-/

namespace ApuBios.Malloc

open Tiling Transition
open Word (ofInt toInt)

variable {r : Region} {m m' : Mem} {a e : ℕ} {b c : Block} {bs cs pre post : List Block}

/-! ### What a call promises and when it keeps it -/

/-- Every byte of the block is as it was. -/
def SameData (m m' : Mem) (k : LiveBlock) : Prop :=
  ∀ x, k.ptr ≤ x → x < k.ptr + k.size → m' x = m x

/-- What `realloc` promises for the block `l`: if it returns null, all blocks are held as before and
none has changed; else the block that it returns is held in place of `l` and begins with the data of
`l`, and no other block has changed. -/
def Kept (r : Region) (s : Heap) (l : LiveBlock) (size : ℕ) (res : Mem × ℕ) : Prop :=
  if res.2 = 0 then
    InOrder r ⟨res.1, s.held⟩ ∧ ∀ k ∈ s.held, SameData s.mem res.1 k
  else
    InOrder r ⟨res.1, ⟨res.2, size⟩ :: release s.held l.ptr⟩ ∧
      (∀ i < min l.size size, res.1 (res.2 + i) = s.mem (l.ptr + i)) ∧
      ∀ k ∈ release s.held l.ptr, SameData s.mem res.1 k

/-- The header that stands behind a new block of `n` bytes at the beginning of the free space leaves
the first `k` bytes of `b` as they are. -/
def Spared (m : Mem) (pre : List Block) (b : Block) (post : List Block) (n k : ℕ) : Prop :=
  HDRSIZE + n < gapSize pre b post → ∀ i < k,
    writeHeader m (gapStart pre b + HDRSIZE + n)
      (freeBlock (gapSize pre b post - (HDRSIZE + n) : ℕ)) (b.data + i) = m (b.data + i)

/-- There is a free block of `n` bytes in front of `b`; or there is one with `b`, and its first `k`
bytes are spared; or there is none with `b` and one behind it. -/
def Fits (m : Mem) (pre : List Block) (b : Block) (post : List Block) (n k : ℕ) : Prop :=
  (∃ x ∈ pre, x.used = false ∧ n ≤ x.size) ∨
    if n ≤ gapSize pre b post then Spared m pre b post n k
    else ∃ x ∈ post, x.used = false ∧ n ≤ x.size

/-- The block `l` can be moved to a block of `size` bytes. -/
def Movable (r : Region) (m : Mem) (l : LiveBlock) (size : ℕ) : Prop :=
  Asks size ∧ ∃ pre b post, Chain r m r.hstart (pre ++ b :: post) ∧ b.data = l.ptr ∧
    Fits m pre b post (needed size) (min l.size size)

section

variable {x y : Block} {pre' post' p q : List Block} {n k z : ℕ}

private lemma writeHeader_congr {hdr : ℕ} (h : m z = m' z) :
    writeHeader m e hdr z = writeHeader m' e hdr z := by
  simp only [writeHeader, Mem.writeLE, h]

lemma placed_congr (h : m z = m' z) : placed m x n z = placed m' x n z := by
  rw [placed, placed]
  split_ifs
  · exact writeHeader_congr (writeHeader_congr h)
  · exact writeHeader_congr h

/-- Nothing outside the free block changes. -/
lemma placed_frame (hle : n ≤ x.size) (hz : z < x.addr ∨ x.addr + x.span ≤ z) :
    placed m x n z = m z := by
  simp only [Block.span] at hz
  rw [placed]
  split_ifs with h
  · rw [writeHeader_frame (by omega), writeHeader_frame (by omega)]
  · rw [writeHeader_frame (by omega)]

namespace Joined

/-- The header of the new block is not in the data of `b`, so that only the one behind it
matters. -/
lemma spared_iff (h : Joined pre b post pre' x post') :
    Spared m pre b post n k ↔ ∀ i < k, placed m x n (b.data + i) = m (b.data + i) := by
  have hle := h.addr_le
  have hheader {hdr : ℕ} (i : ℕ) : writeHeader m x.addr hdr (b.data + i) = m (b.data + i) :=
    writeHeader_frame (.inr (by simp only [Block.data]; omega))
  rw [Spared, ← h.size, ← h.addr]
  by_cases hsplit : HDRSIZE + n < x.size
  · simp only [placed, hsplit, forall_const, if_true]
    refine forall₂_congr fun i _ => ?_
    rw [writeHeader_congr (hheader i)]
  · simp only [placed, hsplit, false_implies, true_iff, if_false]
    exact fun i _ => hheader i

/-- A free block of `n` bytes just in front of `b` is where the new block begins, and it ends in
front of `b`. -/
private lemma spared_of_front (h : Joined pre b post pre' x post') (hy : y.addr = x.addr)
    (hend : y.addr + y.span = b.addr) (hn : n ≤ y.size) : Spared m pre b post n k := by
  rw [Spared, ← h.size, ← h.addr]
  intro _ i _
  refine writeHeader_frame (.inr ?_)
  simp only [Block.data, Block.span] at hend ⊢
  omega

/-- The data of `b` is kept if and only if `b` fits, the first free block that is large enough
being `y`. -/
lemma fits_iff (h : Joined pre b post pre' x post')
    (hchain : Chain r m' r.hstart (pre' ++ x :: post')) (heq : pre' ++ x :: post' = p ++ y :: q)
    (hsmall : ∀ z ∈ p, z.used = false → z.size < n) (hy : y.used = false) (hfit : n ≤ y.size)
    (hk : k ≤ b.size) :
    Fits m pre b post n k ↔ ∀ i < k, placed m y n (b.data + i) = m (b.data + i) := by
  have hle := h.addr_le
  have hge := h.le_end
  have hpair := hchain.tiles.pairwise
  rw [List.pairwise_append, List.pairwise_cons] at hpair
  obtain ⟨-, ⟨hafter, -⟩, hbefore⟩ := hpair
  have hkeep (hapart : b.addr + b.span ≤ y.addr ∨ y.addr + y.span ≤ b.addr) (i : ℕ) (hi : i < k) :
      placed m y n (b.data + i) = m (b.data + i) := by
    refine placed_frame hfit ?_
    simp only [Block.data, Block.span] at hapart ⊢
    omega
  rcases cases_of_eq heq with hmem | ⟨rfl, rfl⟩ | ⟨hmem, hx⟩
  · have hend := hbefore y hmem x (by simp)
    refine iff_of_true (.inl ⟨y, ?_, hy, hfit⟩) (hkeep (.inr (hend.trans hle)))
    rcases h.front with ⟨rfl, -⟩ | ⟨z, rfl, -⟩
    · exact hmem
    · exact List.mem_append_left _ hmem
  · rw [← h.spared_iff, Fits, if_pos (h.size ▸ hfit)]
    refine ⟨?_, .inr⟩
    rintro (⟨z, hz, hfree, hle⟩ | hspared)
    · rcases h.front with ⟨rfl, -⟩ | ⟨w, rfl, -, haddr, hend⟩
      · exact absurd hle (hsmall z hz hfree).not_ge
      · rcases List.mem_append.mp hz with hz | hz
        · exact absurd hle (hsmall z hz hfree).not_ge
        · obtain rfl := List.mem_singleton.mp hz
          exact h.spared_of_front haddr hend hle
    · exact hspared
  · have hstart := hafter y hmem
    have hgap : ¬n ≤ gapSize pre b post := by
      rw [← h.size]
      exact (hsmall x hx h.free).not_ge
    refine iff_of_true (.inr ?_) (hkeep (.inl (hge.trans hstart)))
    rw [if_neg hgap]
    refine ⟨y, ?_, hy, hfit⟩
    rcases h.back with ⟨rfl, -⟩ | ⟨z, rfl, -⟩
    · exact hmem
    · exact List.mem_cons_of_mem _ hmem

/-- The new block does not begin behind the first byte of the old data, except behind all of it. -/
lemma place_cases (h : Joined pre b post pre' x post')
    (hchain : Chain r m r.hstart (pre' ++ x :: post')) (heq : pre' ++ x :: post' = p ++ y :: q) :
    y.data ≤ b.data ∨ b.data + b.size ≤ y.data := by
  have hle := h.addr_le
  have hge := h.le_end
  have hpair := hchain.tiles.pairwise
  rw [List.pairwise_append, List.pairwise_cons] at hpair
  simp only [Block.data, Block.span] at *
  rcases cases_of_eq heq with hmem | ⟨rfl, -⟩ | ⟨hmem, -⟩
  · have := hpair.2.2 y hmem x (by simp)
    omega
  · omega
  · have := hpair.2.1.1 y hmem
    omega

/-- Without a free block that is large enough there was none before. -/
lemma not_fits (h : Joined pre b post pre' x post')
    (hsmall : ∀ z ∈ pre' ++ x :: post', z.used = false → z.size < n) :
    ¬Fits m pre b post n k := by
  have hx := hsmall x (by simp) h.free
  have hgap : ¬n ≤ gapSize pre b post := by
    rw [← h.size]
    exact hx.not_ge
  have hle := h.addr_le
  have hge := h.le_end
  rw [Fits, if_neg hgap]
  rintro (⟨z, hz, hfree, hfit⟩ | ⟨z, hz, hfree, hfit⟩)
  · rcases h.front with ⟨rfl, -⟩ | ⟨w, rfl, -, haddr, hend⟩
    · exact absurd hfit (hsmall z (by simp [hz]) hfree).not_ge
    · rcases List.mem_append.mp hz with hz | hz
      · exact absurd hfit (hsmall z (by simp [hz]) hfree).not_ge
      · obtain rfl := List.mem_singleton.mp hz
        simp only [Block.span] at hend hge
        omega
  · rcases h.back with ⟨rfl, -⟩ | ⟨w, rfl, -, haddr, hend⟩
    · exact absurd hfit (hsmall z (by simp [hz]) hfree).not_ge
    · rcases List.mem_cons.mp hz with rfl | hz
      · simp only [Block.span] at haddr hend hge
        omega
      · exact absurd hfit (hsmall z (by simp [hz]) hfree).not_ge

end Joined

end

/-! ### One call -/

variable {s : Heap} {l : LiveBlock} {size : ℕ}

/-- The condition is about the chain that memory has. -/
lemma movable_iff (h : Chain r m r.hstart (pre ++ b :: post)) (hl : b.data = l.ptr) :
    Movable r m l size ↔
      Asks size ∧ Fits m pre b post (needed size) (min l.size size) := by
  refine and_congr_right fun _ => ⟨?_, fun hfits => ⟨pre, b, post, h, hl, hfits⟩⟩
  rintro ⟨pre', b', post', h', hl', hfits⟩
  obtain ⟨rfl, rfl, rfl⟩ := h.eq_of_data h' (hl.trans hl'.symm)
  exact hfits

/-- Freed space is not held. -/
lemma not_inOrder_of_joined {x : Block} {pre' post' : List Block}
    (h : Joined pre b post pre' x post') (hchain : Chain r m r.hstart (pre' ++ x :: post'))
    (hl : l ∈ s.held) (hdata : b.data = l.ptr) : ¬InOrder r ⟨m, s.held⟩ := by
  rintro ⟨bs, hbs, -, htracks⟩
  obtain rfl := hbs.unique hchain
  obtain ⟨d, hd, hused, hdata', -⟩ := htracks.block l hl
  have hle := h.addr_le
  have hge := h.le_end
  have hpos := b.size_pos
  have hpos' := d.size_pos
  rcases hbs.tiles.eq_or_disjoint hd (show x ∈ pre' ++ x :: post' by simp) with rfl | hdisj
  · simp [h.free] at hused
  · simp only [Block.data, Block.span] at *
    omega

/-- The data of `b` is at the new place after the call as it was before the copy. -/
private lemma res_spec {m₂ : Mem} {ret : ℕ} {res : Mem × ℕ} (hret : ret ≠ 0)
    (hplace : ret ≤ b.data ∨ b.data + b.size ≤ ret)
    (hres : res = if ret = 0 ∨ ret = b.data then (m₂, ret)
      else (m₂.memcpy ret b.data (if b.size > size then size else b.size), ret)) :
    res.2 = ret ∧ (∀ i < min b.size size, res.1 (ret + i) = m₂ (b.data + i)) ∧
      ∀ z, z < ret ∨ ret + size ≤ z → res.1 z = m₂ z := by
  subst hres
  by_cases hsame : ret = b.data
  · rw [if_pos (.inr hsame)]
    exact ⟨rfl, fun i _ => by rw [hsame], fun _ _ => rfl⟩
  · rw [if_neg (by tauto)]
    refine ⟨rfl, fun i hi => ?_, fun z hz => Mem.memcpy_frame ?_⟩
    · refine Mem.memcpy_read_of_le ?_ ?_ <;> split_ifs <;> omega
    · split_ifs <;> omega

/-- A call with a block that is held returns, and keeps its promise if and only if the block can be moved. -/
lemma kept_iff (h : InOrder r s) (hl : l ∈ s.held) (hsize : size < 2 ^ 32) :
    ∃ res, realloc r s.mem l.ptr size = some res ∧
      (Kept r s l size res ↔ Movable r s.mem l size) := by
  obtain ⟨res, hres, ht⟩ := h.realloc hsize (.inr ⟨l, hl, rfl⟩)
  refine ⟨res, hres, ?_⟩
  obtain ⟨m₁, hfree, h₁⟩ := h.free hl
  have hframe₁ {k : LiveBlock} (hk : k ∈ release s.held l.ptr) : SameData s.mem m₁ k := by
    obtain ⟨hk, hne⟩ := List.mem_filter.mp hk
    exact fun x => h.free_frame hl hfree hk (by simpa using hne)
  obtain ⟨bs, hchain, htwo, htracks⟩ := h
  obtain ⟨b, hb, hused, hdata, hlb⟩ := htracks.block l hl
  obtain ⟨pre, post, rfl⟩ := List.append_of_mem hb
  obtain ⟨m₁', pre', x, post', hfree', hjoined, hchain', hdata₁⟩ := free_joined hchain hused htwo
  rw [hdata, hfree] at hfree'
  obtain rfl := Option.some.inj hfree'
  rw [movable_iff hchain hdata]
  rw [← hdata] at hfree
  rw [← hdata, realloc_eq hchain hb hfree] at hres
  rcases alloc_first hchain' hsize with
    ⟨hnone, hsmall⟩ | ⟨p, y, q, hasks, heq, hsmall, hy, hfit, hsome⟩
  · -- the old block has been freed, and there is no space for the new one
    rw [hnone, Option.map_some, if_pos (.inl rfl)] at hres
    obtain rfl := Option.some.inj hres
    refine iff_of_false (fun hkept => ?_) fun hmove => hjoined.not_fits (hsmall hmove.1) hmove.2
    rw [Kept, if_pos rfl] at hkept
    exact not_inOrder_of_joined hjoined hchain' hl hdata hkept.1
  · have hret : y.data ≠ 0 := by simp [Block.data, HDRSIZE]
    have hplace := hjoined.place_cases hchain' heq
    rw [hsome, Option.map_some] at hres
    obtain ⟨hptr', hcopy, hout⟩ := res_spec hret hplace (Option.some.inj hres).symm
    have hkept : Kept r s l size res ↔ ∀ i < min l.size size,
        placed s.mem y (needed size) (b.data + i) = s.mem (b.data + i) := by
      simp only [record, hptr', if_neg hret] at ht
      rw [Kept, hptr', if_neg hret]
      have hdata' {i : ℕ} (hi : i < min l.size size) : res.1 (y.data + i) =
          placed s.mem y (needed size) (b.data + i) := by
        rw [hcopy i (by omega)]
        exact placed_congr (hdata₁ _ (by omega) (by omega))
      constructor
      · intro h i hi
        rw [← hdata' hi, h.2.1 i hi, hdata]
      · intro h
        refine ⟨ht, fun i hi => by rw [hdata' hi, h i hi, hdata], fun k hk z hle hlt => ?_⟩
        have hapart := (List.pairwise_cons.mp ht.disjoint).1 k hk
        dsimp only at hapart
        have hframe₂ := h₁.alloc_frame hsize hsome hk hle hlt
        dsimp only at hframe₂
        rw [hout z (by omega), hframe₂, hframe₁ hk z hle hlt]
    rw [hkept, and_iff_right hasks, hjoined.fits_iff hchain' heq hsmall hy hfit
      (min_le_left _ _ |>.trans hlb)]

/-! ### Runs -/

/-- On every heap that a program can reach, `realloc` of a block returns, and keeps its promise if and
only if the block can be moved. The blocks that are held are the live ones, except for those that a
call has released before it failed. `hm` holds because the heap lies in memory that is zero at
first. -/
theorem realloc_iff (r : Region) (m : Mem) (calls : List Call)
    (hm : hasMagic (readHeader m r.hstart) = false)
    (hcalls : Admits (step r) (fun s c => c.Uses s.held) (initial m) calls) :
    ∃ s, exec (step r) (initial m) calls = some s ∧
      ∀ l ∈ s.held, ∀ size < 2 ^ 32, ∃ res, realloc r s.mem l.ptr size = some res ∧
        (Kept r s.toHeap l size res ↔ Movable r s.mem l size) := by
  obtain ⟨s, hexec, ⟨rfl, -⟩ | hs⟩ := exec_inOrder hm hcalls
  · exact ⟨_, hexec, fun l hl => absurd hl List.not_mem_nil⟩
  · exact ⟨s, hexec, fun l hl size hsize => kept_iff hs hl hsize⟩

/-- Two blocks of eight bytes with 24 bytes of free space behind them. -/
private def pair : List Call := [.malloc 8, .malloc 8]

private lemma pair_legal :
    Admits (step small) (fun s c => c.Uses s.held) (initial fun _ => 0) pair := by
  decide

/-- The first block can be moved behind the second. -/
private lemma movable_pair {m : Mem} (h : readHeader m 16 = usedBlock 8 ∧
    readHeader m 32 = usedBlock 8 ∧ readHeader m 48 = freeBlock 24) :
    Movable small m ⟨24, 8⟩ 16 := by
  let b₁ : Block := ⟨16, 8, true, by decide, by decide⟩
  let b₂ : Block := ⟨32, 8, true, by decide, by decide⟩
  let b₃ : Block := ⟨48, 24, false, by decide, by decide⟩
  have hasks : Asks 16 := by
    unfold Asks
    decide
  refine ⟨hasks, [], b₁, [b₂, b₃], ⟨le_rfl, ⟨rfl, rfl, rfl, rfl⟩, ?_⟩, rfl, .inr ?_⟩
  · simpa [b₁, b₂, b₃, Block.header] using h
  · rw [if_neg (by decide)]
    exact ⟨b₃, by simp, rfl, by decide⟩

theorem realloc_iff_pair :
    ∃ s, exec (step small) (initial fun _ => 0) pair = some s ∧
      ∃ res, realloc small s.mem 24 16 = some res ∧ Kept small s.toHeap ⟨24, 8⟩ 16 res := by
  obtain ⟨s, hexec, hall⟩ := realloc_iff small (fun _ => 0) pair (by decide) pair_legal
  have hrun : (exec (step small) (initial fun _ => 0) pair).map (fun s =>
      (s.held, readHeader s.mem 16, readHeader s.mem 32, readHeader s.mem 48)) =
      some ([⟨40, 8⟩, ⟨24, 8⟩], usedBlock 8, usedBlock 8, freeBlock 24) := by
    decide +kernel
  rw [hexec, Option.map_some] at hrun
  obtain ⟨hheld, hheaders⟩ := Prod.mk.inj (Option.some.inj hrun)
  obtain ⟨res, hres, hiff⟩ := hall ⟨24, 8⟩ (by simp [hheld]) 16 (by norm_num)
  exact ⟨s, hexec, res, hres, hiff.mpr (movable_pair (by simpa using hheaders))⟩

/-- The header in front of a block that is held says that it is used. -/
private lemma header_live (h : InOrder r s) (hl : l ∈ s.held) :
    readHeader s.mem (l.ptr - HDRSIZE) &&& FLAG_FREE = 0 := by
  obtain ⟨bs, hchain, -, htracks⟩ := h
  obtain ⟨b, hb, hused, hdata, -⟩ := htracks.block l hl
  have hflag := (Block.header_and_flag (hchain.size_lt' hb)).not.mpr (by simp [hused])
  rwa [← hdata, Block.data, Nat.add_sub_cancel, hchain.header b hb, ← not_ne_iff]

/-- There is no space for 64 bytes, and the block that was to grow has been freed. -/
theorem not_kept_pair :
    Admits (step small) (fun s c => c.Uses s.held) (initial fun _ => 0) pair ∧
      ∃ s, exec (step small) (initial fun _ => 0) pair = some s ∧ ⟨24, 8⟩ ∈ s.held ∧
        ∃ res, realloc small s.mem 24 64 = some res ∧ ¬Kept small s.toHeap ⟨24, 8⟩ 64 res := by
  refine ⟨pair_legal, ?_⟩
  obtain ⟨s, hexec, -⟩ := exec_inOrder (r := small) (m := fun _ => 0) (by decide) pair_legal
  have hrun : ((exec (step small) (initial fun _ => 0) pair).bind fun s =>
      (realloc small s.mem 24 64).map fun res =>
        (s.held, res.2, readHeader res.1 16 &&& FLAG_FREE)) =
      some ([⟨40, 8⟩, ⟨24, 8⟩], 0, FLAG_FREE) := by
    decide +kernel
  rw [hexec, Option.bind_some] at hrun
  obtain ⟨res, hres, hvalues⟩ := Option.map_eq_some_iff.mp hrun
  obtain ⟨hlive, hptr, hheader⟩ : s.held = [⟨40, 8⟩, ⟨24, 8⟩] ∧ res.2 = 0 ∧
      readHeader res.1 16 &&& FLAG_FREE = FLAG_FREE := by simpa using hvalues
  have hmem : (⟨24, 8⟩ : LiveBlock) ∈ s.held := by simp [hlive]
  refine ⟨s, hexec, hmem, res, hres, fun hkept => ?_⟩
  rw [Kept, if_pos hptr] at hkept
  have hused := header_live hkept.1 hmem
  exact absurd (hheader.symm.trans hused) (by decide)

end ApuBios.Malloc
