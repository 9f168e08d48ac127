import ApuBios.Libpayload.Malloc.Properties

/-!
# The free space around a block

A block that is freed becomes part of a free block with its neighbours (`Joined`). `realloc` frees the
old block before it asks for the new one, so that this space is there for the new block, too
(`realloc_ne_null_iff`).
-/

namespace ApuBios.Malloc

open Tiling
open Word (ofInt toInt)

attribute [ext] Block

variable {r : Region} {m m' : Mem} {a e : ℕ} {b c : Block} {bs cs pre post : List Block}

/-! ### Chains are determined by memory and by their used blocks -/

lemma Block.eq_of_header (hb : b.size < 2 ^ 57) (hc : c.size < 2 ^ 57) (haddr : b.addr = c.addr)
    (h : b.header = c.header) : b = c := by
  have hused := Block.isFree_header hb
  rw [h, Block.isFree_header hc] at hused
  refine Block.ext haddr ?_ (by simpa using hused.symm)
  rw [← Block.sizeOfHeader_header hb, h, Block.sizeOfHeader_header hc]

lemma Chain.unique (h : Chain r m a bs) (h' : Chain r m a cs) : bs = cs := by
  have hne {a : ℕ} {b : Block} {bs : List Block} (h : Chain r m a (b :: bs)) : a ≠ r.hend := by
    have hb := h.bounds (b := b) (by simp)
    have haddr : b.addr = a := h.tiles.1
    have := b.size_pos
    omega
  induction bs generalizing a cs with
  | nil =>
    cases cs with
    | nil => rfl
    | cons c cs => exact absurd h.tiles (hne h')
  | cons b bs ih =>
    cases cs with
    | nil => exact absurd h'.tiles (hne h)
    | cons c cs =>
      have haddr : b.addr = c.addr := h.tiles.1.trans h'.tiles.1.symm
      have hheader : b.header = c.header := by
        rw [← h.header b (by simp), ← h'.header c (by simp), haddr]
      obtain rfl := Block.eq_of_header (h.size_lt' (by simp)) (h'.size_lt' (by simp)) haddr hheader
      rw [ih h.tail h'.tail]

private lemma span_pos : 0 < b.span := Nat.add_pos_left (by decide) _

/-- A used block and a free one do not begin at the same place. -/
private lemma filter_ne (hb : b.used = true) (hc : c.used = false)
    (h : Tiles Block.addr Block.span a (b :: bs) e)
    (h' : Tiles Block.addr Block.span a (c :: cs) e) :
    (b :: bs).filter (·.used) ≠ (c :: cs).filter (·.used) := by
  rw [List.filter_cons_of_pos hb, List.filter_cons_of_neg (by simp [hc])]
  intro heq
  have hmem : b ∈ cs := List.mem_of_mem_filter (heq ▸ List.mem_cons_self)
  have hbound := h'.2.mem_bounds hmem
  have haddr : b.addr = a := h.1
  have := span_pos (b := c)
  omega

/-- A free block ends where the next used block begins. -/
private lemma end_of_free (h : Tiles Block.addr Block.span a (b :: bs) e)
    (htwo : NoTwoFree (b :: bs)) (hb : b.used = false) :
    a + b.span = ((bs.filter (·.used)).head?.map Block.addr).getD e := by
  cases bs with
  | nil => exact h.2
  | cons d bs =>
    have hd : d.used = true := by simpa [hb] using (List.isChain_cons.mp htwo).1 d (by simp)
    rw [List.filter_cons_of_pos hd]
    exact h.2.1.symm

/-- The used blocks say where the free ones are. -/
lemma eq_of_used (h : Tiles Block.addr Block.span a bs e) (h' : Tiles Block.addr Block.span a cs e)
    (htwo : NoTwoFree bs) (htwo' : NoTwoFree cs)
    (hused : bs.filter (·.used) = cs.filter (·.used)) : bs = cs := by
  induction bs generalizing a cs with
  | nil =>
    cases cs with
    | nil => rfl
    | cons c cs =>
      have hle := h'.2.le
      have : a = e := h
      have := span_pos (b := c)
      omega
  | cons b bs ih =>
    cases cs with
    | nil =>
      have hle := h.2.le
      have : a = e := h'
      have := span_pos (b := b)
      omega
    | cons c cs =>
      have haddr : b.addr = c.addr := h.1.trans h'.1.symm
      obtain ⟨rfl, hrest⟩ : b = c ∧ bs.filter (·.used) = cs.filter (·.used) := by
        cases hb : b.used <;> cases hc : c.used
        · have hend := end_of_free h htwo hb
          have hend' := end_of_free h' htwo' hc
          rw [List.filter_cons_of_neg (by simp [hb]), List.filter_cons_of_neg (by simp [hc])]
            at hused
          rw [hused, ← hend'] at hend
          simp only [Block.span] at hend
          exact ⟨Block.ext haddr (by omega) (hb.trans hc.symm), hused⟩
        · exact absurd hused.symm (filter_ne hc hb h' h)
        · exact absurd hused (filter_ne hb hc h h')
        · rw [List.filter_cons_of_pos hb, List.filter_cons_of_pos hc] at hused
          exact List.cons.inj hused
      rw [ih h.2 h'.2 htwo.tail htwo'.tail hrest]

/-! ### The free block that the old one becomes part of -/

/-- Where it begins: at a free block in front of `b`, if there is one. -/
def gapStart (pre : List Block) (b : Block) : ℕ :=
  match pre.getLast? with
  | some x => if x.used then b.addr else x.addr
  | none => b.addr

/-- Where it ends: behind a free block that follows `b`, if there is one. -/
def gapEnd (b : Block) (post : List Block) : ℕ :=
  match post.head? with
  | some x => if x.used then b.addr + b.span else x.addr + x.span
  | none => b.addr + b.span

/-- The size of its data. -/
def gapSize (pre : List Block) (b : Block) (post : List Block) : ℕ :=
  gapEnd b post - gapStart pre b - HDRSIZE

/-- The chain `pre' ++ x :: post'` is what `pre ++ b :: post` becomes when `b` is freed. -/
structure Joined (pre : List Block) (b : Block) (post pre' : List Block) (x : Block)
    (post' : List Block) : Prop where
  free : x.used = false
  addr : x.addr = gapStart pre b
  size : x.size = gapSize pre b post
  front : pre = pre' ∧ x.addr = b.addr ∨
    ∃ y, pre = pre' ++ [y] ∧ y.used = false ∧ y.addr = x.addr ∧ y.addr + y.span = b.addr
  back : post = post' ∧ b.addr + b.span = x.addr + x.span ∨
    ∃ y, post = y :: post' ∧ y.used = false ∧ y.addr = b.addr + b.span ∧
      y.addr + y.span = x.addr + x.span

private lemma dvd_span : 8 ∣ b.span := Nat.dvd_add (Nat.dvd_refl 8) b.size_aligned

private lemma front_cases (hpre : Tiles Block.addr Block.span a pre b.addr) (htwo : NoTwoFree pre) :
    ∃ pre' k, 8 ∣ k ∧ gapStart pre b + k = b.addr ∧
      Tiles Block.addr Block.span a pre' (gapStart pre b) ∧
      (∀ y ∈ pre'.getLast?, y.used = true) ∧ pre'.filter (·.used) = pre.filter (·.used) ∧
      (pre = pre' ∧ gapStart pre b = b.addr ∨ ∃ y, pre = pre' ++ [y] ∧ y.used = false ∧
        y.addr = gapStart pre b ∧ y.addr + y.span = b.addr) := by
  rcases List.eq_nil_or_concat pre with rfl | ⟨pre', y, rfl⟩
  · exact ⟨[], 0, by simp, by simp [gapStart], by simpa [gapStart] using hpre, by simp, rfl,
      .inl ⟨rfl, by simp [gapStart]⟩⟩
  rw [List.concat_eq_append] at *
  obtain ⟨c, hpre', rfl, hend⟩ := tiles_append.mp hpre
  have hend : y.addr + y.span = b.addr := hend
  cases hy : y.used
  · have hstart : gapStart (pre' ++ [y]) b = y.addr := by simp [gapStart, hy]
    rw [hstart]
    refine ⟨pre', y.span, dvd_span, hend, hpre', fun z hz => ?_, by simp [hy],
      .inr ⟨y, rfl, hy, rfl, hend⟩⟩
    simpa [hy] using (List.isChain_append.mp htwo).2.2 z hz y (by simp)
  · have hstart : gapStart (pre' ++ [y]) b = b.addr := by simp [gapStart, hy]
    rw [hstart]
    exact ⟨pre' ++ [y], 0, by simp, rfl, hpre, by simp [hy], rfl, .inl ⟨rfl, rfl⟩⟩

private lemma back_cases (hpost : Tiles Block.addr Block.span (b.addr + b.span) post e)
    (htwo : NoTwoFree post) :
    ∃ post' k, 8 ∣ k ∧ b.addr + b.span + k = gapEnd b post ∧
      Tiles Block.addr Block.span (gapEnd b post) post' e ∧ NoTwoFree post' ∧
      (∀ y ∈ post'.head?, y.used = true) ∧ post'.filter (·.used) = post.filter (·.used) ∧
      (post = post' ∧ b.addr + b.span = gapEnd b post ∨ ∃ y, post = y :: post' ∧ y.used = false ∧
        y.addr = b.addr + b.span ∧ y.addr + y.span = gapEnd b post) := by
  cases post with
  | nil =>
    exact ⟨[], 0, by simp, by simp [gapEnd], by simpa [gapEnd] using hpost, .nil, by simp, rfl,
      .inl ⟨rfl, by simp [gapEnd]⟩⟩
  | cons y post =>
    obtain ⟨hy, hrest⟩ := hpost
    cases hused : y.used
    · have hend : gapEnd b (y :: post) = y.addr + y.span := by simp [gapEnd, hused]
      rw [hend]
      refine ⟨post, y.span, dvd_span, by rw [hy], hy ▸ hrest, htwo.tail, fun z hz => ?_,
        by simp [hused], .inr ⟨y, rfl, hused, hy, rfl⟩⟩
      simpa [hused] using (List.isChain_cons.mp htwo).1 z hz
    · have hend : gapEnd b (y :: post) = b.addr + b.span := by simp [gapEnd, hused]
      rw [hend]
      exact ⟨y :: post, 0, by simp, rfl, ⟨hy, hrest⟩, htwo, by simp [hused], rfl,
        .inl ⟨rfl, rfl⟩⟩

/-- Freeing `b` joins it with its free neighbours, and leaves its data as it is. -/
lemma free_joined (h : Chain r m r.hstart (pre ++ b :: post)) (hused : b.used = true)
    (htwo : NoTwoFree (pre ++ b :: post)) :
    ∃ m' pre' x post', free r m b.data = some m' ∧ Joined pre b post pre' x post' ∧
      Chain r m' r.hstart (pre' ++ x :: post') ∧
      ∀ z, b.data ≤ z → z < b.data + b.size → m' z = m z := by
  obtain ⟨m', bs', heq, hchain, htwo', hfilter, hframe⟩ := free_spec h hused
  obtain ⟨c, hpre, rfl, hpost⟩ := tiles_append.mp h.tiles
  obtain ⟨htwoPre, htwoPost⟩ := (NoTwoFree.append_used hused).mp htwo
  obtain ⟨pre', k, hk, hstart, htiles, hlast, hfilter₁, hfront⟩ := front_cases hpre htwoPre
  obtain ⟨post', k', hk', hend, htiles', htwo₂, hhead, hfilter₂, hback⟩ :=
    back_cases hpost htwoPost
  have hpos := b.size_pos
  let x : Block := ⟨gapStart pre b, k + b.size + k', false, by omega,
    Nat.dvd_add (Nat.dvd_add hk b.size_aligned) hk'⟩
  have hspan : x.addr + x.span = gapEnd b post := by
    simp only [x, Block.span] at hend ⊢
    omega
  have htwo₁ : NoTwoFree pre' := by
    rcases hfront with ⟨rfl, -⟩ | ⟨y, rfl, -⟩
    · exact htwoPre
    · exact htwoPre.left
  have hbs : bs' = pre' ++ x :: post' := by
    refine eq_of_used hchain.tiles
      (tiles_append.mpr ⟨_, htiles, rfl, by rwa [← show x.addr = gapStart pre b from rfl, hspan]⟩)
      htwo' ?_ ?_
    · refine List.isChain_append.mpr ⟨htwo₁, List.isChain_cons.mpr ⟨fun y hy => ?_, htwo₂⟩,
        fun y hy _ _ => .inl (hlast y hy)⟩
      exact .inr (hhead y hy)
    · rw [hfilter, List.filter_append, List.filter_append, hfilter₁,
        List.filter_cons_of_neg (by simp [x]), hfilter₂]
  refine ⟨m', pre', x, post', heq, ⟨rfl, rfl, ?_, hfront, ?_⟩, hbs ▸ hchain, fun z hle hlt => ?_⟩
  · simp only [gapSize, x, Block.span] at hspan ⊢
    omega
  · rwa [hspan]
  · refine hframe z fun d hd hd' => ?_
    simp only [Block.data] at hle hlt
    rcases h.tiles.eq_or_disjoint hd (show b ∈ pre ++ b :: post by simp) with rfl | hdisj
    · exact .inr hle
    · simp only [Block.span] at hdisj
      omega

section

variable {x y : Block} {pre' post' p q : List Block} {n : ℕ}

/-- Of two blocks of a chain one is in front of the other, or they are the same. -/
lemma cases_of_eq (heq : pre' ++ x :: post' = p ++ y :: q) :
    y ∈ pre' ∨ y = x ∧ p = pre' ∨ y ∈ post' ∧ x ∈ p := by
  rcases List.append_eq_append_iff.mp heq with ⟨c, rfl, hc⟩ | ⟨c, rfl, hc⟩
  · cases c with
    | nil =>
      obtain ⟨rfl, -⟩ := List.cons.inj hc
      exact .inr (.inl ⟨rfl, List.append_nil _⟩)
    | cons d c =>
      obtain ⟨rfl, rfl⟩ := List.cons.inj hc
      exact .inr (.inr ⟨by simp, by simp⟩)
  · cases c with
    | nil =>
      obtain ⟨rfl, -⟩ := List.cons.inj hc
      exact .inr (.inl ⟨rfl, (List.append_nil _).symm⟩)
    | cons d c =>
      obtain ⟨rfl, -⟩ := List.cons.inj hc
      exact .inl (by simp)

namespace Joined

lemma addr_le (h : Joined pre b post pre' x post') : x.addr ≤ b.addr := by
  rcases h.front with ⟨-, heq⟩ | ⟨y, -, -, heq, hend⟩ <;> omega

lemma le_end (h : Joined pre b post pre' x post') : b.addr + b.span ≤ x.addr + x.span := by
  rcases h.back with ⟨-, heq⟩ | ⟨y, -, -, heq, hend⟩ <;> omega

/-- What is free then, and large enough, was so before, or is the space around `b`. -/
lemma space_iff (h : Joined pre b post pre' x post') :
    (∃ y ∈ pre' ++ x :: post', y.used = false ∧ n ≤ y.size) ↔
      n ≤ gapSize pre b post ∨ ∃ y ∈ pre ++ post, y.used = false ∧ n ≤ y.size := by
  have hle := h.addr_le
  have hge := h.le_end
  simp only [List.mem_append, List.mem_cons]
  constructor
  · rintro ⟨y, hy | rfl | hy, hfree, hfit⟩
    · refine .inr ⟨y, .inl ?_, hfree, hfit⟩
      rcases h.front with ⟨rfl, -⟩ | ⟨z, rfl, -⟩
      · exact hy
      · exact List.mem_append_left _ hy
    · exact .inl (h.size ▸ hfit)
    · refine .inr ⟨y, .inr ?_, hfree, hfit⟩
      rcases h.back with ⟨rfl, -⟩ | ⟨z, rfl, -⟩
      · exact hy
      · exact List.mem_cons_of_mem _ hy
  · rintro (hfit | ⟨y, hy | hy, hfree, hfit⟩)
    · exact ⟨x, .inr (.inl rfl), h.free, h.size ▸ hfit⟩
    · rcases h.front with ⟨rfl, -⟩ | ⟨z, rfl, -, haddr, hend⟩
      · exact ⟨y, .inl hy, hfree, hfit⟩
      · rcases List.mem_append.mp hy with hy | hy
        · exact ⟨y, .inl hy, hfree, hfit⟩
        · obtain rfl := List.mem_singleton.mp hy
          refine ⟨x, .inr (.inl rfl), h.free, ?_⟩
          simp only [Block.span] at hend hge
          omega
    · rcases h.back with ⟨rfl, -⟩ | ⟨z, rfl, -, haddr, hend⟩
      · exact ⟨y, .inr (.inr hy), hfree, hfit⟩
      · rcases List.mem_cons.mp hy with rfl | hy
        · refine ⟨x, .inr (.inl rfl), h.free, ?_⟩
          simp only [Block.span] at haddr hend
          omega
        · exact ⟨y, .inr (.inr hy), hfree, hfit⟩

end Joined

end

/-! ### Space for a new size -/

/-- There is space for `size` bytes, if the block at `ptr` is given up: it is large enough with its free
neighbours, or another free block is. -/
def HasSpace (r : Region) (m : Mem) (ptr size : ℕ) : Prop :=
  Asks size ∧ ∃ pre b post, Chain r m r.hstart (pre ++ b :: post) ∧ b.data = ptr ∧
    (needed size ≤ gapSize pre b post ∨
      ∃ y ∈ pre ++ post, y.used = false ∧ needed size ≤ y.size)

variable {s : Heap} {l : LiveBlock} {size : ℕ}

/-- A block that is held is found in the chain. -/
lemma InOrder.split (h : InOrder r s) (hl : l ∈ s.held) :
    ∃ pre b post, Chain r s.mem r.hstart (pre ++ b :: post) ∧ NoTwoFree (pre ++ b :: post) ∧
      Tracks s.held (pre ++ b :: post) ∧ b.used = true ∧ b.data = l.ptr ∧ l.size ≤ b.size := by
  obtain ⟨bs, hchain, htwo, htracks⟩ := h
  obtain ⟨b, hb, hused, hdata, hle⟩ := htracks.block l hl
  obtain ⟨pre, post, rfl⟩ := List.append_of_mem hb
  exact ⟨pre, b, post, hchain, htwo, htracks, hused, hdata, hle⟩

/-- The block is freed first, and its data copied last. -/
lemma realloc_eq {m₁ : Mem} (h : Chain r m r.hstart bs) (hb : b ∈ bs)
    (hfree : free r m b.data = some m₁) :
    realloc r m b.data size = (alloc r m₁ (toInt 32 size)).map fun res =>
      if res.2 = 0 ∨ res.2 = b.data then res
      else (res.1.memcpy res.2 b.data (if b.size > size then size else b.size), res.2) := by
  have hbound := h.bounds hb
  have hend := r.hend_lt
  have hlt : b.size < 2 ^ 57 := h.size_lt' hb
  have hptr : b.data ≠ 0 := by simp [Block.data, HDRSIZE]
  have haddr : ofInt 32 ((b.data : ℤ) - HDRSIZE) = b.addr := by
    rw [show (b.data : ℤ) - HDRSIZE = b.addr by simp [Block.data], Word.ofInt_eq (by omega)]
  rw [realloc, if_neg hptr]
  dsimp only
  rw [haddr, h.header b hb, if_neg (by simp [Block.hasMagic_header hlt]), hfree,
    Block.sizeOfHeader_header hlt, Word.ofInt_eq (by omega), Option.bind_eq_bind, Option.bind_some]
  cases alloc r m₁ (toInt 32 size) with
  | none => rfl
  | some res =>
    rw [Option.bind_eq_bind, Option.bind_some, Option.map_some]
    split_ifs <;> rfl

/-- Two blocks with their data at the same place are the same. -/
lemma Chain.eq_of_data {pre' post' : List Block} (h : Chain r m r.hstart (pre ++ b :: post))
    (h' : Chain r m r.hstart (pre' ++ c :: post')) (hdata : b.data = c.data) :
    pre = pre' ∧ b = c ∧ post = post' := by
  have heq := h.unique h'
  have haddr : b.addr = c.addr := by
    simp only [Block.data] at hdata
    omega
  have hpair := h.tiles.pairwise
  rw [List.pairwise_append, List.pairwise_cons] at hpair
  have hpos := span_pos (b := b)
  have hpos' := span_pos (b := c)
  rcases cases_of_eq heq with hmem | ⟨rfl, rfl⟩ | ⟨hmem, -⟩
  · have := hpair.2.2 c hmem b (by simp)
    omega
  · exact ⟨rfl, rfl, (List.cons.inj (List.append_cancel_left heq)).2⟩
  · have := hpair.2.1.1 c hmem
    omega

/-- `realloc` of a block that is held finds a new block exactly if there is space. -/
lemma realloc_ne_null_iff (h : InOrder r s) (hl : l ∈ s.held) (hsize : size < 2 ^ 32) {res : Mem × ℕ}
    (hres : realloc r s.mem l.ptr size = some res) :
    res.2 ≠ 0 ↔ HasSpace r s.mem l.ptr size := by
  obtain ⟨pre, b, post, hchain, htwo, -, hused, hdata, -⟩ := h.split hl
  obtain ⟨m₁, pre', x, post', hfree, hjoined, hchain', -⟩ := free_joined hchain hused htwo
  rw [← hdata, realloc_eq hchain (by simp) hfree] at hres
  have hspace : HasSpace r s.mem l.ptr size ↔
      Asks size ∧ ∃ y ∈ pre' ++ x :: post', y.used = false ∧ needed size ≤ y.size := by
    rw [hjoined.space_iff]
    refine and_congr_right fun _ => ⟨?_, fun hspace => ⟨pre, b, post, hchain, hdata, hspace⟩⟩
    rintro ⟨pre₁, b₁, post₁, hchain₁, hdata₁, hspace⟩
    obtain ⟨rfl, rfl, rfl⟩ := hchain.eq_of_data hchain₁ (hdata.trans hdata₁.symm)
    exact hspace
  rw [hspace]
  rcases alloc_first hchain' hsize with
    ⟨hnone, hsmall⟩ | ⟨p, y, q, hasks, heq, -, hy, hfit, hsome⟩
  · rw [hnone, Option.map_some, if_pos (.inl rfl)] at hres
    obtain rfl := Option.some.inj hres
    refine iff_of_false (not_not.mpr rfl) ?_
    rintro ⟨hasks, y, hy, hfree, hfit⟩
    exact absurd hfit (hsmall hasks y hy hfree).not_ge
  · have hret : y.data ≠ 0 := by simp [Block.data, HDRSIZE]
    rw [hsome, Option.map_some] at hres
    have hptr : res.2 = y.data := by
      rw [← Option.some.inj hres]
      split_ifs <;> rfl
    exact iff_of_true (hptr ▸ hret) ⟨hasks, y, heq ▸ by simp, hy, hfit⟩

end ApuBios.Malloc
