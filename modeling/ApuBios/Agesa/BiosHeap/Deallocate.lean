import ApuBios.Agesa.BiosHeap.Layout

/-!
# Deallocating on the AGESA heap

A node that is not the first of the allocated list is unlinked from it, and if a free node lies
above it it finds its place in the list of freed nodes.
-/

namespace ApuBios.BiosHeap

open LinkedList Tiling

variable {base : ℕ} {m : Mem} {order pre post : List Block} {b : Block}

/-- The free block `b` lies between `pre` and `post` and is linked to the free blocks above it;
from below the links still lead to `cut`. -/
structure Loose (base : ℕ) (m : Mem) (pre : List Block) (b : Block) (post order : List Block)
    (cut above : ℕ) : Prop where
  tiles : Tiles Block.off Block.len sizeofManager (pre ++ b :: post) BIOS_HEAP_SIZE
  perm : order.Perm (used pre ++ used post)
  holds : ∀ c ∈ pre ++ b :: post, Holds base m c
  isFree : b.IsFree = true
  allocated : Linked Block.off (next base m) (getManager base m .startOfAllocatedNodes) order 0
  below : Linked Block.off (next base m) (getManager base m .startOfFreedNodes) (free pre) cut
  above : Linked Block.off (next base m) above (free post) 0

section Unlink

variable {w freed : Block} {p q : List Block} (hbase : Fits base)
  (h : Layout base m (pre ++ b :: post) (p ++ w :: b :: q))

include h in
private lemma unlink_blocks : w ∈ pre ++ b :: post ∧ w ≠ b ∧ w.IsFree = false ∧ b.IsFree = false := by
  have hnodup := h.nodup
  refine ⟨h.mem_blocks (by simp), ?_, ?_, ?_⟩
  · rintro rfl
    rw [List.nodup_append, List.nodup_cons] at hnodup
    simp at hnodup
  · simpa [Block.IsFree] using h.isSome_of_mem (show w ∈ p ++ w :: b :: q by simp)
  · simpa [Block.IsFree] using h.isSome_of_mem (show b ∈ p ++ w :: b :: q by simp)

include hbase h in
/-- The size that is read once the link is changed. -/
private lemma get_size_unlink (v : ℕ) :
    get base (set base m w.off .nextNodeOffset v) b.off .bufferSize = b.len - sizeofNode := by
  obtain ⟨hw, hwb, -, -⟩ := unlink_blocks h
  rw [get_set_ne h.tiles hbase (by simp) hw hwb.symm, h.get_size (by simp)]

include hbase h in
private lemma get_unlink {c : Block} (hc : c ∈ pre ++ b :: post) (hne : c ≠ b) (g : NodeField) :
    get base (unlink base m b.off w.off) c.off g =
      if c = w ∧ g = .nextNodeOffset then get base m b.off .nextNodeOffset
      else get base m c.off g := by
  obtain ⟨hw, hwb, -, -⟩ := unlink_blocks h
  have hb : b ∈ pre ++ b :: post := by simp
  simp only [unlink]
  rw [get_set_ne h.tiles hbase hc hb hne, get_set_ne h.tiles hbase hc hb hne,
    get_memset h.tiles hbase hc hb (get_size_unlink hbase h _).le]
  by_cases hcw : c = w
  · subst hcw
    rw [get_set_self h.tiles hbase hc]
    simp only [true_and, get_mod]
  · rw [get_set_ne h.tiles hbase hc hw hcw]
    simp only [hcw, false_and, if_false]

include hbase h in
private lemma get_unlink_self : get base (unlink base m b.off w.off) b.off .bufferSize = b.len := by
  have hb : b ∈ pre ++ b :: post := by simp
  have hsize := get_size_unlink hbase h
  have hbound := (h.bounds hb).2
  have hspace : BIOS_HEAP_SIZE < 2 ^ 32 := by decide
  have hlarge := b.large
  simp only [unlink]
  rw [get_set_self h.tiles hbase hb, if_pos rfl, get_set_self h.tiles hbase hb,
    if_neg (by decide), get_memset h.tiles hbase hb hb (hsize _).le, hsize,
    Word.add_eq (by omega), Nat.mod_eq_of_lt (by omega)]
  omega

include hbase h in
private lemma getManager_unlink (a : ManagerField) :
    getManager base (unlink base m b.off w.off) a = getManager base m a := by
  have hwNode := h.isNode (unlink_blocks h).1
  have hbNode := h.isNode (show b ∈ pre ++ b :: post by simp)
  simp only [unlink]
  rw [getManager_set hbase hbNode, getManager_set hbase hbNode,
    getManager_congr hbase fun z _ _ => Mem.memset_frame ?_, getManager_set hbase hwNode]
  rw [bufferOf_eq hbase hbNode.2]
  have := hbNode.1
  omega

include h in
private lemma beside_block {c : Block} (hc : c ∈ pre ++ post) : c ∈ pre ++ b :: post ∧ c ≠ b := by
  have hnodup := nodup_of_tiles h.tiles
  rw [List.nodup_append, List.nodup_cons] at hnodup
  refine ⟨by simp only [List.mem_append, List.mem_cons] at hc ⊢; tauto, ?_⟩
  rintro rfl
  rcases List.mem_append.mp hc with hc | hc
  · exact hnodup.2.2 c hc c (by simp) rfl
  · exact hnodup.2.1.1 hc

include hbase h in
private lemma unlink_allocated :
    Linked Block.off (next base (unlink base m b.off w.off))
      (getManager base m .startOfAllocatedNodes) (p ++ w :: q) 0 := by
  obtain ⟨hw, hwb, -, -⟩ := unlink_blocks h
  have hnodup := h.nodup
  rw [List.nodup_append, List.nodup_cons, List.nodup_cons] at hnodup
  obtain ⟨-, ⟨hwq, hbq, -⟩, hdisj⟩ := hnodup
  refine h.allocated.remove (fun y hy => ?_) (fun y hy => ?_) ?_
  · have hyb : y ≠ b := fun heq => hdisj y hy b (by simp) heq
    have hyw : y ≠ w := fun heq => hdisj y hy w (by simp) heq
    rw [next, get_unlink hbase h (h.mem_blocks (by simp [hy])) hyb, if_neg fun h => hyw h.1]
  · have hyb : y ≠ b := by
      rintro rfl
      exact hbq hy
    have hyw : y ≠ w := by
      rintro rfl
      exact hwq (List.mem_cons_of_mem _ hy)
    rw [next, get_unlink hbase h (h.mem_blocks (by simp [hy])) hyb, if_neg fun h => hyw h.1]
  · rw [next, get_unlink hbase h hw hwb, if_pos ⟨rfl, rfl⟩]

include hbase h in
/-- The allocated block `b` behind `w` becomes a free block that is in neither list. -/
lemma unlink_spec (hoff : freed.off = b.off) (hlen : freed.len = b.len)
    (hnone : freed.handle = none) :
    ∃ cut, Loose base (unlink base m b.off w.off) pre freed post (p ++ w :: q) cut cut := by
  obtain ⟨-, -, hwused, hused⟩ := unlink_blocks h
  have hfreed := h.freed
  rw [free_append, free_cons_used hused] at hfreed
  obtain ⟨cut, hbelow, habove⟩ := linked_append.mp hfreed
  have hkeep : ∀ c ∈ pre ++ post, c.IsFree = true →
      next base (unlink base m b.off w.off) c.off = next base m c.off := by
    intro c hc hcfree
    obtain ⟨hcmem, hcb⟩ := beside_block h hc
    rw [next, get_unlink hbase h hcmem hcb, if_neg]
    rintro ⟨rfl, -⟩
    simp [hcfree] at hwused
  refine ⟨cut, ?_, ?_, fun c hc => ?_, by simp [Block.IsFree, hnone], ?_, ?_, ?_⟩
  · obtain ⟨c, hpre, rfl, hpost⟩ := tiles_append.mp h.tiles
    exact tiles_append.mpr ⟨b.off, hpre, hoff, by rwa [hlen]⟩
  · have hperm := h.perm
    rw [used_append, used_cons_used hused, show p ++ w :: b :: q = (p ++ [w]) ++ b :: q by simp]
      at hperm
    have hcons := (List.perm_middle.symm.trans hperm).trans List.perm_middle
    simpa using hcons.cons_inv
  · by_cases hcf : c = freed
    · subst hcf
      unfold Holds
      simp only [hnone, hoff, hlen, get_unlink_self hbase h]
    · have hc' : c ∈ pre ++ post := by
        simp only [List.mem_append, List.mem_cons] at hc ⊢
        tauto
      obtain ⟨hcmem, hcb⟩ := beside_block h hc'
      refine (h.holds c hcmem).congr fun f hf => ?_
      rw [get_unlink hbase h hcmem hcb, if_neg fun h => hf h.2]
  · rw [getManager_unlink hbase h]
    exact unlink_allocated hbase h
  · rw [getManager_unlink hbase h]
    refine hbelow.congr fun c hc => ?_
    exact hkeep c (by simp [(mem_free.mp hc).1]) (mem_free.mp hc).2
  · refine habove.congr fun c hc => ?_
    exact hkeep c (by simp [(mem_free.mp hc).1]) (mem_free.mp hc).2

end Unlink

/-! ### Joining free blocks -/

namespace Loose

variable {m' : Mem} {b' g : Block} {post' : List Block} {cut above above' : ℕ}

/-- The block may be changed together with what follows it, if nothing else changes. -/
private lemma update (h : Loose base m pre b post order cut above)
    (htiles : Tiles Block.off Block.len sizeofManager (pre ++ b' :: post') BIOS_HEAP_SIZE)
    (hused : used post' = used post) (hsub : ∀ c ∈ post', c ∈ post) (hfree : b'.IsFree = true)
    (hholds : Holds base m' b')
    (hkeep : ∀ c ∈ pre ++ post', ∀ f, get base m' c.off f = get base m c.off f)
    (hmanager : ∀ a, getManager base m' a = getManager base m a)
    (habove : Linked Block.off (next base m') above' (free post') 0) :
    Loose base m' pre b' post' order cut above' := by
  refine ⟨htiles, hused ▸ h.perm, fun c hc => ?_, hfree, ?_, ?_, habove⟩
  · by_cases hcb : c = b'
    · exact hcb ▸ hholds
    · have hc' : c ∈ pre ++ post' := by
        simp only [List.mem_append, List.mem_cons] at hc ⊢
        tauto
      have hold : c ∈ pre ++ b :: post := by
        simp only [List.mem_append, List.mem_cons] at hc' ⊢
        rcases hc' with hc' | hc'
        · exact Or.inl hc'
        · exact Or.inr (Or.inr (hsub c hc'))
      exact (h.holds c hold).congr fun f _ => hkeep c hc' f
  · rw [hmanager]
    refine h.allocated.congr fun c hc => hkeep c ?_ _
    have hc' := h.perm.mem_iff.mp hc
    rw [← hused, ← used_append] at hc'
    exact (mem_used.mp hc').1
  · rw [hmanager]
    exact h.below.congr fun c hc => hkeep c (by simp [(mem_free.mp hc).1]) _

lemma mem_pre_post (h : Loose base m pre b post order cut above) {c : Block}
    (hc : c ∈ pre ++ post) : c ∈ pre ++ b :: post ∧ c ≠ b := by
  have hnodup := nodup_of_tiles h.tiles
  rw [List.nodup_append, List.nodup_cons] at hnodup
  refine ⟨by simp only [List.mem_append, List.mem_cons] at hc ⊢; tauto, ?_⟩
  rintro rfl
  rcases List.mem_append.mp hc with hc | hc
  · exact hnodup.2.2 c hc c (by simp) rfl
  · exact hnodup.2.1.1 hc

lemma get_size (h : Loose base m pre b post order cut above) {c : Block}
    (hc : c ∈ pre ++ b :: post) (hfree : c.IsFree = true) :
    get base m c.off .bufferSize = c.len := by
  rw [(h.holds c hc).bufferSize, if_pos hfree]

/-- A next block that is adjacent is joined. -/
private lemma joinNext_adjacent (h : Loose base m pre b (g :: post) order cut g.off)
    (hbase : Fits base) (hg : g.IsFree = true) (hadj : g.off = b.off + b.len) :
    ∃ b', b'.off = b.off ∧
      Loose base (joinNext base m b.off g.off (b.off + b.len)) pre b' post order cut
        (next base (joinNext base m b.off g.off (b.off + b.len)) b.off) := by
  have hb : b ∈ pre ++ b :: g :: post := by simp
  have hgmem : g ∈ pre ++ b :: g :: post := by simp
  have hgb : g ≠ b := (h.mem_pre_post (by simp)).2
  have hblen := h.get_size hb h.isFree
  have hglen := h.get_size hgmem hg
  have hbound := (h.tiles.mem_bounds hgmem).2
  have hspace : BIOS_HEAP_SIZE < 2 ^ 32 := by decide
  have hsum : Word.add 32 b.len g.len = b.len + g.len := Word.add_eq (by omega)
  have hsize : (b.len + g.len) % 2 ^ 32 = b.len + g.len := Nat.mod_eq_of_lt (by omega)
  have hself : ∀ f, get base (BiosHeap.joinNext base m b.off g.off (b.off + b.len)) b.off f =
      if f = .bufferSize then b.len + g.len
      else if f = .nextNodeOffset then next base m g.off
      else get base m b.off .bufferHandle := by
    intro f
    simp only [BiosHeap.joinNext, if_pos hadj, hblen, hglen, hsum]
    rw [get_set_ne h.tiles hbase hb hgmem hgb.symm, get_set_ne h.tiles hbase hb hgmem hgb.symm,
      get_set_self h.tiles hbase hb, get_set_self h.tiles hbase hb,
      get_set_ne h.tiles hbase hgmem hb hgb, get_mod, hsize]
    cases f <;> rfl
  have hkeep : ∀ c ∈ pre ++ post, ∀ f,
      get base (BiosHeap.joinNext base m b.off g.off (b.off + b.len)) c.off f =
        get base m c.off f := by
    intro c hc f
    have hc' : c ∈ pre ++ g :: post := by
      simp only [List.mem_append, List.mem_cons] at hc ⊢
      tauto
    obtain ⟨hcmem, hcb⟩ := h.mem_pre_post hc'
    have hcg : c ≠ g := by
      have hnodup := nodup_of_tiles h.tiles
      rw [List.nodup_append, List.nodup_cons, List.nodup_cons] at hnodup
      rintro rfl
      rcases List.mem_append.mp hc with hc | hc
      · exact hnodup.2.2 c hc c (by simp) rfl
      · exact hnodup.2.1.2.1 hc
    simp only [BiosHeap.joinNext, if_pos hadj]
    rw [get_set_ne h.tiles hbase hcmem hgmem hcg, get_set_ne h.tiles hbase hcmem hgmem hcg,
      get_set_ne h.tiles hbase hcmem hb hcb, get_set_ne h.tiles hbase hcmem hb hcb]
  have hmanager : ∀ a, getManager base (BiosHeap.joinNext base m b.off g.off (b.off + b.len)) a =
      getManager base m a := by
    intro a
    have hbNode := isNode_of_tiles h.tiles hb
    have hgNode := isNode_of_tiles h.tiles hgmem
    simp only [BiosHeap.joinNext, if_pos hadj]
    rw [getManager_set hbase hgNode, getManager_set hbase hgNode, getManager_set hbase hbNode,
      getManager_set hbase hbNode]
  let b' : Block := ⟨b.off, b.len + g.len, none, b.large.trans (Nat.le_add_right _ _)⟩
  refine ⟨b', rfl, h.update ?_ ?_ (fun _ hc => List.mem_cons_of_mem _ hc) rfl ?_ hkeep hmanager ?_⟩
  · obtain ⟨c, hpre, rfl, -, hpost⟩ := tiles_append.mp h.tiles
    exact tiles_append.mpr ⟨b.off, hpre, rfl, by simpa only [b', Nat.add_assoc] using hpost⟩
  · rw [used_cons_free hg]
  · change get base _ b.off .bufferSize = b.len + g.len
    rw [hself, if_pos rfl]
  · rw [next, hself, if_neg (by decide), if_pos rfl]
    have habove := h.above
    rw [free_cons_free hg] at habove
    exact habove.2.congr fun c hc => hkeep c (by simp [(mem_free.mp hc).1]) _

/-- The next free block is joined if it is adjacent, and linked to otherwise. -/
lemma joinNext (h : Loose base m pre b post order cut g.off) (hbase : Fits base)
    (hg : g ∈ free post) :
    ∃ b' post', b'.off = b.off ∧
      Loose base (joinNext base m b.off g.off (b.off + b.len)) pre b' post' order cut
        (next base (BiosHeap.joinNext base m b.off g.off (b.off + b.len)) b.off) := by
  have hb : b ∈ pre ++ b :: post := by simp
  obtain ⟨hgpost, hgfree⟩ := mem_free.mp hg
  have hgmem : g ∈ pre ++ b :: post := by simp [hgpost]
  by_cases hadj : g.off = b.off + b.len
  · -- `g` is the block right behind `b`
    obtain ⟨post₂, rfl⟩ : ∃ post₂, post = g :: post₂ := by
      obtain ⟨c, -, rfl, hpost⟩ := tiles_append.mp h.tiles
      obtain ⟨d, post₂, rfl⟩ := List.exists_cons_of_ne_nil (List.ne_nil_of_mem hgpost)
      have hd : d.off = g.off := hpost.1.trans hadj.symm
      exact ⟨post₂, by rw [eq_of_off_of_tiles h.tiles (by simp) hgmem hd]⟩
    obtain ⟨b', hoff, hloose⟩ := h.joinNext_adjacent hbase hgfree hadj
    exact ⟨b', post₂, hoff, hloose⟩
  · have hgoff : g.off < 2 ^ 32 :=
      (show BIOS_HEAP_SIZE < 2 ^ 32 by decide).trans_le'
        ((Nat.le_add_right _ _).trans (isNode_of_tiles h.tiles hgmem).2)
    have hjoin : BiosHeap.joinNext base m b.off g.off (b.off + b.len) =
        set base m b.off .nextNodeOffset g.off := if_neg hadj
    have hself : ∀ f, get base (set base m b.off .nextNodeOffset g.off) b.off f =
        if f = .nextNodeOffset then g.off else get base m b.off f := by
      intro f
      rw [get_set_self h.tiles hbase hb, Nat.mod_eq_of_lt hgoff]
    have hkeep : ∀ c ∈ pre ++ post, ∀ f,
        get base (set base m b.off .nextNodeOffset g.off) c.off f = get base m c.off f := by
      intro c hc f
      obtain ⟨hcmem, hcb⟩ := h.mem_pre_post hc
      exact get_set_ne h.tiles hbase hcmem hb hcb
    rw [hjoin]
    refine ⟨b, post, rfl, h.update h.tiles rfl (fun _ hc => hc) h.isFree ?_ hkeep
      (fun a => getManager_set hbase (isNode_of_tiles h.tiles hb)) ?_⟩
    · exact (h.holds b hb).congr fun f hf => by rw [hself, if_neg hf]
    · rw [next, hself, if_pos rfl]
      exact h.above.congr fun c hc => hkeep c (by simp [(mem_free.mp hc).1]) _

/-- If no free block lies below, the block becomes the first of the list. -/
lemma toStart (h : Loose base m pre b post order cut (next base m b.off)) (hbase : Fits base)
    (hnil : free pre = []) :
    Layout base (setManager base m .startOfFreedNodes b.off) (pre ++ b :: post) order := by
  have hnode := fun {c : Block} hc => isNode_of_tiles (c := c) h.tiles hc
  have hget : ∀ c ∈ pre ++ b :: post, ∀ f,
      get base (setManager base m .startOfFreedNodes b.off) c.off f = get base m c.off f :=
    fun c hc f => get_setManager hbase (hnode hc)
  have hboff : b.off < 2 ^ 32 :=
    (show BIOS_HEAP_SIZE < 2 ^ 32 by decide).trans_le'
      ((Nat.le_add_right _ _).trans (hnode (show b ∈ pre ++ b :: post by simp)).2)
  refine ⟨h.tiles, ?_, fun c hc => (h.holds c hc).congr fun f _ => hget c hc f, ?_, ?_⟩
  · rw [used_append, used_cons_free h.isFree]
    exact h.perm
  · rw [getManager_setManager hbase, if_neg (by decide)]
    refine h.allocated.congr fun c hc => hget c ?_ _
    have hc' := h.perm.mem_iff.mp hc
    rw [← used_append] at hc'
    exact (h.mem_pre_post (mem_used.mp hc').1).1
  · rw [getManager_setManager hbase, if_pos rfl, Nat.mod_eq_of_lt hboff, free_append, hnil,
      free_cons_free h.isFree]
    refine ⟨rfl, ?_⟩
    rw [next, hget b (by simp)]
    exact h.above.congr fun c hc => hget c (by simp [(mem_free.mp hc).1]) _

/-- A previous block that is adjacent is joined. -/
private lemma joinPrev_adjacent {f : Block}
    (h : Loose base m (pre ++ [f]) b post order cut (next base m b.off)) (hbase : Fits base)
    (hf : f.IsFree = true) (hadj : b.off = f.off + f.len) :
    ∃ blocks', Layout base (joinPrev base m b.off f.off) blocks' order := by
  have hb : b ∈ pre ++ [f] ++ b :: post := by simp
  have hfmem : f ∈ pre ++ [f] ++ b :: post := by simp
  have hfb : f ≠ b := (h.mem_pre_post (by simp)).2
  have hflen := h.get_size hfmem hf
  have hblen := h.get_size hb h.isFree
  have hbound := (h.tiles.mem_bounds hb).2
  have hspace : BIOS_HEAP_SIZE < 2 ^ 32 := by decide
  have hend : Word.add 32 f.off f.len = b.off := by rw [hadj]; exact Word.add_eq (by omega)
  have hsum : Word.add 32 f.len b.len = f.len + b.len := Word.add_eq (by omega)
  have hsize : (f.len + b.len) % 2 ^ 32 = f.len + b.len := Nat.mod_eq_of_lt (by omega)
  have hother : ∀ c ∈ pre ++ post, c ∈ pre ++ [f] ++ b :: post ∧ c ≠ f ∧ c ≠ b := by
    intro c hc
    have hnodup := nodup_of_tiles h.tiles
    rw [List.append_assoc, List.nodup_append, List.singleton_append, List.nodup_cons,
      List.nodup_cons] at hnodup
    refine ⟨by simp only [List.mem_append, List.mem_cons] at hc ⊢; tauto, ?_, ?_⟩
    · rintro rfl
      rcases List.mem_append.mp hc with hc | hc
      · exact hnodup.2.2 c hc c (by simp) rfl
      · exact hnodup.2.1.1 (List.mem_cons_of_mem _ hc)
    · rintro rfl
      rcases List.mem_append.mp hc with hc | hc
      · exact hnodup.2.2 c hc c (by simp) rfl
      · exact hnodup.2.1.2.1 hc
  have hself : ∀ g, get base (BiosHeap.joinPrev base m b.off f.off) f.off g =
      if g = .bufferSize then f.len + b.len
      else if g = .nextNodeOffset then next base m b.off
      else get base m f.off .bufferHandle := by
    intro g
    simp only [BiosHeap.joinPrev, hflen, hend, if_true]
    rw [get_set_ne h.tiles hbase hfmem hb hfb, get_set_ne h.tiles hbase hfmem hb hfb,
      get_set_self h.tiles hbase hfmem, get_set_self h.tiles hbase hfmem,
      get_set_self h.tiles hbase hfmem, get_set_ne h.tiles hbase hb hfmem hfb.symm, get_mod,
      if_neg (show NodeField.bufferSize ≠ .nextNodeOffset by decide), hflen, hblen, hsum, hsize]
    cases g <;> rfl
  have hkeep : ∀ c ∈ pre ++ post, ∀ g,
      get base (BiosHeap.joinPrev base m b.off f.off) c.off g = get base m c.off g := by
    intro c hc g
    obtain ⟨hcmem, hcf, hcb⟩ := hother c hc
    simp only [BiosHeap.joinPrev, hflen, hend, if_true]
    rw [get_set_ne h.tiles hbase hcmem hb hcb, get_set_ne h.tiles hbase hcmem hb hcb,
      get_set_ne h.tiles hbase hcmem hfmem hcf, get_set_ne h.tiles hbase hcmem hfmem hcf]
  have hmanager : ∀ a, getManager base (BiosHeap.joinPrev base m b.off f.off) a =
      getManager base m a := by
    intro a
    have hbNode := isNode_of_tiles h.tiles hb
    have hfNode := isNode_of_tiles h.tiles hfmem
    simp only [BiosHeap.joinPrev, hflen, hend, if_true]
    rw [getManager_set hbase hbNode, getManager_set hbase hbNode, getManager_set hbase hfNode,
      getManager_set hbase hfNode]
  let f' : Block := ⟨f.off, f.len + b.len, none, f.large.trans (Nat.le_add_right _ _)⟩
  have hperm : order.Perm (used pre ++ used post) := by
    have := h.perm
    rwa [used_append, used_eq_nil (show ∀ c ∈ [f], c.IsFree = true by simpa using hf),
      List.append_nil] at this
  have hbelow := h.below
  rw [free_append, free_eq_self (show ∀ c ∈ [f], c.IsFree = true by simpa using hf)] at hbelow
  refine ⟨pre ++ f' :: post, ?_, ?_, fun c hc => ?_, ?_, ?_⟩
  · obtain ⟨c, hpre, rfl, hpost⟩ := tiles_append.mp h.tiles
    obtain ⟨d, hpre, rfl, hd⟩ := tiles_append.mp hpre
    refine tiles_append.mpr ⟨f.off, hpre, rfl, ?_⟩
    rwa [tiles_nil.mp hd |>.symm, Nat.add_assoc] at hpost
  · rw [used_append, used_cons_free rfl]
    exact hperm
  · by_cases hcf : c = f'
    · rw [hcf]
      change get base _ f.off .bufferSize = f.len + b.len
      rw [hself, if_pos rfl]
    · have hc' : c ∈ pre ++ post := by
        simp only [List.mem_append, List.mem_cons] at hc ⊢
        tauto
      exact (h.holds c (hother c hc').1).congr fun g _ => hkeep c hc' g
  · rw [hmanager]
    refine h.allocated.congr fun c hc => hkeep c ?_ _
    have hc' := hperm.mem_iff.mp hc
    rw [← used_append] at hc'
    exact (mem_used.mp hc').1
  · rw [hmanager, free_append, free_cons_free rfl]
    refine linked_append.mpr ⟨f.off, ?_, rfl, ?_⟩
    · exact (linked_concat.mp hbelow).1.congr fun c hc => hkeep c (by simp [(mem_free.mp hc).1]) _
    · change Linked _ _ (get base _ f.off .nextNodeOffset) _ _
      rw [hself, if_neg (by decide), if_pos rfl]
      exact h.above.congr fun c hc => hkeep c (by simp [(mem_free.mp hc).1]) _

/-- The last free block below leads to the block, or is joined with it. -/
lemma joinPrev (h : Loose base m pre b post order cut (next base m b.off)) (hbase : Fits base)
    {zs : List Block} {f : Block} (hzs : free pre = zs ++ [f]) :
    ∃ blocks', Layout base (joinPrev base m b.off f.off) blocks' order := by
  have hb : b ∈ pre ++ b :: post := by simp
  obtain ⟨hfpre, hffree⟩ := mem_free.mp (show f ∈ free pre by simp [hzs])
  have hfmem : f ∈ pre ++ b :: post := by simp [hfpre]
  have hbound := (h.tiles.mem_bounds hb).2
  have hfbound := (h.tiles.mem_bounds hfmem).2
  have hspace : BIOS_HEAP_SIZE < 2 ^ 32 := by decide
  by_cases hadj : b.off = f.off + f.len
  · -- `f` is the block right before `b`
    obtain ⟨pre₂, rfl⟩ : ∃ pre₂, pre = pre₂ ++ [f] := by
      obtain ⟨pre₂, d, rfl⟩ := (List.eq_nil_or_concat pre).resolve_left (List.ne_nil_of_mem hfpre)
      rw [List.concat_eq_append] at h hfmem ⊢
      obtain ⟨c, hpre, rfl, -⟩ := tiles_append.mp h.tiles
      obtain ⟨e, -, rfl, hd⟩ := tiles_append.mp hpre
      have hd' : d.off + d.len = b.off := hd
      have hlarge := lt_of_lt_of_le (show 0 < sizeofNode by decide) f.large
      rcases h.tiles.eq_or_disjoint hfmem (show d ∈ pre₂ ++ [d] ++ b :: post by simp) with
        rfl | hdisj
      · exact ⟨pre₂, rfl⟩
      · have := lt_of_lt_of_le (show 0 < sizeofNode by decide) d.large
        omega
    exact h.joinPrev_adjacent hbase hffree hadj
  have hjoin : BiosHeap.joinPrev base m b.off f.off = set base m f.off .nextNodeOffset b.off := by
    rw [BiosHeap.joinPrev, h.get_size hfmem hffree, Word.add_eq (by omega)]
    exact if_neg hadj
  have hnodup := nodup_of_tiles h.tiles
  have hkeep : ∀ c ∈ pre ++ b :: post, c ≠ f → ∀ g,
      get base (set base m f.off .nextNodeOffset b.off) c.off g = get base m c.off g :=
    fun c hc hne g => get_set_ne h.tiles hbase hc hfmem hne
  have hself : ∀ g, get base (set base m f.off .nextNodeOffset b.off) f.off g =
      if g = .nextNodeOffset then b.off else get base m f.off g := fun g => by
    rw [get_set_self h.tiles hbase hfmem, Nat.mod_eq_of_lt (show b.off < 2 ^ 32 by omega)]
  have hmanager : ∀ a, getManager base (set base m f.off .nextNodeOffset b.off) a =
      getManager base m a := fun a => getManager_set hbase (isNode_of_tiles h.tiles hfmem)
  rw [hjoin]
  refine ⟨pre ++ b :: post, h.tiles, ?_, fun c hc => ?_, ?_, ?_⟩
  · rw [used_append, used_cons_free h.isFree]
    exact h.perm
  · refine (h.holds c hc).congr fun g hg => ?_
    by_cases hcf : c = f
    · rw [hcf, hself, if_neg hg]
    · exact hkeep c hc hcf g
  · rw [hmanager]
    refine h.allocated.congr fun c hc => ?_
    have hc' := h.perm.mem_iff.mp hc
    rw [← used_append] at hc'
    obtain ⟨hcmem, hcused⟩ := mem_used.mp hc'
    refine hkeep c (h.mem_pre_post hcmem).1 ?_ _
    rintro rfl
    simp [hffree] at hcused
  · have hbelow := h.below
    have hbf : b ≠ f := fun heq => (h.mem_pre_post (show f ∈ pre ++ post by simp [hfpre])).2 heq.symm
    rw [hzs] at hbelow
    rw [hmanager, free_append, free_cons_free h.isFree, hzs]
    refine linked_append.mpr ⟨b.off, hbelow.redirect (fun c hc => ?_) ?_, rfl, ?_⟩
    · have hcpre := (mem_free.mp (show c ∈ free pre by simp [hzs, hc])).1
      refine hkeep c (by simp [hcpre]) ?_ _
      rintro rfl
      have hfree := (hnodup.sublist (List.sublist_append_left _ _)).filter (·.IsFree)
      rw [← free, hzs] at hfree
      exact (List.nodup_append.mp hfree).2.2 c hc c (by simp) rfl
    · rw [next, hself, if_pos rfl]
    · rw [next, hkeep b hb hbf]
      refine h.above.congr fun c hc => hkeep c (by simp [(mem_free.mp hc).1]) ?_ _
      rintro rfl
      rw [List.nodup_append] at hnodup
      exact hnodup.2.2 c hfpre c (by simp [(mem_free.mp hc).1]) rfl

end Loose

/-! ### The callout -/

variable {params : BufferParams}

/-- A handle that is not in use is refused. -/
lemma biosDeallocateBuffer_absent (h : Layout base m pre order) (hne : order ≠ [])
    (habsent : ∀ c ∈ order, c.handle ≠ some params.bufferHandle) :
    biosDeallocateBuffer base m params = some (.boundsChk, m, params) := by
  have hfind : findLoop base m params.bufferHandle (getManager base m .startOfAllocatedNodes)
      (getManager base m .startOfAllocatedNodes) BIOS_HEAP_SIZE = some none :=
    findLoop_none h.allocated hne h.used_length_lt fun c hc heq =>
      habsent c hc (by rw [← h.get_handle hc, heq])
  rw [biosDeallocateBuffer, hfind]

/-- A buffer that is not the oldest one becomes free space, if there is free space above it. -/
lemma biosDeallocateBuffer_spec (hbase : Fits base) {w : Block} {p q : List Block}
    (h : Layout base m (pre ++ b :: post) (p ++ w :: b :: q))
    (hb : b.handle = some params.bufferHandle)
    (hfirst : ∀ c ∈ p ++ [w], c.handle ≠ some params.bufferHandle) (habove : free post ≠ []) :
    ∃ m' blocks', biosDeallocateBuffer base m params = some (.success, m', params) ∧
      Layout base m' blocks' (p ++ w :: q) := by
  have horder : p ++ w :: b :: q = (p ++ [w]) ++ b :: q := by simp
  have hfind : findLoop base m params.bufferHandle (getManager base m .startOfAllocatedNodes)
      (getManager base m .startOfAllocatedNodes) BIOS_HEAP_SIZE = some (some (b.off, w.off)) := by
    have hlen := h.used_length_lt
    have hallocated := h.allocated
    rw [horder] at hallocated
    rw [findLoop_eq hallocated (fun c hc => h.off_ne_zero (h.mem_blocks (horder ▸ hc)))
      (by simp at hlen ⊢; omega)
      (fun c hc heq => hfirst c hc (by rw [← h.get_handle (by simp at hc ⊢; tauto), heq]))
      (Option.some.inj ((h.get_handle (by simp)).trans hb))]
    simp
  obtain ⟨g, gs, hg⟩ := List.exists_cons_of_ne_nil habove
  let freed : Block := ⟨b.off, b.len, none, b.large⟩
  obtain ⟨cut, hloose⟩ : ∃ cut, Loose base (unlink base m b.off w.off) pre freed post
      (p ++ w :: q) cut cut := unlink_spec hbase h rfl rfl rfl
  obtain rfl : cut = g.off := by
    have := hloose.above
    rw [hg] at this
    exact this.1
  have hgpost : g ∈ free post := by simp [hg]
  obtain ⟨hlow, hhigh⟩ := off_lt_of_tiles h.tiles
  have hend : Word.add 32 b.off (get base (unlink base m b.off w.off) b.off .bufferSize) =
      b.off + b.len := by
    have hbound := (h.bounds (show b ∈ pre ++ b :: post by simp)).2
    have hspace : BIOS_HEAP_SIZE < 2 ^ 32 := by decide
    have hmem : freed ∈ pre ++ freed :: post := by simp
    exact (congrArg (Word.add 32 b.off) (hloose.get_size hmem rfl)).trans
      (Word.add_eq (show b.off + b.len < 2 ^ 32 by omega))
  obtain ⟨b', post', hoff, hjoined⟩ := hloose.joinNext hbase hgpost
  simp only [freed] at hoff hjoined
  simp only [biosDeallocateBuffer, hfind, hend]
  have hbelow := hloose.below
  rcases List.eq_nil_or_concat (free pre) with hnil | ⟨zs, f, hzs⟩
  · rw [hnil] at hbelow
    rw [show getManager base (unlink base m b.off w.off) .startOfFreedNodes = g.off from hbelow,
      if_pos (hhigh g (mem_free.mp hgpost).1)]
    rw [← hoff] at hjoined ⊢
    exact ⟨_, _, rfl, hjoined.toStart hbase hnil⟩
  · rw [List.concat_eq_append] at hzs
    have hstart : ¬b.off < getManager base (unlink base m b.off w.off) .startOfFreedNodes := by
      obtain ⟨c, cs, hc⟩ := List.exists_cons_of_ne_nil (show free pre ≠ [] by simp [hzs])
      rw [hc] at hbelow
      have := hlow c (mem_free.mp (hc ▸ List.mem_cons_self)).1
      rw [hbelow.1]
      omega
    have hmem : ∀ c ∈ free pre ++ g :: gs, c ∈ pre ++ b :: post := fun c hc => by
      rw [← hg] at hc
      rcases List.mem_append.mp hc with hc | hc
      · simp [(mem_free.mp hc).1]
      · simp [(mem_free.mp hc).1]
    have hfuel : (free pre).length < BIOS_HEAP_SIZE := by
      have := h.free_length_lt
      rw [free_append, List.length_append] at this
      omega
    have hplace : placeLoop base (unlink base m b.off w.off) b.off
        (getManager base (unlink base m b.off w.off) .startOfFreedNodes) w.off BIOS_HEAP_SIZE =
          some (f.off, g.off) := by
      rw [placeLoop_eq (linked_append.mpr ⟨g.off, hbelow, hg ▸ hloose.above⟩)
        (fun c hc => h.off_ne_zero (hmem c hc)) hfuel (fun c hc => hlow c (mem_free.mp hc).1)
        (hhigh g (mem_free.mp hgpost).1).le]
      simp [hzs]
    rw [if_neg hstart, hplace]
    rw [← hoff] at hjoined ⊢
    obtain ⟨blocks', hlayout⟩ := hjoined.joinPrev hbase hzs
    exact ⟨_, blocks', rfl, hlayout⟩

end ApuBios.BiosHeap
