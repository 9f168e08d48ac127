import ApuBios.Agesa.BiosHeap.Layout

/-!
# Allocating from the AGESA heap

Taking a buffer from the best fit keeps the layout, as long as what is left of the free block is
either nothing or enough for a node.
-/

namespace ApuBios.BiosHeap

open LinkedList Tiling

variable {base : ℕ} {m : Mem} {blocks order pre post rest : List Block} {x : Block}

lemma splitBestFit_spec (hbase : Fits base) (h : Layout base m blocks order) (hx : x ∈ blocks)
    (hfree : x.IsFree = true) {len : ℕ} (hfit : len + sizeofNode ≤ x.len)
    (hleft : x.len = len + sizeofNode ∨ len + sizeofNode + sizeofNode ≤ x.len) :
    ∃ m' nextFree rest, splitBestFit base m len x.off = (m', nextFree) ∧
      Tiles Block.off Block.len (x.off + (len + sizeofNode)) rest (x.off + x.len) ∧
      (∀ y ∈ rest, y.IsFree = true ∧ Holds base m' y) ∧
      Linked Block.off (next base m') nextFree rest (next base m x.off) ∧
      (∀ c ∈ blocks, ∀ g, get base m' c.off g = get base m c.off g) ∧
      ∀ a, getManager base m' a = getManager base m a := by
  have hbounds := h.bounds hx
  have hsize : get base m x.off .bufferSize = x.len := by
    rw [(h.holds x hx).bufferSize, if_pos hfree]
  have hspace : BIOS_HEAP_SIZE < 2 ^ 32 := by decide
  have hpos : 0 < sizeofNode := by decide
  have hneed : Word.add 32 len sizeofNode = len + sizeofNode := Word.add_eq (by omega)
  simp only [splitBestFit, hsize, hneed]
  rcases hleft with hexact | hlarge
  · rw [if_neg (by omega)]
    exact ⟨m, _, [], rfl, by rw [tiles_nil, hexact], by simp, rfl, fun _ _ _ => rfl, fun _ => rfl⟩
  have hoff : Word.add 32 (Word.add 32 x.off len) sizeofNode = x.off + (len + sizeofNode) := by
    rw [Word.add_eq (a := x.off) (by omega), Word.add_eq (by omega)]
    omega
  let y : Block := ⟨x.off + (len + sizeofNode), x.len - (len + sizeofNode), none, by omega⟩
  have hy : IsNode y.off := ⟨by simp only [y]; omega, by simp only [y]; omega⟩
  have hxy : Apart x.off y.off := Or.inr (Or.inl (by simp only [y]; omega))
  have hyoff : x.off + (len + sizeofNode) = y.off := rfl
  have hsub : Word.sub 32 x.len (len + sizeofNode) = y.len := Word.sub_eq (by omega) (by omega)
  have hylen : y.len < 2 ^ 32 := by simp only [y]; omega
  have hxNode := h.isNode hx
  have happly : ∀ c ∈ blocks, Apart c.off y.off := by
    intro c hc
    have := c.large
    rcases h.tiles.eq_or_disjoint hc hx with rfl | hdisj
    · exact hxy
    · refine Or.inr ?_
      simp only [y]
      omega
  have hne : ∀ c ∈ blocks, c.off ≠ y.off := by
    intro c hc
    have := c.large
    rcases h.tiles.eq_or_disjoint hc hx with rfl | hdisj <;> simp only [y] <;> omega
  rw [if_pos (by omega), hoff, hyoff, hsub]
  have hold : ∀ c ∈ blocks, ∀ f v g, get base (set base m y.off f v) c.off g =
      get base m c.off g := by
    intro c hc f v g
    rw [get_set hbase (h.isNode hc) hy (happly c hc), if_neg fun heq => hne c hc heq.1]
  refine ⟨_, _, [y], rfl, ⟨rfl, ?_⟩, ?_, ⟨rfl, ?_⟩, fun c hc g => ?_, fun a => ?_⟩
  · simp only [tiles_nil, y]
    omega
  · intro z hz
    obtain rfl := List.mem_singleton.mp hz
    refine ⟨rfl, ?_⟩
    change get base _ y.off .bufferSize = y.len
    rw [get_set hbase hy hy (Or.inl rfl), if_neg (by simp), get_set hbase hy hy (Or.inl rfl),
      if_pos ⟨rfl, rfl⟩, Nat.mod_eq_of_lt hylen]
  · rw [linked_nil, next, get_set hbase hy hy (Or.inl rfl), if_pos ⟨rfl, rfl⟩, hold x hx, get_mod]
  · rw [get_set hbase (h.isNode hc) hy (happly c hc), if_neg fun heq => hne c hc heq.1,
      hold c hc]
  · rw [getManager_set hbase hy, getManager_set hbase hy]

/-- The fields after the best fit has changed lists. -/
private lemma get_linkBestFit (hbase : Fits base) {p : BufferParams} {curr best prev nextFree c : ℕ}
    {g : NodeField} (hbest : IsNode best) (hcurr : IsNode curr)
    (hprev : best ≠ getManager base m .startOfFreedNodes → IsNode prev) (hc : IsNode c)
    (hcb : Apart c best) (hcc : Apart c curr)
    (hcp : best ≠ getManager base m .startOfFreedNodes → Apart c prev) :
    get base (linkBestFit base m p curr best prev nextFree) c g =
      if c = best then
        match g with
        | .bufferHandle => p.bufferHandle % 2 ^ 32
        | .bufferSize => p.bufferLength % 2 ^ 32
        | .nextNodeOffset => 0
      else if g = .nextNodeOffset ∧ c = curr then best % 2 ^ 32
      else if g = .nextNodeOffset ∧ best ≠ getManager base m .startOfFreedNodes ∧ c = prev then
        nextFree % 2 ^ 32
      else get base m c g := by
  rw [linkBestFit, get_set hbase hc hbest hcb, get_set hbase hc hbest hcb,
    get_set hbase hc hbest hcb, get_set hbase hc hcurr hcc]
  by_cases hcbest : c = best
  · cases g <;> simp [hcbest]
  · simp only [hcbest, false_and, if_false]
    by_cases hstart : best = getManager base m .startOfFreedNodes
    · simp [← hstart, get_setManager hbase hc, and_comm]
    · simp only [hstart, if_false, not_false_eq_true, true_and, ne_eq,
        get_set hbase hc (hprev hstart) (hcp hstart)]
      simp only [and_comm]

private lemma getManager_linkBestFit (hbase : Fits base) {p : BufferParams}
    {curr best prev nextFree : ℕ} {a : ManagerField} (hbest : IsNode best) (hcurr : IsNode curr)
    (hprev : best ≠ getManager base m .startOfFreedNodes → IsNode prev) :
    getManager base (linkBestFit base m p curr best prev nextFree) a =
      if a = .startOfFreedNodes ∧ best = getManager base m .startOfFreedNodes then
        nextFree % 2 ^ 32
      else getManager base m a := by
  rw [linkBestFit, getManager_set hbase hbest, getManager_set hbase hbest,
    getManager_set hbase hbest, getManager_set hbase hcurr]
  by_cases hstart : best = getManager base m .startOfFreedNodes
  · simp [← hstart, getManager_setManager hbase]
  · simp [hstart, getManager_set hbase (hprev hstart)]

/-- What is known once the best fit `x` has been split: `m'` differs from `m` in a header inside
`x` only, and from `nextFree` the links run through what is left of `x`. -/
structure Remains (base : ℕ) (m m' : Mem) (blocks : List Block) (x : Block) (len nextFree : ℕ)
    (rest : List Block) : Prop where
  tiles : Tiles Block.off Block.len (x.off + (len + sizeofNode)) rest (x.off + x.len)
  free : ∀ y ∈ rest, y.IsFree = true
  holds : ∀ y ∈ rest, Holds base m' y
  linked : Linked Block.off (next base m') nextFree rest (next base m x.off)
  get_eq : ∀ c ∈ blocks, ∀ g, get base m' c.off g = get base m c.off g
  getManager_eq : ∀ a, getManager base m' a = getManager base m a

section LinkBestFit

variable {last new : Block} {m' : Mem} {p : BufferParams} {nextFree prev : ℕ}
  (hbase : Fits base) (h : Layout base m (pre ++ x :: post) (order ++ [last]))
  (hfree : x.IsFree = true) (hhandle : p.bufferHandle < 2 ^ 32)
  (hfit : p.bufferLength + sizeofNode ≤ x.len)
  (hprev : ∀ z ∈ (free pre).getLast?, prev = z.off)
  (hrem : Remains base m m' (pre ++ x :: post) x p.bufferLength nextFree rest)
  (hoff : new.off = x.off) (hlen : new.len = p.bufferLength + sizeofNode)
  (hnew : new.handle = some p.bufferHandle)

include h hrem hoff hlen in
private lemma new_tiles :
    Tiles Block.off Block.len sizeofManager (pre ++ new :: (rest ++ post)) BIOS_HEAP_SIZE := by
  obtain ⟨c, hpre, rfl, hpost⟩ := tiles_append.mp h.tiles
  refine tiles_append.mpr ⟨x.off, hpre, hoff, tiles_append.mpr ⟨_, ?_, hpost⟩⟩
  rw [hlen]
  exact hrem.tiles

include h hfree in
/-- The free list before and behind `x`. -/
private lemma freed_split :
    Linked Block.off (next base m) (getManager base m .startOfFreedNodes) (free pre) x.off ∧
      Linked Block.off (next base m) (next base m x.off) (free post) 0 := by
  have hfreed := h.freed
  rw [free_append, free_cons_free hfree] at hfreed
  obtain ⟨c, hpre, rfl, hpost⟩ := linked_append.mp hfreed
  exact ⟨hpre, hpost⟩

include h hfree hprev hrem in
/-- Unless `x` is the first free node, `prev` is the one before it. -/
private lemma prev_eq (hne : x.off ≠ getManager base m' .startOfFreedNodes) :
    ∃ zs z, free pre = zs ++ [z] ∧ prev = z.off := by
  rw [hrem.getManager_eq] at hne
  obtain ⟨hpre, -⟩ := freed_split h hfree
  rcases List.eq_nil_or_concat (free pre) with hnil | ⟨zs, z, hzs⟩
  · rw [hnil] at hpre
    exact absurd hpre.symm hne
  · rw [List.concat_eq_append] at hzs
    exact ⟨zs, z, hzs, hprev z (by simp [hzs])⟩

include h hfree hprev hrem in
private lemma prev_mem (hne : x.off ≠ getManager base m' .startOfFreedNodes) :
    ∃ z ∈ pre, prev = z.off := by
  obtain ⟨zs, z, hzs, rfl⟩ := prev_eq h hfree hprev hrem hne
  exact ⟨z, (mem_free.mp (hzs ▸ List.mem_concat_self)).1, rfl⟩

include h hfree in
private lemma last_mem : last ∈ pre ++ post ∧ last.IsFree = false := by
  have hmem : last ∈ pre ++ x :: post := h.mem_blocks (by simp)
  have hused : last.IsFree = false := by
    simpa [Block.IsFree] using h.isSome_of_mem (show last ∈ order ++ [last] by simp)
  have hne : last ≠ x := by
    rintro rfl
    simp [hfree] at hused
  simp only [List.mem_append, List.mem_cons] at hmem ⊢
  tauto

include hrem in
private lemma nextFree_lt (htiles : Tiles Block.off Block.len sizeofManager
    (pre ++ new :: (rest ++ post)) BIOS_HEAP_SIZE) : nextFree < 2 ^ 32 := by
  have hlinked := hrem.linked
  cases rest with
  | nil =>
    rw [linked_nil.mp hlinked]
    exact get_lt
  | cons y rest =>
    rw [hlinked.1]
    have hy := isNode_of_tiles htiles (show y ∈ pre ++ new :: (y :: rest ++ post) by simp)
    exact (show BIOS_HEAP_SIZE < 2 ^ 32 by decide).trans_le' ((Nat.le_add_right _ _).trans hy.2)

include hbase h hfree hhandle hfit hprev hrem hoff hlen in
/-- The fields of the nodes of the new layout. -/
private lemma get_new {c : Block} (hc : c ∈ pre ++ new :: (rest ++ post)) (g : NodeField) :
    get base (linkBestFit base m' p last.off x.off prev nextFree) c.off g =
      if c.off = x.off then
        match g with
        | .bufferHandle => p.bufferHandle
        | .bufferSize => p.bufferLength
        | .nextNodeOffset => 0
      else if g = .nextNodeOffset ∧ c.off = last.off then x.off
      else if g = .nextNodeOffset ∧ x.off ≠ getManager base m' .startOfFreedNodes ∧ c.off = prev
        then nextFree
      else get base m' c.off g := by
  have htiles := new_tiles h hrem hoff hlen
  have hxmem : x ∈ pre ++ x :: post := by simp
  have hxNode := h.isNode hxmem
  have hspace : BIOS_HEAP_SIZE < 2 ^ 32 := by decide
  have hnewmem : new ∈ pre ++ new :: (rest ++ post) := by simp
  have hlast : last ∈ pre ++ new :: (rest ++ post) := by
    have := (last_mem h hfree).1
    simp only [List.mem_append, List.mem_cons] at this ⊢
    tauto
  rw [get_linkBestFit hbase hxNode (isNode_of_tiles htiles hlast) (fun hne => ?_)
    (isNode_of_tiles htiles hc) (hoff ▸ apart_of_tiles htiles hc hnewmem)
    (apart_of_tiles htiles hc hlast) (fun hne => ?_), Nat.mod_eq_of_lt hhandle,
    Nat.mod_eq_of_lt (nextFree_lt hrem htiles)]
  · have hbound := (h.bounds hxmem).2
    rw [Nat.mod_eq_of_lt (show p.bufferLength < 2 ^ 32 by omega),
      Nat.mod_eq_of_lt (show x.off < 2 ^ 32 by omega)]
  · obtain ⟨z, hz, hzprev⟩ := prev_mem h hfree hprev hrem hne
    exact hzprev ▸ isNode_of_tiles htiles (List.mem_append_left _ hz)
  · obtain ⟨z, hz, hzprev⟩ := prev_mem h hfree hprev hrem hne
    exact hzprev ▸ apart_of_tiles htiles hc (List.mem_append_left _ hz)

include hbase h hfree hhandle hfit hprev hrem hoff hlen in
/-- Outside `x` nothing but the links of `last` and of the node before `x` changes. -/
private lemma next_new {c : Block} (hc : c ∈ pre ++ (rest ++ post)) (hcl : c ≠ last)
    (hcz : ∀ zs z, free pre = zs ++ [z] → c ≠ z) :
    next base (linkBestFit base m' p last.off x.off prev nextFree) c.off = next base m' c.off := by
  have htiles := new_tiles h hrem hoff hlen
  obtain ⟨hbelow, habove⟩ := off_lt_of_tiles htiles
  rw [hoff] at hbelow habove
  have hlast := (last_mem h hfree).1
  have hmem : ∀ d ∈ pre ++ (rest ++ post), d ∈ pre ++ new :: (rest ++ post) := by
    intro d hd
    simp only [List.mem_append, List.mem_cons] at hd ⊢
    tauto
  have hbeside : c.off ≠ x.off := by
    rcases List.mem_append.mp hc with hc | hc
    · exact (hbelow c hc).ne
    · exact (habove c hc).ne'
  have hlast' : last ∈ pre ++ (rest ++ post) := by
    simp only [List.mem_append] at hlast ⊢
    tauto
  rw [next, get_new hbase h hfree hhandle hfit hprev hrem hoff hlen (hmem c hc), if_neg hbeside,
    if_neg fun h => hcl (eq_of_off_of_tiles htiles (hmem c hc) (hmem last hlast') h.2), if_neg]
  rintro ⟨-, hne, rfl⟩
  obtain ⟨zs, z, hzs, hz⟩ := prev_eq h hfree hprev hrem hne
  refine hcz zs z hzs (eq_of_off_of_tiles htiles (hmem c hc) (List.mem_append_left _ ?_) hz)
  exact (mem_free.mp (hzs ▸ List.mem_concat_self)).1

include hbase h hfree hhandle hfit hprev hrem hoff hlen hnew in
private lemma linkBestFit_holds : ∀ c ∈ pre ++ new :: (rest ++ post),
    Holds base (linkBestFit base m' p last.off x.off prev nextFree) c := by
  intro c hc
  have hget := get_new hbase h hfree hhandle hfit hprev hrem hoff hlen hc
  by_cases hcn : c = new
  · subst hcn
    unfold Holds
    simp only [hnew]
    refine ⟨(hget _).trans (if_pos hoff), (hget _).trans ((if_pos hoff).trans ?_)⟩
    rw [hlen, Nat.add_sub_cancel]
  obtain ⟨hbelow, habove⟩ := off_lt_of_tiles (new_tiles h hrem hoff hlen)
  rw [hoff] at hbelow habove
  have hbeside : c.off ≠ x.off := by
    rcases List.mem_append.mp hc with hc | hc
    · exact (hbelow c hc).ne
    · exact (habove c ((List.mem_cons.mp hc).resolve_left hcn)).ne'
  have hholds : Holds base m' c := by
    by_cases hcr : c ∈ rest
    · exact hrem.holds c hcr
    · have hcold : c ∈ pre ++ x :: post := by
        simp only [List.mem_append, List.mem_cons] at hc ⊢
        tauto
      exact (h.holds c hcold).congr fun f _ => hrem.get_eq c hcold f
  refine hholds.congr fun f hf => ?_
  rw [hget, if_neg hbeside, if_neg fun h => hf h.1, if_neg fun h => hf h.1]

include hbase h hfree hhandle hfit hprev hrem hoff hlen in
private lemma linkBestFit_allocated :
    Linked Block.off (next base (linkBestFit base m' p last.off x.off prev nextFree))
      (getManager base m .startOfAllocatedNodes) (order ++ [last] ++ [new]) 0 := by
  have htiles := new_tiles h hrem hoff hlen
  have hget := fun {c : Block} hc g =>
    get_new (c := c) hbase h hfree hhandle hfit hprev hrem hoff hlen hc g
  have hlast := (last_mem h hfree).1
  have hlast' : last ∈ pre ++ new :: (rest ++ post) := by
    simp only [List.mem_append, List.mem_cons] at hlast ⊢
    tauto
  refine linked_concat.mpr ⟨?_, (hget (show new ∈ _ by simp) _).trans (if_pos hoff)⟩
  rw [hoff]
  refine h.allocated.redirect (fun c hc => ?_) ?_
  · have hc' : c ∈ order ++ [last] := List.mem_append_left _ hc
    have hused : c.IsFree = false := by simpa [Block.IsFree] using h.isSome_of_mem hc'
    have hcl : c ≠ last := by
      rintro rfl
      exact (List.nodup_append.mp h.nodup).2.2 c hc c (by simp) rfl
    have hcmem := h.mem_blocks hc'
    have hcx : c ∈ pre ++ (rest ++ post) := by
      simp only [List.mem_append, List.mem_cons] at hcmem ⊢
      rcases hcmem with hcmem | rfl | hcmem
      · exact Or.inl hcmem
      · simp [hfree] at hused
      · exact Or.inr (Or.inr hcmem)
    rw [next_new hbase h hfree hhandle hfit hprev hrem hoff hlen hcx hcl fun zs z hzs => ?_]
    · exact hrem.get_eq c hcmem _
    · rintro rfl
      have := (mem_free.mp (hzs ▸ List.mem_concat_self : c ∈ free pre)).2
      simp [hused] at this
  · have hlx : last.off ≠ x.off := by
      obtain ⟨hbelow, habove⟩ := off_lt_of_tiles htiles
      rw [hoff] at hbelow habove
      rcases List.mem_append.mp hlast with hlast | hlast
      · exact (hbelow last hlast).ne
      · exact (habove last (by simp [hlast])).ne'
    rw [next, hget hlast', if_neg hlx, if_pos ⟨rfl, rfl⟩]

include hbase h hfree hhandle hfit hprev hrem hoff hlen in
private lemma linkBestFit_freed :
    Linked Block.off (next base (linkBestFit base m' p last.off x.off prev nextFree))
      (if x.off = getManager base m' .startOfFreedNodes then nextFree
        else getManager base m .startOfFreedNodes) (free pre ++ (rest ++ free post)) 0 := by
  have htiles := new_tiles h hrem hoff hlen
  obtain ⟨hbelow, habove⟩ := off_lt_of_tiles htiles
  rw [hoff] at hbelow habove
  obtain ⟨hfreePre, hfreePost⟩ := freed_split h hfree
  have hlast := last_mem h hfree
  have hnext := fun {c : Block} hc hcl hcz =>
    next_new (c := c) hbase h hfree hhandle hfit hprev hrem hoff hlen hc hcl hcz
  have hnotLast : ∀ c : Block, c.IsFree = true → c ≠ last := by
    rintro c hc rfl
    simp [hc] at hlast
  have habove' : ∀ c ∈ rest ++ post, ∀ zs z, free pre = zs ++ [z] → c ≠ z := by
    rintro c hc zs z hzs rfl
    have hcpre := (mem_free.mp (hzs ▸ List.mem_concat_self : c ∈ free pre)).1
    exact absurd (hbelow c hcpre) (habove c hc).not_gt
  refine linked_append.mpr ⟨nextFree, ?_, linked_append.mpr ⟨next base m x.off, ?_, ?_⟩⟩
  · by_cases hstart : x.off = getManager base m' .startOfFreedNodes
    · -- no free block lies below `x`
      have hnil : free pre = [] := by
        rcases hpre : free pre with _ | ⟨w, ws⟩
        · rfl
        · rw [hpre] at hfreePre
          rw [hrem.getManager_eq, hfreePre.1] at hstart
          have hw := (mem_free.mp (hpre ▸ List.mem_cons_self : w ∈ free pre)).1
          exact absurd hstart.symm (hbelow w hw).ne
      rw [if_pos hstart, hnil]
      rfl
    · obtain ⟨zs, z, hzs, hz⟩ := prev_eq h hfree hprev hrem hstart
      have hmem : ∀ y ∈ zs ++ [z], y ∈ pre ∧ y.IsFree = true := fun y hy => mem_free.mp (hzs ▸ hy)
      rw [if_neg hstart, hzs]
      rw [hzs] at hfreePre
      refine hfreePre.redirect (fun y hy => ?_) ?_
      · obtain ⟨hypre, hyfree⟩ := hmem y (List.mem_append_left _ hy)
        rw [hnext (List.mem_append_left _ hypre) (hnotLast y hyfree) fun ws w hws => ?_]
        · exact hrem.get_eq y (List.mem_append_left _ hypre) _
        · obtain ⟨-, hwz⟩ := List.append_inj' (hzs.symm.trans hws) rfl
          obtain rfl := List.singleton_inj.mp hwz
          rintro rfl
          have hnodup := (nodup_of_tiles htiles).sublist (List.sublist_append_left _ _)
          have := hnodup.filter (·.IsFree)
          rw [← free, hzs] at this
          exact (List.nodup_append.mp this).2.2 y hy y (by simp) rfl
      · obtain ⟨hzpre, hzfree⟩ := hmem z (by simp)
        have hz' : z ∈ pre ++ new :: (rest ++ post) := List.mem_append_left _ hzpre
        have hlast' : last ∈ pre ++ new :: (rest ++ post) := by
          have := hlast.1
          simp only [List.mem_append, List.mem_cons] at this ⊢
          tauto
        have hzl : z.off ≠ last.off := fun hzl =>
          hnotLast z hzfree (eq_of_off_of_tiles htiles hz' hlast' hzl)
        rw [next, get_new hbase h hfree hhandle hfit hprev hrem hoff hlen hz',
          if_neg (hbelow z hzpre).ne, if_neg fun h => hzl h.2, if_pos ⟨rfl, hstart, hz.symm⟩]
  · refine hrem.linked.congr fun y hy => ?_
    exact hnext (by simp [hy]) (hnotLast y (hrem.free y hy)) (habove' y (by simp [hy]))
  · refine hfreePost.congr fun y hy => ?_
    obtain ⟨hypost, hyfree⟩ := mem_free.mp hy
    rw [hnext (by simp [hypost]) (hnotLast y hyfree) (habove' y (by simp [hypost]))]
    exact hrem.get_eq y (by simp [hypost]) _

include hbase h hfree hhandle hfit hprev hrem hoff hlen hnew in
/-- Moving the best fit to the allocated list keeps the layout. -/
lemma linkBestFit_layout :
    Layout base (linkBestFit base m' p last.off x.off prev nextFree)
      (pre ++ new :: (rest ++ post)) (order ++ [last] ++ [new]) := by
  have hused : new.IsFree = false := by simp [Block.IsFree, hnew]
  have htiles := new_tiles h hrem hoff hlen
  have hlast : last ∈ pre ++ new :: (rest ++ post) := by
    have := (last_mem h hfree).1
    simp only [List.mem_append, List.mem_cons] at this ⊢
    tauto
  have hmanager : ∀ a,
      getManager base (linkBestFit base m' p last.off x.off prev nextFree) a =
        if a = .startOfFreedNodes ∧ x.off = getManager base m' .startOfFreedNodes then
          nextFree % 2 ^ 32
        else getManager base m' a := fun a =>
    getManager_linkBestFit hbase (h.isNode (show x ∈ pre ++ x :: post by simp))
      (isNode_of_tiles htiles hlast) fun hne => by
        obtain ⟨z, hz, hzprev⟩ := prev_mem h hfree hprev hrem hne
        exact hzprev ▸ isNode_of_tiles htiles (List.mem_append_left _ hz)
  refine ⟨htiles, ?_, linkBestFit_holds hbase h hfree hhandle hfit hprev hrem hoff hlen hnew,
    ?_, ?_⟩
  · have hperm := h.perm
    rw [used_append, used_cons_free hfree] at hperm
    rw [used_append, used_cons_used hused, used_append, used_eq_nil hrem.free, List.nil_append]
    exact (hperm.append_right [new]).trans
      ((List.perm_append_singleton new _).trans List.perm_middle.symm)
  · rw [hmanager, if_neg (by simp), hrem.getManager_eq]
    exact linkBestFit_allocated hbase h hfree hhandle hfit hprev hrem hoff hlen
  · rw [hmanager, Nat.mod_eq_of_lt (nextFree_lt hrem htiles), free_append, free_cons_used hused,
      free_append, free_eq_self hrem.free, hrem.getManager_eq]
    have hfreed := linkBestFit_freed hbase h hfree hhandle hfit hprev hrem hoff hlen
    rw [hrem.getManager_eq] at hfreed
    simpa only [true_and] using hfreed

end LinkBestFit

/-- A buffer of `len` bytes leaves nothing of the least free block it fits into, or enough for a
node. -/
def LeavesNode (frees : List ℕ) (len : ℕ) : Prop :=
  ∀ size ∈ frees, len + sizeofNode ≤ size → (∀ s ∈ frees, len + sizeofNode ≤ s → size ≤ s) →
    size = len + sizeofNode ∨ len + sizeofNode + sizeofNode ≤ size

/-- Allocating from a heap that is in use either finds no space and changes nothing, or adds the
new buffer to the layout. -/
lemma biosAllocateBuffer_spec (hbase : Fits base) (h : Layout base m blocks order)
    (hne : order ≠ []) {p : BufferParams} (hhandle : p.bufferHandle < 2 ^ 32)
    (hfresh : ∀ b ∈ order, b.handle ≠ some p.bufferHandle)
    (hlen : free blocks = [] ∨ p.bufferLength + sizeofNode < 2 ^ 32)
    (hleaves : LeavesNode ((free blocks).map Block.len) p.bufferLength) :
    biosAllocateBuffer base m p = some (.boundsChk, m, { p with bufferPointer := 0 }) ∨
      ∃ m' blocks' new, biosAllocateBuffer base m p =
          some (.success, m', { p with bufferPointer := base + (new.off + sizeofNode) }) ∧
        Layout base m' blocks' (order ++ [new]) ∧
        new.len = p.bufferLength + sizeofNode ∧ new.handle = some p.bufferHandle := by
  have hpos : ∀ b ∈ order, b.off ≠ 0 := fun b hb => h.off_ne_zero (h.mem_blocks hb)
  have hfpos : ∀ b ∈ free blocks, b.off ≠ 0 := fun b hb => h.off_ne_zero (mem_free.mp hb).1
  have hfsize : ∀ b ∈ free blocks, get base m b.off .bufferSize = b.len := fun b hb => by
    rw [(h.holds b (mem_free.mp hb).1).bufferSize, if_pos (mem_free.mp hb).2]
  obtain ⟨order, last, rfl⟩ := (List.eq_nil_or_concat order).resolve_left hne
  rw [List.concat_eq_append] at h hfresh hpos ⊢
  have hstart := start_ne_zero h.allocated hpos
  have hhandleLoop := handleLoop_eq (getManager base m .startOfAllocatedNodes) h.allocated
    hpos h.used_length_lt fun b hb heq => hfresh b hb (by rw [← h.get_handle hb, heq])
  obtain ⟨best, prev, hloop, hbest⟩ := bestFitLoop_spec
    (Word.add 32 p.bufferLength sizeofNode) (getManager base m .startOfFreedNodes)
    [] h.freed (by simpa using hfpos)
    (by simpa using hfsize) (by simp) (.nothing (by simp) 0) h.free_length_lt
  rw [List.nil_append] at hbest
  simp only [biosAllocateBuffer, if_neg hstart, hhandleLoop, hloop]
  cases hbest with
  | nothing small => exact Or.inl (if_pos rfl)
  | found q x q' hsplit hfit hleast prev hbefore =>
    have hneed : Word.add 32 p.bufferLength sizeofNode = p.bufferLength + sizeofNode :=
      Word.add_eq (hlen.resolve_left (by simp [hsplit]))
    rw [hneed] at hfit hleast
    obtain ⟨pre, post, rfl, rfl, -, hfree⟩ := exists_split_of_free hsplit
    have hx : x ∈ pre ++ x :: post := by simp
    have hxfree : x ∈ free (pre ++ x :: post) := mem_free.mpr ⟨hx, hfree⟩
    have hleft := hleaves x.len (List.mem_map_of_mem hxfree) hfit fun s hs hle => by
      obtain ⟨f, hf, rfl⟩ := List.mem_map.mp hs
      exact hleast f hf hle
    obtain ⟨m', nextFree, rest, heq, htiles, hrest, hlinked, hget, hmanager⟩ :=
      splitBestFit_spec hbase h hx hfree hfit hleft
    let new : Block := ⟨x.off, p.bufferLength + sizeofNode, some p.bufferHandle, by omega⟩
    have hbuffer : bufferOf base x.off = base + (new.off + sizeofNode) :=
      bufferOf_eq hbase (h.isNode hx).2
    rw [if_neg (h.off_ne_zero hx), heq]
    refine Or.inr ⟨linkBestFit base m' { p with bufferPointer := 0 } last.off x.off prev nextFree,
      pre ++ new :: (rest ++ post), new, ?_, ?_, rfl, rfl⟩
    · simp only [hbuffer, List.map_append, List.map_cons, List.map_nil, List.getLast?_concat,
        Option.getD_some]
    · exact linkBestFit_layout (p := { p with bufferPointer := 0 }) hbase h hfree hhandle hfit
        hbefore ⟨htiles, fun y hy => (hrest y hy).1, fun y hy => (hrest y hy).2, hlinked, hget,
          hmanager⟩ rfl rfl rfl

/-- The first allocation builds the layout. -/
lemma firstAllocation_spec (hbase : Fits base) {p : BufferParams}
    (hhandle : p.bufferHandle < 2 ^ 32)
    (hlen : sizeofManager + p.bufferLength + sizeofNode + sizeofNode ≤ BIOS_HEAP_SIZE) :
    ∃ blocks' new, (firstAllocation base m p).2 =
        { p with bufferPointer := base + (new.off + sizeofNode) } ∧
      Layout base (firstAllocation base m p).1 blocks' [new] ∧
      new.len = p.bufferLength + sizeofNode ∧ new.handle = some p.bufferHandle := by
  have hspace : BIOS_HEAP_SIZE < 2 ^ 32 := by decide
  let new : Block := ⟨sizeofManager, p.bufferLength + sizeofNode, some p.bufferHandle, by omega⟩
  let y : Block := ⟨sizeofManager + (p.bufferLength + sizeofNode),
    BIOS_HEAP_SIZE - (sizeofManager + (p.bufferLength + sizeofNode)), none, by omega⟩
  have hnew : IsNode sizeofManager := ⟨le_rfl, by omega⟩
  have hy : IsNode y.off := ⟨Nat.le_add_right _ _, by simp only [y]; omega⟩
  have hapart : Apart sizeofManager y.off := Or.inr (Or.inl (by simp only [y]; omega))
  have hne : sizeofManager ≠ y.off := by
    have : 0 < sizeofNode := by decide
    simp only [y]
    omega
  have hlen' : p.bufferLength < 2 ^ 32 := by omega
  have hyoff : y.off < 2 ^ 32 := by simp only [y]; omega
  have hylen : y.len < 2 ^ 32 := by simp only [y]; omega
  have hoff : Word.add 32 (Word.add 32 sizeofManager p.bufferLength) sizeofNode = y.off := by
    rw [Word.add_eq (a := sizeofManager) (by omega), Word.add_eq (by omega)]
    simp only [y]
    omega
  have hsub : Word.sub 32 (BIOS_HEAP_SIZE - sizeofManager - sizeofNode) p.bufferLength = y.len := by
    rw [Word.sub_eq (by omega) (by omega)]
    simp only [y]
    omega
  -- the fields of both nodes, in whatever order they are written
  have hself : ∀ (m' : Mem) f v g, get base (set base m' sizeofManager f v) sizeofManager g =
      if g = f then v % 2 ^ 32 else get base m' sizeofManager g := by
    intro m' f v g
    rw [get_set hbase hnew hnew (Or.inl rfl)]
    simp only [true_and]
  have hother : ∀ (m' : Mem) f v g, get base (set base m' y.off f v) sizeofManager g =
      get base m' sizeofManager g := by
    intro m' f v g
    rw [get_set hbase hnew hy hapart, if_neg fun h => hne h.1]
  have hyself : ∀ (m' : Mem) f v g, get base (set base m' y.off f v) y.off g =
      if g = f then v % 2 ^ 32 else get base m' y.off g := by
    intro m' f v g
    rw [get_set hbase hy hy (Or.inl rfl)]
    simp only [true_and]
  have hfields : firstAllocation base m p =
      (setManager base (setManager base (set base (set base (set base (set base (set base m
          sizeofManager .bufferHandle p.bufferHandle) sizeofManager .bufferSize p.bufferLength)
          sizeofManager .nextNodeOffset 0) y.off .bufferSize y.len) y.off .nextNodeOffset 0)
          .startOfAllocatedNodes sizeofManager) .startOfFreedNodes y.off,
        { p with bufferPointer := base + (new.off + sizeofNode) }) := by
    have hsize : (p.bufferLength : ℕ) % 2 ^ 32 = p.bufferLength := Nat.mod_eq_of_lt hlen'
    simp only [firstAllocation, hself, hsize, if_true, if_neg (show
      NodeField.bufferSize ≠ .nextNodeOffset by decide), hoff, hsub]
    rw [bufferOf_eq hbase hnew.2]
  rw [hfields]
  have hhandle' : p.bufferHandle % 2 ^ 32 = p.bufferHandle := Nat.mod_eq_of_lt hhandle
  have hsize : (p.bufferLength : ℕ) % 2 ^ 32 = p.bufferLength := Nat.mod_eq_of_lt hlen'
  refine ⟨[new, y], new, rfl, ⟨⟨rfl, rfl, ?_⟩, List.Perm.refl _, ?_, ⟨?_, ?_⟩, ⟨?_, ?_⟩⟩, rfl, rfl⟩
  · simp only [tiles_nil, new, y]
    omega
  · intro b hb
    simp only [List.mem_cons, List.not_mem_nil, or_false] at hb
    rcases hb with rfl | rfl
    · change get base _ sizeofManager .bufferHandle = p.bufferHandle ∧
        get base _ sizeofManager .bufferSize = p.bufferLength + sizeofNode - sizeofNode
      simp only [get_setManager hbase hnew, hother, hself, hhandle', hsize, reduceCtorEq, if_false,
        if_true, Nat.add_sub_cancel, and_self]
    · change get base _ y.off .bufferSize = y.len
      simp only [get_setManager hbase hy, hyself, reduceCtorEq, if_false, if_true,
        Nat.mod_eq_of_lt hylen]
  · simp only [getManager_setManager hbase, reduceCtorEq, if_false, if_true]
    rfl
  · change get base _ sizeofManager .nextNodeOffset = 0
    simp only [get_setManager hbase hnew, hother, hself, if_true, Nat.zero_mod]
  · simp only [getManager_setManager hbase, if_true, Nat.mod_eq_of_lt hyoff]
  · change get base _ y.off .nextNodeOffset = 0
    simp only [get_setManager hbase hy, hyself, if_true, Nat.zero_mod]

end ApuBios.BiosHeap
