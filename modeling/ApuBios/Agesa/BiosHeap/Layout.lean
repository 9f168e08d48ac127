import ApuBios.Agesa.BiosHeap.Basic
import ApuBios.Library.LinkedList
import ApuBios.Library.Tiling

/-!
# The layout of the AGESA heap

`Layout` relates memory to the blocks of the heap: the blocks tile it, the freed ones are linked
in address order and the allocated ones in the order in which they were allocated.
-/

namespace ApuBios.BiosHeap

open LinkedList Tiling

/-- The heap lies in the 32-bit address space. -/
def Fits (base : ℕ) : Prop := base + BIOS_HEAP_SIZE < 2 ^ 32

variable {base : ℕ} {m : Mem} {off o v : ℕ} {f g : NodeField} {a b : ManagerField}

/-! ### Fields -/

/-- The header of a node at this offset lies behind the manager and inside the heap. -/
def IsNode (off : ℕ) : Prop := sizeofManager ≤ off ∧ off + sizeofNode ≤ BIOS_HEAP_SIZE

/-- Two nodes are the same, or their headers lie apart. -/
def Apart (o off : ℕ) : Prop := o = off ∨ o + sizeofNode ≤ off ∨ off + sizeofNode ≤ o

private lemma pos_le (f : NodeField) : f.pos + 4 ≤ sizeofNode := by cases f <;> decide

private lemma pos_apart (h : f ≠ g) : f.pos + 4 ≤ g.pos ∨ g.pos + 4 ≤ f.pos := by
  cases f <;> cases g <;> first | exact absurd rfl h | decide

private lemma managerPos_le (a : ManagerField) : a.pos + 4 ≤ sizeofManager := by
  cases a <;> decide

private lemma managerPos_apart (h : a ≠ b) : a.pos + 4 ≤ b.pos ∨ b.pos + 4 ≤ a.pos := by
  cases a <;> cases b <;> first | exact absurd rfl h | decide

lemma field_addr (hbase : Fits base) (h : IsNode off) (f : NodeField) :
    Word.add 32 base (off + f.pos) = base + (off + f.pos) := by
  have := pos_le f
  unfold Fits at hbase
  unfold IsNode at h
  exact Word.add_eq (by omega)

lemma manager_addr (hbase : Fits base) (a : ManagerField) :
    Word.add 32 base a.pos = base + a.pos := by
  have hpos := managerPos_le a
  rw [Fits, BIOS_HEAP_SIZE] at hbase
  rw [sizeofManager] at hpos
  exact Word.add_eq (by omega)

lemma bufferOf_eq (hbase : Fits base) (h : off + sizeofNode ≤ BIOS_HEAP_SIZE) :
    bufferOf base off = base + (off + sizeofNode) := by
  unfold Fits at hbase
  exact Word.add_eq (by omega)

/-- What is written to a field of a node changes that field of that node only. -/
lemma get_set (hbase : Fits base) (ho : IsNode o) (hoff : IsNode off) (h : Apart o off) :
    get base (set base m off f v) o g =
      if o = off ∧ g = f then v % 2 ^ 32 else get base m o g := by
  rw [get, get, set, field_addr hbase ho, field_addr hbase hoff]
  have hf := pos_le f
  have hg := pos_le g
  split_ifs with heq
  · rw [heq.1, heq.2, Mem.readLE_writeLE_same]
    rfl
  · refine Mem.readLE_writeLE_disjoint ?_
    rcases h with rfl | h
    · have := pos_apart (f := f) (g := g) fun hfg => heq ⟨rfl, hfg.symm⟩
      omega
    · omega

lemma get_setManager (hbase : Fits base) (ho : IsNode o) :
    get base (setManager base m a v) o g = get base m o g := by
  rw [get, setManager, field_addr hbase ho, manager_addr hbase, get, field_addr hbase ho]
  have := managerPos_le a
  have := ho.1
  exact Mem.readLE_writeLE_disjoint (by omega)

lemma getManager_set (hbase : Fits base) (hoff : IsNode off) :
    getManager base (set base m off f v) a = getManager base m a := by
  rw [getManager, set, field_addr hbase hoff, manager_addr hbase, getManager, manager_addr hbase]
  have := managerPos_le a
  have := hoff.1
  exact Mem.readLE_writeLE_disjoint (by omega)

lemma getManager_setManager (hbase : Fits base) :
    getManager base (setManager base m a v) b = if b = a then v % 2 ^ 32 else getManager base m b := by
  rw [getManager, setManager, manager_addr hbase, manager_addr hbase, getManager,
    manager_addr hbase]
  split_ifs with heq
  · rw [heq, Mem.readLE_writeLE_same]
    rfl
  · have := managerPos_apart (a := a) (b := b) fun hab => heq hab.symm
    exact Mem.readLE_writeLE_disjoint (by omega)

lemma get_lt : get base m o g < 2 ^ 32 := Mem.readLE_lt

@[simp] lemma get_mod : get base m o g % 2 ^ 32 = get base m o g := Nat.mod_eq_of_lt get_lt

/-- Bytes outside the header do not matter. -/
lemma get_congr (hbase : Fits base) (ho : IsNode o) {m' : Mem}
    (h : ∀ z, base + o ≤ z → z < base + o + sizeofNode → m' z = m z) :
    get base m' o g = get base m o g := by
  have := pos_le g
  rw [get, get, field_addr hbase ho]
  exact Mem.readLE_congr fun z _ _ => h z (by omega) (by omega)

lemma getManager_congr (hbase : Fits base) {m' : Mem}
    (h : ∀ z, base ≤ z → z < base + sizeofManager → m' z = m z) :
    getManager base m' a = getManager base m a := by
  have := managerPos_le a
  rw [getManager, getManager, manager_addr hbase]
  exact Mem.readLE_congr fun z _ _ => h z (by omega) (by omega)

/-! ### Blocks -/

/-- A node together with its buffer; free ones have no handle. -/
structure Block where
  off : ℕ
  len : ℕ
  handle : Option ℕ
  large : sizeofNode ≤ len
  deriving DecidableEq

def Block.IsFree (b : Block) : Bool := b.handle.isNone

/-- The free blocks among `bs`. -/
def free (bs : List Block) : List Block := bs.filter (·.IsFree)

/-- The blocks of `bs` that are in use. -/
def used (bs : List Block) : List Block := bs.filter (!·.IsFree)

/-- The fields of the node agree with the block. -/
def Holds (base : ℕ) (m : Mem) (b : Block) : Prop :=
  match b.handle with
  | some h => get base m b.off .bufferHandle = h ∧
      get base m b.off .bufferSize = b.len - sizeofNode
  | none => get base m b.off .bufferSize = b.len

abbrev next (base : ℕ) (m : Mem) (off : ℕ) : ℕ := get base m off .nextNodeOffset

/-- The heap in memory consists of `blocks`, of which those in `order` were allocated in this
order. -/
structure Layout (base : ℕ) (m : Mem) (blocks order : List Block) : Prop where
  tiles : Tiles Block.off Block.len sizeofManager blocks BIOS_HEAP_SIZE
  perm : order.Perm (used blocks)
  holds : ∀ b ∈ blocks, Holds base m b
  allocated : Linked Block.off (next base m) (getManager base m .startOfAllocatedNodes) order 0
  freed : Linked Block.off (next base m) (getManager base m .startOfFreedNodes) (free blocks) 0

lemma nodup_of_tiles {blocks : List Block} {a c : ℕ}
    (h : Tiles Block.off Block.len a blocks c) : blocks.Nodup := by
  refine h.pairwise.imp fun {b d} hle heq => ?_
  have := lt_of_lt_of_le (show 0 < sizeofNode by decide) b.large
  rw [heq] at hle this
  omega

lemma isNode_of_tiles {blocks : List Block} {c : Block}
    (h : Tiles Block.off Block.len sizeofManager blocks BIOS_HEAP_SIZE) (hc : c ∈ blocks) :
    IsNode c.off := by
  have hbounds := h.mem_bounds hc
  have := c.large
  exact ⟨hbounds.1, by omega⟩

lemma apart_of_tiles {blocks : List Block} {c d : Block}
    (h : Tiles Block.off Block.len sizeofManager blocks BIOS_HEAP_SIZE) (hc : c ∈ blocks)
    (hd : d ∈ blocks) : Apart c.off d.off := by
  have := c.large
  have := d.large
  rcases h.eq_or_disjoint hc hd with rfl | hdisj
  · exact Or.inl rfl
  · unfold Apart
    omega

lemma eq_of_off_of_tiles {blocks : List Block} {c d : Block}
    (h : Tiles Block.off Block.len sizeofManager blocks BIOS_HEAP_SIZE) (hc : c ∈ blocks)
    (hd : d ∈ blocks) (hoff : c.off = d.off) : c = d := by
  have hlarge : 0 < c.len := lt_of_lt_of_le (by decide) c.large
  have hlarge' : 0 < d.len := lt_of_lt_of_le (by decide) d.large
  rcases h.eq_or_disjoint hc hd with rfl | hdisj
  · rfl
  · omega

section Write

variable {blocks : List Block} {c d : Block}
  (htiles : Tiles Block.off Block.len sizeofManager blocks BIOS_HEAP_SIZE)

include htiles in
lemma get_set_self (hbase : Fits base) (hc : c ∈ blocks) :
    get base (set base m c.off f v) c.off g =
      if g = f then v % 2 ^ 32 else get base m c.off g := by
  have hnode := isNode_of_tiles htiles hc
  rw [get_set hbase hnode hnode (Or.inl rfl)]
  simp only [true_and]

include htiles in
lemma get_set_ne (hbase : Fits base) (hc : c ∈ blocks) (hd : d ∈ blocks) (hne : c ≠ d) :
    get base (set base m d.off f v) c.off g = get base m c.off g := by
  rw [get_set hbase (isNode_of_tiles htiles hc) (isNode_of_tiles htiles hd)
    (apart_of_tiles htiles hc hd), if_neg fun h => hne (eq_of_off_of_tiles htiles hc hd h.1)]

include htiles in
/-- A buffer lies in no header. -/
lemma get_memset (hbase : Fits base) (hc : c ∈ blocks) (hd : d ∈ blocks) {n : ℕ} {z : UInt8}
    (hn : n ≤ d.len - sizeofNode) :
    get base (m.memset (bufferOf base d.off) z n) c.off g = get base m c.off g := by
  have hlarge := d.large
  rw [bufferOf_eq hbase (isNode_of_tiles htiles hd).2]
  refine get_congr hbase (isNode_of_tiles htiles hc) fun a _ _ => Mem.memset_frame ?_
  rcases htiles.eq_or_disjoint hc hd with rfl | hdisj
  · omega
  · have := c.large
    omega

end Write

lemma Holds.congr {m' : Mem} {b : Block} (h : Holds base m b)
    (hm : ∀ f, f ≠ .nextNodeOffset → get base m' b.off f = get base m b.off f) :
    Holds base m' b := by
  unfold Holds at h ⊢
  rw [hm .bufferHandle (by decide), hm .bufferSize (by decide)]
  exact h

lemma Holds.bufferSize {b : Block} (h : Holds base m b) :
    get base m b.off .bufferSize = if b.IsFree then b.len else b.len - sizeofNode := by
  unfold Holds at h
  cases hb : b.handle with
  | none =>
    rw [hb] at h
    simpa [Block.IsFree, hb] using h
  | some k =>
    rw [hb] at h
    simpa [Block.IsFree, hb] using h.2

namespace Layout

variable {blocks order : List Block} {c d : Block}

lemma mem_blocks (h : Layout base m blocks order) (hc : c ∈ order) : c ∈ blocks :=
  List.mem_of_mem_filter (h.perm.mem_iff.mp hc)

lemma isSome_of_mem (h : Layout base m blocks order) (hc : c ∈ order) : c.handle.isSome = true := by
  have := (List.mem_filter.mp (h.perm.mem_iff.mp hc)).2
  simpa [Block.IsFree] using this

lemma bounds (h : Layout base m blocks order) (hc : c ∈ blocks) :
    sizeofManager ≤ c.off ∧ c.off + c.len ≤ BIOS_HEAP_SIZE := h.tiles.mem_bounds hc

lemma isNode (h : Layout base m blocks order) (hc : c ∈ blocks) : IsNode c.off :=
  isNode_of_tiles h.tiles hc

lemma nodup (h : Layout base m blocks order) : order.Nodup := by
  exact h.perm.nodup_iff.mpr ((nodup_of_tiles h.tiles).filter _)

lemma off_ne_zero (h : Layout base m blocks order) (hc : c ∈ blocks) : c.off ≠ 0 := by
  have := (h.isNode hc).1
  rintro heq
  rw [heq] at this
  exact absurd this (by decide)

/-- The handle in an allocated node. -/
lemma get_handle (h : Layout base m blocks order) (hc : c ∈ order) :
    some (get base m c.off .bufferHandle) = c.handle := by
  have hholds := h.holds c (h.mem_blocks hc)
  obtain ⟨k, hk⟩ := Option.isSome_iff_exists.mp (h.isSome_of_mem hc)
  unfold Holds at hholds
  rw [hk] at hholds
  rw [hk, hholds.1]

/-- The size in an allocated node. -/
lemma get_size (h : Layout base m blocks order) (hc : c ∈ order) :
    get base m c.off .bufferSize = c.len - sizeofNode := by
  have hused : c.IsFree = false := by simpa [Block.IsFree] using h.isSome_of_mem hc
  rw [(h.holds c (h.mem_blocks hc)).bufferSize, if_neg (by simp [hused])]

end Layout

/-! ### Free and used blocks of a split heap -/

section Split

variable {pre post : List Block} {x : Block}

@[simp] lemma free_append (bs cs : List Block) : free (bs ++ cs) = free bs ++ free cs :=
  List.filter_append bs cs

@[simp] lemma used_append (bs cs : List Block) : used (bs ++ cs) = used bs ++ used cs :=
  List.filter_append bs cs

lemma free_cons_free (hx : x.IsFree = true) : free (x :: post) = x :: free post :=
  List.filter_cons_of_pos hx

lemma free_cons_used (hx : x.IsFree = false) : free (x :: post) = free post :=
  List.filter_cons_of_neg (by simp [hx])

lemma used_cons_free (hx : x.IsFree = true) : used (x :: post) = used post :=
  List.filter_cons_of_neg (by simp [hx])

lemma used_cons_used (hx : x.IsFree = false) : used (x :: post) = x :: used post :=
  List.filter_cons_of_pos (by simp [hx])

lemma mem_free {bs : List Block} : x ∈ free bs ↔ x ∈ bs ∧ x.IsFree = true := List.mem_filter

lemma mem_used {bs : List Block} : x ∈ used bs ↔ x ∈ bs ∧ x.IsFree = false := by
  simp [used, List.mem_filter]

lemma free_eq_self {bs : List Block} (h : ∀ b ∈ bs, b.IsFree = true) : free bs = bs :=
  List.filter_eq_self.mpr h

lemma used_eq_nil {bs : List Block} (h : ∀ b ∈ bs, b.IsFree = true) : used bs = [] :=
  List.filter_eq_nil_iff.mpr fun b hb => by simp [h b hb]

/-- Blocks before and behind a block have lower and higher offsets. -/
lemma off_lt_of_tiles {a c : ℕ} (h : Tiles Block.off Block.len a (pre ++ x :: post) c) :
    (∀ b ∈ pre, b.off < x.off) ∧ ∀ b ∈ post, x.off < b.off := by
  have hpair := h.pairwise
  rw [List.pairwise_append, List.pairwise_cons] at hpair
  refine ⟨fun b hb => ?_, fun b hb => ?_⟩
  · have := hpair.2.2 b hb x (by simp)
    have := lt_of_lt_of_le (show 0 < sizeofNode by decide) b.large
    omega
  · have := hpair.2.1.1 b hb
    have := lt_of_lt_of_le (show 0 < sizeofNode by decide) x.large
    omega

/-- A free block splits the heap as it splits the list of free blocks. -/
lemma exists_split_of_free {blocks p q : List Block} (h : free blocks = p ++ x :: q) :
    ∃ pre post, blocks = pre ++ x :: post ∧ free pre = p ∧ free post = q ∧ x.IsFree = true := by
  obtain ⟨l₁, l₂, rfl, hp, hq⟩ := List.filter_eq_append_iff.mp h
  obtain ⟨l₃, l₄, rfl, hnone, hx, hq⟩ := List.filter_eq_cons_iff.mp hq
  refine ⟨l₁ ++ l₃, l₄, by simp, ?_, hq, hx⟩
  rw [free_append, free, hp, free, List.filter_eq_nil_iff.mpr hnone, List.append_nil]

end Split

/-! ### The loops over the lists -/

section Loops

variable {blocks order : List Block} {a fuel : ℕ}

/-- The number of nodes of a list is bounded by the room they take. -/
lemma Layout.length_lt (h : Layout base m blocks order) : blocks.length < BIOS_HEAP_SIZE := by
  have hsum := h.tiles.sum_len
  have hlen : sizeofNode * blocks.length ≤ (blocks.map Block.len).sum := by
    have := List.card_nsmul_le_sum (blocks.map Block.len) sizeofNode fun n hn => by
      obtain ⟨b, -, rfl⟩ := List.mem_map.mp hn
      exact b.large
    simpa [mul_comm] using this
  simp only [sizeofManager, sizeofNode, BIOS_HEAP_SIZE] at *
  omega

lemma Layout.used_length_lt (h : Layout base m blocks order) : order.length < BIOS_HEAP_SIZE := by
  rw [h.perm.length_eq]
  exact (List.length_filter_le _ _).trans_lt h.length_lt

lemma Layout.free_length_lt (h : Layout base m blocks order) :
    (free blocks).length < BIOS_HEAP_SIZE :=
  (List.length_filter_le _ _).trans_lt h.length_lt

/-- Following the links of a list yields its nodes. -/
lemma nodesFrom_eq {bs : List Block} (h : Linked Block.off (next base m) a bs 0)
    (hpos : ∀ b ∈ bs, b.off ≠ 0) (hfuel : bs.length < fuel) :
    nodesFrom base m a fuel = some (bs.map fun b => nodeAt base m b.off) := by
  induction bs generalizing a fuel with
  | nil =>
    obtain ⟨k, rfl⟩ := Nat.exists_eq_succ_of_ne_zero hfuel.ne'
    rw [nodesFrom, if_pos (linked_nil.mp h)]
    rfl
  | cons b bs ih =>
    obtain ⟨k, rfl⟩ := Nat.exists_eq_succ_of_ne_zero (Nat.ne_zero_of_lt hfuel)
    obtain ⟨rfl, hrest⟩ := h
    rw [nodesFrom, if_neg (hpos b (by simp)),
      ih hrest (fun c hc => hpos c (by simp [hc])) (by simpa using hfuel)]
    rfl

/-- If the handle is not in use, the search ends at the last node. -/
lemma handleLoop_eq {bs : List Block} {h : ℕ} (cur : ℕ) (hl : Linked Block.off (next base m) a bs 0)
    (hpos : ∀ b ∈ bs, b.off ≠ 0) (hfuel : bs.length < fuel)
    (hh : ∀ b ∈ bs, get base m b.off .bufferHandle ≠ h) :
    handleLoop base m h a cur fuel = some (some ((bs.map Block.off).getLast?.getD cur)) := by
  induction bs generalizing a cur fuel with
  | nil =>
    obtain ⟨k, rfl⟩ := Nat.exists_eq_succ_of_ne_zero hfuel.ne'
    rw [handleLoop, if_neg (not_not.mpr (linked_nil.mp hl))]
    rfl
  | cons b bs ih =>
    obtain ⟨k, rfl⟩ := Nat.exists_eq_succ_of_ne_zero (Nat.ne_zero_of_lt hfuel)
    obtain ⟨rfl, hrest⟩ := hl
    rw [handleLoop, if_pos (hpos b (by simp)), if_neg (hh b (by simp)),
      ih _ hrest (fun c hc => hpos c (by simp [hc])) (by simpa using hfuel)
        fun c hc => hh c (by simp [hc])]
    cases bs <;> simp [List.getLast?_cons]

/-- What the search for the best fit knows after it has visited `vis`. -/
inductive BestFit (need : ℕ) (vis : List Block) : ℕ → ℕ → Prop
  | nothing (small : ∀ f ∈ vis, f.len < need) (prev : ℕ) : BestFit need vis 0 prev
  | found (p : List Block) (x : Block) (q : List Block) (split : vis = p ++ x :: q)
      (fits : need ≤ x.len) (least : ∀ f ∈ vis, need ≤ f.len → x.len ≤ f.len) (prev : ℕ)
      (before : ∀ z ∈ p.getLast?, prev = z.off) : BestFit need vis x.off prev

/-- One more node is visited. -/
private lemma BestFit.visit {need best bestPrev : ℕ} {vis : List Block}
    (h : BestFit need vis best bestPrev) (prev : ℕ) (x : Block) (hpos : ∀ b ∈ vis, b.off ≠ 0)
    (hsize : ∀ b ∈ vis ++ [x], get base m b.off .bufferSize = b.len)
    (hprev : ∀ z ∈ vis.getLast?, prev = z.off) :
    let size := get base m x.off .bufferSize
    let res :=
      if size ≥ need then
        if best = 0 then (x.off, prev)
        else if get base m best .bufferSize > size then (x.off, prev)
        else (best, bestPrev)
      else (best, bestPrev)
    BestFit need (vis ++ [x]) res.1 res.2 := by
  have hx : get base m x.off .bufferSize = x.len := hsize x (by simp)
  simp only [hx]
  have hmem : ∀ {P : Block → Prop}, (∀ f ∈ vis, P f) → P x → ∀ f ∈ vis ++ [x], P f := by
    intro P hvis hPx f hf
    rcases List.mem_append.mp hf with hf | hf
    · exact hvis f hf
    · exact List.mem_singleton.mp hf ▸ hPx
  cases h with
  | nothing small prev' =>
    by_cases hfit : need ≤ x.len
    · rw [if_pos hfit, if_pos rfl]
      refine .found vis x [] rfl hfit (hmem (fun f hf hle => ?_) fun _ => le_rfl) prev hprev
      have := small f hf
      omega
    · rw [if_neg hfit]
      exact .nothing (hmem small (not_le.mp hfit)) _
  | found p y q split fits least prev' before =>
    have hy : y ∈ vis := by simp [split]
    have hyx := hsize y (by simp [hy])
    rw [if_neg (hpos y hy), hyx]
    by_cases hfit : need ≤ x.len
    · rw [if_pos hfit]
      by_cases hless : x.len < y.len
      · rw [if_pos hless]
        refine .found vis x [] rfl hfit (hmem (fun f hf hle => ?_) fun _ => le_rfl) prev hprev
        have := least f hf hle
        omega
      · rw [if_neg hless]
        exact .found p y (q ++ [x]) (by simp [split]) fits
          (hmem least fun _ => not_lt.mp hless) _ before
    · rw [if_neg hfit]
      exact .found p y (q ++ [x]) (by simp [split]) fits (hmem least fun hle => absurd hle hfit) _
        before

lemma bestFitLoop_spec (need prev : ℕ) (vis : List Block) {best bestPrev : ℕ} {bs : List Block}
    (hl : Linked Block.off (next base m) a bs 0) (hpos : ∀ b ∈ vis ++ bs, b.off ≠ 0)
    (hsize : ∀ b ∈ vis ++ bs, get base m b.off .bufferSize = b.len)
    (hprev : ∀ z ∈ vis.getLast?, prev = z.off) (hbest : BestFit need vis best bestPrev)
    (hfuel : bs.length < fuel) :
    ∃ best' prev', bestFitLoop base m need a prev best bestPrev fuel = some (best', prev') ∧
      BestFit need (vis ++ bs) best' prev' := by
  induction bs generalizing a prev best bestPrev vis fuel with
  | nil =>
    obtain ⟨k, rfl⟩ := Nat.exists_eq_succ_of_ne_zero hfuel.ne'
    rw [bestFitLoop, if_neg (not_not.mpr (linked_nil.mp hl))]
    exact ⟨_, _, rfl, by simpa using hbest⟩
  | cons b bs ih =>
    obtain ⟨k, rfl⟩ := Nat.exists_eq_succ_of_ne_zero (Nat.ne_zero_of_lt hfuel)
    obtain ⟨rfl, hrest⟩ := hl
    rw [bestFitLoop, if_pos (hpos b (by simp))]
    have hsplit : vis ++ b :: bs = (vis ++ [b]) ++ bs := by simp
    have hvisit := hbest.visit prev b (fun c hc => hpos c (by simp [hc]))
      (fun c hc => hsize c (by rw [hsplit]; exact List.mem_append_left _ hc)) hprev
    rw [hsplit] at hpos hsize ⊢
    exact ih _ _ hrest hpos hsize (by simp) hvisit (by simpa using hfuel)

/-- The link to a list that is not empty is not null. -/
lemma start_ne_zero {p q : List Block} {b : Block}
    (hl : Linked Block.off (next base m) a (p ++ b :: q) 0)
    (hpos : ∀ c ∈ p ++ b :: q, c.off ≠ 0) : a ≠ 0 := by
  rw [hl.start_eq]
  cases p with
  | nil => exact hpos b (by simp)
  | cons c p => exact hpos c (by simp)

/-- The node with the handle, and the node before it. -/
lemma findLoop_eq {p q : List Block} {b : Block} {h prev : ℕ}
    (hl : Linked Block.off (next base m) a (p ++ b :: q) 0)
    (hpos : ∀ c ∈ p ++ b :: q, c.off ≠ 0) (hfuel : p.length < fuel)
    (hp : ∀ c ∈ p, get base m c.off .bufferHandle ≠ h)
    (hb : get base m b.off .bufferHandle = h) :
    findLoop base m h a prev fuel =
      some (some (b.off, (p.map Block.off).getLast?.getD prev)) := by
  induction p generalizing a prev fuel with
  | nil =>
    obtain ⟨k, rfl⟩ := Nat.exists_eq_succ_of_ne_zero hfuel.ne'
    obtain ⟨rfl, -⟩ := hl
    rw [findLoop, if_neg (not_not.mpr hb)]
    rfl
  | cons c p ih =>
    obtain ⟨k, rfl⟩ := Nat.exists_eq_succ_of_ne_zero (Nat.ne_zero_of_lt hfuel)
    obtain ⟨rfl, hrest⟩ := hl
    have hmore := start_ne_zero hrest fun d hd => hpos d (List.mem_cons_of_mem _ hd)
    rw [findLoop, if_pos (hp c (by simp)), if_neg hmore,
      ih hrest (fun d hd => hpos d (by simp [hd])) (by simpa using hfuel)
        fun d hd => hp d (by simp [hd])]
    cases p <;> simp [List.getLast?_cons]

lemma findLoop_none {bs : List Block} {h prev : ℕ} (hl : Linked Block.off (next base m) a bs 0)
    (hne : bs ≠ []) (hfuel : bs.length < fuel)
    (hh : ∀ c ∈ bs, get base m c.off .bufferHandle ≠ h) :
    findLoop base m h a prev fuel = some none := by
  induction bs generalizing a prev fuel with
  | nil => exact absurd rfl hne
  | cons c bs ih =>
    obtain ⟨k, rfl⟩ := Nat.exists_eq_succ_of_ne_zero (Nat.ne_zero_of_lt hfuel)
    obtain ⟨rfl, hrest⟩ := hl
    rw [findLoop, if_pos (hh c (by simp))]
    by_cases hlast : get base m c.off .nextNodeOffset = 0
    · rw [if_pos hlast]
    · have hne' : bs ≠ [] := by
        rintro rfl
        exact hlast (linked_nil.mp hrest)
      rw [if_neg hlast]
      exact ih hrest hne' (by simpa using hfuel) fun d hd => hh d (by simp [hd])

lemma locateLoop_eq {p q : List Block} {b : Block} {params : BufferParams}
    (hl : Linked Block.off (next base m) a (p ++ b :: q) 0)
    (hpos : ∀ c ∈ p ++ b :: q, c.off ≠ 0) (hfuel : p.length < fuel)
    (hp : ∀ c ∈ p, get base m c.off .bufferHandle ≠ params.bufferHandle)
    (hb : get base m b.off .bufferHandle = params.bufferHandle) :
    locateLoop base m params a fuel = some (.success, { params with
      bufferPointer := bufferOf base b.off
      bufferLength := get base m b.off .bufferSize }) := by
  induction p generalizing a fuel with
  | nil =>
    obtain ⟨k, rfl⟩ := Nat.exists_eq_succ_of_ne_zero hfuel.ne'
    obtain ⟨rfl, -⟩ := hl
    rw [locateLoop, if_neg (not_not.mpr hb.symm)]
  | cons c p ih =>
    obtain ⟨k, rfl⟩ := Nat.exists_eq_succ_of_ne_zero (Nat.ne_zero_of_lt hfuel)
    obtain ⟨rfl, hrest⟩ := hl
    have hmore := start_ne_zero hrest fun d hd => hpos d (List.mem_cons_of_mem _ hd)
    rw [locateLoop, if_pos (hp c (by simp)).symm, if_neg hmore]
    exact ih hrest (fun d hd => hpos d (by simp [hd])) (by simpa using hfuel)
      fun d hd => hp d (by simp [hd])

lemma locateLoop_none {bs : List Block} {params : BufferParams}
    (hl : Linked Block.off (next base m) a bs 0) (hne : bs ≠ []) (hfuel : bs.length < fuel)
    (hh : ∀ c ∈ bs, get base m c.off .bufferHandle ≠ params.bufferHandle) :
    locateLoop base m params a fuel =
      some (.boundsChk, { params with bufferPointer := 0, bufferLength := 0 }) := by
  induction bs generalizing a fuel with
  | nil => exact absurd rfl hne
  | cons c bs ih =>
    obtain ⟨k, rfl⟩ := Nat.exists_eq_succ_of_ne_zero (Nat.ne_zero_of_lt hfuel)
    obtain ⟨rfl, hrest⟩ := hl
    rw [locateLoop, if_pos (hh c (by simp)).symm]
    by_cases hlast : get base m c.off .nextNodeOffset = 0
    · rw [if_pos hlast]
    · have hne' : bs ≠ [] := by
        rintro rfl
        exact hlast (linked_nil.mp hrest)
      rw [if_neg hlast]
      exact ih hrest hne' (by simpa using hfuel) fun d hd => hh d (by simp [hd])

/-- If a node of the list lies above, the search ends between it and the node before it. -/
lemma placeLoop_eq {p q : List Block} {g : Block} {alloc prev : ℕ}
    (hl : Linked Block.off (next base m) a (p ++ g :: q) 0)
    (hpos : ∀ c ∈ p ++ g :: q, c.off ≠ 0) (hfuel : p.length < fuel)
    (hp : ∀ c ∈ p, c.off < alloc) (hg : alloc ≤ g.off) :
    placeLoop base m alloc a prev fuel =
      some ((p.map Block.off).getLast?.getD prev, g.off) := by
  induction p generalizing a prev fuel with
  | nil =>
    obtain ⟨k, rfl⟩ := Nat.exists_eq_succ_of_ne_zero hfuel.ne'
    obtain ⟨rfl, -⟩ := hl
    rw [placeLoop, if_neg (by omega)]
    rfl
  | cons c p ih =>
    obtain ⟨k, rfl⟩ := Nat.exists_eq_succ_of_ne_zero (Nat.ne_zero_of_lt hfuel)
    obtain ⟨rfl, hrest⟩ := hl
    have hmore := start_ne_zero hrest fun d hd => hpos d (List.mem_cons_of_mem _ hd)
    rw [placeLoop, if_pos (hp c (by simp)), if_neg hmore,
      ih hrest (fun d hd => hpos d (by simp [hd])) (by simpa using hfuel)
        fun d hd => hp d (by simp [hd])]
    cases p <;> simp [List.getLast?_cons]

end Loops

end ApuBios.BiosHeap
