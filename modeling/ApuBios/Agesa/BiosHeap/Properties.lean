import ApuBios.Agesa.BiosHeap.Allocate
import ApuBios.Agesa.BiosHeap.Deallocate
import ApuBios.Library.Transition

/-!
# Runs of the AGESA heap

`Sound` says what the heap is for: its nodes tile it, and the buffers AGESA holds are located
where they were allocated. Not every call keeps it so. `Call.Handled` is the condition under which
the code does, and the main result `run_sound` is about runs whose calls all meet it.
-/

namespace ApuBios.BiosHeap

open LinkedList Tiling Transition

/-- The part of the heap that an allocated node takes; its size does not count the header. -/
def Node.allocatedExtent (n : Node) : ℕ × ℕ := (n.offset, n.bufferSize + sizeofNode)

def Node.freedExtent (n : Node) : ℕ × ℕ := (n.offset, n.bufferSize)

def Node.buffer (base : ℕ) (n : Node) : Buffer :=
  ⟨n.bufferHandle, base + (n.offset + sizeofNode), n.bufferSize⟩

/-- The lists end, the freed nodes are in address order, the nodes tile the heap unless nothing
was allocated yet, and exactly the live buffers are located. -/
structure Sound (base : ℕ) (s : State) : Prop where
  nodes : ∃ allocated freed, allocatedNodes base s.mem = some allocated ∧
    freedNodes base s.mem = some freed ∧ allocated.map (Node.buffer base) = s.live ∧
    freed.Pairwise (fun n k => n.offset < k.offset) ∧ (∀ n ∈ freed, sizeofNode ≤ n.bufferSize) ∧
    (allocated = [] ∧ freed = [] ∨
      ∃ extents, extents.Perm (allocated.map Node.allocatedExtent ++ freed.map Node.freedExtent) ∧
        Tiles Prod.fst Prod.snd sizeofManager extents BIOS_HEAP_SIZE)
  located : ∀ b ∈ s.live, ∀ p : BufferParams, p.bufferHandle = b.handle →
    biosLocateBuffer base s.mem p = some (.success, ⟨b.length, b.handle, b.pointer⟩)
  notLocated : ∀ h ∈ s.freed, ∀ p : BufferParams, p.bufferHandle = h →
    biosLocateBuffer base s.mem p = some (.boundsChk, ⟨0, h, 0⟩)

/-- The sizes of the freed nodes. -/
def freedSizes (base : ℕ) (m : Mem) : List ℕ :=
  ((freedNodes base m).getD []).map Node.bufferSize

/-- The calls that the code handles. The first buffer has to leave space for a node, later ones
have to leave no space or space for a node in the freed node they are taken from, and their size
must not wrap. A buffer that is deallocated must not be the oldest, and a freed node has to lie
above it. Before the first allocation there is no list to look for a handle in, and the handle
zero would be found in the manager. -/
def Call.Handled (base : ℕ) (s : State) : Call → Prop
  | .allocate _ length =>
    if getManager base s.mem .startOfAllocatedNodes = 0 then
      sizeofManager + length + sizeofNode + sizeofNode ≤ BIOS_HEAP_SIZE
    else
      (freedSizes base s.mem = [] ∨ length + sizeofNode < 2 ^ 32) ∧
        LeavesNode (freedSizes base s.mem) length
  | .deallocate handle =>
    if getManager base s.mem .startOfAllocatedNodes = 0 then
      handle ≠ 0
    else
      ∀ b ∈ s.live, b.handle = handle → s.live.head? ≠ some b ∧
        ∃ n ∈ (freedNodes base s.mem).getD [], b.pointer ≤ base + n.offset
  | .locate _ | .store _ _ => True

variable {base : ℕ} {s : State} {blocks order : List Block} {m m' : Mem}

def Block.buffer (base : ℕ) (b : Block) : Buffer :=
  ⟨b.handle.getD 0, base + (b.off + sizeofNode), b.len - sizeofNode⟩

/-- A heap in use. -/
structure InUse (base : ℕ) (s : State) (blocks order : List Block) : Prop where
  layout : Layout base s.mem blocks order
  nonempty : order ≠ []
  live : s.live = order.map (Block.buffer base)
  nodup : (order.map Block.handle).Nodup
  freed : ∀ h ∈ s.freed, some h ∉ order.map Block.handle

namespace Layout

variable {c : Block}

lemma pos (h : Layout base m blocks order) : ∀ c ∈ order, c.off ≠ 0 :=
  fun _ hc => h.off_ne_zero (h.mem_blocks hc)

lemma start_ne_zero (h : Layout base m blocks order) (hne : order ≠ []) :
    getManager base m .startOfAllocatedNodes ≠ 0 := by
  obtain ⟨c, cs, rfl⟩ := List.exists_cons_of_ne_nil hne
  exact BiosHeap.start_ne_zero (p := []) h.allocated h.pos

lemma allocatedNodes (h : Layout base m blocks order) :
    allocatedNodes base m = some (order.map fun b => nodeAt base m b.off) :=
  nodesFrom_eq h.allocated h.pos h.used_length_lt

lemma freedNodes (h : Layout base m blocks order) :
    freedNodes base m = some ((free blocks).map fun b => nodeAt base m b.off) :=
  nodesFrom_eq h.freed (fun _ hc => h.off_ne_zero (mem_free.mp hc).1) h.free_length_lt

lemma get_freed_size (h : Layout base m blocks order) (hc : c ∈ free blocks) :
    get base m c.off .bufferSize = c.len := by
  rw [(h.holds c (mem_free.mp hc).1).bufferSize, if_pos (mem_free.mp hc).2]

lemma freedSizes (h : Layout base m blocks order) :
    freedSizes base m = (free blocks).map Block.len := by
  rw [BiosHeap.freedSizes, h.freedNodes, Option.getD_some, List.map_map]
  exact List.map_congr_left fun c hc => h.get_freed_size hc

lemma handle_eq (h : Layout base m blocks order) (hc : c ∈ order) :
    c.handle = some (get base m c.off .bufferHandle) := (h.get_handle hc).symm

lemma nodeAt_buffer (h : Layout base m blocks order) (hc : c ∈ order) :
    (nodeAt base m c.off).buffer base = c.buffer base := by
  rw [Node.buffer, Block.buffer, h.handle_eq hc, ← h.get_size hc]
  rfl

/-- Only the fields of the nodes matter. -/
lemma congr (h : Layout base m blocks order)
    (hget : ∀ c ∈ blocks, ∀ f, get base m' c.off f = get base m c.off f)
    (hmanager : ∀ a, getManager base m' a = getManager base m a) : Layout base m' blocks order := by
  refine ⟨h.tiles, h.perm, fun c hc => (h.holds c hc).congr fun f _ => hget c hc f, ?_, ?_⟩
  · rw [hmanager]
    exact h.allocated.congr fun c hc => hget c (h.mem_blocks hc) _
  · rw [hmanager]
    exact h.freed.congr fun c hc => hget c (mem_free.mp hc).1 _

/-- The blocks tile the heap, so the nodes found in memory do. -/
lemma extents_perm (h : Layout base m blocks order) :
    (blocks.map fun b => (b.off, b.len)).Perm
      ((order.map fun b => nodeAt base m b.off).map Node.allocatedExtent ++
        ((free blocks).map fun b => nodeAt base m b.off).map Node.freedExtent) := by
  have hused : (order.map fun b => nodeAt base m b.off).map Node.allocatedExtent =
      order.map fun b => (b.off, b.len) := by
    rw [List.map_map]
    refine List.map_congr_left fun c hc => ?_
    have := c.large
    simp only [Function.comp_apply, Node.allocatedExtent, nodeAt, h.get_size hc,
      Nat.sub_add_cancel this]
  have hfree : ((free blocks).map fun b => nodeAt base m b.off).map Node.freedExtent =
      (free blocks).map fun b => (b.off, b.len) := by
    rw [List.map_map]
    refine List.map_congr_left fun c hc => ?_
    simp only [Function.comp_apply, Node.freedExtent, nodeAt, h.get_freed_size hc]
  rw [hused, hfree, ← List.map_append]
  have hsplit : blocks.Perm (used blocks ++ free blocks) :=
    (List.filter_append_perm Block.IsFree blocks).symm.trans List.perm_append_comm
  exact (hsplit.trans (h.perm.symm.append_right _)).map _

end Layout

namespace InUse

variable {c : Block} {p : BufferParams}

lemma live_mem (h : InUse base s blocks order) {b : Buffer} (hb : b ∈ s.live) :
    ∃ c ∈ order, c.buffer base = b ∧ c.handle = some b.handle := by
  rw [h.live] at hb
  obtain ⟨c, hc, rfl⟩ := List.mem_map.mp hb
  refine ⟨c, hc, rfl, ?_⟩
  obtain ⟨k, hk⟩ := Option.isSome_iff_exists.mp (h.layout.isSome_of_mem hc)
  simp [Block.buffer, hk]

lemma mem_live (h : InUse base s blocks order) (hc : c ∈ order) : c.buffer base ∈ s.live := by
  rw [h.live]
  exact List.mem_map_of_mem hc

/-- The blocks around the one with a handle have other handles. -/
lemma split (h : InUse base s blocks order) (hc : c ∈ order) :
    ∃ p q, order = p ++ c :: q ∧ ∀ d ∈ p ++ q, d.handle ≠ c.handle := by
  obtain ⟨p, q, rfl⟩ := List.append_of_mem hc
  refine ⟨p, q, rfl, fun d hd heq => ?_⟩
  have hnodup := h.nodup
  rw [List.map_append, List.map_cons, List.nodup_middle, ← List.map_append, List.nodup_cons]
    at hnodup
  exact hnodup.1 (heq ▸ List.mem_map_of_mem hd)

lemma locate (hbase : Fits base) (h : InUse base s blocks order) (hc : c ∈ order)
    (hp : c.handle = some p.bufferHandle) :
    biosLocateBuffer base s.mem p =
      some (.success, ⟨c.len - sizeofNode, p.bufferHandle, base + (c.off + sizeofNode)⟩) := by
  obtain ⟨xs, ys, rfl, hother⟩ := h.split hc
  have hlen := h.layout.used_length_lt
  rw [List.length_append] at hlen
  have hhandle : ∀ d ∈ xs, get base s.mem d.off .bufferHandle ≠ p.bufferHandle := fun d hd heq =>
    hother d (by simp [hd]) (by rw [h.layout.handle_eq (by simp [hd]), heq, hp])
  have hfound : get base s.mem c.off .bufferHandle = p.bufferHandle :=
    Option.some.inj ((h.layout.get_handle hc).trans hp)
  rw [biosLocateBuffer, locateLoop_eq h.layout.allocated h.layout.pos (by omega) hhandle hfound,
    h.layout.get_size hc, bufferOf_eq hbase (h.layout.isNode (h.layout.mem_blocks hc)).2]

lemma locate_absent (h : InUse base s blocks order)
    (hp : some p.bufferHandle ∉ order.map Block.handle) :
    biosLocateBuffer base s.mem p = some (.boundsChk, ⟨0, p.bufferHandle, 0⟩) := by
  refine locateLoop_none h.layout.allocated h.nonempty h.layout.used_length_lt fun c hc heq => hp ?_
  rw [← heq, h.layout.get_handle hc]
  exact List.mem_map_of_mem hc

/-- What is found in memory agrees with the layout. -/
lemma sound (hbase : Fits base) (h : InUse base s blocks order) : Sound base s := by
  refine ⟨⟨_, _, h.layout.allocatedNodes, h.layout.freedNodes, ?_, ?_, ?_, Or.inr ⟨_,
    h.layout.extents_perm, tiles_map.mpr h.layout.tiles⟩⟩, fun b hb p hp => ?_,
    fun k hk p hp => ?_⟩
  · rw [List.map_map, h.live]
    exact List.map_congr_left fun c hc => h.layout.nodeAt_buffer hc
  · refine List.pairwise_map.mpr ((h.layout.tiles.pairwise.imp fun {c d} hle => ?_).filter _)
    have := lt_of_lt_of_le (show 0 < sizeofNode by decide) c.large
    simp only [nodeAt]
    omega
  · intro n hn
    obtain ⟨c, hc, rfl⟩ := List.mem_map.mp hn
    exact c.large.trans_eq (h.layout.get_freed_size hc).symm
  · obtain ⟨c, hc, rfl, hhandle⟩ := h.live_mem hb
    rw [h.locate hbase hc (hp ▸ hhandle), hp]
    rfl
  · rw [h.locate_absent (hp ▸ h.freed k hk), hp]

/-! ### Calls on a heap in use -/

lemma allocate (hbase : Fits base) (h : InUse base s blocks order) {handle length : ℕ}
    (hlegal : (Call.allocate handle length).Legal s)
    (hhandled : (Call.allocate handle length).Handled base s) :
    ∃ t blocks' order', step base s (.allocate handle length) = some t ∧
      InUse base t blocks' order' := by
  obtain ⟨hhandle, -, hfresh⟩ := hlegal
  rw [Call.Handled, if_neg (h.layout.start_ne_zero h.nonempty), h.layout.freedSizes,
    List.map_eq_nil_iff] at hhandled
  have hnew : ∀ c ∈ order, c.handle ≠ some handle := by
    intro c hc heq
    exact hfresh _ (h.mem_live hc) (by simp [Block.buffer, heq])
  rcases biosAllocateBuffer_spec (p := ⟨length, handle, 0⟩) hbase h.layout h.nonempty hhandle hnew
    hhandled.1 hhandled.2 with heq | ⟨m', blocks', new, heq, hlayout, hlen, hnewHandle⟩
  · exact ⟨s, blocks, order, by rw [step, heq]; rfl, h⟩
  · refine ⟨_, blocks', order ++ [new], by rw [step, heq]; rfl, hlayout, by simp, ?_, ?_, ?_⟩
    · simp [h.live, Block.buffer, hlen, hnewHandle]
    · rw [List.map_append, List.nodup_append]
      refine ⟨h.nodup, by simp, fun k hk l hl => ?_⟩
      obtain ⟨c, hc, rfl⟩ := List.mem_map.mp hk
      simp only [List.map_cons, List.map_nil, List.mem_singleton] at hl
      rw [hl, hnewHandle]
      exact hnew c hc
    · intro k hk
      have hk' := List.mem_filter.mp hk
      rw [List.map_append, List.mem_append, not_or]
      refine ⟨h.freed k hk'.1, ?_⟩
      have hne : k ≠ handle := by simpa using hk'.2
      simpa [hnewHandle] using hne

/-- The live buffers without the one that has the handle. -/
lemma live_filter (h : InUse base s blocks order) {handle : ℕ} {xs ys : List Block}
    (horder : order = xs ++ c :: ys) (hc : c.handle = some handle)
    (hother : ∀ d ∈ xs ++ ys, d.handle ≠ some handle) :
    s.live.filter (·.handle ≠ handle) = (xs ++ ys).map (Block.buffer base) := by
  have hkeep : ∀ d ∈ xs ++ ys, (d.buffer base).handle ≠ handle := by
    intro d hd heq
    have hmem : d ∈ order := by
      rw [horder]
      simp only [List.mem_append, List.mem_cons] at hd ⊢
      tauto
    obtain ⟨k, hk⟩ := Option.isSome_iff_exists.mp (h.layout.isSome_of_mem hmem)
    refine hother d hd ?_
    rw [hk, ← heq, Block.buffer, hk]
    rfl
  have hdrop : (c.buffer base).handle = handle := by simp [Block.buffer, hc]
  rw [h.live, horder, List.map_append, List.map_cons, List.filter_append,
    List.filter_cons_of_neg (by simp [hdrop]), ← List.filter_append, ← List.map_append]
  refine List.filter_eq_self.mpr fun b hb => ?_
  obtain ⟨d, hd, rfl⟩ := List.mem_map.mp hb
  simpa using hkeep d hd

lemma deallocate (hbase : Fits base) (h : InUse base s blocks order) {handle : ℕ}
    (hhandled : (Call.deallocate handle).Handled base s) :
    ∃ t blocks' order', step base s (.deallocate handle) = some t ∧
      InUse base t blocks' order' := by
  rw [Call.Handled, if_neg (h.layout.start_ne_zero h.nonempty), h.layout.freedNodes,
    Option.getD_some] at hhandled
  by_cases habsent : ∀ c ∈ order, c.handle ≠ some handle
  · have heq : biosDeallocateBuffer base s.mem ⟨0, handle, 0⟩ = some (.boundsChk, s.mem, _) :=
      biosDeallocateBuffer_absent h.layout h.nonempty habsent
    exact ⟨s, blocks, order, by rw [step, heq]; rfl, h⟩
  push Not at habsent
  obtain ⟨c, hc, hhandle⟩ := habsent
  obtain ⟨hnotHead, n, hn, hbelow⟩ := hhandled _ (h.mem_live hc) (by simp [Block.buffer, hhandle])
  obtain ⟨g, hg, rfl⟩ := List.mem_map.mp hn
  obtain ⟨xs, ys, horder, hother⟩ := h.split hc
  rw [hhandle] at hother
  -- the buffer is not the oldest, so another one comes before it
  obtain ⟨p, w, rfl⟩ : ∃ p w, xs = p ++ [w] := by
    rcases List.eq_nil_or_concat xs with rfl | ⟨p, w, hxs⟩
    · exact absurd (by simp [h.live, horder]) hnotHead
    · exact ⟨p, w, hxs.trans List.concat_eq_append⟩
  obtain ⟨pre, post, rfl⟩ := List.append_of_mem (h.layout.mem_blocks hc)
  have habove : free post ≠ [] := by
    obtain ⟨hgmem, hgfree⟩ := mem_free.mp hg
    have hoff : c.off < g.off := by
      have hpos : 0 < sizeofNode := by decide
      simp only [Block.buffer, nodeAt] at hbelow
      omega
    refine List.ne_nil_of_mem (mem_free.mpr ⟨?_, hgfree⟩)
    rcases List.mem_append.mp hgmem with hpre | hpost
    · have := (off_lt_of_tiles h.layout.tiles).1 g hpre
      omega
    · refine (List.mem_cons.mp hpost).resolve_left ?_
      rintro rfl
      omega
  have hlayout := h.layout
  rw [horder, List.append_assoc, List.singleton_append] at hlayout
  obtain ⟨m', blocks', heq, hlayout'⟩ : ∃ m' blocks',
      biosDeallocateBuffer base s.mem ⟨0, handle, 0⟩ = some (.success, m', ⟨0, handle, 0⟩) ∧
        Layout base m' blocks' (p ++ w :: ys) :=
    biosDeallocateBuffer_spec hbase hlayout hhandle
      (fun d hd => hother d (List.mem_append_left _ hd)) habove
  have hsub : ((p ++ w :: ys).map Block.handle).Sublist (order.map Block.handle) := by
    rw [horder]
    exact List.Sublist.map _ (by simp)
  refine ⟨_, blocks', p ++ w :: ys, by rw [step, heq]; rfl, hlayout', by simp, ?_,
    h.nodup.sublist hsub, fun k hk hmem => ?_⟩
  · exact (h.live_filter horder hhandle hother).trans (by simp)
  · rcases List.mem_cons.mp hk with rfl | hk
    · obtain ⟨d, hd, hdk⟩ := List.mem_map.mp hmem
      exact hother d (by simpa using hd) hdk
    · exact h.freed k hk (hsub.subset hmem)

lemma locate_step (hbase : Fits base) (h : InUse base s blocks order) (handle : ℕ) :
    step base s (.locate handle) = some s := by
  by_cases hmem : some handle ∈ order.map Block.handle
  · obtain ⟨c, hc, hhandle⟩ := List.mem_map.mp hmem
    rw [step, h.locate (p := ⟨0, handle, 0⟩) hbase hc hhandle]
    rfl
  · rw [step, h.locate_absent (p := ⟨0, handle, 0⟩) hmem]
    rfl

/-- A store into a live buffer changes no header. -/
lemma store (hbase : Fits base) (h : InUse base s blocks order) {addr : ℕ} {value : UInt8}
    (hlegal : (Call.store addr value).Legal s) :
    ∃ t blocks' order', step base s (.store addr value) = some t ∧
      InUse base t blocks' order' := by
  obtain ⟨b, hb, hle, hlt⟩ := hlegal
  obtain ⟨c, hc, rfl, -⟩ := h.live_mem hb
  have hcmem := h.layout.mem_blocks hc
  have hlarge := c.large
  simp only [Block.buffer] at hle hlt
  refine ⟨_, blocks, order, rfl, h.layout.congr (fun d hd f => ?_) (fun a => ?_), h.nonempty, h.live,
    h.nodup, h.freed⟩
  · refine get_congr hbase (h.layout.isNode hd) fun z hz hz' => Function.update_of_ne ?_ _ _
    rcases h.layout.tiles.eq_or_disjoint hcmem hd with rfl | hdisj
    · omega
    · have := d.large
      omega
  · refine getManager_congr hbase fun z hz hz' => Function.update_of_ne ?_ _ _
    have := (h.layout.isNode hcmem).1
    omega

lemma step (hbase : Fits base) (h : InUse base s blocks order) {call : Call}
    (hlegal : call.Legal s) (hhandled : call.Handled base s) :
    ∃ t blocks' order', BiosHeap.step base s call = some t ∧ InUse base t blocks' order' := by
  cases call with
  | allocate handle length => exact h.allocate hbase hlegal hhandled
  | deallocate handle => exact h.deallocate hbase hhandled
  | locate handle => exact ⟨s, blocks, order, h.locate_step hbase handle, h⟩
  | store addr value => exact h.store hbase hlegal

end InUse

/-! ### The heap before the first allocation -/

section Init

variable (hbase : Fits base) (m : Mem)

include hbase in
/-- The manager is read when the list of allocated nodes is empty. -/
lemma get_init (f : NodeField) : get base (emptyHeap base m) 0 f = 0 := by
  have hpos : f.pos + 4 ≤ BIOS_HEAP_SIZE := by cases f <;> decide
  unfold Fits at hbase
  rw [get, Word.add_eq (by omega), emptyHeap]
  exact Mem.readLE_memset_zero (by omega) (by omega)

include hbase in
lemma getManager_init (a : ManagerField) : getManager base (emptyHeap base m) a = 0 := by
  have hpos : a.pos + 4 ≤ BIOS_HEAP_SIZE := by cases a <;> decide
  rw [getManager, manager_addr hbase, emptyHeap]
  exact Mem.readLE_memset_zero (by omega) (by omega)

include hbase in
lemma sound_init : Sound base (State.init base m) := by
  have hempty : nodesFrom base (emptyHeap base m) 0 BIOS_HEAP_SIZE = some [] :=
    nodesFrom_eq (linked_nil.mpr rfl) (by simp) (by decide)
  refine ⟨⟨[], [], ?_, ?_, rfl, .nil, by simp, Or.inl ⟨rfl, rfl⟩⟩, by simp [State.init],
    by simp [State.init]⟩
  · rw [allocatedNodes, State.init, getManager_init hbase, hempty]
  · rw [freedNodes, State.init, getManager_init hbase, hempty]

include hbase in
lemma locate_init (p : BufferParams) :
    ∃ r, biosLocateBuffer base (State.init base m).mem p = some r := by
  obtain ⟨k, hk⟩ := Nat.exists_eq_succ_of_ne_zero (show BIOS_HEAP_SIZE ≠ 0 by decide)
  rw [biosLocateBuffer, hk, State.init, getManager_init hbase, locateLoop, get_init hbase,
    get_init hbase, if_pos rfl]
  split_ifs <;> exact ⟨_, rfl⟩

include hbase in
lemma deallocate_init {p : BufferParams} (hp : p.bufferHandle ≠ 0) :
    biosDeallocateBuffer base (State.init base m).mem p =
      some (.boundsChk, (State.init base m).mem, p) := by
  obtain ⟨k, hk⟩ := Nat.exists_eq_succ_of_ne_zero (show BIOS_HEAP_SIZE ≠ 0 by decide)
  have hfind : findLoop base (emptyHeap base m) p.bufferHandle 0 0 BIOS_HEAP_SIZE = some none := by
    rw [hk, findLoop, get_init hbase, get_init hbase, if_pos hp.symm, if_pos rfl]
  rw [biosDeallocateBuffer, State.init, getManager_init hbase, hfind]

include hbase in
lemma allocate_init {handle length : ℕ} (hhandle : handle < 2 ^ 32)
    (hlen : sizeofManager + length + sizeofNode + sizeofNode ≤ BIOS_HEAP_SIZE) :
    ∃ t blocks order, step base (State.init base m) (.allocate handle length) = some t ∧
      InUse base t blocks order := by
  obtain ⟨blocks, new, hp, hlayout, hnewLen, hnewHandle⟩ :=
    firstAllocation_spec (m := emptyHeap base m) (p := ⟨length, handle, 0⟩) hbase hhandle hlen
  have heq : biosAllocateBuffer base (emptyHeap base m) ⟨length, handle, 0⟩ =
      some (.success, firstAllocation base (emptyHeap base m) ⟨length, handle, 0⟩) := by
    rw [biosAllocateBuffer, getManager_init hbase]
    exact if_pos rfl
  refine ⟨_, blocks, [new], by rw [step, State.init, heq]; rfl, hlayout, by simp, ?_, by simp,
    by simp⟩
  simp [hp, Block.buffer, hnewLen, hnewHandle]

include hbase in
/-- Calls before the first allocation leave the heap as it is. -/
lemma step_init {call : Call} (hlegal : call.Legal (State.init base m))
    (hhandled : call.Handled base (State.init base m)) :
    ∃ t, step base (State.init base m) call = some t ∧
      (t = State.init base m ∨ ∃ blocks order, InUse base t blocks order) := by
  have hstart : getManager base (State.init base m).mem .startOfAllocatedNodes = 0 :=
    getManager_init hbase m _
  cases call with
  | allocate handle length =>
    rw [Call.Handled, if_pos hstart] at hhandled
    obtain ⟨t, blocks, order, heq, huse⟩ := allocate_init hbase m hlegal.1 hhandled
    exact ⟨t, heq, Or.inr ⟨blocks, order, huse⟩⟩
  | deallocate handle =>
    rw [Call.Handled, if_pos hstart] at hhandled
    exact ⟨_, by rw [step, deallocate_init hbase m hhandled]; rfl, Or.inl rfl⟩
  | locate handle =>
    obtain ⟨r, hr⟩ := locate_init hbase m ⟨0, handle, 0⟩
    exact ⟨_, by rw [step, hr]; rfl, Or.inl rfl⟩
  | store addr value =>
    simp [Call.Legal, State.init] at hlegal

end Init

/-! ### Runs -/

/-- A run of handled calls is carried out, and leaves a sound heap. -/
theorem run_sound (base : ℕ) (hbase : Fits base) (m : Mem) (calls : List Call)
    (hlegal : Admits (step base) (fun s c => c.Legal s) (State.init base m) calls)
    (hhandled : Admits (step base) (fun s c => c.Handled base s) (State.init base m) calls) :
    ∃ s, exec (step base) (State.init base m) calls = some s ∧ Sound base s := by
  have hstep : ∀ (s : State) (c : Call),
      (s = State.init base m ∨ ∃ blocks order, InUse base s blocks order) →
      c.Legal s ∧ c.Handled base s → ∃ t, step base s c = some t ∧
        (t = State.init base m ∨ ∃ blocks order, InUse base t blocks order) := by
    rintro s c (rfl | ⟨blocks, order, huse⟩) ⟨hlegal, hhandled⟩
    · exact step_init hbase m hlegal hhandled
    · obtain ⟨t, blocks', order', heq, huse'⟩ := huse.step hbase hlegal hhandled
      exact ⟨t, heq, Or.inr ⟨blocks', order', huse'⟩⟩
  obtain ⟨s, hexec, rfl | ⟨blocks, order, huse⟩⟩ :=
    exec_of_admits hstep (Or.inl rfl) (hlegal.and hhandled)
  · exact ⟨_, hexec, sound_init hbase m⟩
  · exact ⟨s, hexec, huse.sound hbase⟩

instance (s : State) : (c : Call) → Decidable (c.Legal s)
  | .allocate handle length =>
    inferInstanceAs (Decidable (handle < 2 ^ 32 ∧ length < 2 ^ 32 ∧ ∀ b ∈ s.live, b.handle ≠ handle))
  | .deallocate handle => inferInstanceAs (Decidable (handle < 2 ^ 32))
  | .locate handle => inferInstanceAs (Decidable (handle < 2 ^ 32))
  | .store addr _ =>
    inferInstanceAs (Decidable (∃ b ∈ s.live, b.pointer ≤ addr ∧ addr < b.pointer + b.length))

instance (frees : List ℕ) (len : ℕ) : Decidable (LeavesNode frees len) :=
  inferInstanceAs (Decidable (∀ size ∈ frees, len + sizeofNode ≤ size →
    (∀ s ∈ frees, len + sizeofNode ≤ s → size ≤ s) →
      size = len + sizeofNode ∨ len + sizeofNode + sizeofNode ≤ size))

instance (base : ℕ) (s : State) : (c : Call) → Decidable (c.Handled base s)
  | .allocate _ length =>
    inferInstanceAs (Decidable (if getManager base s.mem .startOfAllocatedNodes = 0 then
      sizeofManager + length + sizeofNode + sizeofNode ≤ BIOS_HEAP_SIZE
    else
      (freedSizes base s.mem = [] ∨ length + sizeofNode < 2 ^ 32) ∧
        LeavesNode (freedSizes base s.mem) length))
  | .deallocate handle =>
    inferInstanceAs (Decidable (if getManager base s.mem .startOfAllocatedNodes = 0 then
      handle ≠ 0
    else
      ∀ b ∈ s.live, b.handle = handle → s.live.head? ≠ some b ∧
        ∃ n ∈ (freedNodes base s.mem).getD [], b.pointer ≤ base + n.offset))
  | .locate _ | .store _ _ => .isTrue trivial

/-- The second of three buffers is freed and its node is used again for a smaller one. -/
private def reuse : List Call :=
  [.allocate 1 16, .allocate 2 32, .allocate 3 8, .store 0x10040 7, .deallocate 2, .locate 2,
    .allocate 4 20, .deallocate 3]

theorem run_sound_reuse :
    ∃ s, exec (step 0x10000) (State.init 0x10000 fun _ => 0) reuse = some s ∧ Sound 0x10000 s :=
  run_sound 0x10000 (show 0x10000 + BIOS_HEAP_SIZE < 2 ^ 32 by decide) (fun _ => 0) reuse
    (by decide) (by decide)

/-- The oldest buffer is freed. -/
private def freeOldest : List Call := [.allocate 1 16, .allocate 2 16, .deallocate 1]

/-- The manager still leads to the freed node, and the other buffer is no longer located. -/
theorem not_sound_of_free_oldest :
    ¬ ∀ (base : ℕ) (m : Mem) (calls : List Call) (s : State), Fits base →
      Admits (step base) (fun s c => c.Legal s) (State.init base m) calls →
        exec (step base) (State.init base m) calls = some s → Sound base s := by
  intro hall
  have hrun : (exec (step 0x10000) (State.init 0x10000 fun _ => 0) freeOldest).map (fun s =>
      (s.live, biosLocateBuffer 0x10000 s.mem ⟨0, 2, 0⟩)) =
        some ([⟨2, 0x10030, 16⟩], some (.boundsChk, ⟨0, 2, 0⟩)) := by decide
  obtain ⟨s, hexec, heq⟩ := Option.map_eq_some_iff.mp hrun
  obtain ⟨hlive, hlocate⟩ := Prod.mk.inj heq
  have hbase : Fits 0x10000 := show 0x10000 + BIOS_HEAP_SIZE < 2 ^ 32 by decide
  have hsound := hall 0x10000 (fun _ => 0) freeOldest s hbase (by decide) hexec
  have hlocated := hsound.located ⟨2, 0x10030, 16⟩ (by simp [hlive]) ⟨0, 2, 0⟩ rfl
  rw [hlocate] at hlocated
  cases hlocated

end ApuBios.BiosHeap
