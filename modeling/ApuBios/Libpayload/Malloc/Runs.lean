import ApuBios.Libpayload.Malloc.Gap

/-!
# Runs of a program on the heap

Every call of a program that uses the blocks that are kept for it only returns, and keeps the heap in
order (`step_inOrder`). A call of `realloc` that fails has released the block that the program goes on
with, so that the next block can overlap it (`not_disjoint_of_failed`). While every call of
`realloc` finds space, no block is lost, and the live blocks are the used blocks of the chain
(`run_chain`).
-/

namespace ApuBios.Malloc

open Tiling Transition
open Word (ofInt toInt)

variable {r : Region}

@[simp] lemma initial_live (m : Mem) : (initial m).live = [] := rfl

lemma State.live_of_lost {s : State} (h : s.lost = []) : s.live = s.held := by
  rw [State.live, h, List.append_nil]

/-- The blocks that are held after `realloc` are those that the call leaves and the one it returns. -/
lemma moved_toHeap {s : State} {ptr size : ℕ} {res : Mem × ℕ} :
    (moved s ptr size res).toHeap = record (release s.held ptr) size res := by
  rw [moved]
  split_ifs with h
  · rw [record, if_pos h.1]
  · rfl

/-! ### One call -/

private lemma ofInt_mul {n k : ℕ} (h : n * k < 2 ^ 32) : ofInt 32 ((n : ℤ) * k) = n * k := by
  rw [← Nat.cast_mul, Word.ofInt_eq h]

namespace InOrder

variable {s : Heap}

lemma ptr_ne_zero (h : InOrder r s) {l : LiveBlock} (hl : l ∈ s.held) : l.ptr ≠ 0 := by
  obtain ⟨bs, -, -, htracks⟩ := h
  exact htracks.ptr_ne_zero hl

lemma release_null (h : InOrder r s) : release s.held 0 = s.held :=
  release_eq fun _ hl => h.ptr_ne_zero hl

/-- What `realloc` returns for a block that is held, and what it leaves. -/
lemma realloc (h : InOrder r s) {ptr size : ℕ} (hsize : size < 2 ^ 32)
    (hheld : ptr = 0 ∨ ∃ l ∈ s.held, l.ptr = ptr) :
    ∃ res, realloc r s.mem ptr size = some res ∧
      InOrder r (record (release s.held ptr) size res) := by
  by_cases hptr : ptr = 0
  · subst hptr
    obtain ⟨res, heq, hres⟩ := h.alloc hsize
    exact ⟨res, by rw [Malloc.realloc, if_pos rfl, heq], by rwa [h.release_null]⟩
  obtain ⟨l, hl, rfl⟩ := hheld.resolve_left hptr
  obtain ⟨m₁, hfree, h₁⟩ := h.free hl
  obtain ⟨⟨m₂, ret⟩, halloc, h₂⟩ := h₁.alloc hsize
  have hmagic := h.readHeader_live hl
  rw [Malloc.realloc, if_neg hptr, if_neg (by simp [hmagic]), hfree, Option.bind_eq_bind,
    Option.bind_some, halloc, Option.bind_eq_bind, Option.bind_some]
  dsimp only
  by_cases hret : ret = 0 ∨ ret = l.ptr
  · exact ⟨_, by rw [if_pos hret], h₂⟩
  · rw [if_neg hret]
    refine ⟨_, rfl, ?_⟩
    have hret' : ret ≠ 0 := fun hz => hret (Or.inl hz)
    simp only [record, if_neg hret'] at h₂ ⊢
    refine h₂.write (l := ⟨ret, size⟩) (by simp) fun x hx => Mem.memcpy_frame ?_
    simp only at hx
    split_ifs <;> omega

variable {s : State}

private lemma step_calloc (h : InOrder r s.toHeap) {nmemb size : ℕ} (hc : nmemb * size < 2 ^ 32) :
    ∃ t, step r s (.calloc nmemb size) = some t ∧ InOrder r t.toHeap := by
  obtain ⟨⟨m', ptr⟩, heq, hres⟩ := h.alloc hc
  simp only [step, calloc, ofInt_mul hc, heq, Option.bind_eq_bind, Option.bind_some]
  by_cases hptr : ptr = 0
  · subst hptr
    exact ⟨_, rfl, hres⟩
  · rw [if_pos hptr, Option.map_some]
    refine ⟨_, rfl, ?_⟩
    simp only [record, if_neg hptr] at hres ⊢
    refine hres.write (l := ⟨ptr, nmemb * size⟩) (by simp) fun x hx => ?_
    exact Mem.memset_frame hx

private lemma step_free (h : InOrder r s.toHeap) {ptr : ℕ}
    (hheld : ptr = 0 ∨ ∃ l ∈ s.held, l.ptr = ptr) :
    ∃ t, step r s (.free ptr) = some t ∧ InOrder r t.toHeap := by
  rcases hheld with rfl | ⟨l, hl, rfl⟩
  · refine ⟨_, by rw [step, free_null, Option.map_some], ?_⟩
    simpa only [h.release_null] using h
  · obtain ⟨m', heq, hm'⟩ := h.free hl
    exact ⟨_, by rw [step, heq, Option.map_some], hm'⟩

end InOrder

/-- One call on a heap in order: it returns, and leaves the heap in order. -/
lemma step_inOrder {s : State} {c : Call} (h : InOrder r s.toHeap) (hc : c.Uses s.held) :
    ∃ t, step r s c = some t ∧ InOrder r t.toHeap := by
  cases c with
  | malloc size =>
    obtain ⟨res, heq, hres⟩ := h.alloc hc
    exact ⟨_, by rw [step, malloc, heq, Option.map_some], hres⟩
  | calloc nmemb size => exact h.step_calloc hc
  | realloc ptr size =>
    obtain ⟨res, heq, hres⟩ := h.realloc hc.1 hc.2
    exact ⟨_, by rw [step, heq, Option.map_some], by rwa [moved_toHeap]⟩
  | free ptr => exact h.step_free hc
  | store addr value =>
    obtain ⟨l, hl, hle, hlt⟩ := hc
    refine ⟨_, rfl, h.write hl fun x hx => Function.update_of_ne ?_ _ _⟩
    omega

/-- Before the heap is set up a call that asks for a block behaves as if it were, and any other
call changes nothing. -/
lemma step_untouched {m : Mem} {c : Call} (hm : hasMagic (readHeader m r.hstart) = false)
    (hc : c.Uses []) :
    (¬c.Asks ∧ step r (initial m) c = some (initial m)) ∨
      (c.Asks ∧ ∃ m', InOrder r ⟨m', []⟩ ∧ step r (initial m) c = step r (initial m') c) := by
  cases c with
  | malloc size =>
    rcases alloc_untouched size hm with ⟨hasks, heq⟩ | ⟨hasks, m', b, hb, hchain, heq⟩
    · exact Or.inl ⟨hasks, by rw [step, malloc, initial, heq]; rfl⟩
    · exact Or.inr ⟨hasks, m', inOrder_of_single hb hchain, by simp only [step, malloc, initial, heq]⟩
  | calloc nmemb size =>
    have htotal := ofInt_mul hc
    rcases alloc_untouched (nmemb * size) hm with ⟨hasks, heq⟩ | ⟨hasks, m', b, hb, hchain, heq⟩
    · exact Or.inl ⟨hasks, by simp only [step, calloc, initial, htotal, heq]; rfl⟩
    · exact Or.inr ⟨hasks, m', inOrder_of_single hb hchain,
        by simp only [step, calloc, initial, htotal, heq]⟩
  | realloc ptr size =>
    obtain rfl : ptr = 0 := by simpa [Call.Uses] using hc.2
    rcases alloc_untouched size hm with ⟨hasks, heq⟩ | ⟨hasks, m', b, hb, hchain, heq⟩
    · refine Or.inl ⟨hasks, ?_⟩
      simp [step, realloc, initial, heq, moved, record, release]
    · refine Or.inr ⟨hasks, m', inOrder_of_single hb hchain, ?_⟩
      simp only [step, realloc, initial, heq, if_true]
      rfl
  | free ptr =>
    obtain rfl : ptr = 0 := by simpa [Call.Uses] using hc
    exact Or.inl ⟨id, by rw [step, initial, free_null]; rfl⟩
  | store addr value =>
    simp [Call.Uses] at hc

/-! ### Runs -/

/-- A run either never asks for a block and leaves memory as it was, or leaves the heap in order and
keeps what its steps keep from then on. The side condition says nothing of memory before the first
block is there. -/
private lemma exec_of_step {P : State → Call → Prop} {I : State → Prop} {m : Mem} {calls : List Call}
    (hP : ∀ m c, P (initial m) c ↔ c.Uses []) (hI : ∀ m', InOrder r ⟨m', []⟩ → I (initial m'))
    (hstep : ∀ s c, I s → P s c → ∃ t, step r s c = some t ∧ I t)
    (hm : hasMagic (readHeader m r.hstart) = false) (hcalls : Admits (step r) P (initial m) calls) :
    ∃ s, exec (step r) (initial m) calls = some s ∧
      ((s = initial m ∧ ∀ c ∈ calls, ¬c.Asks) ∨ I s) := by
  induction calls with
  | nil => exact ⟨_, rfl, Or.inl ⟨rfl, by simp⟩⟩
  | cons c calls ih =>
    obtain ⟨hc, hrest⟩ := hcalls
    rcases step_untouched hm ((hP m c).mp hc) with ⟨hasks, heq⟩ | ⟨hasks, m', hm', heq⟩
    · obtain ⟨s, hexec, hs⟩ := ih (hrest _ heq)
      refine ⟨s, by rw [exec, heq, Option.bind_some, hexec], ?_⟩
      rcases hs with ⟨rfl, hall⟩ | hs
      · exact Or.inl ⟨rfl, by simpa using ⟨hasks, hall⟩⟩
      · exact Or.inr hs
    · have hc' : P (initial m') c := (hP m' c).mpr ((hP m c).mp hc)
      obtain ⟨t, ht, hIt⟩ := hstep _ _ (hI m' hm') hc'
      rw [← heq] at ht
      obtain ⟨s, hexec, hs⟩ := exec_of_admits hstep hIt (hrest t ht)
      exact ⟨s, by rw [exec, ht, Option.bind_some, hexec], Or.inr hs⟩

/-- A run of a program that uses the blocks that are kept for it only. -/
lemma exec_inOrder {m : Mem} {calls : List Call} (hm : hasMagic (readHeader m r.hstart) = false)
    (hcalls : Admits (step r) (fun s c => c.Uses s.held) (initial m) calls) :
    ∃ s, exec (step r) (initial m) calls = some s ∧
      ((s = initial m ∧ ∀ c ∈ calls, ¬c.Asks) ∨ InOrder r s.toHeap) :=
  exec_of_step (I := fun s => InOrder r s.toHeap) (fun _ _ => Iff.rfl) (fun _ h => h)
    (fun _ _ h hc => step_inOrder h hc) hm hcalls

/-! ### Runs in which every call of `realloc` finds space -/

/-- A block that is to get another size has space for it. -/
def Call.Finds (r : Region) (s : State) : Call → Prop
  | .realloc ptr size => ptr = 0 ∨ size = 0 ∨ HasSpace r s.mem ptr size
  | .malloc _ | .calloc _ _ | .free _ | .store _ _ => True

/-- No call of `realloc` has failed, and the heap is in order. -/
def Sound (r : Region) (s : State) : Prop := InOrder r s.toHeap ∧ s.lost = []

/-- One call on a sound heap: `realloc` loses no block where there is space. -/
lemma step_sound {s : State} {c : Call} (h : Sound r s) (hc : c.Legal s ∧ c.Finds r s) :
    ∃ t, step r s c = some t ∧ Sound r t := by
  obtain ⟨h, hlost⟩ := h
  obtain ⟨huses, hfinds⟩ := hc
  rw [Call.Legal, State.live_of_lost hlost] at huses
  obtain ⟨t, ht, hInOrder⟩ := step_inOrder h huses
  refine ⟨t, ht, hInOrder, ?_⟩
  cases c with
  | malloc size | calloc nmemb size | free ptr =>
    rw [step] at ht
    obtain ⟨res, -, rfl⟩ := Option.map_eq_some_iff.mp ht
    simp [hlost, release]
  | store addr value =>
    obtain rfl := Option.some.inj ht
    exact hlost
  | realloc ptr size =>
    obtain ⟨res, hres, rfl⟩ := Option.map_eq_some_iff.mp ht
    rw [moved]
    split_ifs with hfail
    · -- only a call for no block at all can have failed
      obtain rfl : ptr = 0 := by
        by_contra hptr
        obtain ⟨l, hl, rfl⟩ := huses.2.resolve_left hptr
        have hspace := (hfinds.resolve_left hptr).resolve_left hfail.2
        exact (realloc_ne_null_iff h hl huses.1 hres).mpr hspace hfail.1
      simpa [hlost] using fun l hl => h.ptr_ne_zero hl
    · simp [hlost, release]

/-- Every run of a program that passes live pointers only is carried out, if every call of `realloc`
finds space. Unless no call asked for a block, the headers in memory tile the heap and carry the
magic, no two neighbours are free, and the used blocks are the live blocks, which are aligned, as
large as asked for and disjoint. `hm` holds because the heap lies in memory that is zero at first. -/
theorem run_chain (r : Region) (m : Mem) (calls : List Call)
    (hm : hasMagic (readHeader m r.hstart) = false)
    (hcalls : Admits (step r) (fun s c => c.Legal s ∧ c.Finds r s) (initial m) calls) :
    ∃ s, exec (step r) (initial m) calls = some s ∧
      ((s = initial m ∧ ∀ c ∈ calls, ¬c.Asks) ∨
        ∃ bs : List Block,
          Tiles Block.addr Block.span r.hstart bs r.hend ∧
          (∀ b ∈ bs, readHeader s.mem b.addr = b.header ∧ hasMagic b.header = true) ∧
          NoTwoFree bs ∧
          (∀ b ∈ bs, b.used = true ↔ ∃ l ∈ s.live, l.ptr = b.data) ∧
          (∀ l ∈ s.live, 8 ∣ l.ptr ∧ ∃ b ∈ bs, b.data = l.ptr ∧ l.size ≤ b.size) ∧
          s.live.Pairwise fun k l => k.ptr + k.size ≤ l.ptr ∨ l.ptr + l.size ≤ k.ptr) := by
  have hfirst (m : Mem) (c : Call) :
      (c.Legal (initial m) ∧ c.Finds r (initial m)) ↔ c.Uses [] := by
    refine and_iff_left_of_imp fun hc => ?_
    cases c with
    | realloc ptr size => exact .inl (by simpa [Call.Legal, Call.Uses] using hc.2)
    | _ => trivial
  obtain ⟨s, hexec, hs⟩ := exec_of_step hfirst (I := Sound r) (fun _ h => ⟨h, rfl⟩)
    (fun _ _ h hc => step_sound h hc) hm hcalls
  refine ⟨s, hexec, hs.imp_right ?_⟩
  rintro ⟨⟨bs, hchain, htwo, htracks⟩, hlost⟩
  rw [State.live_of_lost hlost]
  exact ⟨bs, hchain.tiles,
    fun b hb => ⟨hchain.header b hb, Block.hasMagic_header (hchain.size_lt' hb)⟩, htwo,
    fun b hb => htracks.used_iff hchain hb, fun l hl => htracks.block_of_live hchain hl,
    htracks.disjoint hchain⟩

instance Call.decidableUses (blocks : List LiveBlock) : (c : Call) → Decidable (c.Uses blocks)
  | .malloc size => inferInstanceAs (Decidable (size < 2 ^ 32))
  | .calloc nmemb size => inferInstanceAs (Decidable (nmemb * size < 2 ^ 32))
  | .realloc ptr size =>
    inferInstanceAs (Decidable (size < 2 ^ 32 ∧ (ptr = 0 ∨ ∃ b ∈ blocks, b.ptr = ptr)))
  | .free ptr => inferInstanceAs (Decidable (ptr = 0 ∨ ∃ b ∈ blocks, b.ptr = ptr))
  | .store addr _ =>
    inferInstanceAs (Decidable (∃ b ∈ blocks, b.ptr ≤ addr ∧ addr < b.ptr + b.size))

instance (s : State) (c : Call) : Decidable (c.Legal s) := Call.decidableUses s.live c

/-- A heap of 64 bytes. -/
def small : Region where
  hstart := 16
  hend := 80
  hstart_pos := by decide
  hstart_aligned := by decide
  hend_aligned := by decide
  room := by decide
  hend_lt := by decide
  size_lt := by decide

/-- Two blocks, of which the first is freed and had again, before the second is stored into. -/
private def twoBlocks : List Call := [.malloc 5, .calloc 2 4, .free 24, .malloc 6, .store 41 1]

private lemma asks_five : Asks 5 := by
  unfold Asks
  decide

/-- The second block can grow, as there is free space behind it. -/
private lemma twoBlocks_admits :
    Admits (step small) (fun s c => c.Legal s ∧ c.Finds small s) (initial fun _ => 0)
      (twoBlocks ++ [.realloc 40 16]) := by
  refine Admits.and (by decide) (admits_append_iff.mpr ⟨?_, fun s hs => ⟨?_, fun _ _ => trivial⟩⟩)
  · exact admits_of_invariant (I := fun _ => True) (E := fun c => ∀ ptr size, c ≠ .realloc ptr size)
      (fun _ _ _ _ _ _ => trivial) (fun s c _ hc => by
        cases c with
        | realloc ptr size => exact absurd rfl (hc ptr size)
        | _ => trivial) trivial (by simp [twoBlocks])
  · have hlegal : Admits (step small) (fun s c => c.Uses s.held) (initial fun _ => 0) twoBlocks := by
      decide
    obtain ⟨t, ht, ⟨-, hnone⟩ | hInOrder⟩ := exec_inOrder (by decide) hlegal
    · exact absurd asks_five (hnone (.malloc 5) (by decide))
    obtain rfl := Option.some.inj (hs.symm.trans ht)
    have hrun : ((exec (step small) (initial fun _ => 0) twoBlocks).bind fun s =>
        (realloc small s.mem 40 16).map fun res => (s.held, res.2)) =
        some ([⟨24, 6⟩, ⟨40, 8⟩], 40) := by
      decide +kernel
    rw [ht, Option.bind_some] at hrun
    obtain ⟨res, hres, hvalues⟩ := Option.map_eq_some_iff.mp hrun
    obtain ⟨hheld, hptr⟩ := Prod.mk.inj hvalues
    have hmem : (⟨40, 8⟩ : LiveBlock) ∈ s.held := by simp [hheld]
    have hspace := (realloc_ne_null_iff hInOrder hmem (by norm_num) hres).mp (by simp [hptr])
    exact .inr (.inr hspace)

theorem run_chain_twoBlocks :
    ∃ s, exec (step small) (initial fun _ => 0) (twoBlocks ++ [.realloc 40 16]) = some s ∧
      (s.live.Pairwise fun k l => k.ptr + k.size ≤ l.ptr ∨ l.ptr + l.size ≤ k.ptr) ∧
      ∃ bs : List Block, Tiles Block.addr Block.span 16 bs 80 ∧ NoTwoFree bs := by
  obtain ⟨s, hexec, ⟨-, hnone⟩ | ⟨bs, htiles, -, htwo, -, -, hdisjoint⟩⟩ :=
    run_chain small (fun _ => 0) _ (by decide) twoBlocks_admits
  · exact absurd asks_five (hnone (.malloc 5) (by decide))
  · exact ⟨s, hexec, hdisjoint, bs, htiles, htwo⟩

/-- There is no space for 64 bytes in the third call. -/
private def growing : List Call := [.malloc 8, .malloc 8, .realloc 24 64, .malloc 8]

/-- The block that was to grow has been released: the next block lies where it still is for the
program. -/
theorem not_disjoint_of_failed :
    Admits (step small) (fun s c => c.Legal s) (initial fun _ => 0) growing ∧
      ∃ s, exec (step small) (initial fun _ => 0) growing = some s ∧
        ¬s.live.Pairwise fun k l => k.ptr + k.size ≤ l.ptr ∨ l.ptr + l.size ≤ k.ptr := by
  refine ⟨by decide, ?_⟩
  have hrun : (exec (step small) (initial fun _ => 0) growing).map State.live =
      some [⟨24, 8⟩, ⟨40, 8⟩, ⟨24, 8⟩] := by
    decide +kernel
  obtain ⟨s, hexec, hlive⟩ := Option.map_eq_some_iff.mp hrun
  refine ⟨s, hexec, ?_⟩
  rw [hlive]
  decide

end ApuBios.Malloc
