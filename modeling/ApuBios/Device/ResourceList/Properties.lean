import ApuBios.Device.ResourceList.Basic
import ApuBios.Library.LinkedList

/-!
# Every resource is in one list

The lists of the devices and the list of free resources have no resource in common, and together
have all of them (`Pools`). Taking a resource out of a list and putting one into a list permute the
resources of these two lists, and change the links of no other one.
-/

namespace ApuBios.ResourceList

open LinkedList

/-! ### Results -/

/-- The result meets `P`, unless the program dies. -/
def Ends {α : Type} (P : α → Prop) : Except Halt α → Prop
  | .ok a => P a
  | .error .die => True
  | .error .loops => False

section Ends

variable {α β : Type} {P : α → Prop} {Q : β → Prop} {m : Except Halt α}

lemma Ends.bind {f : α → Except Halt β} (hm : Ends P m) (hf : ∀ a, P a → Ends Q (f a)) :
    Ends Q (m >>= f) := by
  cases m with
  | ok a => exact hf a hm
  | error e =>
    cases e with
    | die => trivial
    | loops => exact hm.elim

lemma Ends.of_ok (hm : Ends (fun _ => True) m) (h : ∀ a, m = .ok a → P a) : Ends P m := by
  cases m with
  | ok a => exact h a rfl
  | error e => cases e <;> exact hm

lemma Ends.map {f : α → β} (hm : Ends P m) (hf : ∀ a, P a → Q (f a)) : Ends Q (m.map f) := by
  cases m with
  | ok a => exact hf a hm
  | error e => cases e <;> exact hm

lemma Ends.mono {P' : α → Prop} (hm : Ends P m) (h : ∀ a, P a → P' a) : Ends P' m := by
  cases m with
  | ok a => exact h a hm
  | error e => cases e <;> exact hm

end Ends

/-! ### Lists -/

/-- The links lead from `head` through the resources of `l` to a null pointer. -/
abbrev IsList (s : State) (head : ℕ) (l : List ℕ) : Prop := IsChain (fun a => (s.mem a).next) head l

/-- A resource without its link. -/
def State.values (s : State) (a : ℕ) : Resource := { s.mem a with next := 0 }

/-- Whether `compact_resources` leaves the resource in the list. -/
def State.keeps (s : State) (a : ℕ) : Bool := (s.mem a).flags != 0

variable {s s' : State} {head : ℕ} {l l' : List ℕ} {a x prev : ℕ} {d d' : DeviceId}
  {index rounds : ℕ}

lemma index_eq_of_values (h : s'.values = s.values) (a : ℕ) :
    (s'.mem a).index = (s.mem a).index := by
  have ha : s'.values a = s.values a := congrFun h a
  exact (Resource.mk.injEq .. ▸ ha).2.2.2.2.2.1

lemma flags_eq_of_values (h : s'.values = s.values) (a : ℕ) :
    (s'.mem a).flags = (s.mem a).flags := by
  have ha : s'.values a = s.values a := congrFun h a
  exact (Resource.mk.injEq .. ▸ ha).2.2.2.2.1

lemma keeps_eq_of_values (h : s'.values = s.values) : s'.keeps = s.keeps := by
  funext a
  rw [State.keeps, State.keeps, flags_eq_of_values h]

/-! ### All lists -/

/-- The lists of the devices and the list of free resources, each without a cycle, have every
resource between them once, and the indexes on a device differ. -/
structure Pools (s : State) (chain : DeviceId → List ℕ) (free : List ℕ) : Prop where
  list : ∀ d, IsList s (s.resourceList d) (chain d)
  freeList : IsList s s.freeResources free
  nodup : ∀ d, (chain d).Nodup
  free_nodup : free.Nodup
  disjoint : ∀ d d', d ≠ d' → (chain d).Disjoint (chain d')
  disjoint_free : ∀ d, (chain d).Disjoint free
  mem_iff : ∀ a, a ∈ s.allocated ↔ a ∈ free ∨ ∃ d, a ∈ chain d
  index : ∀ d, ((chain d).map fun a => (s.mem a).index).Nodup

namespace Pools

variable {chain : DeviceId → List ℕ} {free f : List ℕ}

/-- The resources of one device and the free ones are arranged anew. -/
lemma replace (h : Pools s chain free) (hl : IsList s' (s'.resourceList d) l)
    (hf : IsList s' s'.freeResources f) (hperm : (l ++ f).Perm (chain d ++ free))
    (hhead : ∀ d', d' ≠ d → s'.resourceList d' = s.resourceList d')
    (hmem : ∀ a, a ≠ 0 → a ∉ chain d → a ∉ free → s'.mem a = s.mem a)
    (halloc : s'.allocated = s.allocated) (hindex : (l.map fun a => (s'.mem a).index).Nodup) :
    Pools s' (Function.update chain d l) f := by
  have hnodup : (l ++ f).Nodup := by
    rw [hperm.nodup_iff, List.nodup_append']
    exact ⟨h.nodup d, h.free_nodup, h.disjoint_free d⟩
  rw [List.nodup_append'] at hnodup
  have hmem_iff : ∀ a, a ∈ l ∨ a ∈ f ↔ a ∈ chain d ∨ a ∈ free := by
    intro a
    rw [← List.mem_append, hperm.mem_iff, List.mem_append]
  have hother : ∀ d', d' ≠ d → ∀ a ∈ chain d', ¬(a ∈ l ∨ a ∈ f) := by
    intro d' hd a ha hlf
    rcases (hmem_iff a).mp hlf with hc | hc
    · exact h.disjoint d' d hd ha hc
    · exact h.disjoint_free d' ha hc
  have hsame : ∀ d', d' ≠ d → ∀ a ∈ chain d', s'.mem a = s.mem a := by
    intro d' hd a ha
    exact hmem a (fun h0 => (h.list d').2 (h0 ▸ ha)) (h.disjoint d' d hd ha) (h.disjoint_free d' ha)
  constructor
  · intro d'
    by_cases hd : d' = d
    · subst hd
      rwa [Function.update_self]
    · rw [Function.update_of_ne hd, hhead d' hd]
      exact (h.list d').congr fun a ha => by rw [hsame d' hd a ha]
  · exact hf
  · intro d'
    by_cases hd : d' = d
    · subst hd
      rw [Function.update_self]
      exact hnodup.1
    · rw [Function.update_of_ne hd]
      exact h.nodup d'
  · exact hnodup.2.1
  · intro d₁ d₂ hne
    by_cases h₁ : d₁ = d
    · subst h₁
      rw [Function.update_self, Function.update_of_ne hne.symm]
      exact fun a ha ha' => hother d₂ hne.symm a ha' (Or.inl ha)
    · rw [Function.update_of_ne h₁]
      by_cases h₂ : d₂ = d
      · subst h₂
        rw [Function.update_self]
        exact fun a ha ha' => hother d₁ h₁ a ha (Or.inl ha')
      · rw [Function.update_of_ne h₂]
        exact h.disjoint d₁ d₂ hne
  · intro d'
    by_cases hd : d' = d
    · subst hd
      rw [Function.update_self]
      exact hnodup.2.2
    · rw [Function.update_of_ne hd]
      exact fun a ha ha' => hother d' hd a ha (Or.inr ha')
  · intro a
    rw [halloc, h.mem_iff]
    constructor
    · rintro (ha | ⟨d', ha⟩)
      · rcases (hmem_iff a).mpr (Or.inr ha) with ha | ha
        · exact Or.inr ⟨d, by rwa [Function.update_self]⟩
        · exact Or.inl ha
      · by_cases hd : d' = d
        · subst hd
          rcases (hmem_iff a).mpr (Or.inl ha) with ha | ha
          · exact Or.inr ⟨d', by rwa [Function.update_self]⟩
          · exact Or.inl ha
        · exact Or.inr ⟨d', by rwa [Function.update_of_ne hd]⟩
    · rintro (ha | ⟨d', ha⟩)
      · exact ((hmem_iff a).mp (Or.inr ha)).symm.imp_right fun ha => ⟨d, ha⟩
      · by_cases hd : d' = d
        · subst hd
          rw [Function.update_self] at ha
          exact ((hmem_iff a).mp (Or.inl ha)).symm.imp_right fun ha => ⟨d', ha⟩
        · rw [Function.update_of_ne hd] at ha
          exact Or.inr ⟨d', ha⟩
  · intro d'
    by_cases hd : d' = d
    · subst hd
      rwa [Function.update_self]
    · rw [Function.update_of_ne hd, List.map_congr_left fun a ha => by rw [hsame d' hd a ha]]
      exact h.index d'

end Pools

/-! ### Freeing -/

section Free

variable (s)

@[simp] lemma setNext_values (a b : ℕ) : (s.setNext a b).values = s.values := by
  funext c
  by_cases hc : c = a
  · subst hc
    simp [State.values, State.setNext, State.set]
  · simp [State.values, State.setNext, State.set, hc]

@[simp] lemma setNext_next (a b c : ℕ) :
    ((s.setNext a b).mem c).next = if c = a then b else (s.mem c).next := by
  by_cases hc : c = a
  · simp [State.setNext, State.set, hc]
  · simp [State.setNext, State.set, hc]

lemma setNext_mem_of_ne (b : ℕ) {c : ℕ} (hc : c ≠ a) : (s.setNext a b).mem c = s.mem c :=
  Function.update_of_ne hc _ _

/-- What `free_resource` leaves alone. -/
structure Freed (s s' : State) : Prop where
  values : s'.values = s.values
  allocated : s'.allocated = s.allocated
  freeMemPtr : s'.freeMemPtr = s.freeMemPtr

lemma Freed.refl : Freed s s := ⟨rfl, rfl, rfl⟩

variable {s}

lemma Freed.trans {s₁ s₂ s₃ : State} (h : Freed s₁ s₂) (h' : Freed s₂ s₃) : Freed s₁ s₃ :=
  ⟨h'.values.trans h.values, h'.allocated.trans h.allocated, h'.freeMemPtr.trans h.freeMemPtr⟩

lemma freeResource_freed (d : DeviceId) (x prev : ℕ) (s : State) :
    Freed s (freeResource d x prev s) := by
  rw [freeResource]
  split_ifs
  · exact ⟨(setNext_values _ _ _).trans (setNext_values _ _ _), rfl, rfl⟩
  · exact ⟨setNext_values _ _ _, rfl, rfl⟩

lemma freeResource_head (d : DeviceId) (x prev : ℕ) (s : State) :
    (freeResource d x prev s).resourceList =
      if prev = 0 then Function.update s.resourceList d (s.mem x).next else s.resourceList := by
  rw [freeResource]
  split_ifs <;> simp_all [State.setNext, State.set]

lemma freeResource_next_self (d : DeviceId) (x prev : ℕ) (s : State) :
    ((freeResource d x prev s).mem x).next = s.freeResources := by
  rw [freeResource]
  split_ifs <;> simp [State.setNext, State.set]

lemma freeResource_next_prev (d : DeviceId) (s : State) (h0 : prev ≠ 0) (hne : prev ≠ x) :
    ((freeResource d x prev s).mem prev).next = (s.mem x).next := by
  rw [freeResource, if_pos h0]
  simp [hne]

lemma freeResource_mem (d : DeviceId) (s : State) (hx : a ≠ x) (hprev : a ≠ prev) :
    (freeResource d x prev s).mem a = s.mem a := by
  rw [freeResource]
  split_ifs
  · exact (setNext_mem_of_ne _ _ hx).trans (setNext_mem_of_ne _ _ hprev)
  · exact setNext_mem_of_ne _ _ hx

variable {chain : DeviceId → List ℕ} {free pre post : List ℕ}

/-- The resources behind the one that is freed stay as they are. -/
lemma freeResource_mem_post (d : DeviceId) (s : State) (hnodup : (pre ++ x :: post).Nodup)
    (hprev : prev = pre.getLast?.getD 0) (h0 : 0 ∉ post) (ha : a ∈ post) :
    (freeResource d x prev s).mem a = s.mem a := by
  rw [List.nodup_append', List.nodup_cons] at hnodup
  apply freeResource_mem d s
  · rintro rfl
    exact hnodup.2.1.1 ha
  · rintro rfl
    cases hlast : pre.getLast? with
    | none =>
      obtain rfl : a = 0 := by rw [hprev, hlast, Option.getD_none]
      exact h0 ha
    | some w =>
      obtain rfl : a = w := by rw [hprev, hlast, Option.getD_some]
      exact hnodup.2.2 (List.mem_of_getLast? hlast) (List.mem_cons_of_mem _ ha)

/-- The list that `free_resource` takes a resource out of. -/
lemma IsList.freeResource (h : IsList s (s.resourceList d) (pre ++ x :: post))
    (hnodup : (pre ++ x :: post).Nodup) (hprev : prev = pre.getLast?.getD 0) :
    IsList (freeResource d x prev s) ((freeResource d x prev s).resourceList d) (pre ++ post) := by
  rcases List.eq_nil_or_concat' pre with rfl | ⟨pre, w, rfl⟩
  · have hprev0 : prev = 0 := hprev
    obtain ⟨hhead, hx0, htail⟩ := IsChain.cons_iff.mp h
    rw [freeResource_head, if_pos hprev0, Function.update_self, List.nil_append]
    refine htail.congr fun a ha => ?_
    rw [freeResource_mem_post d s hnodup hprev htail.2 ha]
  · rw [List.nodup_append', List.nodup_cons] at hnodup
    obtain ⟨hpre, ⟨hxpost, -⟩, hdisj⟩ := hnodup
    have hw : prev = w := by simpa using hprev
    subst hw
    have hw0 : prev ≠ 0 := fun h0 => h.2 (by simp [h0])
    have hwx : prev ≠ x := fun hwx => hdisj (show prev ∈ pre ++ [prev] by simp) (by simp [hwx])
    have hother : ∀ a ∈ pre ++ post, a ≠ prev → ((ResourceList.freeResource d x prev s).mem a).next =
        (s.mem a).next := by
      intro a ha haw
      rw [freeResource_mem d s _ haw]
      rintro rfl
      rcases List.mem_append.mp ha with ha | ha
      · exact hdisj (List.mem_append_left _ ha) (by simp)
      · exact hxpost ha
    rw [List.nodup_append'] at hpre
    have hwpost : prev ∉ post := fun hp => hdisj (show prev ∈ pre ++ [prev] by simp) (by simp [hp])
    rw [freeResource_head, if_neg hw0]
    rw [List.append_assoc, List.singleton_append] at h ⊢
    refine h.remove (freeResource_next_prev d s hw0 hwx) fun y hy => hother y hy ?_
    rintro rfl
    rcases List.mem_append.mp hy with hy | hy
    · exact hpre.2.2 hy (by simp)
    · exact hwpost hy

/-- `free_resource` moves a resource to the front of the free ones. -/
lemma Pools.freeResource (h : Pools s chain free) (hd : chain d = pre ++ x :: post)
    (hprev : prev = pre.getLast?.getD 0) :
    Pools (freeResource d x prev s) (Function.update chain d (pre ++ post)) (x :: free) := by
  have hlist := h.list d
  have hnodup := h.nodup d
  have hfree := h.disjoint_free d
  have hindex := h.index d
  rw [hd] at hlist hnodup hfree hindex
  have hfreed := freeResource_freed d x prev s
  have hx : x ∈ pre ++ x :: post := by simp
  have hprev_mem : prev = 0 ∨ prev ∈ pre := by
    rw [hprev]
    cases hlast : pre.getLast? with
    | none => exact Or.inl rfl
    | some w => exact Or.inr (List.mem_of_getLast? hlast)
  have hmem : ∀ a, a ∉ pre ++ x :: post → a ≠ 0 →
      (ResourceList.freeResource d x prev s).mem a = s.mem a := by
    intro a ha ha0
    apply freeResource_mem d s
    · rintro rfl
      exact ha hx
    · rintro rfl
      exact hprev_mem.elim ha0 fun hp => ha (List.mem_append_left _ hp)
  apply h.replace (hlist.freeResource hnodup hprev)
  · refine IsChain.cons_iff.mpr ⟨rfl, fun h0 => hlist.2 (h0 ▸ hx), ?_⟩
    rw [freeResource_next_self]
    refine h.freeList.congr fun a ha => ?_
    rw [hmem a (fun hc => hfree hc ha) fun h0 => h.freeList.2 (h0 ▸ ha)]
  · rw [hd, List.append_assoc, List.append_assoc, List.cons_append]
    exact List.perm_middle.append_left pre
  · intro d' hd'
    rw [freeResource_head]
    split_ifs
    · exact Function.update_of_ne hd' _ _
    · rfl
  · intro a ha0 ha _
    exact hmem a (hd ▸ ha) ha0
  · exact hfreed.allocated
  · rw [List.map_congr_left fun a _ => index_eq_of_values hfreed.values a]
    exact hindex.sublist (((List.sublist_cons_self x post).append_left pre).map _)

/-- The loop of `compact_resources` with the resources `pre` behind it. -/
lemma compactLoop_spec (h : Pools s chain free) (hd : chain d = pre ++ post)
    (hkeeps : ∀ a ∈ pre, s.keeps a = true) (hprev : prev = pre.getLast?.getD 0)
    (hpost : IsList s head post) (hrounds : post.length < rounds) :
    ∃ s', compactLoop d rounds head prev s = .ok s' ∧ Freed s s' ∧
      Pools s' (Function.update chain d (pre ++ post.filter s.keeps))
        ((post.filter fun a => !s.keeps a).reverse ++ free) := by
  induction post generalizing s chain free pre prev head rounds with
  | nil =>
    obtain ⟨rounds, rfl⟩ := Nat.exists_eq_succ_of_ne_zero hrounds.ne'
    refine ⟨s, ?_, Freed.refl s, ?_⟩
    · rw [compactLoop, if_pos (IsChain.nil_iff.mp hpost)]
    · rw [List.filter_nil, ← hd, Function.update_eq_self]
      exact h
  | cons x post ih =>
    obtain ⟨rounds, rfl⟩ := Nat.exists_eq_succ_of_ne_zero (Nat.ne_zero_of_lt hrounds)
    obtain ⟨rfl, hx0, htail⟩ := IsChain.cons_iff.mp hpost
    have hlength : post.length < rounds := by simpa using hrounds
    rw [compactLoop, if_neg hx0]
    by_cases hflags : (s.mem head).flags = 0
    · have hkeep : s.keeps head = false := by simp [State.keeps, hflags]
      have hfreed := freeResource_freed d head prev s
      have hkeeps' : (ResourceList.freeResource d head prev s).keeps = s.keeps :=
        keeps_eq_of_values hfreed.values
      have hnodup := h.nodup d
      rw [hd] at hnodup
      have htail' : IsList (ResourceList.freeResource d head prev s) (s.mem head).next post :=
        htail.congr fun a ha => by rw [freeResource_mem_post d s hnodup hprev htail.2 ha]
      obtain ⟨s', heq, hfreed', hpools⟩ := ih (h.freeResource hd hprev) (by simp)
        (fun a ha => by rw [hkeeps', hkeeps a ha]) hprev htail' hlength
      refine ⟨s', ?_, hfreed.trans hfreed', ?_⟩
      · rw [if_pos hflags]
        exact heq
      · rw [hkeeps', Function.update_idem] at hpools
        rw [List.filter_cons_of_neg (by simp [hkeep]), List.filter_cons_of_pos (by simp [hkeep]),
          List.reverse_cons, List.append_assoc, List.singleton_append]
        exact hpools
    · have hkeep : s.keeps head = true := by simpa [State.keeps] using hflags
      have hd' : chain d = (pre ++ [head]) ++ post := by
        rw [hd, List.append_assoc, List.singleton_append]
      obtain ⟨s', heq, hfreed, hpools⟩ := ih h hd'
        (by simpa [or_imp, forall_and, hkeep] using hkeeps) (show head = _ by simp) htail hlength
      refine ⟨s', ?_, hfreed, ?_⟩
      · rw [if_neg hflags]
        exact heq
      · rw [List.filter_cons_of_pos hkeep, List.filter_cons_of_neg (by simp [hkeep])]
        rw [List.append_assoc, List.singleton_append] at hpools
        exact hpools

end Free

/-! ### Loops that only read -/

section Read

lemma probeLoop_eq (h : IsList s head l) (hrounds : l.length < rounds) :
    probeLoop index s rounds head =
      .ok ((l.find? fun a => (s.mem a).index == index).getD 0) := by
  induction l generalizing head rounds with
  | nil =>
    obtain ⟨rounds, rfl⟩ := Nat.exists_eq_succ_of_ne_zero hrounds.ne'
    rw [probeLoop, if_pos (IsChain.nil_iff.mp h), IsChain.nil_iff.mp h]
    rfl
  | cons x l ih =>
    obtain ⟨rounds, rfl⟩ := Nat.exists_eq_succ_of_ne_zero (Nat.ne_zero_of_lt hrounds)
    obtain ⟨rfl, hx0, htail⟩ := IsChain.cons_iff.mp h
    rw [probeLoop, if_neg hx0]
    by_cases hindex : (s.mem head).index = index
    · rw [if_pos hindex, List.find?_cons_of_pos (by simpa using hindex)]
      rfl
    · rw [if_neg hindex, List.find?_cons_of_neg (by simpa using hindex)]
      exact ih htail (by simpa using hrounds)

lemma tailLoop_eq (h : IsList s head (l ++ [a])) (hrounds : l.length < rounds) :
    tailLoop s rounds head = .ok a := by
  induction l generalizing head rounds with
  | nil =>
    obtain ⟨rounds, rfl⟩ := Nat.exists_eq_succ_of_ne_zero hrounds.ne'
    obtain ⟨rfl, -, htail⟩ := IsChain.cons_iff.mp h
    rw [tailLoop, if_pos (IsChain.nil_iff.mp htail)]
  | cons x l ih =>
    obtain ⟨rounds, rfl⟩ := Nat.exists_eq_succ_of_ne_zero (Nat.ne_zero_of_lt hrounds)
    obtain ⟨rfl, -, htail⟩ := IsChain.cons_iff.mp h
    have hne : (s.mem head).next ≠ 0 := by
      rw [ne_eq, ← htail.eq_nil_iff]
      simp
    rw [tailLoop, if_neg hne]
    exact ih htail (by simpa using hrounds)

end Read

/-! ### The heap -/

/-- Where the resources are: in the part of the heap that has been given away, or elsewhere, as
those that are generated with the device tree. -/
structure Placed (eheap : ℕ) (s : State) : Prop where
  lt : ∀ a ∈ s.allocated, a < 2 ^ 32
  outside : ∀ a ∈ s.allocated, a + sizeofResource ≤ s.freeMemPtr ∨ eheap ≤ a
  pos : 0 < s.freeMemPtr
  ptr_lt : s.freeMemPtr < eheap

variable {eheap : ℕ} {chain : DeviceId → List ℕ} {free : List ℕ}

/-- There are more addresses than resources in a list. -/
lemma length_lt_of_nodup (hnodup : l.Nodup) (h0 : 0 ∉ l) (hlt : ∀ a ∈ l, a < 2 ^ 32) :
    l.length < MAX_ROUNDS := by
  have hsub : (0 :: l).toFinset ⊆ Finset.range (2 ^ 32) := by
    intro a ha
    rw [List.mem_toFinset, List.mem_cons] at ha
    rw [Finset.mem_range]
    rcases ha with rfl | ha
    · positivity
    · exact hlt a ha
  have hcard := Finset.card_le_card hsub
  rw [List.toFinset_card_of_nodup (List.nodup_cons.mpr ⟨h0, hnodup⟩), Finset.card_range,
    List.length_cons] at hcard
  exact hcard

lemma Pools.length_lt (h : Pools s chain free) (hplaced : Placed eheap s) (d : DeviceId) :
    (chain d).length < MAX_ROUNDS := by
  apply length_lt_of_nodup (h.nodup d) (h.list d).2
  intro a ha
  exact hplaced.lt a ((h.mem_iff a).mpr (Or.inr ⟨d, ha⟩))

lemma Placed.of_freed (h : Placed eheap s) (hf : Freed s s') : Placed eheap s' := by
  constructor
  · rw [hf.allocated]
    exact h.lt
  · rw [hf.allocated, hf.freeMemPtr]
    exact h.outside
  · rw [hf.freeMemPtr]
    exact h.pos
  · rw [hf.freeMemPtr]
    exact h.ptr_lt

/-- `compact_resources` frees the resources without flags and leaves the others in their order. -/
lemma compactResources_spec (h : Pools s chain free) (hplaced : Placed eheap s) (d : DeviceId) :
    ∃ s', compactResources d s = .ok s' ∧ Freed s s' ∧
      Pools s' (Function.update chain d ((chain d).filter s.keeps))
        (((chain d).filter fun a => !s.keeps a).reverse ++ free) := by
  have hd : chain d = [] ++ chain d := rfl
  exact compactLoop_spec h hd (by simp) rfl (h.list d) (h.length_lt hplaced d)

lemma probeResource_eq (h : Pools s chain free) (hplaced : Placed eheap s) (d : DeviceId) :
    probeResource d index s =
      .ok (((chain d).find? fun a => (s.mem a).index == index).getD 0) :=
  probeLoop_eq (h.list d) (h.length_lt hplaced d)

lemma memalign_ends (eheap boundary size : ℕ) (s : State) :
    Ends (fun _ => True) (memalign eheap boundary size s) := by
  rw [memalign]
  split_ifs <;> trivial

/-- What `memalign` gives is free space in the heap. -/
lemma memalign_spec {pow size p : ℕ} (hpow : pow ≤ 32) (hsize : eheap + 2 ^ pow + size ≤ 2 ^ 32)
    (hplaced : Placed eheap s) (h : memalign eheap (2 ^ pow) size s = .ok (s', p)) :
    s' = { s with freeMemPtr := p + size } ∧ s.freeMemPtr ≤ p ∧ p + size < eheap := by
  have hlt := hplaced.ptr_lt
  have hround : Word.roundUp s.freeMemPtr pow < s.freeMemPtr + 2 ^ pow := Word.roundUp_lt
  have hle : s.freeMemPtr ≤ Word.roundUp s.freeMemPtr pow := Word.le_roundUp
  have hp : Word.alignUp 32 s.freeMemPtr (2 ^ pow) = Word.roundUp s.freeMemPtr pow :=
    Word.alignUp_eq hpow (by omega)
  have hadd : Word.add 32 (Word.roundUp s.freeMemPtr pow) size =
      Word.roundUp s.freeMemPtr pow + size := Word.add_eq (by omega)
  rw [memalign, hp, hadd] at h
  split_ifs at h with hfull
  obtain ⟨rfl, rfl⟩ := Prod.mk.inj (Except.ok.inj h)
  exact ⟨rfl, hle, by omega⟩

/-! ### New resources -/

section More

variable {p : ℕ} {g : ℕ → ℕ}

lemma element_injective (p : ℕ) : Function.Injective (element p) := by
  intro i j hij
  simp only [element, sizeofResource] at hij
  omega

/-- Only memory differs. -/
structure SameLists (s s' : State) : Prop where
  resourceList : s'.resourceList = s.resourceList
  allocated : s'.allocated = s.allocated
  freeMemPtr : s'.freeMemPtr = s.freeMemPtr

/-- `memset` of an array. -/
lemma foldl_set (hg : Function.Injective g) (n : ℕ) :
    let t := (List.range n).foldl (fun s i => s.set (g i) .zero) s
    SameLists s t ∧ (∀ i < n, t.mem (g i) = .zero) ∧ ∀ a, (∀ i < n, a ≠ g i) → t.mem a = s.mem a := by
  induction n with
  | zero => exact ⟨⟨rfl, rfl, rfl⟩, by simp, fun _ _ => rfl⟩
  | succ n ih =>
    obtain ⟨hsame, hin, hout⟩ := ih
    rw [List.range_succ, List.foldl_append, List.foldl_cons, List.foldl_nil]
    refine ⟨⟨hsame.1, hsame.2, hsame.3⟩, ?_, ?_⟩
    · intro i hi
      rcases Nat.lt_succ_iff_lt_or_eq.mp hi with hi | rfl
      · exact (Function.update_of_ne (hg.ne hi.ne) _ _).trans (hin i hi)
      · exact Function.update_self ..
    · intro a ha
      exact (Function.update_of_ne (ha n n.lt_succ_self) _ _).trans
        (hout a fun i hi => ha i (hi.trans n.lt_succ_self))

/-- The loop that links the elements of an array. -/
lemma foldl_setNext (hg : Function.Injective g) (n : ℕ) :
    let t := (List.range n).foldl (fun s i => s.setNext (g i) (g (i + 1))) s
    SameLists s t ∧ (∀ i < n, (t.mem (g i)).next = g (i + 1)) ∧
      ∀ a, (∀ i < n, a ≠ g i) → t.mem a = s.mem a := by
  induction n with
  | zero => exact ⟨⟨rfl, rfl, rfl⟩, by simp, fun _ _ => rfl⟩
  | succ n ih =>
    obtain ⟨hsame, hin, hout⟩ := ih
    rw [List.range_succ, List.foldl_append, List.foldl_cons, List.foldl_nil]
    refine ⟨⟨hsame.1, hsame.2, hsame.3⟩, ?_, ?_⟩
    · intro i hi
      rw [setNext_next]
      rcases Nat.lt_succ_iff_lt_or_eq.mp hi with hi | rfl
      · rw [if_neg (hg.ne hi.ne)]
        exact hin i hi
      · rw [if_pos rfl]
    · intro a ha
      rw [setNext_mem_of_ne _ _ (ha n n.lt_succ_self)]
      exact hout a fun i hi => ha i (hi.trans n.lt_succ_self)

/-- The elements of an array from the `i`-th on as a list. -/
lemma linked_elements {next : ℕ → ℕ} {n k i : ℕ}
    (hnext : ∀ j < n, next (g j) = g (j + 1)) (hlast : next (g n) = 0) (hk : i + k = n) :
    Linked id next (g i) ((List.range' i (k + 1)).map g) 0 := by
  induction k generalizing i with
  | zero =>
    obtain rfl : i = n := hk
    exact ⟨rfl, hlast⟩
  | succ k ih =>
    rw [List.range'_succ, List.map_cons, linked_cons]
    refine ⟨rfl, ?_⟩
    have hi : next (id (g i)) = g (i + 1) := hnext i (by omega)
    rw [hi]
    exact ih (by omega)

/-- The array of new resources as a list. -/
def elements (p : ℕ) : List ℕ := (List.range 64).map (element p)

/-- The array after `memset` and the loop. -/
lemma elements_linked (t : State) (p : ℕ) :
    let u := (List.range (64 - 1)).foldl
      (fun s i => s.setNext (element p i) (element p (i + 1)))
      ((List.range 64).foldl (fun s i => s.set (element p i) .zero) t)
    SameLists t u ∧ (∀ a ∉ elements p, u.mem a = t.mem a) ∧
      Linked id (fun a => (u.mem a).next) p (elements p) 0 := by
  have hinj := element_injective p
  have hset := @foldl_set t (element p) hinj 64
  generalize (List.range 64).foldl (fun s i => s.set (element p i) .zero) t = t₁ at hset ⊢
  have hlink := @foldl_setNext t₁ (element p) hinj 63
  generalize (List.range (64 - 1)).foldl
    (fun s i => s.setNext (element p i) (element p (i + 1))) t₁ = u at hlink ⊢
  obtain ⟨hsame, hzero, hother⟩ := hset
  obtain ⟨hsame', hnext, hother'⟩ := hlink
  refine ⟨⟨hsame'.1.trans hsame.1, hsame'.2.trans hsame.2, hsame'.3.trans hsame.3⟩, ?_, ?_⟩
  · intro a ha
    have hne : ∀ i < 64, a ≠ element p i := fun i hi h =>
      ha (List.mem_map.mpr ⟨i, List.mem_range.mpr hi, h.symm⟩)
    exact (hother' a fun i hi => hne i (hi.trans (by decide))).trans (hother a hne)
  · have hlast : (u.mem (element p 63)).next = 0 := by
      rw [hother' (element p 63) fun i hi => hinj.ne hi.ne', hzero 63 (by decide)]
      rfl
    have h64 := @linked_elements (element p) (fun a => (u.mem a).next) 63 63 0 hnext hlast rfl
    rw [show element p 0 = p by simp [element]] at h64
    rw [elements, List.range_eq_range']
    exact h64

/-- The state after `allocate_more_resources`, with what `malloc` has given. -/
lemma allocateMoreResources_cases (heq : allocateMoreResources eheap s = .ok s') :
    ∃ t p, malloc eheap (64 * sizeofResource) s = .ok (t, p) ∧ p ≠ 0 ∧
      s'.resourceList = t.resourceList ∧ s'.freeMemPtr = t.freeMemPtr ∧ s'.freeResources = p ∧
      s'.allocated = t.allocated ++ elements p ∧
      (∀ a ∉ elements p, s'.mem a = t.mem a) ∧ IsList s' p (elements p) ∧ (elements p).Nodup := by
  rw [allocateMoreResources] at heq
  cases hmalloc : malloc eheap (64 * sizeofResource) s with
  | error e =>
    rw [hmalloc] at heq
    cases heq
  | ok x =>
    obtain ⟨t, p⟩ := x
    rw [hmalloc] at heq
    have helements := elements_linked t p
    simp only [bind, Except.bind] at heq
    generalize (List.range (64 - 1)).foldl (fun s i => s.setNext (element p i) (element p (i + 1)))
      ((List.range 64).foldl (fun s i => s.set (element p i) .zero) t) = u at helements heq
    obtain ⟨hsame, hother, hlinked⟩ := helements
    split_ifs at heq with hp
    obtain rfl := Except.ok.inj heq
    refine ⟨t, p, rfl, hp, hsame.1, hsame.3, rfl, ?_, hother, ⟨hlinked, ?_⟩, ?_⟩
    · rw [← hsame.2]
      rfl
    · simp only [elements, element, List.mem_map]
      rintro ⟨i, -, hi⟩
      omega
    · exact List.Nodup.map (element_injective p) List.nodup_range

lemma allocateMoreResources_ends : Ends (fun _ => True) (allocateMoreResources eheap s) := by
  rw [allocateMoreResources]
  refine (memalign_ends _ _ _ _).bind ?_
  rintro ⟨t, p⟩ -
  simp only
  split_ifs <;> trivial

lemma mem_elements {p a : ℕ} (h : a ∈ elements p) :
    p ≤ a ∧ a + sizeofResource ≤ p + 64 * sizeofResource := by
  obtain ⟨i, hi, rfl⟩ := List.mem_map.mp h
  rw [List.mem_range] at hi
  simp only [element, sizeofResource]
  omega

/-- `allocate_more_resources` gives a list of new resources. -/
lemma allocateMoreResources_spec (hheap : eheap + 8 + 64 * sizeofResource ≤ 2 ^ 32)
    (h : Pools s chain []) (hplaced : Placed eheap s) :
    Ends (fun s' => ∃ new, new ≠ [] ∧ Pools s' chain new ∧ Placed eheap s' ∧
      s'.allocated = s.allocated ++ new ∧ ∀ a ∈ s.allocated, s'.mem a = s.mem a)
      (allocateMoreResources eheap s) := by
  refine Ends.of_ok allocateMoreResources_ends fun s' heq => ?_
  obtain ⟨t, p, hmalloc, hp, hheads, hptr, hfree, halloc, hother, hlist, hnodup⟩ :=
    allocateMoreResources_cases heq
  obtain ⟨rfl, hle, hend⟩ := @memalign_spec s t eheap 3 _ p (by decide) hheap hplaced hmalloc
  dsimp only at hheads hptr halloc hother
  have hfresh : ∀ a ∈ s.allocated, a ∉ elements p := by
    intro a ha hnew
    obtain ⟨hlow, hhigh⟩ := mem_elements hnew
    have hpos : 0 < sizeofResource := by decide
    rcases hplaced.outside a ha with hout | hout
    · omega
    · omega
  have hsame : ∀ a ∈ s.allocated, s'.mem a = s.mem a := fun a ha => hother a (hfresh a ha)
  have hmem : ∀ d, ∀ a ∈ chain d, a ∈ s.allocated := fun d a ha => (h.mem_iff a).mpr (Or.inr ⟨d, ha⟩)
  refine ⟨elements p, ?_, ?_, ?_, halloc, hsame⟩
  · simp [elements]
  · constructor
    · intro d
      rw [hheads]
      exact (h.list d).congr fun a ha => by rw [hsame a (hmem d a ha)]
    · rw [hfree]
      exact hlist
    · exact h.nodup
    · exact hnodup
    · exact h.disjoint
    · exact fun d a ha hnew => hfresh a (hmem d a ha) hnew
    · intro a
      rw [halloc, List.mem_append, h.mem_iff]
      simp only [List.not_mem_nil, false_or]
      exact or_comm
    · intro d
      rw [List.map_congr_left fun a ha => by rw [hsame a (hmem d a ha)]]
      exact h.index d
  · constructor
    · intro a ha
      rw [halloc, List.mem_append] at ha
      rcases ha with ha | ha
      · exact hplaced.lt a ha
      · obtain ⟨-, hhigh⟩ := mem_elements ha
        omega
    · intro a ha
      rw [halloc, List.mem_append] at ha
      rw [hptr]
      rcases ha with ha | ha
      · exact (hplaced.outside a ha).imp_left fun hout => by omega
      · exact Or.inl (mem_elements ha).2
    · rw [hptr]
      have hpos := hplaced.pos
      omega
    · rw [hptr]
      exact hend

end More

/-! ### Adding -/

section Add

variable {t : State} {r : ℕ} {f : List ℕ}

/-- The first free resource is at the end of the list of the device now. -/
structure Added (chain : DeviceId → List ℕ) (d : DeviceId) (r : ℕ) (t s : State) : Prop where
  list : IsList s (s.resourceList d) (chain d ++ [r])
  resourceList : ∀ d', d' ≠ d → s.resourceList d' = t.resourceList d'
  freeResources : s.freeResources = (t.mem r).next
  mem : ∀ a, a ∉ chain d → a ≠ r → s.mem a = t.mem a
  index : ∀ a, a ≠ r → (s.mem a).index = (t.mem a).index
  allocated : s.allocated = t.allocated
  freeMemPtr : s.freeMemPtr = t.freeMemPtr

lemma takeFree_spec (h : Pools t chain (r :: f)) (hplaced : Placed eheap t) (d : DeviceId) :
    ∃ s, takeFree d t = .ok (s, r) ∧ Added chain d r t s := by
  obtain ⟨hfree, hr0, -⟩ := IsChain.cons_iff.mp h.freeList
  have hr : r ∉ chain d := fun hr => h.disjoint_free d hr (by simp)
  have hlist := h.list d
  have hlength := h.length_lt hplaced d
  have hnodup := h.nodup d
  have hset : ∀ {a}, a ≠ r → (t.set r .zero).mem a = t.mem a := fun ha => Function.update_of_ne ha _ _
  rw [takeFree, hfree]
  rcases List.eq_nil_or_concat' (chain d) with hd | ⟨l, b, hd⟩
  · have htail : t.resourceList d = 0 := hlist.eq_nil_iff.mp hd
    refine ⟨_, if_neg (not_not.mpr htail), ?_⟩
    constructor
    · rw [hd, List.nil_append]
      refine IsChain.cons_iff.mpr ⟨Function.update_self .., hr0, IsChain.nil_iff.mpr ?_⟩
      change (Function.update t.mem r Resource.zero r).next = 0
      rw [Function.update_self]
      rfl
    · exact fun d' hd' => Function.update_of_ne hd' _ _
    · rfl
    · exact fun a _ ha => hset ha
    · exact fun a ha => congrArg Resource.index (hset ha)
    · rfl
    · rfl
  · have htail : t.resourceList d ≠ 0 := by
      rw [ne_eq, ← hlist.eq_nil_iff, hd]
      simp
    have hrb : r ∉ l ++ [b] := hd ▸ hr
    have hbr : b ≠ r := fun hbr => hrb (by simp [hbr])
    rw [hd] at hlist hlength hnodup
    set t₁ : State := State.set { t with freeResources := (t.mem r).next } r .zero with ht₁
    have hlist' : IsList t₁ (t.resourceList d) (l ++ [b]) :=
      hlist.congr fun a ha => congrArg Resource.next (hset fun har => hrb (har ▸ ha))
    have hlast : tailLoop t₁ MAX_ROUNDS (t.resourceList d) = .ok b :=
      tailLoop_eq hlist' (by rw [List.length_append] at hlength; omega)
    refine ⟨t₁.setNext b r, ?_, ?_⟩
    · have hgo : (tailLoop t₁ MAX_ROUNDS (t.resourceList d) >>= fun tail =>
          (pure (t₁.setNext tail r, r) : Except Halt (State × ℕ))) = .ok (t₁.setNext b r, r) := by
        rw [hlast]
        rfl
      exact (if_pos htail).trans hgo
    · have hmem : ∀ a, a ≠ b → (t₁.setNext b r).mem a = t₁.mem a := fun a ha =>
        setNext_mem_of_ne _ _ ha
      have hne : ∀ a ∈ l, a ≠ b := by
        rintro a ha rfl
        exact (List.nodup_append'.mp hnodup).2.2 ha (by simp)
      constructor
      · rw [hd]
        refine hlist'.concat (by simp) ?_ hr0 fun a ha => congrArg Resource.next (hmem a (hne a ha))
        rw [hmem r hbr.symm, ht₁]
        simp [State.set, Resource.zero]
      · exact fun d' _ => rfl
      · rfl
      · intro a ha har
        rw [hmem a fun hab => ha (by simp [hd, hab])]
        exact hset har
      · intro a har
        rw [index_eq_of_values (setNext_values t₁ b r) a]
        exact congrArg Resource.index (hset har)
      · rfl
      · rfl

lemma addResource_spec (hheap : eheap + 8 + 64 * sizeofResource ≤ 2 ^ 32) (h : Pools s chain free)
    (hplaced : Placed eheap s) (d : DeviceId) : Ends (fun x => ∃ t f, Pools t chain (x.2 :: f) ∧
      Placed eheap t ∧ s.allocated ⊆ t.allocated ∧ (∀ a ∈ s.allocated, t.mem a = s.mem a) ∧
      Added chain d x.2 t x.1) (addResource eheap d s) := by
  have htake : ∀ t f, f ≠ [] → Pools t chain f → Placed eheap t → s.allocated ⊆ t.allocated →
      (∀ a ∈ s.allocated, t.mem a = s.mem a) → Ends (fun x => ∃ t f, Pools t chain (x.2 :: f) ∧
        Placed eheap t ∧ s.allocated ⊆ t.allocated ∧ (∀ a ∈ s.allocated, t.mem a = s.mem a) ∧
        Added chain d x.2 t x.1) (takeFree d t) := by
    intro t f hf hpools hplaced halloc hmem
    obtain ⟨r, f, rfl⟩ := List.exists_cons_of_ne_nil hf
    obtain ⟨s', heq, hadded⟩ := takeFree_spec hpools hplaced d
    rw [heq]
    exact ⟨t, f, hpools, hplaced, halloc, hmem, hadded⟩
  rw [addResource]
  by_cases hempty : s.freeResources = 0
  · obtain rfl := h.freeList.eq_nil_iff.mpr hempty
    rw [if_pos hempty]
    refine (allocateMoreResources_spec hheap h hplaced).bind ?_
    rintro t ⟨new, hnew, hpools, hplaced', halloc, hmem⟩
    refine htake t new hnew hpools hplaced' ?_ hmem
    rw [halloc]
    exact List.subset_append_left _ _
  · rw [if_neg hempty]
    have hne : free ≠ [] := fun hnil => hempty (h.freeList.eq_nil_iff.mp hnil)
    exact htake s free hne h hplaced (List.Subset.refl _) fun _ _ => rfl

end Add

/-! ### Runs -/

/-- Values that keep the link and the index of a resource. -/
lemma Pools.set {r : Resource} (h : Pools s chain free) (hnext : r.next = (s.mem a).next)
    (hindex : r.index = (s.mem a).index) : Pools (s.set a r) chain free := by
  have hnext' : ∀ b, ((s.set a r).mem b).next = (s.mem b).next := by
    intro b
    by_cases hb : b = a
    · subst hb
      simp [State.set, hnext]
    · simp [State.set, hb]
  have hindex' : ∀ b, ((s.set a r).mem b).index = (s.mem b).index := by
    intro b
    by_cases hb : b = a
    · subst hb
      simp [State.set, hindex]
    · simp [State.set, hb]
  constructor
  · exact fun d => (h.list d).congr fun b _ => hnext' b
  · exact h.freeList.congr fun b _ => hnext' b
  · exact h.nodup
  · exact h.free_nodup
  · exact h.disjoint
  · exact h.disjoint_free
  · exact h.mem_iff
  · intro d
    rw [List.map_congr_left fun b _ => hindex' b]
    exact h.index d

lemma initValues_next (r : Resource) : (r.initValues index).next = r.next := by
  rw [Resource.initValues]
  split_ifs <;> rfl

lemma initValues_index (r : Resource) : (r.initValues index).index = index := by
  rw [Resource.initValues]

lemma setInitValues_index (s : State) (r index : ℕ) :
    ((s.set r ((s.mem r).initValues index)).mem r).index = index := by
  simp [State.set, initValues_index]

/-- A resource with a new index is at the end of the list. -/
lemma Pools.add {t : State} {r : ℕ} {f : List ℕ} (h : Pools t chain (r :: f))
    (hadded : Added chain d r t s) (hindex : ∀ a ∈ chain d, (t.mem a).index ≠ index) :
    Pools (s.set r ((s.mem r).initValues index)) (Function.update chain d (chain d ++ [r])) f := by
  obtain ⟨-, hr0, hf⟩ := IsChain.cons_iff.mp h.freeList
  have hr : r ∉ chain d := fun hr => h.disjoint_free d hr (by simp)
  have hrf := (List.nodup_cons.mp h.free_nodup).1
  have hnext : ∀ a, ((s.set r ((s.mem r).initValues index)).mem a).next = (s.mem a).next := by
    intro a
    by_cases ha : a = r
    · subst ha
      simp [State.set, initValues_next]
    · simp [State.set, ha]
  have hother : ∀ a, a ≠ r → (s.set r ((s.mem r).initValues index)).mem a = s.mem a := fun a ha =>
    Function.update_of_ne ha _ _
  apply h.replace
  · exact hadded.list.congr fun a _ => hnext a
  · have hfree : IsList s s.freeResources f := by
      rw [hadded.freeResources]
      refine hf.congr fun a ha => ?_
      rw [hadded.mem a (fun hc => h.disjoint_free d hc (by simp [ha])) fun har => hrf (har ▸ ha)]
    exact hfree.congr fun a _ => hnext a
  · rw [List.append_assoc, List.singleton_append]
  · exact hadded.resourceList
  · intro a _ ha har
    rw [List.mem_cons, not_or] at har
    rw [hother a har.1, hadded.mem a ha har.1]
  · exact hadded.allocated
  · have hold : ∀ a ∈ chain d, ((s.set r ((s.mem r).initValues index)).mem a).index =
        (t.mem a).index := by
      intro a ha
      have har : a ≠ r := fun har => hr (har ▸ ha)
      rw [hother a har, hadded.index a har]
    rw [List.map_append, List.map_congr_left hold, List.nodup_append']
    refine ⟨h.index d, List.nodup_singleton _, ?_⟩
    intro i hi hi'
    rw [List.map_singleton, List.mem_singleton, setInitValues_index] at hi'
    obtain ⟨a, ha, rfl⟩ := List.mem_map.mp hi
    exact hindex a ha hi'

/-- The resource of this index is on the device: one that was in the list and has flags, or else a
new one at the end. The resources without flags are off the list, the other devices keep theirs. -/
def Leaves (s : State) (chain : DeviceId → List ℕ) (d : DeviceId) (index : ℕ) (x : State × ℕ) :
    Prop :=
  (x.1.mem x.2).index = index ∧ ∃ kept free', kept = (chain d).filter s.keeps ∧
    (x.2 ∈ kept ∧ (s.mem x.2).index = index ∧ Pools x.1 (Function.update chain d kept) free' ∨
      (∀ a ∈ kept, (s.mem a).index ≠ index) ∧
        Pools x.1 (Function.update chain d (kept ++ [x.2])) free')

/-- What `new_resource` does. -/
lemma newResource_spec (hheap : eheap + 8 + 64 * sizeofResource ≤ 2 ^ 32) (h : Pools s chain free)
    (hplaced : Placed eheap s) (d : DeviceId) (index : ℕ) :
    Ends (fun x => s.allocated ⊆ x.1.allocated ∧ Placed eheap x.1 ∧ Leaves s chain d index x)
      (newResource eheap d index s) := by
  obtain ⟨s₁, hcompact, hfreed, hpools⟩ := compactResources_spec h hplaced d
  have hplaced₁ := hplaced.of_freed hfreed
  have hprobe := @probeResource_eq s₁ index eheap _ _ hpools hplaced₁ d
  rw [newResource, hcompact]
  change Ends _ (probeResource d index s₁ >>= _)
  rw [hprobe, Function.update_self]
  cases hfind : ((chain d).filter s.keeps).find? fun a => (s₁.mem a).index == index with
  | some r =>
    have hr : r ∈ (chain d).filter s.keeps := List.mem_of_find?_eq_some hfind
    have hindex : (s₁.mem r).index = index := by simpa using List.find?_some hfind
    have hr0 : r ≠ 0 := by
      rintro rfl
      exact (h.list d).2 (List.mem_of_mem_filter hr)
    change Ends _ (Except.map _ (if r = 0 then addResource eheap d s₁ else pure (s₁, r)))
    rw [if_neg hr0]
    have hset := hpools.set (a := r) (@initValues_next index (s₁.mem r))
      ((initValues_index _).trans hindex.symm)
    refine ⟨?_, ⟨hplaced₁.lt, hplaced₁.outside, hplaced₁.pos, hplaced₁.ptr_lt⟩, ?_, _, _,
      rfl, Or.inl ⟨hr, ?_, hset⟩⟩
    · change s.allocated ⊆ s₁.allocated
      rw [hfreed.allocated]
      exact List.Subset.refl _
    · exact setInitValues_index s₁ r index
    · exact (index_eq_of_values hfreed.values r).symm.trans hindex
  | none =>
    change Ends _ (Except.map _ (addResource eheap d s₁))
    refine (addResource_spec hheap hpools hplaced₁ d).map ?_
    rintro ⟨s₂, r⟩ ⟨t, f, hpools', hplaced', halloc, hmem, hadded⟩
    have hkept : ∀ a ∈ (chain d).filter s.keeps, (s₁.mem a).index ≠ index := by
      intro a ha
      simpa using List.find?_eq_none.mp hfind a ha
    have hin : ∀ a ∈ (chain d).filter s.keeps, a ∈ s₁.allocated := by
      intro a ha
      rw [hfreed.allocated, h.mem_iff]
      exact Or.inr ⟨d, List.mem_of_mem_filter ha⟩
    have hpools'' := @Pools.add s₂ d index _ t r f hpools' hadded (by
      intro a ha
      rw [Function.update_self] at ha
      rw [hmem a (hin a ha)]
      exact hkept a ha)
    rw [Function.update_self, Function.update_idem] at hpools''
    refine ⟨?_, ?_, setInitValues_index s₂ r index, _, f, rfl, Or.inr ⟨?_, hpools''⟩⟩
    · change s.allocated ⊆ s₂.allocated
      rw [hadded.allocated, ← hfreed.allocated]
      exact halloc
    · constructor
      · exact hadded.allocated ▸ hplaced'.lt
      · change ∀ a ∈ s₂.allocated, a + sizeofResource ≤ s₂.freeMemPtr ∨ eheap ≤ a
        rw [hadded.allocated, hadded.freeMemPtr]
        exact hplaced'.outside
      · exact hadded.freeMemPtr ▸ hplaced'.pos
      · exact hadded.freeMemPtr ▸ hplaced'.ptr_lt
    · intro a ha
      rw [← index_eq_of_values hfreed.values a]
      exact hkept a ha

/-- The lists of a state and where its resources are. -/
def Sound (eheap : ℕ) (s : State) : Prop := (∃ chain free, Pools s chain free) ∧ Placed eheap s

lemma step_sound (hheap : eheap + 8 + 64 * sizeofResource ≤ 2 ^ 32) (hs : Sound eheap s) {op : Op}
    (hop : op.Fits eheap) :
    Ends (fun s' => Sound eheap s' ∧ s.allocated ⊆ s'.allocated) (step eheap s op) := by
  obtain ⟨⟨chain, free, hpools⟩, hplaced⟩ := hs
  have hsame : Sound eheap s ∧ s.allocated ⊆ s.allocated :=
    ⟨⟨⟨chain, free, hpools⟩, hplaced⟩, List.Subset.refl _⟩
  cases op with
  | newResource d index =>
    refine (newResource_spec hheap hpools hplaced d index).map ?_
    rintro x ⟨halloc, hplaced', -, kept, free', -, ⟨-, -, hpools'⟩ | ⟨-, hpools'⟩⟩
    · exact ⟨⟨⟨_, _, hpools'⟩, hplaced'⟩, halloc⟩
    · exact ⟨⟨⟨_, _, hpools'⟩, hplaced'⟩, halloc⟩
  | findResource d index =>
    rw [step, findResource, probeResource_eq hpools hplaced]
    change Ends _ (Except.map _ (if _ = 0 then .error .die else pure _))
    split_ifs
    · trivial
    · exact hsame
  | probeResource d index =>
    rw [step, probeResource_eq hpools hplaced]
    exact hsame
  | compactResources d =>
    obtain ⟨s', heq, hfreed, hpools'⟩ := compactResources_spec hpools hplaced d
    rw [step, heq]
    exact ⟨⟨⟨_, _, hpools'⟩, hplaced.of_freed hfreed⟩, hfreed.allocated ▸ List.Subset.refl _⟩
  | write res base size limit flags align gran =>
    exact ⟨⟨⟨chain, free, hpools.set rfl rfl⟩,
      ⟨hplaced.lt, hplaced.outside, hplaced.pos, hplaced.ptr_lt⟩⟩, List.Subset.refl _⟩
  | memalign pow size =>
    refine (Ends.of_ok (memalign_ends eheap (2 ^ pow) size s) fun x heq => ?_).map fun x hx => hx
    obtain ⟨s', p⟩ := x
    obtain ⟨rfl, hle, hlt⟩ := memalign_spec hop.1 hop.2 hplaced heq
    have hpools' : Pools { s with freeMemPtr := p + size } chain free :=
      ⟨hpools.list, hpools.freeList, hpools.nodup, hpools.free_nodup, hpools.disjoint,
        hpools.disjoint_free, hpools.mem_iff, hpools.index⟩
    have hpos := hplaced.pos
    refine ⟨⟨⟨chain, free, hpools'⟩, hplaced.lt, fun a ha => ?_, ?_, hlt⟩, List.Subset.refl _⟩
    · exact (hplaced.outside a ha).imp_left fun hout => by dsimp only; omega
    · dsimp only
      omega

lemma sound_run (hheap : eheap + 8 + 64 * sizeofResource ≤ 2 ^ 32) (hs : Sound eheap s)
    {ops : List Op} (hops : ∀ op ∈ ops, op.Fits eheap) :
    Ends (fun s' => Sound eheap s' ∧ s.allocated ⊆ s'.allocated) (run eheap s ops) := by
  induction ops generalizing s with
  | nil => exact ⟨hs, List.Subset.refl _⟩
  | cons op ops ih =>
    rw [List.forall_mem_cons] at hops
    rw [run, List.foldlM_cons]
    refine (step_sound hheap hs hops.1).bind fun s₁ hs₁ => ?_
    refine Ends.mono (ih hs₁.1 hops.2) fun s' hs' => ?_
    exact ⟨hs'.1, fun a ha => hs'.2 (hs₁.2 ha)⟩

/-- After every run, each resource is in one of the lists, `compact_resources` frees those without
flags and leaves the others in their order, and `new_resource` leaves the resource asked for on the
device. -/
theorem run_pools (hheap : eheap + 8 + 64 * sizeofResource ≤ 2 ^ 32) (h : Pools s chain free)
    (hplaced : Placed eheap s) {ops : List Op} (hops : ∀ op ∈ ops, op.Fits eheap) :
    Ends (fun s' => s.allocated ⊆ s'.allocated ∧ ∃ chain' free', Pools s' chain' free' ∧
      (∀ d, ∃ t, compactResources d s' = .ok t ∧ Freed s' t ∧
        Pools t (Function.update chain' d ((chain' d).filter s'.keeps))
          (((chain' d).filter fun a => !s'.keeps a).reverse ++ free')) ∧
      ∀ d index, Ends (Leaves s' chain' d index) (newResource eheap d index s'))
      (run eheap s ops) := by
  refine (sound_run hheap ⟨⟨chain, free, h⟩, hplaced⟩ hops).mono ?_
  rintro s' ⟨⟨⟨chain', free', hpools⟩, hplaced'⟩, halloc⟩
  refine ⟨halloc, chain', free', hpools, compactResources_spec hpools hplaced', fun d index => ?_⟩
  exact (newResource_spec hheap hpools hplaced' d index).mono fun x hx => hx.2.2

/-- A serial port with the two resources that are generated for it, and an empty heap. -/
def comState : State where
  resourceList d := if d = 0 then 0x2000 else 0
  freeResources := 0
  mem a :=
    if a = 0x2000 then ⟨0x3f8, 0, 0, 0x2028, 0xc0000100, 0x60, 0, 0⟩
    else if a = 0x2028 then ⟨4, 0, 0, 0, 0xc0000400, 0x70, 0, 0⟩
    else .zero
  freeMemPtr := 0x10000
  allocated := [0x2000, 0x2028]

def comChain (d : DeviceId) : List ℕ := if d = 0 then [0x2000, 0x2028] else []

lemma comState_pools : Pools comState comChain [] := by
  have hother : ∀ d, d ≠ 0 → comChain d = [] := fun d hd => if_neg hd
  constructor
  · intro d
    by_cases hd : d = 0
    · subst hd
      refine IsChain.cons_iff.mpr ⟨rfl, by decide, IsChain.cons_iff.mpr ⟨rfl, by decide, ?_⟩⟩
      exact IsChain.nil_iff.mpr rfl
    · rw [hother d hd]
      exact IsChain.nil_iff.mpr (if_neg hd)
  · exact IsChain.nil_iff.mpr rfl
  · intro d
    by_cases hd : d = 0
    · subst hd
      decide
    · simp [hother d hd]
  · exact List.nodup_nil
  · intro d d' hne
    by_cases hd : d = 0
    · rw [hother d' fun hd' => hne (hd.trans hd'.symm)]
      exact List.disjoint_nil_right _
    · rw [hother d hd]
      exact List.disjoint_nil_left _
  · exact fun d => List.disjoint_nil_right _
  · intro a
    constructor
    · exact fun ha => Or.inr ⟨0, ha⟩
    · rintro (ha | ⟨d, ha⟩)
      · cases ha
      · by_cases hd : d = 0
        · subst hd
          exact ha
        · rw [hother d hd] at ha
          cases ha
  · intro d
    by_cases hd : d = 0
    · subst hd
      decide
    · simp [hother d hd]

theorem run_pools_com :
    Ends (fun s' => comState.allocated ⊆ s'.allocated ∧ ∃ chain' free', Pools s' chain' free' ∧
      (∀ d, ∃ t, compactResources d s' = .ok t ∧ Freed s' t ∧
        Pools t (Function.update chain' d ((chain' d).filter s'.keeps))
          (((chain' d).filter fun a => !s'.keeps a).reverse ++ free')) ∧
      ∀ d index, Ends (Leaves s' chain' d index) (newResource 0x20000 d index s'))
      (run 0x20000 comState
        [.newResource 0 0x74, .memalign 3 0x100, .newResource 1 0x10, .compactResources 0]) := by
  have hplaced : Placed 0x20000 comState := ⟨by decide, by decide, by decide, by decide⟩
  refine @run_pools comState 0x20000 comChain [] (by decide) comState_pools hplaced _ ?_
  simp [Op.Fits]

end ApuBios.ResourceList
