import ApuBios.Device.Allocator.Agreement
import ApuBios.Device.Allocator.Passes

/-!
# Aliases of the legacy I/O ports

Expansion cards decode ten bits, so that an I/O resource is only to use 0x00 - 0xff of each block
of 0x400. `allocate_resources` tests the base before it is aligned: the first resource that is
placed may be aligned into the ports that the test has kept clear, those after it may not.
-/

namespace ApuBios.Allocator

/-! ### The ten bits -/

/-- Bits 8 and 9 are clear in the first quarter of each block. -/
lemma and_aliases_iff (x : ℕ) : x &&& 0x300 = 0 ↔ x % 0x400 < 0x100 := by
  have hbits : x &&& 0x300 = 0 ↔ x.testBit 8 = false ∧ x.testBit 9 = false := by
    constructor
    · intro h
      have h8 := congrArg (Nat.testBit · 8) h
      have h9 := congrArg (Nat.testBit · 9) h
      simp only [Nat.testBit_and, Nat.zero_testBit] at h8 h9
      rw [show (0x300 : ℕ).testBit 8 = true by decide, Bool.and_true] at h8
      rw [show (0x300 : ℕ).testBit 9 = true by decide, Bool.and_true] at h9
      exact ⟨h8, h9⟩
    · rintro ⟨h8, h9⟩
      apply Nat.eq_of_testBit_eq
      intro i
      rw [Nat.testBit_and, Nat.zero_testBit]
      by_cases hi : i < 10
      · interval_cases i
        iterate 8 exact (congrArg _ (show Nat.testBit 0x300 _ = false by decide)).trans (Bool.and_false _)
        · rw [h8, Bool.false_and]
        · rw [h9, Bool.false_and]
      · have hlt : (0x300 : ℕ) < 2 ^ i :=
          (show (0x300 : ℕ) < 2 ^ 10 by decide).trans_le (Nat.pow_le_pow_right (by decide) (by omega))
        rw [Nat.testBit_lt_two_pow hlt, Bool.and_false]
  rw [hbits, Nat.testBit_eq_decide_div_mod_eq, Nat.testBit_eq_decide_div_mod_eq,
    decide_eq_false_iff_not, decide_eq_false_iff_not]
  omega

/-- The base is moved out of the aliases. -/
lemma skipAliases_clear {x : ℕ} (hx : x < 2 ^ 64) :
    skipAliases x < 2 ^ 64 ∧ skipAliases x &&& 0x300 = 0 := by
  rw [skipAliases]
  split_ifs with halias hvga
  · have hdown : x &&& Word.not 64 0x3ff = x / 0x400 * 0x400 :=
      @Word.alignDown_eq 64 10 x (by decide) hx
    refine ⟨Word.add_lt, ?_⟩
    rw [and_aliases_iff, hdown, Word.add]
    omega
  · rw [not_not, and_aliases_iff] at halias
    omega
  · exact ⟨hx, not_not.mp halias⟩

lemma skipAliases_of_clear {x : ℕ} (h : x &&& 0x300 = 0) : skipAliases x = x := by
  rw [skipAliases, if_neg (not_not.mpr h), if_neg]
  rw [and_aliases_iff] at h
  omega

/-- A base that is aligned stays so. -/
lemma dvd_skipAliases {x a : ℕ} (hx : x < 2 ^ 64) (ha : a < 64) (h : 2 ^ a ∣ x) :
    2 ^ a ∣ skipAliases x := by
  by_cases hclear : x &&& 0x300 = 0
  · rwa [skipAliases_of_clear hclear]
  · have ha10 : a ≤ 10 := by
      by_contra hgt
      have h10 : 2 ^ 10 ∣ x := (Nat.pow_dvd_pow 2 (by omega)).trans h
      rw [and_aliases_iff] at hclear
      omega
    have hdown : x &&& Word.not 64 0x3ff = x / 0x400 * 0x400 :=
      @Word.alignDown_eq 64 10 x (by decide) hx
    refine (Nat.pow_dvd_pow 2 ha10).trans ?_
    rw [skipAliases, if_pos hclear, hdown, Word.add]
    omega

/-- Where alignment leads to. -/
lemma round_cases {x a : ℕ} (hx : x < 2 ^ 64) (ha : a < 64) :
    round x a = Word.roundUp x a ∨ round x a = 0 ∧ Word.roundUp x a = 2 ^ 64 := by
  have htop : Word.roundUp x a ≤ 2 ^ 64 := Word.roundUp_le hx.le (Nat.pow_dvd_pow 2 ha.le)
  rcases htop.lt_or_eq with hlt | heq
  · exact Or.inl (round_eq ha hlt)
  · exact Or.inr ⟨Word.alignUp_eq_zero ha.le hx heq, heq⟩

lemma round_spec {x a : ℕ} (hx : x < 2 ^ 64) (ha : a < 64) :
    2 ^ a ∣ round x a ∧ round x a < 2 ^ 64 := by
  rcases round_cases hx ha with heq | ⟨heq, -⟩
  · have hlt : round x a < 2 ^ 64 :=
      (Word.alignDown_le ha.le Word.add_lt).trans_lt Word.add_lt
    exact ⟨heq ▸ Word.dvd_roundUp, hlt⟩
  · rw [heq]
    exact ⟨Nat.dvd_zero _, by positivity⟩

lemma round_of_dvd {x a : ℕ} (hx : x < 2 ^ 64) (ha : a < 64) (h : 2 ^ a ∣ x) : round x a = x := by
  rw [round_eq ha (by rwa [Word.roundUp_of_dvd h]), Word.roundUp_of_dvd h]

/-- An aligned block of at most 0x100 ports is clear as a whole. -/
lemma block_clear_iff {p a : ℕ} (ha : a ≤ 8) (h : 2 ^ a ∣ p) :
    (∀ x, p ≤ x → x < p + 2 ^ a → x &&& 0x300 = 0) ↔ p &&& 0x300 = 0 := by
  have hpos : 0 < 2 ^ a := by positivity
  constructor
  · intro hall
    exact hall p le_rfl (by omega)
  · intro hp x hlo hhi
    rw [and_aliases_iff] at hp ⊢
    clear hpos
    interval_cases a <;> omega

/-- Where a clear base is aligned to. -/
lemma round_clear_iff {y a : ℕ} (hy : y < 2 ^ 64) (hclear : y &&& 0x300 = 0) (ha : a ≤ 8) :
    round y a &&& 0x300 = 0 ↔ y % 0x400 + 2 ^ a ≤ 0x100 := by
  rw [and_aliases_iff] at hclear ⊢
  rcases round_cases hy (show a < 64 by omega) with heq | ⟨heq, htop⟩
  · rw [heq, Word.roundUp]
    clear heq
    interval_cases a <;> omega
  · rw [Word.roundUp] at htop
    rw [heq]
    clear heq
    interval_cases a <;> omega

/-! ### The loop over a bus -/

variable {t : Topology} {s s' : Store} {w c : Window} {depth : ℕ} {r bridge : ResourceId}
  {found order : List ResourceId}

/-- The test whether an I/O resource fits from the base on. -/
def FitsAt (s : Store) (bridge : ResourceId) (base : ℕ) (r : ResourceId) : Prop :=
  Word.sub 64 (Word.add 64 (round (skipAliases base) (s r).align) (s r).size) 1 ≤
    min (s r).limit (s bridge).limit

instance (s : Store) (bridge : ResourceId) (base : ℕ) (r : ResourceId) :
    Decidable (FitsAt s bridge base r) := inferInstanceAs (Decidable (_ ≤ _))

section Step

variable {x : AllocateState} (hio : (x.store r).has IORESOURCE_IO = true)
  (hsize : (x.store r).size ≠ 0)
include hio hsize

lemma allocateResource_of_fits (h : FitsAt x.store bridge x.base r) :
    (allocateResource bridge r x).base =
        Word.add 64 (round (skipAliases x.base) (x.store r).align) (x.store r).size ∧
      ((allocateResource bridge r x).store r).base =
        round (skipAliases x.base) (x.store r).align ∧
      (allocateResource bridge r x).didntFit = x.didntFit := by
  have hflag : ∀ l, ({ x.store r with limit := l } : Resource).has IORESOURCE_IO = true :=
    fun _ => hio
  rw [FitsAt] at h
  simp only [allocateResource, modify_limit_resource, Store.modify_self, if_neg hsize, hflag,
    if_true, if_pos h, and_self]

lemma allocateResource_of_not_fits (h : ¬FitsAt x.store bridge x.base r) :
    (allocateResource bridge r x).base = skipAliases x.base ∧
      (allocateResource bridge r x).didntFit = x.didntFit ++ [r] := by
  have hflag : ∀ l, ({ x.store r with limit := l } : Resource).has IORESOURCE_IO = true :=
    fun _ => hio
  rw [FitsAt] at h
  simp only [allocateResource, modify_limit_resource, Store.modify_self, if_neg hsize, hflag,
    if_true, if_neg h, and_self]

end Step

/-- I/O resources whose sizes are powers of two. -/
structure IoSized (s : Store) (order : List ResourceId) : Prop where
  io : ∀ r ∈ order, (s r).has IORESOURCE_IO = true
  size : ∀ r ∈ order, (s r).size = 2 ^ (s r).align
  align : ∀ r ∈ order, (s r).align < 64

/-- Nothing has been placed yet: the next resource starts from where the first one did. -/
structure Unplaced (s₀ : Store) (bridge : ResourceId) (base : ℕ) (p : List ResourceId)
    (x : AllocateState) : Prop where
  base_eq : skipAliases x.base = skipAliases base
  reported : ∀ r ∈ p, ¬FitsAt s₀ bridge base r ∧ r ∈ x.didntFit

/-- The first resource `f` has been placed: the base is aligned for all that are still to come. -/
structure PlacedFirst (s₀ : Store) (bridge : ResourceId) (base : ℕ) (p : List ResourceId)
    (x : AllocateState) (before : List ResourceId) (f : ResourceId) (after : List ResourceId) :
    Prop where
  split : p = before ++ f :: after
  reported : ∀ r ∈ before, ¬FitsAt s₀ bridge base r ∧ r ∈ x.didntFit
  fits : FitsAt s₀ bridge base f
  placed : f ∉ x.didntFit
  base_eq : (x.store f).base = round (skipAliases base) (s₀ f).align
  later : ∀ r ∈ after, r ∈ x.didntFit ∨
    2 ^ (s₀ r).align ∣ (x.store r).base ∧ (x.store r).base &&& 0x300 = 0
  aligned : ∀ a, (∀ r ∈ p, a ≤ (s₀ r).align) → 2 ^ a ∣ x.base

/-- After the resources `p`, starting from the store `s₀`, the base `base` and the list `dl` of
resources that have been reported before. -/
structure IoInv (s₀ : Store) (bridge : ResourceId) (base : ℕ) (dl p : List ResourceId)
    (x : AllocateState) : Prop where
  frame : ∀ q, q ∉ p → x.store q = s₀ q
  base_lt : x.base < 2 ^ 64
  reported_mem : ∃ more, x.didntFit = dl ++ more ∧ more ⊆ p
  phase : Unplaced s₀ bridge base p x ∨
    ∃ before f after, PlacedFirst s₀ bridge base p x before f after

lemma skipAliases_skipAliases {x : ℕ} (hx : x < 2 ^ 64) :
    skipAliases (skipAliases x) = skipAliases x :=
  skipAliases_of_clear (skipAliases_clear hx).2

/-- The step of `p ++ [r]`. -/
lemma IoInv.step {s₀ : Store} {base : ℕ} {dl p : List ResourceId} {x : AllocateState}
    (h : IoInv s₀ bridge base dl p x) (hsized : IoSized s₀ (p ++ [r])) (hrp : r ∉ p)
    (hrd : r ∉ dl) (hbridge : bridge ∉ p) (hsorted : ∀ q ∈ p, (s₀ r).align ≤ (s₀ q).align) :
    IoInv s₀ bridge base dl (p ++ [r]) (allocateResource bridge r x) := by
  have hr : x.store r = s₀ r := h.frame r hrp
  have hb : x.store bridge = s₀ bridge := h.frame bridge hbridge
  have hrx : r ∉ x.didntFit := by
    obtain ⟨more, heq, hmore⟩ := h.reported_mem
    rw [heq, List.mem_append, not_or]
    exact ⟨hrd, fun hm => hrp (hmore hm)⟩
  have hio : (x.store r).has IORESOURCE_IO = true := hr ▸ hsized.io r (by simp)
  have hsizeEq := hsized.size r (by simp)
  have halign := hsized.align r (by simp)
  have hsize : (x.store r).size ≠ 0 := by
    rw [hr, hsizeEq]
    positivity
  obtain ⟨hyLt, hyClear⟩ := skipAliases_clear h.base_lt
  have hfits : FitsAt x.store bridge x.base r ↔
      Word.sub 64 (Word.add 64 (round (skipAliases x.base) (s₀ r).align) (s₀ r).size) 1 ≤
        min (s₀ r).limit (s₀ bridge).limit := by
    rw [FitsAt, hr, hb]
  have hother : ∀ q, q ≠ r → (allocateResource bridge r x).store q = x.store q :=
    fun q hq => allocateResource_other hq
  have hne : ∀ q ∈ p, q ≠ r := fun q hq heq => hrp (heq ▸ hq)
  have hframe : ∀ q, q ∉ p ++ [r] → (allocateResource bridge r x).store q = s₀ q := by
    intro q hq
    rw [List.mem_append, List.mem_singleton, not_or] at hq
    rw [hother q hq.2, h.frame q hq.1]
  by_cases hfit : FitsAt x.store bridge x.base r
  · obtain ⟨hbase, hplaced, hdidnt⟩ := allocateResource_of_fits hio hsize hfit
    have hround := round_spec hyLt halign
    have hmore : ∃ more, (allocateResource bridge r x).didntFit = dl ++ more ∧ more ⊆ p ++ [r] := by
      obtain ⟨more, heq, hmore⟩ := h.reported_mem
      exact ⟨more, by rw [hdidnt, heq], fun q hq => List.mem_append_left _ (hmore hq)⟩
    refine ⟨hframe, by rw [hbase]; exact Word.add_lt, hmore, Or.inr ?_⟩
    -- whatever comes later is aligned no more than `r`
    have haligned : ∀ a, (∀ q ∈ p ++ [r], a ≤ (s₀ q).align) →
        2 ^ a ∣ (allocateResource bridge r x).base := by
      intro a ha
      have hle := ha r (by simp)
      have hdvd : 2 ^ a ∣ 2 ^ 64 := Nat.pow_dvd_pow 2 (by omega)
      rw [hbase, hr, hsizeEq, Word.add]
      refine (Nat.dvd_mod_iff hdvd).mpr (Nat.dvd_add ?_ (Nat.pow_dvd_pow 2 hle))
      exact (Nat.pow_dvd_pow 2 hle).trans hround.1
    rcases h.phase with hunplaced | ⟨before, f, after, hfirst⟩
    · refine ⟨p, r, [], rfl, fun q hq => ?_, ?_, by rwa [hdidnt], ?_, by simp, haligned⟩
      · obtain ⟨hnot, hmem⟩ := hunplaced.reported q hq
        exact ⟨hnot, by rwa [hdidnt]⟩
      · rw [FitsAt, ← hunplaced.base_eq]
        exact hfits.mp hfit
      · rw [hplaced, hr, hunplaced.base_eq]
    · refine ⟨before, f, after ++ [r], by simp [hfirst.split], fun q hq => ?_, hfirst.fits,
        by rw [hdidnt]; exact hfirst.placed, ?_, fun q hq => ?_, haligned⟩
      · obtain ⟨hnot, hmem⟩ := hfirst.reported q hq
        exact ⟨hnot, by rwa [hdidnt]⟩
      · rw [hother f (hne f (by simp [hfirst.split])), hfirst.base_eq]
      · rcases List.mem_append.mp hq with hq | hq
        · rw [hdidnt, hother q (hne q (by simp [hfirst.split, hq]))]
          exact hfirst.later q hq
        · rw [List.mem_singleton.mp hq, hplaced, hr,
            round_of_dvd hyLt halign (dvd_skipAliases h.base_lt halign (hfirst.aligned _ hsorted))]
          exact Or.inr ⟨dvd_skipAliases h.base_lt halign (hfirst.aligned _ hsorted), hyClear⟩
  · obtain ⟨hbase, hdidnt⟩ := allocateResource_of_not_fits hio hsize hfit
    have hkeep : ∀ q ∈ x.didntFit, q ∈ (allocateResource bridge r x).didntFit := by
      intro q hq
      rw [hdidnt]
      exact List.mem_append_left _ hq
    have hself : r ∈ (allocateResource bridge r x).didntFit := by simp [hdidnt]
    have hmore : ∃ more, (allocateResource bridge r x).didntFit = dl ++ more ∧ more ⊆ p ++ [r] := by
      obtain ⟨more, heq, hmore⟩ := h.reported_mem
      refine ⟨more ++ [r], by rw [hdidnt, heq, List.append_assoc], ?_⟩
      exact List.append_subset.mpr ⟨fun q hq => List.mem_append_left _ (hmore hq),
        List.subset_append_right _ _⟩
    refine ⟨hframe, by rw [hbase]; exact hyLt, hmore, ?_⟩
    rcases h.phase with hunplaced | ⟨before, f, after, hfirst⟩
    · refine Or.inl ⟨?_, fun q hq => ?_⟩
      · rw [hbase, skipAliases_skipAliases h.base_lt, hunplaced.base_eq]
      · rcases List.mem_append.mp hq with hq | hq
        · obtain ⟨hnot, hmem⟩ := hunplaced.reported q hq
          exact ⟨hnot, hkeep q hmem⟩
        · rw [List.mem_singleton.mp hq]
          refine ⟨fun hfit' => hfit (hfits.mpr ?_), hself⟩
          rw [hunplaced.base_eq]
          exact hfit'
    · refine Or.inr ⟨before, f, after ++ [r], by simp [hfirst.split], fun q hq => ?_, hfirst.fits,
        ?_, ?_, fun q hq => ?_, fun a ha => ?_⟩
      · obtain ⟨hnot, hmem⟩ := hfirst.reported q hq
        exact ⟨hnot, hkeep q hmem⟩
      · rw [hdidnt, List.mem_append, not_or, List.mem_singleton]
        exact ⟨hfirst.placed, hne f (by simp [hfirst.split])⟩
      · rw [hother f (hne f (by simp [hfirst.split])), hfirst.base_eq]
      · rcases List.mem_append.mp hq with hq | hq
        · rw [hother q (hne q (by simp [hfirst.split, hq]))]
          exact (hfirst.later q hq).imp_left (hkeep q)
        · exact Or.inl (List.mem_singleton.mp hq ▸ hself)
      · rw [hbase]
        have hle := (ha r (by simp)).trans_lt halign
        exact dvd_skipAliases h.base_lt hle (hfirst.aligned a fun q hq => ha q (by simp [hq]))

lemma IoInv.foldl {s₀ : Store} {base : ℕ} {dl : List ResourceId} (hsized : IoSized s₀ order)
    (hnodup : order.Nodup) (hdl : ∀ r ∈ order, r ∉ dl) (hbridge : bridge ∉ order)
    (hbase : base < 2 ^ 64) (hsorted : order.Pairwise fun x y => (s₀ y).align ≤ (s₀ x).align) :
    IoInv s₀ bridge base dl order
      (order.foldl (fun x r => allocateResource bridge r x) ⟨s₀, base, dl⟩) := by
  induction order using List.reverseRecOn with
  | nil => exact ⟨fun _ _ => rfl, hbase, ⟨[], by simp, by simp⟩, Or.inl ⟨rfl, by simp⟩⟩
  | append_singleton p r ih =>
    obtain ⟨hp, -, hlast⟩ := List.pairwise_append.mp hsorted
    obtain ⟨hnp, -, hdisj⟩ := List.nodup_append.mp hnodup
    rw [List.foldl_append, List.foldl_cons, List.foldl_nil]
    refine IoInv.step (ih ⟨fun q hq => hsized.io q (by simp [hq]), fun q hq => hsized.size q (by simp [hq]),
      fun q hq => hsized.align q (by simp [hq])⟩ hnp (fun q hq => hdl q (by simp [hq]))
      (fun hb => hbridge (by simp [hb])) hp) hsized (fun hr => hdisj r hr r (by simp) rfl)
      (hdl r (by simp)) (fun hb => hbridge (by simp [hb])) fun q hq => hlast q hq r (by simp)

/-! ### The final addresses -/

/-- No address of a resource of at most 0x100 ports that has been placed is an alias. -/
def AliasFree (order : List ResourceId) (x : Store × List ResourceId) : Prop :=
  ∀ r ∈ order, r ∉ x.2 → (x.1 r).size ≤ 0x100 →
    ∀ a, (x.1 r).base ≤ a → a < (x.1 r).base + (x.1 r).size → a &&& 0x300 = 0

/-- The first resource in the order of the loop that fits from the base on. -/
def firstToFit (s : Store) (bridge : ResourceId) (order : List ResourceId) : Option ResourceId :=
  order.find? fun r => decide (FitsAt s bridge (s bridge).base r)

/-- The first resource that fits is larger than 0x100 ports, or ends where the ports without
aliases do. -/
def FirstClear (s : Store) (bridge : ResourceId) (order : List ResourceId) : Prop :=
  ∀ f ∈ firstToFit s bridge order, (s f).size ≤ 0x100 →
    skipAliases (s bridge).base % 0x400 + (s f).size ≤ 0x100

/-- After the loop, the first resource decides. -/
lemma IoInv.aliasFree_iff {s₀ : Store} {dl : List ResourceId} {x : AllocateState}
    (h : IoInv s₀ bridge (s₀ bridge).base dl order x) (hsized : IoSized s₀ order)
    (hbase : (s₀ bridge).base < 2 ^ 64) (hsize : ∀ r, (s' r).size = (s₀ r).size)
    (hkeep : ∀ r ∈ order, (s' r).base = (x.store r).base) {dl' : List ResourceId}
    (hdl' : ∀ r ∈ order, r ∈ dl' ↔ r ∈ x.didntFit) :
    AliasFree order (s', dl') ↔ FirstClear s₀ bridge order := by
  have hblock : ∀ r ∈ order, (s₀ r).size ≤ 0x100 → 2 ^ (s₀ r).align ∣ (s' r).base →
      ((∀ a, (s' r).base ≤ a → a < (s' r).base + (s' r).size → a &&& 0x300 = 0) ↔
        (s' r).base &&& 0x300 = 0) := by
    intro r hr hle hdvd
    have halign : (s₀ r).align ≤ 8 := by
      by_contra hgt
      have hpow : 2 ^ 9 ≤ 2 ^ (s₀ r).align := Nat.pow_le_pow_right (by norm_num) (by omega)
      rw [hsized.size r hr] at hle
      omega
    rw [hsize, hsized.size r hr]
    exact block_clear_iff halign hdvd
  rcases h.phase with hunplaced | ⟨before, f, after, hfirst⟩
  · -- nothing is placed
    have hnone : firstToFit s₀ bridge order = none := by
      rw [firstToFit, List.find?_eq_none]
      intro r hr
      rw [decide_eq_true_eq]
      exact (hunplaced.reported r hr).1
    constructor
    · intro _ f hf
      rw [hnone] at hf
      cases hf
    · intro _ r hr hnot
      exact absurd ((hdl' r hr).mpr (hunplaced.reported r hr).2) hnot
  · obtain ⟨hy, hclear⟩ := skipAliases_clear hbase
    have hf : f ∈ order := by simp [hfirst.split]
    have hsome : firstToFit s₀ bridge order = some f := by
      rw [firstToFit, List.find?_eq_some_iff_append]
      refine ⟨decide_eq_true hfirst.fits, before, after, hfirst.split, fun r hr => ?_⟩
      rw [Bool.not_eq_true', decide_eq_false_iff_not]
      exact (hfirst.reported r hr).1
    have hfbase : (s' f).base = round (skipAliases (s₀ bridge).base) (s₀ f).align := by
      rw [hkeep f hf, hfirst.base_eq]
    have hround := round_spec hy (hsized.align f hf)
    have hfblock : (s₀ f).size ≤ 0x100 →
        ((∀ a, (s' f).base ≤ a → a < (s' f).base + (s' f).size → a &&& 0x300 = 0) ↔
          skipAliases (s₀ bridge).base % 0x400 + (s₀ f).size ≤ 0x100) := by
      intro hle
      rw [hblock f hf hle (hfbase ▸ hround.1), hfbase, hsized.size f hf]
      refine round_clear_iff hy hclear ?_
      by_contra hgt
      have hpow : 2 ^ 9 ≤ 2 ^ (s₀ f).align := Nat.pow_le_pow_right (by norm_num) (by omega)
      rw [hsized.size f hf] at hle
      omega
    constructor
    · intro hfree g hg hle
      rw [hsome] at hg
      obtain rfl := Option.some.inj hg
      refine (hfblock hle).mp (hfree f hf (fun hmem => hfirst.placed ((hdl' f hf).mp hmem)) ?_)
      rwa [hsize]
    · intro hcond r hr hnot hle
      rw [hsize] at hle
      have hr' := hr
      rw [hfirst.split] at hr'
      rcases List.mem_append.mp hr' with hb | hb
      · exact absurd ((hdl' r hr).mpr (hfirst.reported r hb).2) hnot
      rcases List.mem_cons.mp hb with rfl | ha
      · exact (hfblock hle).mpr (hcond r hsome hle)
      · rcases hfirst.later r ha with hmem | ⟨hdvd, hrclear⟩
        · exact absurd ((hdl' r hr).mpr hmem) hnot
        · rw [← hkeep r hr] at hdvd hrclear
          exact (hblock r hr hle hdvd).mpr hrclear

/-! ### The buses below -/

/-- What `allocate_resources` leaves alone outside of the windows `ws`. -/
structure Framed (t : Topology) (s : Store) (depth : ℕ) (ws : List Window)
    (x x' : Store × List ResourceId) : Prop where
  shape : SameShape x.1 x'.1
  size : ∀ r, (x'.1 r).size = (x.1 r).size
  base : ∀ r, (∀ w ∈ ws, r ∉ below t s depth w) → (x'.1 r).base = (x.1 r).base
  reported : ∃ more, x'.2 = x.2 ++ more ∧ ∀ r ∈ more, ∃ w ∈ ws, r ∈ below t s depth w

/-- The loop changes the resources on the bus only. -/
lemma foldl_allocateResource_frame (bridge : ResourceId) (l : List ResourceId) (x : AllocateState) :
    (∀ q, ((l.foldl (fun x r => allocateResource bridge r x) x).store q).size =
        (x.store q).size) ∧
      (∀ q, q ∉ l → (l.foldl (fun x r => allocateResource bridge r x) x).store q = x.store q) ∧
      ∃ more, (l.foldl (fun x r => allocateResource bridge r x) x).didntFit =
        x.didntFit ++ more ∧ more ⊆ l := by
  induction l generalizing x with
  | nil => exact ⟨fun _ => rfl, fun _ _ => rfl, [], by simp, by simp⟩
  | cons r l ih =>
    obtain ⟨hsize, hother, more, hmore, hsub⟩ := ih (allocateResource bridge r x)
    refine ⟨fun q => ?_, fun q hq => ?_, ?_⟩
    · rw [List.foldl_cons, hsize]
      by_cases hq : q = r
      · rw [hq, (allocateResource_self bridge r x).1]
      · rw [allocateResource_other hq]
    · rw [List.mem_cons, not_or] at hq
      rw [List.foldl_cons, hother q hq.2, allocateResource_other hq.1]
    · rw [List.foldl_cons, hmore]
      rcases allocateResource_outcome bridge r x with ⟨-, heq⟩ | heq
      · exact ⟨more, by rw [heq], fun q hq => List.mem_cons_of_mem _ (hsub hq)⟩
      · refine ⟨r :: more, by rw [heq]; simp, List.cons_subset.mpr ⟨by simp, ?_⟩⟩
        exact fun q hq => List.mem_cons_of_mem _ (hsub hq)

/-- The windows on a bus are handled one by one after the loop. -/
private lemma forWindows_framed (hnode : IsNode t s depth w)
    (hchildren : ∀ c ∈ w.childWindows t s, IsTree t s depth c) (hw : w.Typed)
    (ih : ∀ {s : Store} {w : Window} (dl : List ResourceId), IsTree t s depth w → w.Typed →
      ∃ x, allocateResources t depth w (s, dl) = some x ∧ Framed t s depth [w] (s, dl) x)
    {s₁ : Store} (hs₁ : SameShape s s₁) (dl : List ResourceId) :
    ∃ x, forWindows (allocateResources t depth) (w.children t s₁) (s₁, dl) = some x ∧
      Framed t s depth (w.childWindows t s) (s₁, dl) x := by
  have hsame : w.children t s₁ = (w.childWindows t s).map some :=
    (Window.children_congr hs₁ hw).trans hnode.children_eq
  obtain ⟨x, heq, -, hx⟩ := forWindows_run (w.childWindows t s) (f := allocateResources t depth)
    (x := (s₁, dl)) (P := fun p x => p ⊆ w.childWindows t s ∧ Framed t s depth p (s₁, dl) x)
    (fun p c q hws x ⟨hp, hx⟩ => by
      have hc : c ∈ w.childWindows t s := by simp [hws]
      have hshape := hs₁.trans hx.shape
      obtain ⟨x', heq, hx'⟩ := ih x.2 ((hchildren c hc).congr hshape (hw.child hc)) (hw.child hc)
      have hbelow : below t x.1 depth c = below t s depth c := below_congr hshape (hw.child hc)
      refine ⟨x', heq, List.append_subset.mpr ⟨hp, by simpa using hc⟩, hx.shape.trans hx'.shape,
        fun r => (hx'.size r).trans (hx.size r), fun r hr => ?_, ?_⟩
      · refine (hx'.base r fun v hv => ?_).trans (hx.base r fun v hv => hr v (by simp [hv]))
        rw [List.mem_singleton.mp hv, hbelow]
        exact hr c (by simp)
      · obtain ⟨more, hmore, hin⟩ := hx.reported
        obtain ⟨more', hmore', hin'⟩ := hx'.reported
        refine ⟨more ++ more', by rw [hmore', hmore, List.append_assoc], fun r hr => ?_⟩
        rcases List.mem_append.mp hr with hr | hr
        · obtain ⟨v, hv, hrv⟩ := hin r hr
          exact ⟨v, by simp [hv], hrv⟩
        · obtain ⟨v, hv, hrv⟩ := hin' r hr
          rw [List.mem_singleton.mp hv, hbelow] at hrv
          exact ⟨c, by simp, hrv⟩)
    ⟨by simp, .refl s₁, fun _ => rfl, fun _ _ => rfl, [], by simp, by simp⟩
  exact ⟨x, by rw [hsame, heq], hx⟩

/-- The loop over the bus of a window. -/
def busLoop (s : Store) (w : Window) (found dl : List ResourceId) : AllocateState :=
  (takeOrder s found).foldl (fun x r => allocateResource w.bridge r x)
    ⟨s, (s w.bridge).base, dl⟩

/-- The store after the loop over the bus of a window, and the flag of the bridge. -/
def afterLoop (s : Store) (w : Window) (found dl : List ResourceId) : Store :=
  (busLoop s w found dl).store.modify w.bridge fun b =>
    { b with flags := b.flags ||| IORESOURCE_ASSIGNED }

lemma afterLoop_sameShape (dl : List ResourceId) : SameShape s (afterLoop s w found dl) :=
  (foldl_allocateResource_sameOrder found).1.trans (SameShape.modify rfl (and_status_assign _))

lemma afterLoop_fields (dl : List ResourceId) (r : ResourceId) :
    (afterLoop s w found dl r).size = ((busLoop s w found dl).store r).size ∧
      (afterLoop s w found dl r).base = ((busLoop s w found dl).store r).base := by
  rw [afterLoop]
  by_cases hr : r = w.bridge
  · rw [hr, Store.modify_self]
    exact ⟨rfl, rfl⟩
  · rw [Store.modify_of_ne hr]
    exact ⟨rfl, rfl⟩

/-- `allocate_resources` is the loop, and then the windows on the bus. -/
lemma allocateResources_succ (hw : w.Typed) (hfound : w.resources t (depth + 1) s = some found)
    (hnodup : found.Nodup) (dl : List ResourceId) :
    allocateResources t (depth + 1) w (s, dl) =
      forWindows (allocateResources t depth) (w.children t (afterLoop s w found dl))
        (afterLoop s w found dl, (busLoop s w found dl).didntFit) := by
  have hloop : forLargest t (depth + 1) w AllocateState.store (allocateResource w.bridge)
      ⟨s, (s w.bridge).base, dl⟩ = some (busLoop s w found dl) :=
    forLargest_eq hw hfound hnodup fun y r _ hy => hy.trans allocateResource_sameOrder
  rw [allocateResources, hloop, Option.bind_some]
  rfl

/-- The second pass over a tree ends, and changes the resources below the window only. -/
lemma allocateResources_framed (dl : List ResourceId) (htree : IsTree t s depth w) (hw : w.Typed) :
    ∃ x, allocateResources t depth w (s, dl) = some x ∧ Framed t s depth [w] (s, dl) x := by
  induction depth generalizing s w dl with
  | zero => exact htree.elim
  | succ depth ih =>
    obtain ⟨hnode, hchildren⟩ := htree
    obtain ⟨found, hfound⟩ := Option.isSome_iff_exists.mp hnode.found
    have htaken : ∀ r ∈ takeOrder s found, r ∈ below t s (depth + 1) w := fun r hr =>
      mem_below_of_found hfound (mem_movable.mp (takeOrder_subset hr)).1
    obtain ⟨hsize, hother, more, hmore, hsub⟩ := foldl_allocateResource_frame w.bridge
      (takeOrder s found) ⟨s, (s w.bridge).base, dl⟩
    have hshape := @afterLoop_sameShape s w found dl
    obtain ⟨x, heq, hx⟩ :=
      forWindows_framed hnode hchildren hw ih hshape (busLoop s w found dl).didntFit
    refine ⟨x, by rw [allocateResources_succ hw hfound (hnode.nodup found hfound), heq],
      hshape.trans hx.shape, fun r => ?_, fun r hr => ?_, ?_⟩
    · rw [hx.size, (afterLoop_fields dl r).1]
      exact hsize r
    · have hr' := hr w (by simp)
      rw [hx.base r fun c hc hrc => hr' (mem_below_of_child hc (List.mem_cons_of_mem _ hrc)),
        (afterLoop_fields dl r).2]
      exact congrArg Resource.base (hother r fun hrt => hr' (htaken r hrt))
    · obtain ⟨more', hmore', hin⟩ := hx.reported
      refine ⟨more ++ more', by rw [hmore', ← List.append_assoc, ← hmore]; rfl, fun r hr => ?_⟩
      refine ⟨w, by simp, ?_⟩
      rcases List.mem_append.mp hr with hr | hr
      · exact htaken r (hsub hr)
      · obtain ⟨c, hc, hrc⟩ := hin r hr
        exact mem_below_of_child hc (List.mem_cons_of_mem _ hrc)

/-- On every bus, no I/O resource of at most 0x100 ports is placed on an alias if and only if the
first one that is placed is not. -/
theorem allocateResources_aliasFree_iff (htree : IsTree t s (depth + 1) w) (hw : w.Typed)
    (hfound : w.resources t (depth + 1) s = some found) (hsized : IoSized s (takeOrder s found))
    (hbase : (s w.bridge).base < 2 ^ 64) {dl : List ResourceId} (hdl : ∀ r ∈ found, r ∉ dl) :
    ∃ x, allocateResources t (depth + 1) w (s, dl) = some x ∧
      (AliasFree (takeOrder s found) x ↔ FirstClear s w.bridge (takeOrder s found)) := by
  obtain ⟨hnode, hchildren⟩ := htree
  have hnodup := hnode.nodup found hfound
  obtain ⟨-, hperm, hsorted⟩ := takeOrder_spec (s := s) hnodup
  have hmem : ∀ r ∈ takeOrder s found, r ∈ found :=
    fun r hr => (mem_movable.mp (takeOrder_subset hr)).1
  have hbridge : w.bridge ∉ takeOrder s found := fun h =>
    hnode.bridge (mem_below_of_found hfound (hmem _ h))
  have hsorted' : (takeOrder s found).Pairwise fun x y => (s y).align ≤ (s x).align := by
    refine hsorted.imp fun {x y} hle => ?_
    rw [sortKey, sortKey, Prod.Lex.toLex_le_toLex] at hle
    rcases hle with hlt | heq
    · exact hlt.le
    · exact heq.1.le
  have hinv : IoInv s w.bridge (s w.bridge).base dl (takeOrder s found) (busLoop s w found dl) :=
    IoInv.foldl hsized (hperm.nodup_iff.mpr (hnodup.filter _)) (fun r hr => hdl r (hmem r hr))
      hbridge hbase hsorted'
  have hshape := @afterLoop_sameShape s w found dl
  obtain ⟨x, heq, hx⟩ := forWindows_framed hnode hchildren hw allocateResources_framed hshape
    (busLoop s w found dl).didntFit
  obtain ⟨hsize, -, -⟩ := foldl_allocateResource_frame w.bridge (takeOrder s found)
    ⟨s, (s w.bridge).base, dl⟩
  -- what is on the bus is not below a window on it
  have hapart : ∀ r ∈ takeOrder s found, ∀ c ∈ w.childWindows t s, r ∉ below t s depth c :=
    fun r hr c hc => hnode.apart found hfound c hc r (hmem r hr)
  refine ⟨x, by rw [allocateResources_succ hw hfound hnodup, heq], ?_⟩
  refine hinv.aliasFree_iff hsized hbase (fun r => ?_) (fun r hr => ?_) (fun r hr => ?_)
  · rw [hx.size, (afterLoop_fields dl r).1]
    exact hsize r
  · rw [hx.base r (hapart r hr), (afterLoop_fields dl r).2]
  · obtain ⟨more, hmore, hin⟩ := hx.reported
    rw [hmore, List.mem_append]
    refine ⟨fun h => h.resolve_right fun hr' => ?_, Or.inl⟩
    obtain ⟨c, hc, hrc⟩ := hin r hr'
    exact hapart r hr c hc hrc

/-- A window that starts at `base`, and a resource of 0x100 ports and one of 0x10 on its bus. -/
def portStore (base : ℕ) : Store
  | 0 => ⟨base, 0x1000, 0xffff, IO_TYPE ||| IORESOURCE_BRIDGE, 0, 12, 12⟩
  | 1 => ⟨0, 0x100, 0xffff, IO_TYPE, 0, 8, 8⟩
  | 2 => ⟨0, 0x10, 0xffff, IO_TYPE, 0, 4, 4⟩
  | _ => ⟨0, 0, 0, 0, 0, 0, 0⟩

theorem allocateResources_aliasFree_iff_ports :
    ∃ x, allocateResources (bridgeTopology fun _ => true) 3 ioWindow (portStore 0x1000, []) =
        some x ∧ AliasFree (takeOrder (portStore 0x1000) [1, 2]) x := by
  have horder : takeOrder (portStore 0x1000) [1, 2] = [1, 2] := by decide
  have hsized : IoSized (portStore 0x1000) (takeOrder (portStore 0x1000) [1, 2]) := by
    rw [horder]
    exact ⟨by decide, by decide, by decide⟩
  have htree : IsTree (bridgeTopology fun _ => true) (portStore 0x1000) 3 ioWindow := by decide +kernel
  have hnone : ∀ r ∈ takeOrder (portStore 0x1000) [1, 2], r ∉ ([] : List ResourceId) := by simp
  obtain ⟨x, hx, hiff⟩ :=
    allocateResources_aliasFree_iff htree (by decide) rfl hsized (by decide) hnone
  refine ⟨x, hx, hiff.mpr ?_⟩
  unfold FirstClear
  decide +kernel

/-- A window that starts within the ports without aliases: aligning the first resource leads out
of them. -/
theorem not_aliasFree :
    ∃ x, allocateResources (bridgeTopology fun _ => true) 3 ioWindow (portStore 0x1010, []) =
        some x ∧
      (x.1 1).base = 0x1100 ∧ 1 ∉ x.2 ∧
      ¬AliasFree (takeOrder (portStore 0x1010) [1, 2]) x := by
  refine ⟨_, rfl, by decide +kernel, by decide +kernel, fun h => ?_⟩
  have := h 1 (by decide) (by decide +kernel) (by decide +kernel) 0x1100 (by decide +kernel)
    (by decide +kernel)
  exact absurd this (by decide)

end ApuBios.Allocator
