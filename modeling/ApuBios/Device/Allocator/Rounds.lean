import ApuBios.Device.Allocator.Aliases
import ApuBios.Library.Transition

/-!
# Rounds in which resources do not fit

The loop of `allocate_resources` on one bus, whether its resources fit or not. What counts as
assigned after it is aligned, in its limits and apart, as long as no round wraps around and what
does not fit is neither a window of a bridge nor counted as assigned before.
-/

namespace ApuBios.Allocator

open Packing Transition

variable {t : Topology} {s s' : Store} {w c : Window} {depth B : ℕ} {r q bridge : ResourceId}
  {found p : List ResourceId} {x x' : AllocateState}

/-! ### One round -/

/-- The base from which the resource is placed. -/
def startOf (x : AllocateState) (r : ResourceId) : ℕ :=
  if (x.store r).has IORESOURCE_IO then skipAliases x.base else x.base

/-- The test of the loop is passed. -/
def Accepts (bridge : ResourceId) (x : AllocateState) (r : ResourceId) : Prop :=
  Word.sub 64 (Word.add 64 (round (startOf x r) (x.store r).align) (x.store r).size) 1 ≤
    min (x.store r).limit (x.store bridge).limit

instance : Decidable (Accepts bridge x r) := inferInstanceAs (Decidable (_ ≤ _))

lemma allocateResource_accepted (hsize : (x.store r).size ≠ 0) (h : Accepts bridge x r) :
    allocateResource bridge r x = { x with
      store := x.store.modify r fun a => { a with
        base := round (startOf x r) a.align
        limit := min a.limit (x.store bridge).limit
        flags := (a.flags ||| IORESOURCE_ASSIGNED) &&& ~~~IORESOURCE_STORED }
      base := Word.add 64 (round (startOf x r) (x.store r).align) (x.store r).size } := by
  have hflag : ∀ l, ({ x.store r with limit := l } : Resource).has IORESOURCE_IO =
      (x.store r).has IORESOURCE_IO := fun _ => rfl
  rw [Accepts, startOf] at h
  simp only [allocateResource, modify_limit_resource, Store.modify_self, if_neg hsize, hflag,
    if_pos h]
  rw [Store.modify, Store.modify, Store.modify, Function.update_idem, Function.update_self]
  rfl

lemma allocateResource_refused (hsize : (x.store r).size ≠ 0) (h : ¬Accepts bridge x r) :
    allocateResource bridge r x = { x with
      store := x.store.modify r fun a => { a with limit := min a.limit (x.store bridge).limit }
      base := startOf x r
      didntFit := x.didntFit ++ [r] } := by
  have hflag : ∀ l, ({ x.store r with limit := l } : Resource).has IORESOURCE_IO =
      (x.store r).has IORESOURCE_IO := fun _ => rfl
  rw [Accepts, startOf] at h
  simp only [allocateResource, modify_limit_resource, Store.modify_self, if_neg hsize, hflag,
    if_neg h]
  rfl

/-- The fields that every round leaves or sets alike. -/
lemma allocateResource_limit (bridge r : ResourceId) (x : AllocateState) :
    ((allocateResource bridge r x).store r).limit =
        min (x.store r).limit (x.store bridge).limit ∧
      ((allocateResource bridge r x).store r).gran = (x.store r).gran := by
  by_cases hsize : (x.store r).size = 0
  · rw [allocateResource_zero hsize]
    simp only [Store.modify_self, and_self]
  · by_cases h : Accepts bridge x r
    · rw [allocateResource_accepted hsize h]
      simp only [Store.modify_self, and_self]
    · rw [allocateResource_refused hsize h]
      simp only [Store.modify_self, and_self]

/-- Nothing goes wrong in the round: neither the base nor the end of a resource that is placed has
wrapped around, and one that does not fit is neither a window of a bridge nor counted as assigned
before. -/
structure GoodRound (t : Topology) (w : Window) (x : AllocateState) (r : ResourceId) : Prop where
  placed : (x.store r).size ≠ 0 → Accepts w.bridge x r →
    (x.store w.bridge).base ≤ x.base ∧ place x.store x.base r + (x.store r).size ≤ 2 ^ 64
  refused : (x.store r).size ≠ 0 → ¬Accepts w.bridge x r →
    (x.store r).has IORESOURCE_ASSIGNED = false ∧ ∀ c ∈ w.childWindows t x.store, c.bridge ≠ r

instance : Decidable (GoodRound t w x r) :=
  decidable_of_iff (((x.store r).size ≠ 0 → Accepts w.bridge x r →
      (x.store w.bridge).base ≤ x.base ∧ place x.store x.base r + (x.store r).size ≤ 2 ^ 64) ∧
    ((x.store r).size ≠ 0 → ¬Accepts w.bridge x r →
      (x.store r).has IORESOURCE_ASSIGNED = false ∧ ∀ c ∈ w.childWindows t x.store, c.bridge ≠ r))
    ⟨fun ⟨placed, refused⟩ => ⟨placed, refused⟩, fun h => ⟨h.placed, h.refused⟩⟩

/-- What is placed without wrapping around is where `place` says, and in its limits. -/
lemma Accepts.place (h : Accepts bridge x r) (hsize : (x.store r).size ≠ 0)
    (halign : (x.store r).align < 64)
    (hend : Allocator.place x.store x.base r + (x.store r).size ≤ 2 ^ 64) :
    round (startOf x r) (x.store r).align = Allocator.place x.store x.base r ∧
      Allocator.place x.store x.base r + (x.store r).size ≤
        min (x.store r).limit (x.store bridge).limit + 1 := by
  have hround : round (startOf x r) (x.store r).align = Allocator.place x.store x.base r :=
    round_skipAliases_eq hsize halign (by omega)
  refine ⟨hround, ?_⟩
  have hlast := Word.sub_add_one (w := 64)
    (show 0 < Allocator.place x.store x.base r + (x.store r).size by omega) hend
  rw [Accepts, hround, hlast] at h
  omega

lemma skip_mono {a b : ℕ} (hab : a ≤ b) : skip a ≤ skip b := by
  unfold skip
  split_ifs with ha hb hb
  · omega
  · -- the aliases of a block are at its end
    rw [ne_eq, and_aliases_iff] at ha
    rw [not_not, and_aliases_iff] at hb
    omega
  · omega
  · exact hab

lemma place_mono {a b : ℕ} (hab : a ≤ b) : place s a r ≤ place s b r := by
  unfold place
  split_ifs
  · exact hab
  · exact Word.roundUp_mono (skip_mono hab)
  · exact Word.roundUp_mono hab

/-- The base is moved forward, unless it wraps around to zero. -/
lemma startOf_cases (hsize : (x.store r).size ≠ 0) (hbase : x.base < 2 ^ 64) :
    (x.base ≤ startOf x r ∧ startOf x r < 2 ^ 64 ∧ startOf x r ≤ place x.store x.base r) ∨
      (startOf x r = 0 ∧ 2 ^ 64 ≤ place x.store x.base r) := by
  rw [startOf, place, if_neg hsize]
  split_ifs
  · by_cases hskip : skip x.base < 2 ^ 64
    · rw [skipAliases_eq hskip]
      exact Or.inl ⟨le_skip, hskip, Word.le_roundUp⟩
    · refine Or.inr ⟨?_, (not_lt.mp hskip).trans Word.le_roundUp⟩
      have hdown : x.base &&& Word.not 64 0x3ff = x.base / 0x400 * 0x400 :=
        @Word.alignDown_eq 64 10 x.base (by decide) hbase
      unfold skip at hskip
      split_ifs at hskip with halias
      · rw [skipAliases, if_pos halias, hdown, Word.add]
        omega
      · exact absurd hbase hskip
  · exact Or.inl ⟨le_rfl, hbase, Word.le_roundUp⟩

/-! ### The loop -/

/-- The resource is nonempty and counts as assigned. -/
def Resource.Occupies (a : Resource) : Prop := a.size ≠ 0 ∧ a.has IORESOURCE_ASSIGNED = true

instance (a : Resource) : Decidable a.Occupies := inferInstanceAs (Decidable (_ ∧ _))

/-- After the resources `p`, starting from the store `s₀` and the base `B`. -/
structure RunInv (t : Topology) (s₀ : Store) (w : Window) (B : ℕ) (p : List ResourceId)
    (x : AllocateState) : Prop where
  frame : ∀ q, q ∉ p → x.store q = s₀ q
  placed : ∀ r ∈ p, (x.store r).Occupies → 2 ^ (x.store r).align ∣ (x.store r).base ∧
    B ≤ (x.store r).base ∧ (x.store r).base + (x.store r).size ≤ (x.store r).limit + 1 ∧
      (x.store r).base + (x.store r).size ≤ packResources s₀ B p
  apart : ∀ r ∈ p, ∀ q ∈ p, r ≠ q → (x.store r).Occupies → (x.store q).Occupies →
    (x.store r).base + (x.store r).size ≤ (x.store q).base ∨
      (x.store q).base + (x.store q).size ≤ (x.store r).base
  limit : ∀ r ∈ p, (x.store r).limit ≤ (s₀ w.bridge).limit
  windows : ∀ c ∈ w.childWindows t s₀, c.bridge ∈ p → (x.store c.bridge).size ≠ 0 →
    (x.store c.bridge).has IORESOURCE_ASSIGNED = true
  /-- the base is behind all that is placed, or has wrapped around -/
  cursor : (B ≤ x.base ∧ x.base < 2 ^ 64 ∧ x.base ≤ packResources s₀ B p ∧
    ∀ r ∈ p, (x.store r).Occupies → (x.store r).base + (x.store r).size ≤ x.base) ∨
      (x.base = 0 ∧ 0 < B)

lemma packResources_append_singleton (x : ℕ) :
    packResources s x (p ++ [r]) = place s (packResources s x p) r + (s r).size := by
  rw [packResources, pack_append]
  rfl

/-- One more resource. -/
private lemma RunInv.extend {s₀ : Store} (h : RunInv t s₀ w B p x) (hrp : r ∉ p)
    (hother : ∀ q, q ≠ r → x'.store q = x.store q)
    (hplaced : (x'.store r).Occupies → 2 ^ (x'.store r).align ∣ (x'.store r).base ∧
      B ≤ (x'.store r).base ∧ (x'.store r).base + (x'.store r).size ≤ (x'.store r).limit + 1 ∧
        (x'.store r).base + (x'.store r).size ≤ packResources s₀ B (p ++ [r]))
    (hbehind : (x'.store r).Occupies → ∀ q ∈ p, (x.store q).Occupies →
      (x.store q).base + (x.store q).size ≤ (x'.store r).base)
    (hlimit : (x'.store r).limit ≤ (s₀ w.bridge).limit)
    (hwindow : ∀ c ∈ w.childWindows t s₀, c.bridge = r → (x'.store r).size ≠ 0 →
      (x'.store r).has IORESOURCE_ASSIGNED = true)
    (hcursor : (B ≤ x'.base ∧ x'.base < 2 ^ 64 ∧ x'.base ≤ packResources s₀ B (p ++ [r]) ∧
      (∀ q ∈ p, (x.store q).Occupies → (x.store q).base + (x.store q).size ≤ x'.base) ∧
      ((x'.store r).Occupies → (x'.store r).base + (x'.store r).size ≤ x'.base)) ∨
        (x'.base = 0 ∧ 0 < B)) : RunInv t s₀ w B (p ++ [r]) x' := by
  have hmem : ∀ {q}, q ∈ p ++ [r] → q ≠ r → q ∈ p := fun hq hqr => by simpa [hqr] using hq
  have hle : packResources s₀ B p ≤ packResources s₀ B (p ++ [r]) := by
    rw [packResources_append_singleton]
    exact le_place.trans (Nat.le_add_right _ _)
  refine ⟨fun q hq => ?_, fun q hq hqs => ?_, fun a ha b hb hab has hbs => ?_, fun q hq => ?_,
    fun c hc hcp hcs => ?_, hcursor.imp_left fun ⟨hlow, hlt, hpack, hp, hr⟩ =>
      ⟨hlow, hlt, hpack, fun q hq hqs => ?_⟩⟩
  · rw [hother q fun hqr => hq (by simp [hqr])]
    exact h.frame q fun hqp => hq (by simp [hqp])
  · by_cases hqr : q = r
    · exact hqr ▸ hplaced (hqr ▸ hqs)
    · rw [hother q hqr] at hqs ⊢
      obtain ⟨haligned, hlow, hlimit, hhigh⟩ := h.placed q (hmem hq hqr) hqs
      exact ⟨haligned, hlow, hlimit, hhigh.trans hle⟩
  · by_cases har : a = r
    · subst har
      rw [hother b (Ne.symm hab)] at hbs ⊢
      exact Or.inr (hbehind has b (hmem hb (Ne.symm hab)) hbs)
    · rw [hother a har] at has ⊢
      by_cases hbr : b = r
      · subst hbr
        exact Or.inl (hbehind hbs a (hmem ha har) has)
      · rw [hother b hbr] at hbs ⊢
        exact h.apart a (hmem ha har) b (hmem hb hbr) hab has hbs
  · by_cases hqr : q = r
    · exact hqr ▸ hlimit
    · rw [hother q hqr]
      exact h.limit q (hmem hq hqr)
  · by_cases hcr : c.bridge = r
    · exact hcr ▸ hwindow c hc hcr (hcr ▸ hcs)
    · rw [hother _ hcr] at hcs ⊢
      exact h.windows c hc (hmem hcp hcr) hcs
  · by_cases hqr : q = r
    · exact hqr ▸ hr (hqr ▸ hqs)
    · rw [hother q hqr] at hqs ⊢
      exact hp q (hmem hq hqr) hqs

/-- Every good round keeps the invariant. -/
lemma RunInv.step {s₀ : Store} (h : RunInv t s₀ w B p x) (hB : (s₀ w.bridge).base = B) (hrp : r ∉ p)
    (hbp : w.bridge ∉ p) (halign : (s₀ r).align < 64) (hpack : packResources s₀ 0 (p ++ [r]) < 2 ^ 64)
    (hchildren : w.childWindows t x.store = w.childWindows t s₀) (hgood : GoodRound t w x r) :
    RunInv t s₀ w B (p ++ [r]) (allocateResource w.bridge r x) := by
  have hr : x.store r = s₀ r := h.frame r hrp
  have hb : (x.store w.bridge).base = B := (congrArg Resource.base (h.frame _ hbp)).trans hB
  have hother : ∀ q, q ≠ r → (allocateResource w.bridge r x).store q = x.store q :=
    fun q hq => allocateResource_other hq
  have hplace : ∀ y, place x.store y r = place s₀ y r := fun y => by rw [place, place, hr]
  have hsingle := @packResources_append_singleton s₀ r p
  have hlim : ((allocateResource w.bridge r x).store r).limit ≤ (s₀ w.bridge).limit := by
    rw [(allocateResource_limit w.bridge r x).1, h.frame _ hbp]
    exact min_le_right _ _
  by_cases hsize : (x.store r).size = 0
  · -- a resource of size zero does not move the base
    have hempty : ((allocateResource w.bridge r x).store r).size = 0 :=
      (allocateResource_self w.bridge r x).1.trans hsize
    have hbase : (allocateResource w.bridge r x).base = x.base := by
      rw [allocateResource_zero hsize]
    have hsame : packResources s₀ B (p ++ [r]) = packResources s₀ B p := by
      rw [hsingle, ← hplace, place, if_pos hsize, ← hr, hsize, Nat.add_zero]
    refine h.extend hrp hother (fun hocc => absurd hempty hocc.1)
      (fun hocc => absurd hempty hocc.1) hlim (fun _ _ _ hs => absurd hempty hs) ?_
    rw [hbase, hsame]
    refine h.cursor.imp_left fun hforward => ?_
    obtain ⟨hlow, hlt, hle, hp⟩ := hforward
    exact ⟨hlow, hlt, hle, hp, fun hocc => absurd hempty hocc.1⟩
  by_cases haccepts : Accepts w.bridge x r
  · obtain ⟨hlow, hend⟩ := hgood.placed hsize haccepts
    obtain ⟨hround, hlimit⟩ := haccepts.place hsize (hr ▸ halign) hend
    rw [hb] at hlow
    obtain ⟨-, hlt, hle, hp⟩ | ⟨hzero, hpos⟩ := h.cursor
    · have hself := allocateResource_accepted hsize haccepts
      have hstep : place x.store x.base r + (x.store r).size ≤ packResources s₀ B (p ++ [r]) := by
        rw [hsingle, hplace, hr]
        exact Nat.add_le_add_right (place_mono hle) _
      have hbehind : x.base ≤ place x.store x.base r := le_place
      refine h.extend hrp hother (fun _ => ?_) (fun _ q hq hqs => ?_) hlim
        (fun _ _ _ _ => ?_) ?_
      · rw [hself]
        simp only [Store.modify_self, hround]
        exact ⟨dvd_place hsize, hlow.trans hbehind, hlimit, hstep⟩
      · rw [hself]
        simp only [Store.modify_self, hround]
        exact (hp q hq hqs).trans hbehind
      · rw [hself]
        simp only [Store.modify_self]
        exact assigned_of_assign _
      · rw [hself]
        simp only [Store.modify_self, hround]
        rcases hend.lt_or_eq with hlt' | heq
        · rw [Word.add_eq hlt']
          exact Or.inl ⟨by omega, hlt', hstep, fun q hq hqs => by
            have := hp q hq hqs
            omega, fun _ => le_rfl⟩
        · -- the resource ends where the address space does
          refine Or.inr ⟨by rw [Word.add, heq, Nat.mod_self], ?_⟩
          by_contra hB0
          obtain rfl : B = 0 := by omega
          omega
    · omega
  · obtain ⟨hunassigned, hbridges⟩ := hgood.refused hsize haccepts
    have hself := allocateResource_refused hsize haccepts
    have hnot : ¬((allocateResource w.bridge r x).store r).Occupies := fun hocc => by
      have hassigned := hocc.2
      rw [hself] at hassigned
      simp only [Store.modify_self] at hassigned
      exact absurd (hunassigned.symm.trans hassigned) (by decide)
    refine h.extend hrp hother (fun hocc => absurd hocc hnot) (fun hocc => absurd hocc hnot) hlim
      (fun c hc hcr _ => absurd hcr (hbridges c (hchildren ▸ hc))) ?_
    rw [hself]
    obtain ⟨hlow, hlt, hle, hp⟩ | ⟨hzero, hpos⟩ := h.cursor
    · have hmono : place x.store x.base r ≤ packResources s₀ B (p ++ [r]) := by
        rw [hsingle, hplace]
        exact (place_mono hle).trans (Nat.le_add_right _ _)
      rcases startOf_cases hsize hlt with ⟨hle', hlt', hplace'⟩ | ⟨hzero, hwrap⟩
      · refine Or.inl ⟨hlow.trans hle', hlt', hplace'.trans hmono, fun q hq hqs =>
          (hp q hq hqs).trans hle', fun hocc => absurd hocc (hself ▸ hnot)⟩
      · refine Or.inr ⟨hzero, ?_⟩
        by_contra hB0
        obtain rfl : B = 0 := by omega
        omega
    · refine Or.inr ⟨?_, hpos⟩
      show startOf x r = 0
      rw [startOf, hzero]
      split_ifs
      · rfl
      · rfl

/-- The body of the loop as a step. -/
def roundStep (bridge : ResourceId) (x : AllocateState) (r : ResourceId) : Option AllocateState :=
  some (allocateResource bridge r x)

lemma RunInv.foldl {s₀ : Store} (h : RunInv t s₀ w B p x) (hB : (s₀ w.bridge).base = B)
    {l : List ResourceId} (hnodup : (p ++ l).Nodup) (hbridge : w.bridge ∉ p ++ l)
    (halign : ∀ r, (s₀ r).align < 64) (hpack : packResources s₀ 0 (p ++ l) < 2 ^ 64)
    (hw : w.Typed) (hshape : SameShape s₀ x.store)
    (hgood : Admits (roundStep w.bridge) (GoodRound t w) x l) :
    RunInv t s₀ w B (p ++ l) (l.foldl (fun x r => allocateResource w.bridge r x) x) := by
  induction l generalizing p x with
  | nil => simpa using h
  | cons r l ih =>
    rw [List.append_cons] at hnodup hbridge hpack ⊢
    have hrp : r ∉ p := by
      have := (List.nodup_append'.mp hnodup.of_append_left).2.2
      exact fun hr => this hr (by simp)
    have hpack' : packResources s₀ 0 (p ++ [r]) ≤ packResources s₀ 0 (p ++ [r] ++ l) := by
      rw [packResources, packResources, @pack_append _ _ _ _ (p ++ [r])]
      exact le_pack fun _ _ _ => le_place
    refine ih (h.step hB hrp (fun hp => hbridge (by simp [hp])) (halign r) (by omega)
      (Window.childWindows_congr hshape hw) hgood.1) hnodup hbridge hpack
      (hshape.trans (@allocateResource_sameOrder r w.bridge [] x).1) (hgood.2 _ rfl)

/-! ### Fields that change little -/

lemma round_lt {a : ℕ} (ha : a < 64) (y : ℕ) : round y a < 2 ^ 64 :=
  (Word.alignDown_le ha.le Word.add_lt).trans_lt Word.add_lt

/-- The fields are numbers of their types. -/
structure Sound (s : Store) : Prop where
  valid : Valid s
  base : ∀ r, (s r).base < 2 ^ 64

lemma Sound.allocateResource (h : Sound x.store) (bridge r : ResourceId) :
    Sound (allocateResource bridge r x).store := by
  obtain ⟨hsize, halign, -, -⟩ := allocateResource_self bridge r x
  obtain ⟨hlimit, hgran⟩ := allocateResource_limit bridge r x
  obtain ⟨hsize', hlimit', halign', hgran'⟩ := h.valid r
  have hmin : min (x.store r).limit (x.store bridge).limit < 2 ^ 64 :=
    (min_le_left _ _).trans_lt hlimit'
  refine ⟨fun q => ?_, fun q => ?_⟩
  · by_cases hq : q = r
    · rw [hq, hsize, hlimit, halign, hgran]
      exact ⟨hsize', hmin, halign', hgran'⟩
    · rw [allocateResource_other hq]
      exact h.valid q
  · by_cases hq : q = r
    · subst hq
      by_cases hzero : (x.store q).size = 0
      · rw [allocateResource_zero hzero]
        simpa only [Store.modify_self] using hmin
      · by_cases haccepts : Accepts bridge x q
        · rw [allocateResource_accepted hzero haccepts]
          simp only [Store.modify_self]
          exact round_lt halign' _
        · rw [allocateResource_refused hzero haccepts]
          simpa only [Store.modify_self] using h.base q
    · rw [allocateResource_other hq]
      exact h.base q

lemma Sound.foldl (h : Sound x.store) (bridge : ResourceId) (l : List ResourceId) :
    Sound (l.foldl (fun x r => Allocator.allocateResource bridge r x) x).store := by
  induction l generalizing x with
  | nil => exact h
  | cons r l ih => exact ih (h.allocateResource bridge r)

/-- What neither the second pass nor what comes before it changes below the domains. -/
def SameSizes (s s' : Store) : Prop :=
  ∀ r, (s' r).size = (s r).size ∧ (s' r).align = (s r).align

lemma SameSizes.refl (s : Store) : SameSizes s s := fun _ => ⟨rfl, rfl⟩

lemma SameSizes.trans {s'' : Store} (h : SameSizes s s') (h' : SameSizes s' s'') : SameSizes s s'' :=
  fun r => ⟨(h' r).1.trans (h r).1, (h' r).2.trans (h r).2⟩

lemma SameSizes.takeOrder_eq (h : SameSizes s s') (hs : SameShape s s') (found : List ResourceId) :
    takeOrder s' found = takeOrder s found :=
  SameOrder.takeOrder_eq ⟨hs, fun r _ => by rw [sortKey, (h r).1, (h r).2, sortKey]⟩

lemma SameSizes.packResources_eq (h : SameSizes s s') (hs : SameShape s s') (y : ℕ)
    (l : List ResourceId) : packResources s' y l = packResources s y l :=
  pack_congr (fun _ r _ => place_congr (h r).1 (h r).2 (hs.has_eq (by decide) r)) fun r _ => (h r).1

lemma foldl_allocateResource_sameSizes (bridge : ResourceId) (l : List ResourceId)
    (x : AllocateState) :
    SameSizes x.store (l.foldl (fun x r => allocateResource bridge r x) x).store := by
  induction l generalizing x with
  | nil => exact .refl _
  | cons r l ih =>
    refine SameSizes.trans (fun q => ?_) (ih _)
    by_cases hq : q = r
    · obtain ⟨hsize, halign, -, -⟩ := allocateResource_self bridge r x
      rw [hq]
      exact ⟨hsize, halign⟩
    · rw [allocateResource_other hq]
      exact ⟨rfl, rfl⟩

/-! ### The recursion -/

/-- What holds of a bus after the second pass has been there. -/
structure LaidOutAt (t : Topology) (s : Store) (w : Window) (found : List ResourceId) : Prop where
  placed : ∀ r ∈ movable s found, (s r).Occupies → 2 ^ (s r).align ∣ (s r).base ∧
    (s w.bridge).base ≤ (s r).base ∧ (s r).base + (s r).size ≤ (s r).limit + 1 ∧
      (s r).base + (s r).size ≤ packResources s (s w.bridge).base (takeOrder s found)
  apart : ∀ r ∈ movable s found, ∀ q ∈ movable s found, r ≠ q → (s r).Occupies → (s q).Occupies →
    (s r).base + (s r).size ≤ (s q).base ∨ (s q).base + (s q).size ≤ (s r).base
  limit : ∀ r ∈ movable s found, (s r).limit ≤ (s w.bridge).limit
  windows : ∀ c ∈ w.childWindows t s, c.bridge ∈ found →
    (s c.bridge).has IORESOURCE_ASSIGNED = true

/-- Every round of the calls of `allocate_resources` for a window and those below meets `G`. -/
def EachRound (t : Topology) (G : Window → AllocateState → ResourceId → Prop) :
    (depth : ℕ) → Window → Store × List ResourceId → Prop
  | 0, _, _ => True
  | depth + 1, w, (s, didntFit) => ∀ found ∈ w.resources t (depth + 1) s,
      Admits (roundStep w.bridge) (G w) ⟨s, (s w.bridge).base, didntFit⟩ (takeOrder s found) ∧
      Admits (fun x c => c.bind fun c => allocateResources t depth c x)
        (fun x c => ∀ v ∈ c, EachRound t G depth v x)
        (afterLoop s w found didntFit, (busLoop s w found didntFit).didntFit)
        (w.children t (afterLoop s w found didntFit))

/-- What `allocate_resources` does for the windows `ws`. -/
structure LaidOut (t : Topology) (s s' : Store) (depth : ℕ) (ws : List Window) : Prop where
  shape : SameShape s s'
  sound : Sound s'
  sizes : SameSizes s s'
  frame : ∀ r, (∀ w ∈ ws, r ∉ region t s depth w) → s' r = s r
  fixed : ∀ r, isFixed s r = true → (s' r).base = (s r).base
  bridge : ∀ w ∈ ws, s' w.bridge =
    { s w.bridge with flags := (s w.bridge).flags ||| IORESOURCE_ASSIGNED }
  buses : ∀ w ∈ ws, Everywhere t s' (LaidOutAt t s') depth w

/-- What the resources on the bus of each window take is a 64-bit number. -/
abbrev PackFits (t : Topology) (s : Store) (depth : ℕ) (w : Window) : Prop :=
  Everywhere t s (fun _ found => packResources s 0 (takeOrder s found) < 2 ^ 64) depth w

lemma PackFits.congr (h : PackFits t s depth w) (hs : SameShape s s') (hw : w.Typed)
    (hsizes : SameSizes s s') : PackFits t s' depth w :=
  Everywhere.imp h hs hw fun _ found _ _ _ hat => by
    rwa [hsizes.takeOrder_eq hs, hsizes.packResources_eq hs]

lemma LaidOutAt.congr (h : LaidOutAt t s w found) (hs : SameShape s s') (hw : w.Typed)
    (hsizes : SameSizes s s') (hfound : ∀ r ∈ found, s' r = s r)
    (hbridge : (s' w.bridge).base = (s w.bridge).base ∧ (s' w.bridge).limit = (s w.bridge).limit) :
    LaidOutAt t s' w found := by
  have hmem : ∀ r ∈ movable s' found, r ∈ movable s found ∧ s' r = s r := fun r hr => by
    rw [hs.movable_eq] at hr
    exact ⟨hr, hfound r (mem_movable.mp hr).1⟩
  refine ⟨fun r hr hrs => ?_, fun r hr q hq hne hrs hqs => ?_, fun r hr => ?_, fun c hc hcf => ?_⟩
  · obtain ⟨hr, heq⟩ := hmem r hr
    rw [heq] at hrs ⊢
    rw [hbridge.1, hsizes.takeOrder_eq hs, hsizes.packResources_eq hs]
    exact h.placed r hr hrs
  · obtain ⟨hr, heq⟩ := hmem r hr
    obtain ⟨hq, heq'⟩ := hmem q hq
    rw [heq] at hrs ⊢
    rw [heq'] at hqs ⊢
    exact h.apart r hr q hq hne hrs hqs
  · obtain ⟨hr, heq⟩ := hmem r hr
    rw [heq, hbridge.2]
    exact h.limit r hr
  · rw [hfound _ hcf]
    rw [Window.childWindows_congr hs hw] at hc
    exact h.windows c hc hcf

/-- Windows whose regions are apart are filled one by one. -/
lemma forWindows_laidOut
    (ih : ∀ {s : Store} {w : Window} {dl : List ResourceId}, IsTree t s depth w → w.Typed →
      Sound s → PackFits t s depth w → EachRound t (GoodRound t) depth w (s, dl) →
      ∃ x, allocateResources t depth w (s, dl) = some x ∧ LaidOut t s x.1 depth [w])
    (ws : List Window) {dl : List ResourceId} (htyped : ∀ w ∈ ws, w.Typed)
    (htree : ∀ w ∈ ws, IsTree t s depth w) (hsound : Sound s)
    (hpack : ∀ w ∈ ws, PackFits t s depth w)
    (hdisj : ws.Pairwise fun w w' => (region t s depth w).Disjoint (region t s depth w'))
    (hgood : Admits (fun x c => c.bind fun c => allocateResources t depth c x)
      (fun x c => ∀ v ∈ c, EachRound t (GoodRound t) depth v x) (s, dl) (ws.map some)) :
    ∃ x, forWindows (allocateResources t depth) (ws.map some) (s, dl) = some x ∧
      LaidOut t s x.1 depth ws := by
  induction ws generalizing s dl with
  | nil => exact ⟨(s, dl), rfl, .refl s, hsound, .refl s, fun _ _ => rfl, fun _ _ => rfl, by simp, by simp⟩
  | cons w ws ihws =>
    obtain ⟨hapart, hdisj⟩ := List.pairwise_cons.mp hdisj
    have hw := htyped w (by simp)
    have htyped' : ∀ v ∈ ws, v.Typed := fun v hv => htyped v (by simp [hv])
    obtain ⟨x₁, heq, h₁⟩ := ih (htree w (by simp)) hw hsound (hpack w (by simp)) (hgood.1 w rfl)
    have hregion : ∀ v ∈ ws, region t x₁.1 depth v = region t s depth v :=
      fun v hv => region_congr h₁.shape (htyped' v hv)
    have hsame : ∀ v ∈ ws, ∀ r ∈ region t s depth v, x₁.1 r = s r := fun v hv r hr =>
      h₁.frame r (by simpa using fun hrw => hapart v hv hrw hr)
    obtain ⟨x₂, heq₂, h₂⟩ := @ihws _ x₁.2 htyped'
      (fun v hv => (htree v (by simp [hv])).congr h₁.shape (htyped' v hv)) h₁.sound
      (fun v hv => (hpack v (by simp [hv])).congr h₁.shape (htyped' v hv) h₁.sizes)
      (hdisj.imp_of_mem fun {v v'} hv hv' h => by rwa [hregion v hv, hregion v' hv'])
      (hgood.2 x₁ heq)
    -- the first window stays as it is while the others are filled
    have hkeep : ∀ r ∈ region t s depth w, x₂.1 r = x₁.1 r := fun r hr =>
      h₂.frame r fun v hv hrv => hapart v hv hr (hregion v hv ▸ hrv)
    refine ⟨x₂, by rw [List.map_cons, forWindows, heq, Option.bind_some, heq₂],
      h₁.shape.trans h₂.shape, h₂.sound, h₁.sizes.trans h₂.sizes, fun r hr => ?_, fun r hr => ?_,
      fun v hv => ?_, fun v hv => ?_⟩
    · rw [h₂.frame r fun v hv => by rw [hregion v hv]; exact hr v (by simp [hv])]
      exact h₁.frame r (by simpa using hr w (by simp))
    · rw [h₂.fixed r (by rwa [h₁.shape.isFixed_eq]), h₁.fixed r hr]
    · rcases List.mem_cons.mp hv with rfl | hv
      · rw [hkeep _ List.mem_cons_self, h₁.bridge v (by simp)]
      · rw [h₂.bridge v hv, hsame v hv _ List.mem_cons_self]
    · rcases List.mem_cons.mp hv with rfl | hv
      · refine Everywhere.imp (h₁.buses v (by simp)) h₂.shape hw fun u found hu hmem hsub hat => ?_
        rw [region_congr h₁.shape hw] at hmem
        rw [below_congr h₁.shape hw] at hsub
        have hbridge := hkeep u.bridge hmem
        exact hat.congr h₂.shape hu h₂.sizes (fun r hr => hkeep r (List.mem_cons_of_mem _ (hsub hr)))
          ⟨congrArg Resource.base hbridge, congrArg Resource.limit hbridge⟩
      · exact h₂.buses v hv

/-- The bus is laid out once the windows on it are filled: these keep their places, and count as
assigned in any case. -/
private lemma RunInv.laidOutAt (h : RunInv t s w (s w.bridge).base (takeOrder s found) x)
    (hnodup : found.Nodup) (hw : w.Typed) (hs : SameShape s s') (hsizes : SameSizes s s')
    (hbridge : (s' w.bridge).base = (s w.bridge).base ∧ (s' w.bridge).limit = (s w.bridge).limit)
    (hkept : ∀ r ∈ found, s' r = x.store r ∨ (∃ c ∈ w.childWindows t s, c.bridge = r) ∧
      s' r = { x.store r with flags := (x.store r).flags ||| IORESOURCE_ASSIGNED })
    (hassigned : ∀ c ∈ w.childWindows t s, (s' c.bridge).has IORESOURCE_ASSIGNED = true) :
    LaidOutAt t s' w found := by
  have hmem : ∀ r ∈ movable s' found, r ∈ takeOrder s found := fun r hr => by
    rw [hs.movable_eq] at hr
    exact (mem_takeOrder hnodup).mpr hr
  have hfields : ∀ r ∈ movable s' found, (s' r).base = (x.store r).base ∧
      (s' r).size = (x.store r).size ∧ (s' r).limit = (x.store r).limit ∧
      (s' r).align = (x.store r).align := fun r hr => by
    rcases hkept r (mem_movable.mp hr).1 with heq | ⟨-, heq⟩ <;> rw [heq] <;>
      exact ⟨rfl, rfl, rfl, rfl⟩
  have hoccupies : ∀ r ∈ movable s' found, (s' r).Occupies → (x.store r).Occupies :=
    fun r hr hrs => by
      rcases hkept r (mem_movable.mp hr).1 with heq | ⟨⟨c, hc, rfl⟩, -⟩
      · exact heq ▸ hrs
      · have hsize : (x.store c.bridge).size ≠ 0 := (hfields _ hr).2.1 ▸ hrs.1
        exact ⟨hsize, h.windows c hc (hmem _ hr) hsize⟩
  refine ⟨fun r hr hrs => ?_, fun r hr q hq hne hrs hqs => ?_, fun r hr => ?_, fun c hc _ => ?_⟩
  · obtain ⟨hbase, hsize, hlimit, halign⟩ := hfields r hr
    rw [hbase, hsize, hlimit, halign, hbridge.1, hsizes.takeOrder_eq hs, hsizes.packResources_eq hs]
    exact h.placed r (hmem r hr) (hoccupies r hr hrs)
  · obtain ⟨hbase, hsize, -, -⟩ := hfields r hr
    obtain ⟨hbase', hsize', -, -⟩ := hfields q hq
    rw [hbase, hsize, hbase', hsize']
    exact h.apart r (hmem r hr) q (hmem q hq) hne (hoccupies r hr hrs) (hoccupies q hq hqs)
  · rw [(hfields r hr).2.2.1, hbridge.2]
    exact h.limit r (hmem r hr)
  · rw [Window.childWindows_congr hs hw] at hc
    exact hassigned c hc

/-- If every round is good, the second pass ends, and every bus below the window is laid out,
whether its resources fit or not. -/
theorem allocateResources_laidOut {dl : List ResourceId} (htree : IsTree t s depth w) (hw : w.Typed)
    (hsound : Sound s) (hpack : PackFits t s depth w)
    (hgood : EachRound t (GoodRound t) depth w (s, dl)) :
    ∃ x, allocateResources t depth w (s, dl) = some x ∧ LaidOut t s x.1 depth [w] := by
  induction depth generalizing s w dl with
  | zero => exact htree.elim
  | succ depth ih =>
    obtain ⟨hnode, hchildren⟩ := htree
    obtain ⟨found, hfound⟩ := Option.isSome_iff_exists.mp hnode.found
    obtain ⟨hrounds, hcalls⟩ := hgood found hfound
    have hnodup := hnode.nodup found hfound
    have hmem : ∀ r ∈ takeOrder s found, r ∈ found :=
      fun r hr => (mem_movable.mp (takeOrder_subset hr)).1
    have hbridge : w.bridge ∉ found := fun h => hnode.bridge (mem_below_of_found hfound h)
    have hinv : RunInv t s w (s w.bridge).base (takeOrder s found) (busLoop s w found dl) := by
      refine RunInv.foldl (p := []) ⟨fun _ _ => rfl, by simp, by simp, by simp, by simp,
        Or.inl ⟨le_rfl, hsound.base _, le_rfl, by simp⟩⟩ rfl
        ((takeOrder_spec hnodup).2.1.nodup_iff.mpr (hnodup.filter _))
        (fun h => hbridge (hmem _ h)) (fun r => (hsound.valid r).2.2.1) (hpack.1 found hfound) hw
        (.refl s) hrounds
    have hother : ∀ r, r ≠ w.bridge → afterLoop s w found dl r = (busLoop s w found dl).store r :=
      fun r hr => Store.modify_of_ne hr
    have hself : afterLoop s w found dl w.bridge =
        { s w.bridge with flags := (s w.bridge).flags ||| IORESOURCE_ASSIGNED } := by
      rw [afterLoop, Store.modify_self, hinv.frame _ fun h => hbridge (hmem _ h)]
    have hshape := @afterLoop_sameShape s w found dl
    have hsizes : SameSizes s (afterLoop s w found dl) := by
      refine SameSizes.trans (foldl_allocateResource_sameSizes w.bridge (takeOrder s found)
        ⟨s, (s w.bridge).base, dl⟩) fun r => ?_
      by_cases hr : r = w.bridge
      · rw [hr, afterLoop, Store.modify_self]
        exact ⟨rfl, rfl⟩
      · rw [hother r hr]
        exact ⟨rfl, rfl⟩
    have hsound₁ : Sound (afterLoop s w found dl) := by
      have hloop : Sound (busLoop s w found dl).store := Sound.foldl hsound _ _
      refine ⟨fun r => ?_, fun r => ?_⟩
      · by_cases hr : r = w.bridge
        · rw [hr, afterLoop, Store.modify_self]
          exact hloop.valid _
        · rw [hother r hr]
          exact hloop.valid r
      · by_cases hr : r = w.bridge
        · rw [hr, hself]
          exact hsound.base _
        · rw [hother r hr]
          exact hloop.base r
    have hsame : w.children t (afterLoop s w found dl) = (w.childWindows t s).map some :=
      (Window.children_congr hshape hw).trans hnode.children_eq
    rw [hsame] at hcalls
    obtain ⟨x, heq, h'⟩ := forWindows_laidOut ih (w.childWindows t s) (fun c hc => hw.child hc)
      (fun c hc => (hchildren c hc).congr hshape (hw.child hc)) hsound₁
      (fun c hc => PackFits.congr (hpack.2 c hc) hshape (hw.child hc) hsizes)
      (hnode.disjoint.imp_of_mem fun {c c'} hc hc' hdisj => by
        rwa [region_congr hshape (hw.child hc), region_congr hshape (hw.child hc')]) hcalls
    have hregion : ∀ c ∈ w.childWindows t s,
        region t (afterLoop s w found dl) depth c = region t s depth c :=
      fun c hc => region_congr hshape (hw.child hc)
    have hout : ∀ r ∉ below t s (depth + 1) w, x.1 r = afterLoop s w found dl r := fun r hr =>
      h'.frame r fun c hc hrc => hr (mem_below_of_child hc (hregion c hc ▸ hrc))
    have hwbridge : x.1 w.bridge =
        { s w.bridge with flags := (s w.bridge).flags ||| IORESOURCE_ASSIGNED } :=
      (hout _ hnode.bridge).trans hself
    have hshape' := hshape.trans h'.shape
    refine ⟨x, ?_, hshape', h'.sound, hsizes.trans h'.sizes, fun r hr => ?_, fun r hr => ?_,
      fun v hv => ?_, fun v hv => ?_⟩
    · rw [allocateResources_succ hw hfound hnodup, hsame, heq]
    · have hr' : r ≠ w.bridge ∧ r ∉ below t s (depth + 1) w := by simpa [region] using hr
      rw [hout r hr'.2, hother r hr'.1]
      exact hinv.frame r fun h => hr'.2 (mem_below_of_found hfound (hmem r h))
    · rw [h'.fixed r (by rwa [hshape.isFixed_eq])]
      by_cases hrw : r = w.bridge
      · rw [hrw, hself]
      · rw [hother r hrw, hinv.frame r fun h => by
          rw [(mem_movable.mp (takeOrder_subset h)).2] at hr
          exact absurd hr (by decide)]
    · obtain rfl := List.mem_singleton.mp hv
      exact hwbridge
    · obtain rfl := List.mem_singleton.mp hv
      refine ⟨fun found' hfound' => ?_, fun c hc => ?_⟩
      · rw [Window.resources_congr hshape' hw, hfound] at hfound'
        obtain rfl := Option.some.inj hfound'
        refine hinv.laidOutAt hnodup hw hshape' (hsizes.trans h'.sizes) (by rw [hwbridge]; exact ⟨rfl, rfl⟩)
          (fun r hr => ?_) fun c hc => ?_
        · have hne : r ≠ v.bridge := fun h => hbridge (h ▸ hr)
          by_cases hwindow : ∃ c ∈ v.childWindows t s, c.bridge = r
          · obtain ⟨c, hc, rfl⟩ := hwindow
            exact Or.inr ⟨⟨c, hc, rfl⟩, by rw [h'.bridge c hc, hother _ hne]⟩
          · refine Or.inl ((h'.frame r fun c hc hrc => ?_).trans (hother r hne))
            rw [hregion c hc] at hrc
            rcases List.mem_cons.mp hrc with heq | hrc
            · exact hwindow ⟨c, hc, heq.symm⟩
            · exact hnode.apart found hfound c hc r hr hrc
        · rw [h'.bridge c hc, Resource.has, and_assigned]
          decide
      · rw [Window.childWindows_congr hshape' hw] at hc
        exact h'.buses c hc

end ApuBios.Allocator
