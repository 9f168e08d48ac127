import ApuBios.Device.Allocator.Completeness

/-!
# Keeping the windows of a domain clear of fixed resources

`avoid_fixed_resources` shrinks one region for each address space, step by step, to be above or
below every fixed resource of the tree. A step clears the region of its resource unless the new
end wraps around (`GoesWrong`); the regions only get smaller otherwise.
-/

namespace ApuBios.Allocator

/-! ### Address spaces -/

/-- The members of `struct constraints`. -/
inductive Space where
  | pref
  | io
  | mem
  deriving DecidableEq, Repr

/-- The address space that the resource is counted to. -/
def Resource.space (r : Resource) : Option Space :=
  if r.matches MEM_MASK PREF_TYPE then some .pref
  else if r.matches MEM_MASK MEM_TYPE then some .mem
  else if r.matches IO_MASK IO_TYPE then some .io
  else none

def Constraints.get (limits : Constraints) : Space → Limit
  | .pref => limits.pref
  | .io => limits.io
  | .mem => limits.mem

lemma Constraints.of_eq (limits : Constraints) (r : Resource) :
    limits.of r = r.space.map limits.get := by
  unfold Constraints.of Resource.space
  split_ifs <;> rfl

lemma Constraints.get_update (limits : Constraints) (r : Resource) (f : Limit → Limit)
    (m : Space) :
    (limits.update r f).get m = if r.space = some m then f (limits.get m) else limits.get m := by
  unfold Constraints.update Resource.space
  split_ifs <;> cases m <;> simp_all [Constraints.get]

/-! ### One fixed resource -/

/-- The resource has addresses, and they are in the 64-bit address space. -/
def Resource.InSpace (r : Resource) : Prop := 0 < r.size ∧ r.base + r.size ≤ 2 ^ 64

/-- No address of the resource is in the region. -/
def Limit.Clear (lim : Limit) (f : Resource) : Prop :=
  ∀ a, lim.base ≤ a → a ≤ lim.limit → ¬(f.base ≤ a ∧ a < f.base + f.size)

/-- The resource is looked at. -/
def Limit.Meets (lim : Limit) (f : Resource) : Prop :=
  lim.base < f.base + f.size ∧ f.base ≤ lim.limit

/-- The region is put above the resource. -/
def Limit.Above (lim : Limit) (f : Resource) : Prop :=
  Word.toInt 64 (Word.sub 64 f.base lim.base) <
    Word.toInt 64 (Word.sub 64 lim.limit (f.base + f.size - 1))

instance (lim : Limit) (f : Resource) : Decidable (lim.Above f) :=
  inferInstanceAs (Decidable (_ < _))

/-- The region is put above a resource that ends with the address space, or below one that
begins with it. -/
def Limit.GoesWrong (lim : Limit) (f : Resource) : Prop :=
  lim.Meets f ∧ if lim.Above f then f.base + f.size = 2 ^ 64 else f.base = 0

namespace Limit

variable {lim : Limit} {f : Resource}

private lemma last_eq (hf : f.InSpace) :
    Word.sub 64 (Word.add 64 f.base f.size) 1 = f.base + f.size - 1 := by
  obtain ⟨hpos, hle⟩ := hf
  exact Word.sub_add_one (by omega) hle

lemma constrain_of_not_meets (hf : f.InSpace) (h : ¬lim.Meets f) : lim.constrain f = lim := by
  obtain ⟨hpos, hle⟩ := hf
  rw [Meets] at h
  rw [constrain, last_eq ⟨hpos, hle⟩]
  exact if_pos (by omega)

lemma constrain_of_above (hf : f.InSpace) (h : lim.Meets f) (habove : lim.Above f) :
    lim.constrain f = { lim with base := Word.add 64 f.base f.size } := by
  obtain ⟨hlo, hhi⟩ := h
  rw [constrain, last_eq hf]
  rw [if_neg (by omega)]
  exact if_pos habove

lemma constrain_of_below (hf : f.InSpace) (h : lim.Meets f) (hbelow : ¬lim.Above f) :
    lim.constrain f = { lim with limit := Word.sub 64 f.base 1 } := by
  obtain ⟨hlo, hhi⟩ := h
  rw [constrain, last_eq hf]
  rw [if_neg (by omega)]
  exact if_neg hbelow

/-- What a step that does not go wrong achieves. -/
structure Shrinks (lim lim' : Limit) : Prop where
  base_le : lim.base ≤ lim'.base
  limit_le : lim'.limit ≤ lim.limit

lemma Shrinks.refl (lim : Limit) : Shrinks lim lim := ⟨le_rfl, le_rfl⟩

lemma Shrinks.trans {lim₁ lim₂ lim₃ : Limit} (h : Shrinks lim₁ lim₂) (h' : Shrinks lim₂ lim₃) :
    Shrinks lim₁ lim₃ := ⟨h.base_le.trans h'.base_le, h'.limit_le.trans h.limit_le⟩

lemma Clear.mono {lim' : Limit} (h : lim.Clear f) (hs : Shrinks lim lim') : lim'.Clear f :=
  fun a hlo hhi => h a (hs.base_le.trans hlo) (hhi.trans hs.limit_le)

/-- A step puts the region beside the resource. -/
lemma constrain_spec (hf : f.InSpace) (h : ¬lim.GoesWrong f) :
    Shrinks lim (lim.constrain f) ∧ (lim.constrain f).Clear f := by
  have hspace := hf
  obtain ⟨hpos, hle⟩ := hf
  rw [GoesWrong, not_and] at h
  by_cases hmeets : lim.Meets f
  · have hwrong := h hmeets
    have hmeets' := hmeets
    obtain ⟨hlo, hhi⟩ := hmeets'
    by_cases habove : lim.Above f
    · rw [if_pos habove] at hwrong
      have hadd : Word.add 64 f.base f.size = f.base + f.size := Word.add_eq (by omega)
      rw [constrain_of_above hspace hmeets habove, hadd]
      exact ⟨⟨hlo.le, le_rfl⟩, fun a ha _ => by simp only at ha; omega⟩
    · rw [if_neg habove] at hwrong
      have hsub : Word.sub 64 f.base 1 = f.base - 1 := Word.sub_eq (by omega) (by omega)
      rw [constrain_of_below hspace hmeets habove, hsub]
      exact ⟨⟨le_rfl, by simp only; omega⟩, fun a _ ha => by simp only at ha; omega⟩
  · rw [constrain_of_not_meets hspace hmeets]
    refine ⟨.refl lim, fun a hlo hhi => ?_⟩
    rw [Meets] at hmeets
    omega

/-- After a step that goes wrong an address of the resource is in the region. -/
lemma not_clear_of_goesWrong (hf : f.InSpace) (hlimit : lim.limit < 2 ^ 64)
    (h : lim.GoesWrong f) : ¬(lim.constrain f).Clear f := by
  have hspace := hf
  obtain ⟨hpos, hle⟩ := hf
  rw [GoesWrong] at h
  have hmeets := h.1
  obtain ⟨hlo, hhi⟩ := h.1
  by_cases habove : lim.Above f
  · rw [if_pos habove] at h
    have hzero : Word.add 64 f.base f.size = 0 := by rw [Word.add, h.2, Nat.mod_self]
    rw [constrain_of_above hspace hmeets habove, hzero]
    exact fun hclear => hclear lim.limit (Nat.zero_le _) le_rfl ⟨hhi, by omega⟩
  · rw [if_neg habove] at h
    have htop : Word.sub 64 f.base 1 = 2 ^ 64 - 1 := by
      rw [h.2, Word.sub_eq_wrap (by norm_num) (by norm_num), Nat.zero_add]
    rw [constrain_of_below hspace hmeets habove, htop]
    exact fun hclear => hclear lim.base le_rfl (by simp only; omega) ⟨by omega, hlo⟩

end Limit

/-! ### The walk over the tree -/

/-- The device itself, and the enabled devices behind it. -/
inductive Behind (t : Topology) : DeviceId → DeviceId → Prop
  | self {d} : Behind t d d
  | child {d link c e} : link ∈ t.linkList d → c ∈ t.children link → t.enabled c = true →
      Behind t c e → Behind t d e

/-- The resources that `constrain_resources` comes by, in order. -/
def walk (t : Topology) : (depth : ℕ) → DeviceId → Option (List ResourceId)
  | 0, _ => none
  | depth + 1, dev =>
    (concat ((t.linkList dev).map fun link => concat ((t.children link).map fun child =>
      if t.enabled child then walk t depth child else some []))).map (t.resourceList dev ++ ·)

variable {t : Topology} {s : Store} {rank : BusId → ℕ} {height depth : ℕ} {b : BusId}
  {dev : DeviceId} {rs : List ResourceId}

lemma mem_concat_iff {xs : List (Option (List ResourceId))} {found : List ResourceId}
    (h : concat xs = some found) {r : ResourceId} :
    r ∈ found ↔ ∃ part, some part ∈ xs ∧ r ∈ part := by
  refine ⟨mem_concat h, ?_⟩
  induction xs generalizing found with
  | nil =>
    rintro ⟨part, hpart, -⟩
    cases hpart
  | cons x xs ih =>
    obtain ⟨first, rfl, h⟩ := Option.bind_eq_some_iff.mp h
    obtain ⟨rest, hrest, rfl⟩ := Option.map_eq_some_iff.mp h
    rintro ⟨part, hpart, hr⟩
    rcases List.mem_cons.mp hpart with heq | hpart
    · obtain rfl := Option.some.inj heq
      exact List.mem_append_left _ hr
    · exact List.mem_append_right _ (ih hrest ⟨part, hpart, hr⟩)

/-- The parts of a list that is put together are there. -/
lemma some_of_mem_concat {xs : List (Option (List ResourceId))} {found : List ResourceId}
    (h : concat xs = some found) {x : Option (List ResourceId)} (hx : x ∈ xs) :
    ∃ part, x = some part := by
  induction xs generalizing found with
  | nil => cases hx
  | cons y xs ih =>
    obtain ⟨first, rfl, h⟩ := Option.bind_eq_some_iff.mp h
    obtain ⟨rest, hrest, -⟩ := Option.map_eq_some_iff.mp h
    rcases List.mem_cons.mp hx with rfl | hx
    · exact ⟨first, rfl⟩
    · exact ih hrest hx

lemma mem_walk (h : walk t depth dev = some rs) {r : ResourceId} :
    r ∈ rs ↔ ∃ e, Behind t dev e ∧ r ∈ t.resourceList e := by
  induction depth generalizing dev rs with
  | zero => simp [walk] at h
  | succ depth ih =>
    obtain ⟨below, hbelow, rfl⟩ := Option.map_eq_some_iff.mp h
    rw [List.mem_append, mem_concat_iff hbelow]
    constructor
    · rintro (hr | ⟨part, hpart, hr⟩)
      · exact ⟨dev, .self, hr⟩
      · obtain ⟨link, hlink, hpart⟩ := List.mem_map.mp hpart
        obtain ⟨part', hpart', hr⟩ := (mem_concat_iff hpart).mp hr
        obtain ⟨c, hc, hpart'⟩ := List.mem_map.mp hpart'
        split_ifs at hpart' with hen
        · obtain ⟨e, he, hre⟩ := (ih hpart').mp hr
          exact ⟨e, .child hlink hc hen he, hre⟩
        · obtain rfl := Option.some.inj hpart'
          cases hr
    · rintro ⟨e, he, hr⟩
      cases he with
      | self => exact Or.inl hr
      | @child _ link c _ hlink hc hen he =>
        obtain ⟨part, hpart⟩ := some_of_mem_concat hbelow (List.mem_map_of_mem hlink)
        obtain ⟨part', hpart'⟩ := some_of_mem_concat hpart (List.mem_map_of_mem hc)
        refine Or.inr ⟨part, List.mem_map.mpr ⟨link, hlink, hpart⟩, (mem_concat_iff hpart).mpr
          ⟨part', List.mem_map.mpr ⟨c, hc, hpart'⟩, ?_⟩⟩
        rw [if_pos hen] at hpart'
        exact (ih hpart').mpr ⟨e, he, hr⟩

/-- A loop whose rounds each walk over a part walks over the whole. -/
private lemma foldlM_concat {α : Type} {f : Constraints → α → Option Constraints}
    {g : α → Option (List ResourceId)} {l : List α}
    (h : ∀ a ∈ l, ∀ limits, f limits a = (g a).map fun rs => rs.foldl (constrainResource s) limits)
    (limits : Constraints) :
    l.foldlM f limits =
      (concat (l.map g)).map fun rs => rs.foldl (constrainResource s) limits := by
  induction l generalizing limits with
  | nil => rfl
  | cons a l ih =>
    rw [List.foldlM_cons, h a (by simp), List.map_cons, concat]
    cases hg : g a with
    | none => rfl
    | some rs =>
      rw [Option.map_some, Option.bind_some, Option.map_map]
      refine (ih (fun a' ha' => h a' (by simp [ha'])) _).trans ?_
      simp only [Function.comp_def, List.foldl_append]

lemma constrainResources_eq (limits : Constraints) :
    constrainResources t s depth dev limits =
      (walk t depth dev).map fun rs => rs.foldl (constrainResource s) limits := by
  induction depth generalizing dev limits with
  | zero => rfl
  | succ depth ih =>
    rw [constrainResources, walk, Option.map_map]
    simp only [Function.comp_def, List.foldl_append]
    refine foldlM_concat (fun link _ limits => ?_) _
    refine foldlM_concat (fun child _ limits => ?_) _
    split_ifs
    · exact ih limits
    · rfl

/-! ### The regions after the walk -/

/-- A fixed resource with addresses in the space. -/
def FixedIn (s : Store) (m : Space) (r : ResourceId) : Prop :=
  (s r).has IORESOURCE_FIXED = true ∧ (s r).size ≠ 0 ∧ (s r).space = some m

instance (s : Store) (m : Space) (r : ResourceId) : Decidable (FixedIn s m r) :=
  inferInstanceAs (Decidable (_ ∧ _))

lemma constrainResource_get (limits : Constraints) (r : ResourceId) (m : Space) :
    (constrainResource s limits r).get m =
      if FixedIn s m r then (limits.get m).constrain (s r) else limits.get m := by
  rw [constrainResource]
  by_cases hfixed : (s r).has IORESOURCE_FIXED = true
  · by_cases hsize : (s r).size = 0
    · have hnot : ¬FixedIn s m r := fun h => h.2.1 hsize
      simp [hfixed, hsize, hnot]
    · have hiff : FixedIn s m r ↔ (s r).space = some m := by simp [FixedIn, hfixed, hsize]
      simp [hfixed, hsize, hiff, Constraints.get_update]
  · have hnot : ¬FixedIn s m r := fun h => hfixed h.1
    simp [hfixed, hnot]

/-- No step of the walk goes wrong. -/
def NeverWrong (s : Store) (limits : Constraints) (rs : List ResourceId) : Prop :=
  ∀ before r after, rs = before ++ r :: after → ∀ m, FixedIn s m r →
    ¬((before.foldl (constrainResource s) limits).get m).GoesWrong (s r)

lemma neverWrong_nil (limits : Constraints) : NeverWrong s limits [] := by
  intro before r after heq
  simp at heq

lemma neverWrong_cons {limits : Constraints} {r : ResourceId}
    (hr : ∀ m, FixedIn s m r → ¬(limits.get m).GoesWrong (s r))
    (h : NeverWrong s (constrainResource s limits r) rs) : NeverWrong s limits (r :: rs) := by
  intro before q after heq
  cases before with
  | nil =>
    obtain ⟨rfl, rfl⟩ := List.cons.inj heq
    exact hr
  | cons p before =>
    obtain ⟨rfl, heq'⟩ := List.cons.inj heq
    exact h before q after heq'

/-- The walk clears the region of a space of all its fixed resources. The induction is from the
last step: what was cleared before stays clear as the region shrinks. -/
lemma foldl_constrainResource {limits : Constraints} (m : Space)
    (hspace : ∀ r ∈ rs, FixedIn s m r → (s r).InSpace) (h : NeverWrong s limits rs) :
    Limit.Shrinks (limits.get m) ((rs.foldl (constrainResource s) limits).get m) ∧
      ∀ r ∈ rs, FixedIn s m r → ((rs.foldl (constrainResource s) limits).get m).Clear (s r) := by
  induction rs using List.reverseRecOn with
  | nil => exact ⟨.refl _, by simp⟩
  | append_singleton rs r ih =>
    obtain ⟨hshrinks, hclear⟩ := ih (fun q hq => hspace q (by simp [hq]))
      fun before q after heq => h before q (after ++ [r]) (by simp [heq])
    rw [List.foldl_append, List.foldl_cons, List.foldl_nil, constrainResource_get]
    split_ifs with hfixed
    · obtain ⟨hstep, hbeside⟩ :=
        Limit.constrain_spec (hspace r (by simp) hfixed) (h rs r [] rfl m hfixed)
      refine ⟨hshrinks.trans hstep, fun q hq hqfixed => ?_⟩
      rcases List.mem_append.mp hq with hq | hq
      · exact (hclear q hq hqfixed).mono hstep
      · rw [List.mem_singleton.mp hq]
        exact hbeside
    · refine ⟨hshrinks, fun q hq hqfixed => ?_⟩
      rcases List.mem_append.mp hq with hq | hq
      · exact hclear q hq hqfixed
      · rw [List.mem_singleton.mp hq] at hqfixed
        exact absurd hqfixed hfixed

/-! ### The windows of the domain -/

/-- A resource of the domain with the new limits. -/
def Constraints.apply (limits : Constraints) (r : Resource) : Resource :=
  if r.has IORESOURCE_FIXED then r
  else match limits.of r with
    | none => r
    | some lim => { r with
        base := if lim.base > r.base then lim.base else r.base
        limit := if r.limit > lim.limit then lim.limit else r.limit }

lemma applyLimit_eq (limits : Constraints) (s : Store) (r : ResourceId) :
    applyLimit limits s r = s.modify r limits.apply := by
  rw [applyLimit, Store.modify]
  by_cases hfixed : (s r).has IORESOURCE_FIXED = true
  · rw [if_pos hfixed, Constraints.apply, if_pos hfixed, Function.update_eq_self]
  · rw [if_neg hfixed, Constraints.apply, if_neg hfixed]
    cases limits.of (s r) with
    | none => exact (Function.update_eq_self ..).symm
    | some lim => rfl

/-- Every resource of the domain is updated once. -/
lemma foldl_applyLimit (limits : Constraints) {l : List ResourceId} (hnodup : l.Nodup)
    {r : ResourceId} (hr : r ∈ l) : l.foldl (applyLimit limits) s r = limits.apply (s r) := by
  have hother : ∀ (l : List ResourceId) (s : Store), r ∉ l → l.foldl (applyLimit limits) s r = s r := by
    intro l
    induction l with
    | nil => exact fun s _ => rfl
    | cons q l ih =>
      intro s hq
      rw [List.mem_cons, not_or] at hq
      rw [List.foldl_cons, ih _ hq.2, applyLimit_eq, Store.modify_of_ne hq.1]
  induction l generalizing s with
  | nil => cases hr
  | cons q l ih =>
    obtain ⟨hq, hnodup⟩ := List.nodup_cons.mp hnodup
    rw [List.foldl_cons]
    rcases List.mem_cons.mp hr with rfl | hr
    · rw [hother l _ hq, applyLimit_eq, Store.modify_self]
    · have hne : r ≠ q := fun h => hq (h ▸ hr)
      rw [ih hnodup hr, applyLimit_eq, Store.modify_of_ne hne]

/-- The region of a resource. -/
def Resource.region (r : Resource) : Limit := ⟨r.base, r.limit⟩

/-- The interval of a window shrinks, and lies within the region of its space. -/
lemma Constraints.apply_shrinks (limits : Constraints) {r : Resource} {m : Space}
    (hfixed : ¬r.has IORESOURCE_FIXED = true) (hm : r.space = some m) :
    Limit.Shrinks r.region (limits.apply r).region ∧
      Limit.Shrinks (limits.get m) (limits.apply r).region := by
  rw [Constraints.apply, if_neg hfixed, Constraints.of_eq, hm, Option.map_some]
  refine ⟨⟨?_, ?_⟩, ⟨?_, ?_⟩⟩ <;> simp only [Resource.region] <;> split_ifs <;> omega

/-- The regions that the walk starts with. -/
def initialLimits (t : Topology) (s : Store) (dev : DeviceId) : Constraints :=
  (t.resourceList dev).foldl (initialLimit s) ⟨maximumSize, maximumSize, maximumSize⟩

/-- No step of the walk from the domain goes wrong. -/
def WalksWell (t : Topology) (s : Store) (depth : ℕ) (dev : DeviceId) : Prop :=
  ∀ rs ∈ walk t depth dev, NeverWrong s (initialLimits t s dev) rs

/-- The windows of the domain have shrunk. -/
def Narrowed (t : Topology) (s s' : Store) (dev : DeviceId) : Prop :=
  ∀ r ∈ t.resourceList dev, ¬(s r).has IORESOURCE_FIXED = true → ∀ m, (s r).space = some m →
    (s r).base ≤ (s' r).base ∧ (s' r).limit ≤ (s r).limit

/-- The interval of every window of the domain is empty, or no fixed resource of its space in the
domain and the enabled devices behind it has an address in it. -/
def ClearOfFixed (t : Topology) (s s' : Store) (dev : DeviceId) : Prop :=
  ∀ r ∈ t.resourceList dev, ¬(s r).has IORESOURCE_FIXED = true → ∀ m, (s r).space = some m →
    ∀ e, Behind t dev e → ∀ f ∈ t.resourceList e, FixedIn s m f →
      (s' r).limit < (s' r).base ∨
        ∀ a, (s' r).base ≤ a → a ≤ (s' r).limit → ¬((s f).base ≤ a ∧ a < (s f).base + (s f).size)

/-- The fixed resources are in the 64-bit address space, and no step of the walk goes wrong. -/
structure Avoidable (t : Topology) (s : Store) (depth : ℕ) (dev : DeviceId) : Prop where
  inSpace : ∀ e, Behind t dev e → ∀ f ∈ t.resourceList e, ∀ m, FixedIn s m f → (s f).InSpace
  well : WalksWell t s depth dev

/-- If no step goes wrong, the windows of the domain are clear of fixed resources. -/
lemma Avoidable.clearOfFixed {s' : Store} (havoid : Avoidable t s depth dev)
    (hnodup : (t.resourceList dev).Nodup) (heq : avoidFixedResources t depth s dev = some s') :
    ClearOfFixed t s s' dev := by
  rw [avoidFixedResources, constrainResources_eq, ← initialLimits, Option.map_map] at heq
  obtain ⟨rs, hrs, rfl⟩ := Option.map_eq_some_iff.mp heq
  intro r hr hfixed m hm e he f hf hfm
  have hinSpace : ∀ q ∈ rs, FixedIn s m q → (s q).InSpace := by
    intro q hq hqm
    obtain ⟨e, he, hqe⟩ := (mem_walk hrs).mp hq
    exact havoid.inSpace e he q hqe m hqm
  obtain ⟨-, hclear⟩ := foldl_constrainResource m hinSpace (havoid.well rs hrs)
  have hregion := (Constraints.apply_shrinks
    (rs.foldl (constrainResource s) (initialLimits t s dev)) hfixed hm).2
  rw [Function.comp_apply, foldl_applyLimit _ hnodup hr]
  exact Or.inr ((hclear f ((mem_walk hrs).mpr ⟨e, he, hf⟩) hfm).mono hregion)

/-- In every tree, `avoid_fixed_resources` makes the windows of the domain smaller, and clear of
fixed resources if no step goes wrong. -/
theorem avoidFixedResources_clear (h : DeviceTree t rank height) (hd : dev ∈ t.children b)
    (hdepth : height ≤ rank b + depth) :
    ∃ s', avoidFixedResources t depth s dev = some s' ∧ Narrowed t s s' dev ∧
      (Avoidable t s depth dev → ClearOfFixed t s s' dev) := by
  obtain ⟨limits, hlimits⟩ := h.constrainResources_ends (s := s) hd hdepth (initialLimits t s dev)
  have hnodup := h.resources_nodup dev
  have heq : avoidFixedResources t depth s dev =
      some ((t.resourceList dev).foldl (applyLimit limits) s) := by
    rw [avoidFixedResources, ← initialLimits, hlimits]
    rfl
  refine ⟨_, heq, fun r hr hfixed m hm => ?_, fun havoid => havoid.clearOfFixed hnodup heq⟩
  obtain ⟨hle, hle'⟩ := (limits.apply_shrinks hfixed hm).1
  rw [foldl_applyLimit limits hnodup hr]
  exact ⟨hle, hle'⟩

/-- The fixed resource 4 of the device at the end of the chain. -/
def fixedStore (base size limit : ℕ) : Store
  | 0 => ⟨0, 0, limit, IO_TYPE, 0, 0, 0⟩
  | 4 => ⟨base, size, 0xffff, IO_TYPE ||| IORESOURCE_FIXED, 0, 0, 0⟩
  | _ => ⟨0, 0, 0, 0, 0, 0, 0⟩

private lemma eq_of_fixedIn {base size limit : ℕ} {m : Space} {r : ResourceId}
    (h : FixedIn (fixedStore base size limit) m r) : r = 4 ∧ m = .io := by
  obtain ⟨hfixed, -, hm⟩ := h
  rcases r with _ | _ | _ | _ | _ | r
  iterate 4 exact absurd hfixed (by simp [fixedStore, Resource.has, IO_TYPE,
    IORESOURCE_IO, IORESOURCE_FIXED])
  · have hio : (fixedStore base size limit 4).space = some .io := by
      rw [Resource.space, if_neg (by simp only [fixedStore, Resource.matches]; decide),
        if_neg (by simp only [fixedStore, Resource.matches]; decide),
        if_pos (by simp only [fixedStore, Resource.matches]; decide)]
    exact ⟨rfl, Option.some.inj (hm.symm.trans hio)⟩
  · exact absurd hfixed (by simp [fixedStore, Resource.has])

theorem avoidFixedResources_clear_chain :
    ∃ s', avoidFixedResources chainTopology 3 (fixedStore 0 0x1000 0xffff) 0 = some s' ∧
      Narrowed chainTopology (fixedStore 0 0x1000 0xffff) s' 0 ∧
      ClearOfFixed chainTopology (fixedStore 0 0x1000 0xffff) s' 0 := by
  obtain ⟨s', heq, hnarrowed, hclear⟩ := avoidFixedResources_clear
    (s := fixedStore 0 0x1000 0xffff) chainTopology_tree (show 0 ∈ chainTopology.children 0 by decide)
    (show 3 ≤ id 0 + 3 by decide)
  refine ⟨s', heq, hnarrowed, hclear ⟨fun e he f hf m hm => ?_, ?_⟩⟩
  · rw [(eq_of_fixedIn hm).1]
    exact ⟨by decide, by decide⟩
  · intro rs hrs
    obtain rfl : rs = [0, 1, 2, 3, 4] := (Option.some.inj hrs).symm
    iterate 4
      refine neverWrong_cons (fun m hm => absurd (eq_of_fixedIn hm).1 (by decide)) ?_
    refine neverWrong_cons (fun m hm => ?_) (neverWrong_nil _)
    rw [(eq_of_fixedIn hm).2]
    intro hwrong
    have hwrong' : Limit.GoesWrong ⟨0, 0xffff⟩ (fixedStore 0 0x1000 0xffff 4) := hwrong
    rw [Limit.GoesWrong, if_pos (by decide)] at hwrong'
    exact absurd hwrong'.2 (by decide)

/-- A fixed resource at 0 that covers the whole window: the limit below it wraps around to the end
of the address space, and the window stays as it was. -/
theorem not_clearOfFixed :
    ∃ s', avoidFixedResources chainTopology 3 (fixedStore 0 0x1000 0xfff) 0 = some s' ∧
      ¬ClearOfFixed chainTopology (fixedStore 0 0x1000 0xfff) s' 0 := by
  refine ⟨_, rfl, fun h => ?_⟩
  have hbehind : Behind chainTopology 0 2 := 
    @Behind.child chainTopology 0 1 1 2 (by decide) (by decide) rfl
      (@Behind.child chainTopology 1 2 2 2 (by decide) (by decide) rfl .self)
  rcases h 0 (by decide) (by decide) .io (by decide) 2 hbehind 4 (by decide) (by decide) with
    hempty | hclear
  · revert hempty
    decide
  · exact hclear 0 (by decide) (by decide) (by decide)

end ApuBios.Allocator
