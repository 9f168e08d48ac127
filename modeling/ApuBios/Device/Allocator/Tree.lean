import ApuBios.Device.Allocator.Order
import Mathlib.Data.List.ReduceOption
import ApuBios.Library.Packing

/-!
# The tree of windows

Every window of a bridge opens to a bus, whose bridges have windows of their own. In a tree
(`IsTree`) no resource is reached twice. `Everywhere` states a property of all buses of a tree.
-/

namespace ApuBios.Allocator

variable (t : Topology)

/-- The windows of the bridges on the bus whose links are there. -/
def Window.childWindows (s : Store) (w : Window) : List Window := (w.children t s).reduceOption

/-- The resources on the bus of a window and below, and the windows below. -/
def below (s : Store) : (depth : ℕ) → Window → List ResourceId
  | 0, _ => []
  | depth + 1, w => (w.resources t (depth + 1) s).getD [] ++
      (w.childWindows t s).flatMap fun c => c.bridge :: below s depth c

def region (s : Store) (depth : ℕ) (w : Window) : List ResourceId := w.bridge :: below t s depth w

/-- Every bus has the property, which may depend on the resources on the bus. -/
def Everywhere (s : Store) (P : Window → List ResourceId → Prop) : (depth : ℕ) → Window → Prop
  | 0, _ => True
  | depth + 1, w => (∀ found ∈ w.resources t (depth + 1) s, P w found) ∧
      ∀ c ∈ w.childWindows t s, Everywhere s P depth c

/-- The links are there, and no resource is found twice. -/
structure IsNode (s : Store) (depth : ℕ) (w : Window) : Prop where
  links : none ∉ w.children t s
  found : (w.resources t (depth + 1) s).isSome
  nodup : ∀ found ∈ w.resources t (depth + 1) s, found.Nodup
  bridge : w.bridge ∉ below t s (depth + 1) w
  apart : ∀ found ∈ w.resources t (depth + 1) s, ∀ c ∈ w.childWindows t s,
    ∀ r ∈ found, r ∉ below t s depth c
  disjoint : (w.childWindows t s).Pairwise fun c c' =>
    (region t s depth c).Disjoint (region t s depth c')

/-- The tree is no deeper than `depth` levels, and no resource is reached twice. -/
def IsTree (s : Store) : (depth : ℕ) → Window → Prop
  | 0, _ => False
  | depth + 1, w => IsNode t s depth w ∧ ∀ c ∈ w.childWindows t s, IsTree s depth c

variable {t} {s s' : Store} {w c : Window} {depth : ℕ} {P Q : Window → List ResourceId → Prop}
  {found : List ResourceId}

lemma Window.mem_childWindows : c ∈ w.childWindows t s ↔ some c ∈ w.children t s :=
  List.reduceOption_mem_iff

lemma Window.childWindows_congr (h : SameShape s s') (hw : w.Typed) :
    w.childWindows t s' = w.childWindows t s := by
  rw [childWindows, children_congr h hw, childWindows]

lemma Window.Typed.child (hw : w.Typed) (hc : c ∈ w.childWindows t s) : c.Typed :=
  typed_of_mem_children hw (mem_childWindows.mp hc)

lemma below_succ (hfound : w.resources t (depth + 1) s = some found) :
    below t s (depth + 1) w =
      found ++ (w.childWindows t s).flatMap fun c => region t s depth c := by
  rw [below, hfound]
  rfl

lemma mem_below_of_found (hfound : w.resources t (depth + 1) s = some found) {r : ResourceId}
    (hr : r ∈ found) : r ∈ below t s (depth + 1) w := by
  rw [below_succ hfound]
  exact List.mem_append_left _ hr

lemma mem_below_of_child (hc : c ∈ w.childWindows t s) {r : ResourceId}
    (hr : r ∈ region t s depth c) : r ∈ below t s (depth + 1) w := by
  rw [below]
  exact List.mem_append_right _ (List.mem_flatMap.mpr ⟨c, hc, hr⟩)

lemma below_congr (h : SameShape s s') (hw : w.Typed) : below t s' depth w = below t s depth w := by
  induction depth generalizing w with
  | zero => rfl
  | succ depth ih =>
    rw [below, below, Window.resources_congr h hw, Window.childWindows_congr h hw]
    refine congrArg _ (List.flatMap_congr fun c hc => ?_)
    rw [ih (hw.child hc)]

lemma region_congr (h : SameShape s s') (hw : w.Typed) :
    region t s' depth w = region t s depth w := by
  rw [region, below_congr h hw, region]

lemma map_some_reduceOption {l : List (Option Window)} (h : none ∉ l) :
    l.reduceOption.map some = l := by
  induction l with
  | nil => rfl
  | cons x l ih =>
    rw [List.mem_cons, not_or] at h
    obtain ⟨y, rfl⟩ := Option.ne_none_iff_exists'.mp (Ne.symm h.1)
    rw [List.reduceOption_cons_of_some, List.map_cons, ih h.2]

lemma IsNode.children_eq (h : IsNode t s depth w) :
    w.children t s = (w.childWindows t s).map some := (map_some_reduceOption h.links).symm

lemma IsNode.congr (hs : SameShape s s') (hw : w.Typed) (h : IsNode t s depth w) :
    IsNode t s' depth w := by
  have hresources : w.resources t (depth + 1) s' = w.resources t (depth + 1) s :=
    Window.resources_congr hs hw
  have hchildren := Window.childWindows_congr (t := t) hs hw
  refine ⟨?_, ?_, ?_, ?_, ?_, ?_⟩
  · rw [Window.children_congr hs hw]
    exact h.links
  · rw [hresources]
    exact h.found
  · rw [hresources]
    exact h.nodup
  · rw [below_congr hs hw]
    exact h.bridge
  · rw [hresources, hchildren]
    intro found hfound c hc
    rw [below_congr hs (hw.child hc)]
    exact h.apart found hfound c hc
  · rw [hchildren]
    refine h.disjoint.imp_of_mem fun {c c'} hc hc' hdisj => ?_
    rwa [region_congr hs (hw.child hc), region_congr hs (hw.child hc')]

lemma IsTree.congr (hs : SameShape s s') (hw : w.Typed) (h : IsTree t s depth w) :
    IsTree t s' depth w := by
  induction depth generalizing w with
  | zero => exact h
  | succ depth ih =>
    refine ⟨h.1.congr hs hw, fun c hc => ?_⟩
    rw [Window.childWindows_congr hs hw] at hc
    exact ih (hw.child hc) (h.2 c hc)

/-- A property of all buses may be exchanged for one that follows on the buses of the tree. -/
lemma Everywhere.imp (h : Everywhere t s P depth w) (hs : SameShape s s') (hw : w.Typed)
    (hPQ : ∀ v found, v.Typed → v.bridge ∈ region t s depth w → found ⊆ below t s depth w → P v found →
      Q v found) : Everywhere t s' Q depth w := by
  induction depth generalizing w with
  | zero => trivial
  | succ depth ih =>
    rw [Everywhere, Window.resources_congr hs hw, Window.childWindows_congr hs hw]
    refine ⟨fun found hfound => ?_, fun c hc => ?_⟩
    · exact hPQ w found hw List.mem_cons_self (fun r hr => mem_below_of_found hfound hr)
        (h.1 found hfound)
    · refine ih (h.2 c hc) (hw.child hc) fun v found hv hmem hsub => hPQ v found hv ?_ fun r hr => ?_
      · exact List.mem_cons_of_mem _ (mem_below_of_child hc hmem)
      · exact mem_below_of_child hc (List.mem_cons_of_mem _ (hsub hr))

end ApuBios.Allocator

/-!
# Where resources are placed

The loops of both passes place resources by the same arithmetic on 64-bit words. `place` is its
meaning as long as nothing wraps, and is the same everywhere up to multiples of the alignment.
-/

namespace ApuBios.Allocator

open Packing

/-- The next address that an I/O resource may be placed at. -/
def skip (x : ℕ) : ℕ := if x &&& 0x300 ≠ 0 then x / 0x400 * 0x400 + 0x400 else x

/-- Where a resource is placed if the one before it ends at `x`. Resources of size zero are passed
over. -/
def place (s : Store) (x : ℕ) (r : ResourceId) : ℕ :=
  if (s r).size = 0 then x
  else Word.roundUp (if (s r).has IORESOURCE_IO then skip x else x) (s r).align

/-- Where the resources end if the first may be placed at `x`. -/
abbrev packResources (s : Store) (x : ℕ) (l : List ResourceId) : ℕ :=
  pack (place s) (fun r => (s r).size) x l

variable {s s' : Store} {x b : ℕ} {r : ResourceId} {l : List ResourceId}

lemma le_skip : x ≤ skip x := by
  unfold skip
  split_ifs <;> omega

/-- Only the low ten bits of an address tell whether it is an alias. -/
lemma and_aliases_shift (hb : 0x400 ∣ b) : (b + x) &&& 0x300 = x &&& 0x300 := by
  have hlow : ∀ y : ℕ, y &&& 0x300 = y % 2 ^ 10 &&& 0x300 := by
    intro y
    apply Nat.eq_of_testBit_eq
    intro i
    rw [Nat.testBit_and, Nat.testBit_and, Nat.testBit_mod_two_pow]
    by_cases hi : i < 10
    · simp [hi]
    · have : (0x300 : ℕ) < 2 ^ i :=
        (show (0x300 : ℕ) < 2 ^ 10 by decide).trans_le (Nat.pow_le_pow_right (by decide) (by omega))
      simp [Nat.testBit_lt_two_pow this]
  rw [hlow (b + x), hlow x]
  obtain ⟨c, rfl⟩ := hb
  rw [show 0x400 * c + x = x + 2 ^ 10 * c by omega, Nat.add_mul_mod_self_left]

lemma skip_shift (hb : 0x400 ∣ b) : skip (b + x) = b + skip x := by
  unfold skip
  rw [and_aliases_shift hb]
  obtain ⟨c, rfl⟩ := hb
  split_ifs <;> omega

lemma le_place : x ≤ place s x r := by
  unfold place
  split_ifs
  · exact le_rfl
  · exact le_skip.trans Word.le_roundUp
  · exact Word.le_roundUp

/-- Placing commutes with a shift by a multiple of the alignment, of at least 0x400 for I/O. -/
lemma place_shift (halign : (s r).size ≠ 0 → 2 ^ (s r).align ∣ b)
    (hio : (s r).size ≠ 0 → (s r).has IORESOURCE_IO = true → 0x400 ∣ b) :
    place s (b + x) r = b + place s x r := by
  unfold place
  split_ifs with hsize hflag
  · rfl
  · rw [skip_shift (hio hsize hflag), Word.roundUp_add (halign hsize)]
  · rw [Word.roundUp_add (halign hsize)]

lemma dvd_place (hsize : (s r).size ≠ 0) : 2 ^ (s r).align ∣ place s x r := by
  rw [place, if_neg hsize]
  exact Word.dvd_roundUp

lemma place_congr (hsize : (s' r).size = (s r).size) (halign : (s' r).align = (s r).align)
    (hflag : (s' r).has IORESOURCE_IO = (s r).has IORESOURCE_IO) : place s' x r = place s x r := by
  rw [place, place, hsize, halign, hflag]

/-! ### The arithmetic on words -/

lemma round_eq {pow : ℕ} (hpow : pow < 64) (h : Word.roundUp x pow < 2 ^ 64) :
    round x pow = Word.roundUp x pow := Word.alignUp_eq hpow.le h

lemma round_zero {pow : ℕ} (hpow : pow < 64) : round 0 pow = 0 := by
  have hzero : Word.roundUp 0 pow = 0 := Word.roundUp_of_dvd (Nat.dvd_zero _)
  rw [round_eq hpow (by rw [hzero]; positivity), hzero]

/-- The branch for the VGA range is not reached: its addresses are aliases. -/
lemma skipAliases_eq (h : skip x < 2 ^ 64) : skipAliases x = skip x := by
  have hx : x < 2 ^ 64 := le_skip.trans_lt h
  unfold skipAliases skip at *
  split_ifs at * with halias hvga
  · have hdown : x &&& Word.not 64 0x3ff = x / 0x400 * 0x400 :=
      Word.alignDown_eq (k := 10) (by decide) hx
    rw [hdown, Word.add_eq h]
  · obtain ⟨hlow, hhigh⟩ := hvga
    exfalso
    interval_cases x <;> exact halias (by decide)
  · rfl

/-- The aligned base that the loops compute. -/
lemma round_skipAliases_eq (hsize : (s r).size ≠ 0) (halign : (s r).align < 64)
    (h : place s x r < 2 ^ 64) :
    round (if (s r).has IORESOURCE_IO then skipAliases x else x) (s r).align = place s x r := by
  rw [place, if_neg hsize] at h ⊢
  split_ifs at h ⊢ with hflag
  · rw [skipAliases_eq (Word.le_roundUp.trans_lt h), round_eq halign h]
  · exact round_eq halign h

end ApuBios.Allocator
