import ApuBios.Lib.Memrange.Properties

/-!
# Requests for no bytes

`do_action` turns a request into an inclusive interval. For zero bytes at the start of a page
that interval ends in front of its beginning, and nothing behind `do_action` looks for that:
removal cuts an entry in two at the address, insertion links an empty entry there.
-/

namespace ApuBios.Memrange

open IntervalMap

lemma lastOf_lt (base size : ℕ) : lastOf base size < 2 ^ 64 := Word.sub_lt

/-- The interval always ends with a page. -/
lemma dvd_lastOf_add_one (base size : ℕ) : 4096 ∣ lastOf base size + 1 := by
  simp only [lastOf]
  generalize Word.add 64 (Word.add 64 (Word.alignDown 64 base 4096) size) _ = x
  have hlt : Word.add 64 x 4095 < 2 ^ 64 := Word.add_lt
  have hdvd : 4096 ∣ Word.alignUp 64 x 4096 :=
    Nat.dvd_of_mod_eq_zero (Word.alignDown_mod (k := 12) (by norm_num) hlt)
  have hle : Word.alignUp 64 x 4096 < 2 ^ 64 :=
    lt_of_le_of_lt (Word.alignDown_le (k := 12) (by norm_num) hlt) hlt
  rw [Word.sub]
  omega

/-- Where the interval for no bytes ends. -/
lemma lastOf_zero {base : ℕ} (hbase : base < 2 ^ 64) :
    lastOf base 0 = if base = 0 then 2 ^ 64 - 1
      else if 4096 ∣ base then base - 1 else pageBegin base + 4095 := by
  have hle := pageBegin_le base
  have hend : Word.add 64 (Word.add 64 (pageBegin base) 0) (Word.sub 64 base (pageBegin base)) =
      base := by
    have hfront : Word.add 64 (pageBegin base) 0 = pageBegin base := by
      rw [Word.add, Nat.add_zero, Nat.mod_eq_of_lt (lt_of_le_of_lt hle hbase)]
    rw [Word.sub_eq hle hbase, hfront, Word.add, Nat.add_sub_cancel' hle]
    exact Nat.mod_eq_of_lt hbase
  simp only [lastOf, alignDown_eq_pageBegin hbase, hend]
  rw [show 4096 = 2 ^ 12 from rfl]
  have hround : Word.roundUp base 12 = (base + 4095) / 4096 * 4096 := rfl
  have hcases : Word.alignUp 64 base (2 ^ 12) = Word.roundUp base 12 ∨
      Word.alignUp 64 base (2 ^ 12) = 0 ∧ Word.roundUp base 12 = 2 ^ 64 := by
    have htop : Word.roundUp base 12 ≤ 2 ^ 64 := Word.roundUp_le hbase.le (by norm_num)
    rcases htop.lt_or_eq with hlt | heq
    · exact Or.inl (Word.alignUp_eq (by norm_num) hlt)
    · exact Or.inr ⟨Word.alignUp_eq_zero (by norm_num) hbase heq, heq⟩
  rw [pageBegin]
  split_ifs with hzero hpage
  · subst hzero
    rfl
  · rcases hcases with h | h <;> rw [Word.sub] <;> omega
  · rcases hcases with h | h <;> rw [Word.sub] <;> omega

/-! ### Cutting -/

/-- A list of entries cut at an address into what lies in front of it and the rest. -/
structure CutAt (b : ℕ) (es front back : List RangeEntry) : Prop where
  front_lt : ∀ e ∈ front, e.end_ < b
  le_back : ∀ e ∈ back, b ≤ e.begin
  canonical_front : Canonical front
  canonical_back : Canonical back
  separated : Separated (front ++ back)
  paged : ∀ e ∈ front ++ back, e.Paged
  lookup_eq : lookup (front ++ back) = lookup es

/-- Some entry has the address and the one in front of it. -/
def Covers (es : List RangeEntry) (b : ℕ) : Prop :=
  ∃ t, lookup es (b - 1) = some t ∧ lookup es b = some t

private lemma removeLoop_append {b : ℕ} {front back : List RangeEntry}
    (hfront : ∀ e ∈ front, e.begin ≤ e.end_ ∧ e.end_ < b) :
    removeLoop b (b - 1) (front ++ back) = front ++ removeLoop b (b - 1) back := by
  induction front with
  | nil => rfl
  | cons e front ih =>
    obtain ⟨hle, hlt⟩ := hfront e (by simp)
    rw [List.cons_append, removeLoop, if_neg (by omega), if_pos hlt,
      ih fun f hf => hfront f (by simp [hf]), List.cons_append]

private lemma removeLoop_middle {b : ℕ} {e : RangeEntry} {back : List RangeEntry}
    (hfit : e.end_ < 2 ^ 64) (hbegin : e.begin < b) (hend : b ≤ e.end_) :
    removeLoop b (b - 1) (e :: back) =
      { e with end_ := b - 1 } :: ⟨b, e.end_, e.tag⟩ :: back := by
  have hsub : Word.sub 64 b 1 = b - 1 := Word.sub_eq (by omega) (by omega)
  have hadd : Word.add 64 (b - 1) 1 = b - 1 + 1 := Word.add_eq (by omega)
  rw [removeLoop, if_neg (by omega), if_neg (by omega), if_neg (by omega)]
  simp only [if_neg (show ¬b ≤ e.begin by omega), if_neg (show ¬e.end_ < b - 1 by omega)]
  rw [if_pos (by omega), hsub, hadd, Nat.sub_add_cancel (by omega)]

/-- An entry that is cut in two leaves two touching entries with its tag. -/
private lemma cutAt_middle {b : ℕ} (hpage : 4096 ∣ b) {front back : List RangeEntry}
    {e : RangeEntry} (hcan : Canonical (front ++ e :: back))
    (hp : ∀ f ∈ front ++ e :: back, f.Paged) (hfront : ∀ f ∈ front, f.end_ < b)
    (hlo : e.begin < b) (hhi : b ≤ e.end_) (hback : ∀ f ∈ back, b ≤ f.begin) :
    CutAt b (front ++ e :: back) (front ++ [{ e with end_ := b - 1 }])
      (⟨b, e.end_, e.tag⟩ :: back) := by
  obtain ⟨hsf, hseb, hcross⟩ := List.pairwise_append.mp hcan.sorted
  obtain ⟨heb, hsb⟩ := List.pairwise_cons.mp hseb
  have heP := hp e (by simp)
  have he₁ : RangeEntry.Paged { e with end_ := b - 1 } :=
    ⟨by simp only; omega, by have := heP.fits; simp only; omega, heP.begin_page,
      by simp only; rwa [Nat.sub_add_cancel (by omega)]⟩
  have he₂ : RangeEntry.Paged ⟨b, e.end_, e.tag⟩ := ⟨hhi, heP.fits, hpage, heP.end_page⟩
  have hmem : ∀ f ∈ (front ++ [{ e with end_ := b - 1 }]) ++ ⟨b, e.end_, e.tag⟩ :: back,
      f.Paged := by
    intro f hf
    simp only [List.append_assoc, List.mem_append, List.mem_cons, List.mem_nil_iff] at hf
    rcases hf with hf | (rfl | hf) | rfl | hf
    · exact hp f (by simp [hf])
    · exact he₁
    · exact absurd hf id
    · exact he₂
    · exact hp f (by simp [hf])
  refine ⟨?_, ?_, ?_, ?_, ?_, hmem, ?_⟩
  · intro f hf
    rcases List.mem_append.mp hf with hf | hf
    · exact hfront f hf
    · rw [List.mem_singleton.mp hf]
      simp only
      omega
  · intro f hf
    rcases List.mem_cons.mp hf with rfl | hf
    · exact le_rfl
    · exact hback f hf
  · refine ⟨fun f hf => (hmem f (List.mem_append_left _ hf)).begin_le,
      List.pairwise_append.mpr ⟨hsf, List.pairwise_singleton _ _, fun f hf g hg => ?_⟩⟩
    rw [List.mem_singleton.mp hg]
    exact hcross f hf e (by simp)
  · exact ⟨fun f hf => (hmem f (List.mem_append_right _ hf)).begin_le,
      List.pairwise_cons.mpr ⟨heb, hsb⟩⟩
  · refine ⟨fun f hf => (hmem f hf).begin_le, List.pairwise_append.mpr ⟨?_, ?_, ?_⟩⟩
    · refine List.pairwise_append.mpr
        ⟨hsf.imp fun h => h.1, List.pairwise_singleton _ _, fun f hf g hg => ?_⟩
      rw [List.mem_singleton.mp hg]
      exact (hcross f hf e (by simp)).1
    · exact List.pairwise_cons.mpr ⟨fun f hf => (heb f hf).1, hsb.imp fun h => h.1⟩
    · intro f hf g hg
      have hfb : f.end_ < b := by
        rcases List.mem_append.mp hf with hf | hf
        · exact hfront f hf
        · rw [List.mem_singleton.mp hf]
          simp only
          omega
      have hbg : b ≤ g.begin := by
        rcases List.mem_cons.mp hg with rfl | hg
        · exact le_rfl
        · exact hback g hg
      simp only [lo_eq, hi_eq]
      omega
  · funext a
    simp only [List.append_assoc, List.singleton_append, lookup_append, lookup_cons, lo_eq, hi_eq,
      val_eq]
    congr 1
    split_ifs <;> first | rfl | (exfalso; omega)

/-- Removing an interval that ends in front of its beginning cuts the list there. -/
private lemma removeLoop_inverted {b : ℕ} (hb : 0 < b) (hpage : 4096 ∣ b) {es : List RangeEntry}
    (hcan : Canonical es) (hp : ∀ e ∈ es, e.Paged) :
    ∃ front back, removeLoop b (b - 1) es = front ++ back ∧ CutAt b es front back := by
  have hs := hcan.separated
  rcases hs.exists_split b with ⟨front, back, rfl, hfront, hback⟩ |
    ⟨front, e, back, rfl, hfront, ⟨hlo, hhi⟩, hback⟩
  · obtain ⟨hsf, hsb, -⟩ := List.pairwise_append.mp hcan.sorted
    have hstop : ∀ e ∈ back, b - 1 < e.begin := by
      intro e he
      have := hback e he
      simp only [lo_eq] at this
      omega
    refine ⟨front, back, ?_, hfront, hback, ⟨fun e he => hcan.nonempty e (by simp [he]), hsf⟩,
      ⟨fun e he => hcan.nonempty e (by simp [he]), hsb⟩, hs, hp, rfl⟩
    rw [removeLoop_append fun e he => ⟨hs.nonempty e (by simp [he]), hfront e he⟩,
      removeLoop_of_lt hstop]
  · refine ⟨_, _, ?_, cutAt_middle hpage hcan hp hfront hlo hhi hback⟩
    rw [removeLoop_append fun f hf => ⟨hs.nonempty f (by simp [hf]), hfront f hf⟩,
      removeLoop_middle (hp e (by simp)).fits hlo hhi, List.append_assoc, List.singleton_append]

/-- The cut shows if and only if it goes through an entry. -/
private lemma removeLoop_inverted_iff {b : ℕ} (hb : 0 < b) (hpage : 4096 ∣ b)
    {es : List RangeEntry} (hcan : Canonical es) (hp : ∀ e ∈ es, e.Paged) :
    Canonical (removeLoop b (b - 1) es) ↔ ¬Covers es b := by
  obtain ⟨front, back, heq, hcut⟩ := removeLoop_inverted hb hpage hcan hp
  rw [heq]
  constructor
  · rintro hout ⟨t, ht, ht'⟩
    rw [← hcut.lookup_eq] at ht ht'
    obtain ⟨e, he, helo, hehi, hev⟩ := exists_of_lookup ht
    obtain ⟨f, hf, hflo, hfhi, hfv⟩ := exists_of_lookup ht'
    simp only [lo_eq, hi_eq, val_eq] at *
    have hef : e ∈ front := by
      rcases List.mem_append.mp he with he | he
      · exact he
      · have := hcut.le_back e he
        omega
    have hfb : f ∈ back := by
      rcases List.mem_append.mp hf with hf | hf
      · have := hcut.front_lt f hf
        omega
      · exact hf
    have hbefore := (List.pairwise_append.mp hout.sorted).2.2 e hef f hfb
    have := hcut.front_lt e hef
    have := hcut.le_back f hfb
    exact hbefore.2 (by simp only [lo_eq, hi_eq]; omega) (hev.trans hfv.symm)
  · intro hno
    refine ⟨hcut.separated.nonempty, List.pairwise_append.mpr
      ⟨hcut.canonical_front.sorted, hcut.canonical_back.sorted, fun e he f hf => ?_⟩⟩
    have hlt := hcut.front_lt e he
    have hle := hcut.le_back f hf
    refine ⟨by simp only [lo_eq, hi_eq]; omega, fun htouch htag => hno ⟨e.tag, ?_, ?_⟩⟩
    · rw [← hcut.lookup_eq]
      have := hcut.separated.nonempty e (by simp [he])
      simp only [lo_eq, hi_eq] at this htouch
      exact hcut.separated.lookup_mem (by simp [he]) (by simp only [lo_eq]; omega)
        (by simp only [hi_eq]; omega)
    · rw [← hcut.lookup_eq, show e.tag = f.tag from htag]
      have := hcut.separated.nonempty f (by simp [hf])
      simp only [lo_eq, hi_eq] at this htouch
      exact hcut.separated.lookup_mem (by simp [hf]) (by simp only [lo_eq]; omega)
        (by simp only [hi_eq]; omega)
/-- What a call leaves as it was: the tag of every address and the shape of the list. -/
structure Unchanged (ranges ranges' : Memranges) : Prop where
  denote_eq : ∀ a, ranges'.denote a = ranges.denote a
  canonical : ranges'.IsCanonical

/-- Punching an interval that ends in front of its beginning. -/
lemma removeMemranges_inverted_iff {b : ℕ} (hb : 0 < b) (hpage : 4096 ∣ b) (unused : ℕ)
    {ranges : Memranges} (h : ranges.IsCanonical) :
    Unchanged ranges (removeMemranges ranges b (b - 1) unused) ↔ ¬Covers ranges.entries b := by
  obtain ⟨hcan, hp⟩ := (Memranges.isCanonical_iff _).mp h
  obtain ⟨front, back, heq, hcut⟩ := removeLoop_inverted hb hpage hcan hp
  rw [← removeLoop_inverted_iff hb hpage hcan hp]
  constructor
  · intro hun
    exact ((Memranges.isCanonical_iff _).mp hun.canonical).1
  · intro hout
    refine ⟨fun a => ?_, (Memranges.isCanonical_iff _).mpr ⟨hout, ?_⟩⟩
    · rw [Memranges.denote, removeMemranges, heq, hcut.lookup_eq]
      rfl
    · rw [removeMemranges, heq]
      exact hcut.paged

/-! ### An empty entry in the list -/

/-- The new entry goes in between the two parts. -/
private lemma addLoop_cut {b t : ℕ} (hb : 0 < b) {front back : List RangeEntry}
    (hfront : ∀ e ∈ front, e.begin < b) (hback : ∀ e ∈ back, b ≤ e.begin) :
    addLoop ⟨b, b - 1, t⟩ (front ++ back) = front ++ ⟨b, b - 1, t⟩ :: back := by
  induction front with
  | nil =>
    cases back with
    | nil => rfl
    | cons f back =>
      have := hback f (by simp)
      rw [List.nil_append, addLoop, if_pos (by simp only; omega), List.nil_append]
  | cons e front ih =>
    have := hfront e (by simp)
    rw [List.cons_append, addLoop, if_neg (by simp only; omega),
      ih fun f hf => hfront f (by simp [hf]), List.cons_append]

/-- Entries that are already coalesced stay as they are. -/
private lemma mergeNeighborEntries_append {front rest : List RangeEntry} {e : RangeEntry}
    (hcan : Canonical (front ++ [e])) (hfit : ∀ f ∈ front, f.end_ + 1 < 2 ^ 64) :
    mergeNeighborEntries ⟨front ++ e :: rest⟩ = ⟨front ++ mergeNeighborLoop e rest⟩ := by
  induction front with
  | nil => rfl
  | cons p front ih =>
    obtain ⟨-, hlt, hcan'⟩ := Canonical.cons_iff.mp hcan
    have hih := ih hcan' fun f hf => hfit f (by simp [hf])
    have hadd : Word.add 64 p.end_ 1 = p.end_ + 1 := Word.add_eq (hfit p (by simp))
    have hstep : ∀ f rest', f ∈ front ++ [e] →
        mergeNeighborLoop p (f :: rest') = p :: mergeNeighborLoop f rest' := by
      intro f rest' hf
      have hbefore := hlt f hf
      rw [mergeNeighborLoop, hadd, if_neg]
      rintro ⟨htouch, htag⟩
      have hend := hbefore.1
      simp only [lo_eq, hi_eq] at hend
      exact hbefore.2 (by simp only [lo_eq, hi_eq]; omega) htag
    cases front with
    | nil =>
      change Memranges.mk (mergeNeighborLoop p (e :: rest)) = _
      rw [hstep e rest (by simp)]
      rfl
    | cons f front =>
      change Memranges.mk (mergeNeighborLoop p (f :: (front ++ e :: rest))) = _
      rw [hstep f _ (by simp)]
      have hcons : mergeNeighborLoop f (front ++ e :: rest) =
          f :: front ++ mergeNeighborLoop e rest := congrArg Memranges.entries hih
      rw [hcons]
      rfl

/-- An empty entry that meets a neighbour with its tag goes away. -/
private lemma mergeNeighborLoop_empty_left {b : ℕ} (hb : 0 < b) (hfit : b < 2 ^ 64)
    {e : RangeEntry} (htouch : e.end_ + 1 = b) (rest : List RangeEntry) :
    mergeNeighborLoop e (⟨b, b - 1, e.tag⟩ :: rest) = mergeNeighborLoop e rest := by
  have hadd : Word.add 64 e.end_ 1 = e.end_ + 1 := Word.add_eq (by omega)
  rw [mergeNeighborLoop, hadd, if_pos ⟨htouch.ge, rfl⟩, show b - 1 = e.end_ by omega]

private lemma mergeNeighborLoop_empty_right {b : ℕ} (hb : 0 < b) (hfit : b < 2 ^ 64)
    {f : RangeEntry} (hbegin : f.begin = b) (rest : List RangeEntry) :
    mergeNeighborLoop ⟨b, b - 1, f.tag⟩ (f :: rest) = mergeNeighborLoop f rest := by
  have hadd : Word.add 64 (b - 1) 1 = b - 1 + 1 := Word.add_eq (by omega)
  rw [mergeNeighborLoop, if_pos ⟨by simp only [hadd]; omega, rfl⟩, ← hbegin]
private lemma mergeNeighborLoop_empty_apart {b t : ℕ} {e : RangeEntry} (hend : e.end_ < b)
    (hfit : b < 2 ^ 64) (happart : ¬(e.end_ + 1 = b ∧ e.tag = t)) (rest : List RangeEntry) :
    mergeNeighborLoop e (⟨b, b - 1, t⟩ :: rest) =
      e :: mergeNeighborLoop ⟨b, b - 1, t⟩ rest := by
  have hadd : Word.add 64 e.end_ 1 = e.end_ + 1 := Word.add_eq (by omega)
  rw [mergeNeighborLoop, hadd, if_neg]
  rintro ⟨htouch, htag⟩
  simp only at htouch htag
  exact happart ⟨by omega, htag⟩

/-- An empty entry that meets no entry with its tag behind it stays. -/
private lemma mem_mergeNeighborLoop_empty {b t : ℕ} (hb : 0 < b) (hfit : b < 2 ^ 64)
    {back : List RangeEntry} (hback : ∀ f ∈ back, b ≤ f.begin)
    (hapart : ∀ f r, back = f :: r → ¬(f.begin = b ∧ f.tag = t)) :
    ⟨b, b - 1, t⟩ ∈ mergeNeighborLoop ⟨b, b - 1, t⟩ back := by
  cases back with
  | nil => simp [mergeNeighborLoop]
  | cons f r =>
    have hadd : Word.add 64 (b - 1) 1 = b - 1 + 1 := Word.add_eq (by omega)
    have hle := hback f (by simp)
    rw [mergeNeighborLoop, if_neg]
    · exact List.mem_cons_self ..
    rintro ⟨htouch, htag⟩
    simp only [hadd] at htouch htag
    exact hapart f r rfl ⟨by omega, htag.symm⟩

namespace CutAt

variable {b t : ℕ} {es front back : List RangeEntry}

/-- The last entry in front of the cut. -/
lemma lookup_pred_iff (hcut : CutAt b es front back) (hb : 0 < b) :
    lookup es (b - 1) = some t ↔ ∃ l e, front = l ++ [e] ∧ e.end_ + 1 = b ∧ e.tag = t := by
  rw [← hcut.lookup_eq]
  constructor
  · intro hlook
    obtain ⟨e, he, hlo, hhi, htag⟩ := exists_of_lookup hlook
    simp only [lo_eq, hi_eq, val_eq] at hlo hhi htag
    have hef : e ∈ front := by
      rcases List.mem_append.mp he with he | he
      · exact he
      · have := hcut.le_back e he
        omega
    have hend := hcut.front_lt e hef
    rcases List.eq_nil_or_concat' front with rfl | ⟨l, e', rfl⟩
    · cases hef
    · rcases List.mem_append.mp hef with hl | hl
      · -- an earlier entry ends before the last one begins
        have hlt := (List.pairwise_append.mp hcut.canonical_front.sorted).2.2 e hl e' (by simp)
        have hle := hcut.canonical_front.nonempty e' (by simp)
        have hlt' := hcut.front_lt e' (by simp)
        have := hlt.1
        simp only [lo_eq, hi_eq] at this hle
        omega
      · rw [List.mem_singleton.mp hl] at hhi hend htag
        exact ⟨l, e', rfl, by omega, htag⟩
  · rintro ⟨l, e, rfl, hend, rfl⟩
    have hle := hcut.canonical_front.nonempty e (by simp)
    simp only [lo_eq, hi_eq] at hle
    exact hcut.separated.lookup_mem (by simp) (by simp only [lo_eq]; omega)
      (by simp only [hi_eq]; omega)

/-- The first entry behind the cut. -/
lemma lookup_iff (hcut : CutAt b es front back) :
    lookup es b = some t ↔ ∃ f r, back = f :: r ∧ f.begin = b ∧ f.tag = t := by
  rw [← hcut.lookup_eq]
  constructor
  · intro hlook
    obtain ⟨e, he, hlo, hhi, htag⟩ := exists_of_lookup hlook
    simp only [lo_eq, hi_eq, val_eq] at hlo hhi htag
    have heb : e ∈ back := by
      rcases List.mem_append.mp he with he | he
      · have := hcut.front_lt e he
        omega
      · exact he
    cases back with
    | nil => cases heb
    | cons f r =>
      rcases List.mem_cons.mp heb with rfl | hr
      · exact ⟨e, r, rfl, le_antisymm hlo (hcut.le_back e (by simp)), htag⟩
      · have hlt := (List.pairwise_cons.mp hcut.canonical_back.sorted).1 e hr
        have hle := hcut.canonical_back.nonempty f (by simp)
        have := hlt.1
        have := hcut.le_back f (by simp)
        simp only [lo_eq, hi_eq] at *
        omega
  · rintro ⟨f, r, rfl, rfl, rfl⟩
    exact hcut.separated.lookup_mem (by simp) le_rfl (hcut.canonical_back.nonempty f (by simp))

end CutAt

/-- An empty entry with the tag of a neighbour is merged into it. -/
private lemma mergeNeighborEntries_empty {b t : ℕ} (hb : 0 < b) (hfit : b < 2 ^ 64)
    {es front back : List RangeEntry} (hcut : CutAt b es front back)
    (hor : lookup es (b - 1) = some t ∨ lookup es b = some t) :
    mergeNeighborEntries ⟨front ++ ⟨b, b - 1, t⟩ :: back⟩ =
      mergeNeighborEntries ⟨front ++ back⟩ := by
  have hend : ∀ l e, front = l ++ [e] → ∀ f ∈ l, f.end_ + 1 < 2 ^ 64 := by
    intro l e heq f hf
    have := hcut.front_lt f (by rw [heq]; simp [hf])
    omega
  rw [hcut.lookup_pred_iff hb, hcut.lookup_iff] at hor
  by_cases hleft : ∃ l e, front = l ++ [e] ∧ e.end_ + 1 = b ∧ e.tag = t
  · obtain ⟨l, e, rfl, htouch, rfl⟩ := hleft
    rw [List.append_assoc, List.append_assoc, List.singleton_append, List.singleton_append,
      mergeNeighborEntries_append hcut.canonical_front (hend l e rfl),
      mergeNeighborEntries_append hcut.canonical_front (hend l e rfl),
      mergeNeighborLoop_empty_left hb hfit htouch]
  · obtain ⟨f, r, rfl, hbegin, rfl⟩ := hor.resolve_left hleft
    rcases List.eq_nil_or_concat' front with rfl | ⟨l, e, rfl⟩
    · exact congrArg Memranges.mk (mergeNeighborLoop_empty_right hb hfit hbegin r)
    · have happart : ¬(e.end_ + 1 = b ∧ e.tag = f.tag) := fun he => hleft ⟨l, e, rfl, he⟩
      have hlt := hcut.front_lt e (by simp)
      have hstep : mergeNeighborLoop e (f :: r) = e :: mergeNeighborLoop f r := by
        have hadd : Word.add 64 e.end_ 1 = e.end_ + 1 := Word.add_eq (by omega)
        rw [mergeNeighborLoop, hadd, if_neg]
        rintro ⟨htouch, htag⟩
        exact happart ⟨by omega, htag⟩
      rw [List.append_assoc, List.append_assoc, List.singleton_append, List.singleton_append,
        mergeNeighborEntries_append hcut.canonical_front (hend l e rfl),
        mergeNeighborEntries_append hcut.canonical_front (hend l e rfl),
        mergeNeighborLoop_empty_apart hlt hfit happart,
        mergeNeighborLoop_empty_right hb hfit hbegin, hstep]

/-- Inserting an interval that ends in front of its beginning does no harm if and only if a
neighbour has its tag: the empty entry is merged into that one. -/
lemma mergeAddMemranges_inverted_iff {b : ℕ} (hb : 0 < b) (hfit : b < 2 ^ 64) (hpage : 4096 ∣ b)
    (t : ℕ) {ranges : Memranges} (h : ranges.IsCanonical) :
    Unchanged ranges (mergeAddMemranges ranges b (b - 1) t) ↔
      ranges.denote (b - 1) = some t ∨ ranges.denote b = some t := by
  obtain ⟨hcan, hp⟩ := (Memranges.isCanonical_iff _).mp h
  obtain ⟨front, back, heq, hcut⟩ := removeLoop_inverted hb hpage hcan hp
  have hbegin : ∀ e ∈ front, e.begin < b := by
    intro e he
    exact lt_of_le_of_lt (hcut.canonical_front.nonempty e he) (hcut.front_lt e he)
  have hadd : mergeAddMemranges ranges b (b - 1) t =
      mergeNeighborEntries ⟨front ++ ⟨b, b - 1, t⟩ :: back⟩ := by
    rw [mergeAddMemranges, removeMemranges, heq]
    exact congrArg (fun l => mergeNeighborEntries ⟨l⟩) (addLoop_cut hb hbegin hcut.le_back)
  -- without the empty entry, merging undoes the cut
  have hmerge : mergeNeighborEntries ⟨front ++ back⟩ = ranges := by
    obtain ⟨hmcan, hmden⟩ := mergeNeighborEntries_spec ⟨front ++ back⟩ hcut.separated hcut.paged
    exact hmcan.ext h (hmden.trans hcut.lookup_eq)
  have hpred := hcut.lookup_pred_iff (t := t) hb
  have hat := hcut.lookup_iff (t := t)
  change _ ↔ lookup ranges.entries (b - 1) = some t ∨ lookup ranges.entries b = some t
  rw [hadd]
  constructor
  · intro hun
    by_contra hneither
    rw [hpred, hat, not_or] at hneither
    obtain ⟨hnpred, hnat⟩ := hneither
    have hstay := mem_mergeNeighborLoop_empty (t := t) hb hfit hcut.le_back
      fun f r hfr hf => hnat ⟨f, r, hfr, hf⟩
    have hmem : (⟨b, b - 1, t⟩ : RangeEntry) ∈
        (mergeNeighborEntries ⟨front ++ ⟨b, b - 1, t⟩ :: back⟩).entries := by
      rcases List.eq_nil_or_concat' front with rfl | ⟨l, e, rfl⟩
      · exact hstay
      · rw [List.append_assoc, List.singleton_append,
          mergeNeighborEntries_append hcut.canonical_front fun f hf => by
            have := hcut.front_lt f (by simp [hf])
            omega,
          mergeNeighborLoop_empty_apart (hcut.front_lt e (by simp)) hfit fun he =>
            hnpred ⟨l, e, rfl, he⟩]
        simp [hstay]
    have := hun.canonical.begin_le _ hmem
    simp only at this
    omega
  · intro hor
    rw [mergeNeighborEntries_empty hb hfit hcut hor, hmerge]
    exact ⟨fun a => rfl, h⟩
/-! ### Intervals in order -/

lemma removeMemranges_iff {begin end_ : ℕ} (unused : ℕ) (hle : begin ≤ end_)
    (hfit : end_ < 2 ^ 64) (hbegin : 4096 ∣ begin) (hend : 4096 ∣ end_ + 1) {ranges : Memranges}
    (h : ranges.IsCanonical) :
    Unchanged ranges (removeMemranges ranges begin end_ unused) ↔
      ∀ a, begin ≤ a → a ≤ end_ → ranges.denote a = none := by
  obtain ⟨hcan, hden⟩ := removeMemranges_spec unused hle hfit hbegin hend h
  constructor
  · intro hun a hlo hhi
    rw [← hun.denote_eq a, hden a, if_pos ⟨hlo, hhi⟩]
  · intro hnone
    refine ⟨fun a => ?_, hcan⟩
    rw [hden a]
    split_ifs with ha
    · exact (hnone a ha.1 ha.2).symm
    · rfl

lemma mergeAddMemranges_iff {begin end_ : ℕ} (t : ℕ) (hle : begin ≤ end_)
    (hfit : end_ < 2 ^ 64) (hbegin : 4096 ∣ begin) (hend : 4096 ∣ end_ + 1) {ranges : Memranges}
    (h : ranges.IsCanonical) :
    Unchanged ranges (mergeAddMemranges ranges begin end_ t) ↔
      ∀ a, begin ≤ a → a ≤ end_ → ranges.denote a = some t := by
  obtain ⟨hcan, hden⟩ := mergeAddMemranges_spec t hle hfit hbegin hend h
  constructor
  · intro hun a hlo hhi
    rw [← hun.denote_eq a, hden a, if_pos ⟨hlo, hhi⟩]
  · intro hsome
    refine ⟨fun a => ?_, hcan⟩
    rw [hden a]
    split_ifs with ha
    · exact (hsome a ha.1 ha.2).symm
    · rfl

/-! ### Requests for no bytes -/

/-- Punching a hole of no bytes at `base` does no harm. At 0 it takes everything, at the start
of another page it cuts there, and elsewhere it takes the page. -/
def HoleKeeps (ranges : Memranges) (base : ℕ) : Prop :=
  if base = 0 then ∀ a < 2 ^ 64, ranges.denote a = none
  else if 4096 ∣ base then
    ¬∃ t, ranges.denote (base - 1) = some t ∧ ranges.denote base = some t
  else ∀ a, pageBegin base ≤ a → a ≤ pageBegin base + 4095 → ranges.denote a = none

/-- Inserting no bytes at `base` does no harm. At 0 it covers everything, at the start of another
page it leaves an empty entry, and elsewhere it covers the page. -/
def InsertKeeps (ranges : Memranges) (base tag : ℕ) : Prop :=
  if base = 0 then ∀ a < 2 ^ 64, ranges.denote a = some tag
  else if 4096 ∣ base then ranges.denote (base - 1) = some tag ∨ ranges.denote base = some tag
  else ∀ a, pageBegin base ≤ a → a ≤ pageBegin base + 4095 → ranges.denote a = some tag

lemma pageBegin_of_dvd {base : ℕ} (h : 4096 ∣ base) : pageBegin base = base :=
  Nat.div_mul_cancel h

lemma createHole_zero_iff {ranges : Memranges} (h : ranges.IsCanonical) {base : ℕ}
    (hbase : base < 2 ^ 64) :
    Unchanged ranges (memrangesCreateHole ranges base 0) ↔ HoleKeeps ranges base := by
  have hfit := lastOf_lt base 0
  have hend := dvd_lastOf_add_one base 0
  have hlast := lastOf_zero hbase
  have hle := pageBegin_le base
  rw [memrangesCreateHole, doAction_eq_lastOf hbase, HoleKeeps]
  split_ifs at hlast ⊢ with hzero hpage
  · rw [removeMemranges_iff _ (by omega) hfit (dvd_pageBegin base) hend h, hlast, hzero]
    exact ⟨fun hall a ha => hall a (Nat.zero_le a) (by omega), fun hall a _ ha => hall a (by omega)⟩
  · rw [hlast, pageBegin_of_dvd hpage]
    exact removeMemranges_inverted_iff (by omega) hpage _ h
  · rw [hlast] at hfit hend ⊢
    exact removeMemranges_iff _ (by omega) hfit (dvd_pageBegin base) hend h

lemma insert_zero_iff {ranges : Memranges} (h : ranges.IsCanonical) {base : ℕ}
    (hbase : base < 2 ^ 64) (tag : ℕ) :
    Unchanged ranges (memrangesInsert ranges base 0 tag) ↔ InsertKeeps ranges base tag := by
  have hfit := lastOf_lt base 0
  have hend := dvd_lastOf_add_one base 0
  have hlast := lastOf_zero hbase
  have hle := pageBegin_le base
  rw [memrangesInsert, doAction_eq_lastOf hbase, InsertKeeps]
  split_ifs at hlast ⊢ with hzero hpage
  · rw [mergeAddMemranges_iff _ (by omega) hfit (dvd_pageBegin base) hend h, hlast, hzero]
    exact ⟨fun hall a ha => hall a (Nat.zero_le a) (by omega), fun hall a _ ha => hall a (by omega)⟩
  · rw [hlast, pageBegin_of_dvd hpage]
    exact mergeAddMemranges_inverted_iff (by omega) hbase hpage tag h
  · rw [hlast] at hfit hend ⊢
    exact mergeAddMemranges_iff _ (by omega) hfit (dvd_pageBegin base) hend h

end ApuBios.Memrange
