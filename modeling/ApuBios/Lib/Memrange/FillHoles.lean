import ApuBios.Lib.Memrange.Properties

/-!
# Filling holes

`memranges_fill_holes_up_to` adds an entry for every hole that it passes, and merges. It never
passes a hole in front of the first entry, and where the limit is not in a hole the entry that it
adds ends before it begins.
-/

namespace ApuBios.Memrange

open IntervalMap

variable {limit tag : ℕ} {prev cur e f m : RangeEntry} {es xs ys : List RangeEntry}

/-- The addresses below the limit that were not covered have the tag, everything else is as it was,
and the list is canonical. -/
structure Filled (ranges : Memranges) (limit tag : ℕ) (result : Memranges) : Prop where
  canonical : Canonical result.entries
  keeps : ∀ a t, ranges.denote a = some t → result.denote a = some t
  fills : ∀ a < limit, ranges.denote a = none → result.denote a = some tag
  above : ∀ a ≥ limit, result.denote a = ranges.denote a

/-- Behind the entry that reaches the limit there is no hole, unless the entry that is added for it
is merged with this one. -/
def Reaches (limit tag : ℕ) (e f : RangeEntry) : Prop :=
  e.begin < limit → limit ≤ e.end_ + 1 → e.end_ + 1 = f.begin ∨ e.end_ + 1 = limit ∧ e.tag = tag

/-- The lists whose holes are filled. -/
structure Fillable (ranges : Memranges) (limit tag : ℕ) : Prop where
  starts : ∃ first rest, ranges.entries = first :: rest ∧ first.begin = 0
  reaches : ranges.entries.IsChain (Reaches limit tag)
  /-- An entry up to the top of the address space is not visited. -/
  inside : ∀ e ∈ ranges.entries, e.end_ + 1 = 2 ^ 64 → ∃ f ∈ ranges.entries, limit ≤ f.begin ∧ f ≠ e

/-! ### Merging -/

private lemma getLastD_append_cons (xs ys : List RangeEntry) :
    (xs ++ e :: ys).getLastD prev = ys.getLastD e := by
  induction xs generalizing prev with
  | nil => exact List.getLastD_cons
  | cons x xs ih => rw [List.cons_append, List.getLastD_cons, ih]

/-- The entry that two others were merged into stands for the last one of them. -/
private lemma getLastD_merged (xs : List RangeEntry) (htag : prev.tag = cur.tag) :
    (xs.getLastD { prev with end_ := cur.end_ }).end_ = (xs.getLastD cur).end_ ∧
      (xs.getLastD { prev with end_ := cur.end_ }).tag = (xs.getLastD cur).tag := by
  cases xs with
  | nil => exact ⟨rfl, htag⟩
  | cons x xs =>
    rw [List.getLastD_cons, List.getLastD_cons]
    exact ⟨rfl, rfl⟩

/-- Merging does not go across a hole or a change of the tag. -/
lemma mergeNeighborLoop_append (hlast : ¬(f.begin ≤ Word.add 64 (xs.getLastD prev).end_ 1 ∧
    (xs.getLastD prev).tag = f.tag)) :
    mergeNeighborLoop prev (xs ++ f :: ys) =
      mergeNeighborLoop prev xs ++ mergeNeighborLoop f ys := by
  induction xs generalizing prev with
  | nil =>
    rw [List.getLastD_nil] at hlast
    simp only [List.nil_append, mergeNeighborLoop, if_neg hlast, List.singleton_append]
  | cons x xs ih =>
    rw [List.getLastD_cons] at hlast
    rw [List.cons_append, mergeNeighborLoop, mergeNeighborLoop]
    split_ifs with hmerge
    · obtain ⟨hend, htag⟩ := getLastD_merged xs hmerge.2
      exact ih (by rwa [hend, htag])
    · rw [ih hlast, List.cons_append]

/-- An entry that adds nothing disappears. -/
lemma mergeNeighborLoop_absorb (hbegin : m.begin ≤ Word.add 64 (xs.getLastD prev).end_ 1)
    (htag : (xs.getLastD prev).tag = m.tag) (hend : m.end_ = (xs.getLastD prev).end_) :
    mergeNeighborLoop prev (xs ++ m :: ys) = mergeNeighborLoop prev (xs ++ ys) := by
  induction xs generalizing prev with
  | nil =>
    rw [List.getLastD_nil] at hbegin htag hend
    rw [List.nil_append, List.nil_append, mergeNeighborLoop, if_pos ⟨hbegin, htag⟩, hend]
  | cons x xs ih =>
    rw [List.getLastD_cons] at hbegin htag hend
    rw [List.cons_append, List.cons_append, mergeNeighborLoop, mergeNeighborLoop]
    split_ifs with hmerge
    · obtain ⟨hend', htag'⟩ := getLastD_merged xs hmerge.2
      exact ih (by rwa [hend']) (by rwa [htag']) (by rwa [hend'])
    · rw [ih hbegin htag hend]

/-- The last entry ends where it did. -/
lemma mergeNeighborLoop_last (prev : RangeEntry) (xs : List RangeEntry) :
    ∃ ys z, mergeNeighborLoop prev xs = ys ++ [z] ∧ z.end_ = (xs.getLastD prev).end_ := by
  induction xs generalizing prev with
  | nil => exact ⟨[], prev, rfl, rfl⟩
  | cons x xs ih =>
    rw [mergeNeighborLoop, List.getLastD_cons]
    split_ifs with hmerge
    · obtain ⟨ys, z, hloop, hend⟩ := ih { prev with end_ := x.end_ }
      exact ⟨ys, z, hloop, hend.trans (getLastD_merged xs hmerge.2).1⟩
    · obtain ⟨ys, z, hloop, hend⟩ := ih x
      exact ⟨prev :: ys, z, by rw [hloop, List.cons_append], hend⟩

/-- The first entry begins where it did. -/
lemma mergeNeighborLoop_head (prev : RangeEntry) (xs : List RangeEntry) :
    ∃ z ys, mergeNeighborLoop prev xs = z :: ys ∧ z.begin = prev.begin := by
  induction xs generalizing prev with
  | nil => exact ⟨prev, [], rfl, rfl⟩
  | cons x xs ih =>
    rw [mergeNeighborLoop]
    split_ifs with hmerge
    · obtain ⟨z, ys, hloop, hbegin⟩ := ih { prev with end_ := x.end_ }
      exact ⟨z, ys, hloop, hbegin⟩
    · exact ⟨prev, _, rfl, rfl⟩

/-- In a canonical list no address behind the end of the last entry is covered. -/
lemma lookup_none_of_last {z : RangeEntry} (hcan : Canonical (ys ++ [z])) {a : ℕ}
    (ha : z.end_ < a) : lookup (ys ++ [z]) a = none := by
  refine lookup_eq_none fun x hx => Or.inr (lt_of_le_of_lt ?_ ha)
  rcases List.mem_append.mp hx with hx | hx
  · have hlt := ((List.pairwise_append.mp hcan.sorted).2.2 x hx z (List.mem_singleton_self z)).1
    have hz := hcan.nonempty z (by simp)
    simp only [lo_eq, hi_eq] at hlt hz ⊢
    omega
  · rw [List.mem_singleton.mp hx]
    exact le_rfl

/-! ### The holes below the limit -/

/-- The entry for the addresses from `begin` up to the limit and to the next entry. -/
def hole (limit tag begin next : ℕ) : List RangeEntry :=
  if begin < next ∧ begin < limit then
    [⟨begin, (if limit ≤ next - 1 then limit - 1 else next - 1), tag⟩]
  else []

/-- The list with an entry for each hole behind `prev` that begins below the limit. -/
def fillClean (limit tag : ℕ) (prev : RangeEntry) : List RangeEntry → List RangeEntry
  | [] => prev :: hole limit tag (prev.end_ + 1) (limit + 1)
  | cur :: next =>
    prev :: (hole limit tag (prev.end_ + 1) cur.begin ++ fillClean limit tag cur next)

lemma fillClean_of_le (hs : Separated (prev :: es)) (hlimit : limit ≤ prev.begin) :
    fillClean limit tag prev es = prev :: es := by
  induction es generalizing prev with
  | nil =>
    have hle := hs.nonempty prev (by simp)
    simp only [lo_eq, hi_eq] at hle
    rw [fillClean, hole, if_neg (by omega)]
  | cons cur next ih =>
    obtain ⟨hle, hlt, hs'⟩ := Separated.cons_iff.mp hs
    have hcur := hlt cur (by simp)
    simp only [lo_eq, hi_eq] at hle hcur
    rw [fillClean, hole, if_neg (by omega), List.nil_append, ih hs' (by omega)]

/-- A hole that was filled stands between its neighbours. -/
private lemma hole_spec (tag : ℕ) {begin next : ℕ} (hbegin : 4096 ∣ begin)
    (hnext : 4096 ∣ next ∨ next = limit + 1)
    (hpage : 4096 ∣ limit) (hlimit : limit < 2 ^ 64) (hs : Separated es)
    (hle : ∀ x ∈ es, begin ≤ x.begin ∧ next ≤ x.begin) :
    Separated (hole limit tag begin next ++ es) ∧
      (∀ x ∈ hole limit tag begin next, x.Paged ∧ x.begin = begin) ∧
      ∀ a, lookup (hole limit tag begin next ++ es) a =
        if begin ≤ a ∧ a < next ∧ a < limit then some tag else lookup es a := by
  unfold hole
  split_ifs with hhole hlim
  · refine ⟨Separated.cons_iff.mpr ⟨?_, fun x hx => ?_, hs⟩, fun x hx => ?_, fun a => ?_⟩
    · simp only [lo_eq, hi_eq]
      omega
    · have := hle x hx
      simp only [lo_eq, hi_eq]
      omega
    · rw [List.mem_singleton.mp hx]
      exact ⟨⟨by simp only; omega, by simp only; omega, hbegin,
        by simp only; rwa [Nat.sub_add_cancel (by omega)]⟩, rfl⟩
    · rw [List.singleton_append, lookup_cons]
      simp only [lo_eq, hi_eq, val_eq]
      split_ifs <;> first | rfl | (exfalso; omega)
  · refine ⟨Separated.cons_iff.mpr ⟨?_, fun x hx => ?_, hs⟩, fun x hx => ?_, fun a => ?_⟩
    · simp only [lo_eq, hi_eq]
      omega
    · have := hle x hx
      simp only [lo_eq, hi_eq]
      omega
    · rw [List.mem_singleton.mp hx]
      refine ⟨⟨by simp only; omega, by simp only; omega, hbegin, ?_⟩, rfl⟩
      simp only
      rcases hnext with hnext | rfl
      · rwa [Nat.sub_add_cancel (by omega)]
      · exact absurd le_rfl hlim
    · rw [List.singleton_append, lookup_cons]
      simp only [lo_eq, hi_eq, val_eq]
      split_ifs <;> first | rfl | (exfalso; omega)
  · refine ⟨hs, by simp, fun a => ?_⟩
    rw [List.nil_append, if_neg (by omega)]

/-- The induction goes along the list: what is behind an entry is filled first. -/
private lemma fillClean_spec (tag : ℕ) (hs : Separated (prev :: es)) (hp : ∀ e ∈ prev :: es, e.Paged)
    (hpage : 4096 ∣ limit) (hlimit : limit < 2 ^ 64) :
    Separated (fillClean limit tag prev es) ∧
      (∀ x ∈ fillClean limit tag prev es, x.Paged ∧ prev.begin ≤ x.begin) ∧
      ∀ a, lookup (fillClean limit tag prev es) a =
        if prev.begin ≤ a ∧ a < limit then some ((lookup (prev :: es) a).getD tag)
        else lookup (prev :: es) a := by
  have hprev := hp prev (by simp)
  have hle := hprev.begin_le
  induction es generalizing prev with
  | nil =>
    obtain ⟨hsep, hmem, hlook⟩ := hole_spec tag hprev.end_page (Or.inr rfl) hpage hlimit
      (Separated.nil : Separated ([] : List RangeEntry)) (by simp)
    rw [List.append_nil] at hsep hlook
    rw [fillClean]
    refine ⟨Separated.cons_iff.mpr ⟨hle, fun x hx => ?_, hsep⟩, fun x hx => ?_, fun a => ?_⟩
    · rw [lo_eq, (hmem x hx).2]
      exact Nat.lt_succ_self _
    · rcases List.mem_cons.mp hx with rfl | hx
      · exact ⟨hprev, le_rfl⟩
      · have h := hmem x hx
        exact ⟨h.1, by omega⟩
    · rw [lookup_cons, hlook, lookup_cons, lookup_nil]
      simp only [lo_eq, hi_eq, val_eq]
      split_ifs <;> first | rfl | (exfalso; omega)
  | cons cur next ih =>
    obtain ⟨-, hlt, hs'⟩ := Separated.cons_iff.mp hs
    have hcur := hlt cur (by simp)
    have hcurP := hp cur (by simp)
    simp only [lo_eq, hi_eq] at hcur
    obtain ⟨hsep, hmem, hlook⟩ := ih hs' (fun e he => hp e (by simp [he])) hcurP hcurP.begin_le
    obtain ⟨hsep', hmem', hlook'⟩ := hole_spec tag hprev.end_page (Or.inl hcurP.begin_page)
      hpage hlimit hsep fun x hx => ⟨by have := (hmem x hx).2; omega, (hmem x hx).2⟩
    rw [fillClean]
    refine ⟨Separated.cons_iff.mpr ⟨hle, fun x hx => ?_, hsep'⟩, fun x hx => ?_, fun a => ?_⟩
    · simp only [lo_eq, hi_eq]
      rcases List.mem_append.mp hx with hx | hx
      · rw [(hmem' x hx).2]
        exact Nat.lt_succ_self _
      · have := (hmem x hx).2
        omega
    · rcases List.mem_cons.mp hx with rfl | hx
      · exact ⟨hprev, le_rfl⟩
      rcases List.mem_append.mp hx with hx | hx
      · have h := hmem' x hx
        exact ⟨h.1, by omega⟩
      · have h := hmem x hx
        exact ⟨h.1, by omega⟩
    · have hbelow : a < cur.begin → lookup (cur :: next) a = none := fun ha =>
        Separated.lookup_none fun x hx => by
          rcases List.mem_cons.mp hx with rfl | hx
          · exact ha
          · have h₁ := (Separated.cons_iff.mp hs').2.1 x hx
            have h₂ := hcurP.begin_le
            simp only [lo_eq, hi_eq] at h₁ ⊢
            omega
      rw [lookup_cons, hlook', hlook, lookup_cons (e := prev)]
      simp only [lo_eq, hi_eq, val_eq]
      by_cases ha : a < cur.begin
      · rw [hbelow ha]
        split_ifs <;> first | rfl | (exfalso; omega)
      · split_ifs <;> first | rfl | (exfalso; omega)

/-! ### What the loop does -/

private lemma fillRest_eq (hlimit : limit < 2 ^ 64) (h : prev.end_ + 1 < 2 ^ 64) :
    fillRest limit tag prev = hole limit tag (prev.end_ + 1) (limit + 1) := by
  rw [fillRest, hole, Word.add_eq h, Nat.add_sub_cancel, if_pos le_rfl]
  by_cases hlt : prev.end_ + 1 < limit
  · rw [if_pos hlt, if_pos ⟨by omega, hlt⟩, Word.sub_eq (by omega) hlimit]
  · rw [if_neg hlt, if_neg fun h => hlt h.2]

private lemma fillHole_eq (hlimit : limit < 2 ^ 64) (hcur : prev.end_ < cur.begin)
    (hfit : cur.begin < 2 ^ 64) (hreach : prev.end_ + 1 = cur.begin ∨ prev.end_ + 1 < limit) :
    fillHole limit tag prev cur = hole limit tag (prev.end_ + 1) cur.begin := by
  rw [fillHole, hole, Word.add_eq (by omega)]
  by_cases heq : prev.end_ + 1 = cur.begin
  · rw [if_neg (not_not_intro heq), if_neg (by omega)]
  · have hlt : prev.end_ + 1 < limit := hreach.resolve_left heq
    simp only [Word.sub_eq (show 1 ≤ cur.begin by omega) hfit,
      Word.sub_eq (show 1 ≤ limit by omega) hlimit]
    rw [if_pos heq]
    exact (if_pos ⟨by omega, hlt⟩).symm

/-- The loop adds the same entries, and at most one that disappears when neighbours are merged. -/
private lemma fillLoop_eq (hs : Separated (prev :: es)) (hp : ∀ e ∈ prev :: es, e.Paged)
    (hlimit : limit < 2 ^ 64) (hprev : prev.begin < limit)
    (hreaches : (prev :: es).IsChain (Reaches limit tag))
    (hinside : ∀ e ∈ prev :: es, e.end_ + 1 = 2 ^ 64 → ∃ f ∈ prev :: es, limit ≤ f.begin ∧ f ≠ e) :
    fillLoop limit tag prev es = fillClean limit tag prev es ∨
      ∃ xs m ys, fillLoop limit tag prev es = prev :: (xs ++ m :: ys) ∧
        fillClean limit tag prev es = prev :: (xs ++ ys) ∧
        m.begin ≤ Word.add 64 (xs.getLastD prev).end_ 1 ∧ (xs.getLastD prev).tag = m.tag ∧
        m.end_ = (xs.getLastD prev).end_ := by
  have hprevP := hp prev (by simp)
  induction es generalizing prev with
  | nil =>
    have hfit : prev.end_ + 1 < 2 ^ 64 := by
      have hlt := hprevP.fits
      by_contra htop
      obtain ⟨f, hf, -, hne⟩ := hinside prev (by simp) (by omega)
      exact hne (List.mem_singleton.mp hf)
    left
    rw [fillLoop, fillClean, fillRest_eq hlimit hfit]
  | cons cur next ih =>
    obtain ⟨-, hlt, hs'⟩ := Separated.cons_iff.mp hs
    have hcur : prev.end_ < cur.begin := hlt cur (by simp)
    have hcurP := hp cur (by simp)
    have hle := hcurP.begin_le
    have hfit := hcurP.fits
    obtain ⟨hreach, hreaches'⟩ := List.isChain_cons_cons.mp hreaches
    -- behind an entry at the limit nothing is added
    have hstop : limit ≤ cur.begin → cur :: (fillRest limit tag cur ++ next) =
        fillClean limit tag cur next := by
      intro hge
      have htop : cur.end_ + 1 < 2 ^ 64 := by
        by_contra htop
        obtain ⟨f, hf, hbegin, hne⟩ := hinside cur (by simp) (by omega)
        simp only [List.mem_cons] at hf
        rcases hf with rfl | rfl | hf
        · omega
        · exact hne rfl
        · have h₁ := (Separated.cons_iff.mp hs').2.1 f hf
          have h₂ := (hp f (by simp [hf])).begin_le
          have h₃ := (hp f (by simp [hf])).fits
          simp only [lo_eq, hi_eq] at h₁
          omega
      rw [fillClean_of_le hs' hge, fillRest_eq hlimit htop, hole, if_neg (by omega),
        List.nil_append]
    by_cases hgap : prev.end_ + 1 = cur.begin ∨ prev.end_ + 1 < limit
    · rw [fillLoop, fillClean, fillHole_eq hlimit hcur (by omega) hgap]
      by_cases hge : limit ≤ cur.begin
      · left
        rw [if_pos hge, hstop hge]
      rw [if_neg hge]
      have hinside' : ∀ e ∈ cur :: next, e.end_ + 1 = 2 ^ 64 →
          ∃ f ∈ cur :: next, limit ≤ f.begin ∧ f ≠ e := by
        intro e he htop
        obtain ⟨f, hf, hbegin, hne⟩ := hinside e (by simp [List.mem_cons.mp he]) htop
        rcases List.mem_cons.mp hf with rfl | hf
        · omega
        · exact ⟨f, hf, hbegin, hne⟩
      rcases ih hs' (fun e he => hp e (by simp [List.mem_cons.mp he])) (by omega) hreaches'
        hinside' hcurP with heq | ⟨xs, m, ys, hloop, hclean, hm⟩
      · left
        rw [heq]
      · right
        refine ⟨hole limit tag (prev.end_ + 1) cur.begin ++ cur :: xs, m, ys, ?_, ?_, ?_⟩
        · rw [hloop, List.append_assoc, List.cons_append]
        · rw [hclean, List.append_assoc, List.cons_append]
        · rw [getLastD_append_cons]
          exact hm
    · -- the limit is where the entry ends, and the hole begins behind the limit
      right
      have hat : prev.end_ + 1 = limit ∧ prev.tag = tag :=
        (hreach hprev (by omega)).resolve_left fun h => hgap (Or.inl h)
      refine ⟨[], ⟨limit, limit - 1, tag⟩, cur :: next, ?_, ?_, ?_, hat.2, ?_⟩
      · rw [fillLoop, if_pos (by omega), hstop (by omega), fillClean_of_le hs' (by omega), fillHole,
          Word.add_eq (by omega), if_pos (by omega), hat.1]
        simp only [Word.sub_eq (show 1 ≤ cur.begin by omega) (show cur.begin < 2 ^ 64 by omega),
          Word.sub_eq (show 1 ≤ limit by omega) hlimit]
        rw [if_pos (by omega)]
        rfl
      · rw [fillClean, hole, if_neg (by omega), fillClean_of_le hs' (by omega)]
      · rw [List.getLastD_nil, Word.add_eq (by omega), hat.1]
      · rw [List.getLastD_nil]
        simp only
        omega

/-- Behind an entry that reaches the limit, the new entry ends below the limit. -/
private lemma fillLoop_gap (tag : ℕ) (hs : Separated (prev :: es)) (hp : ∀ x ∈ prev :: es, x.Paged)
    (hpos : 0 < limit) (hlimit : limit < 2 ^ 64) (hes : prev :: es = xs ++ e :: f :: ys)
    (hbegin : e.begin < limit) (hend : limit ≤ e.end_ + 1) (hgap : e.end_ + 1 ≠ f.begin) :
    ∃ as bs, fillLoop limit tag prev es = prev :: (as ++ ⟨e.end_ + 1, limit - 1, tag⟩ :: f :: bs) ∧
      as.getLastD prev = e := by
  induction xs generalizing prev es with
  | nil =>
    obtain ⟨rfl, rfl⟩ := List.cons.inj hes
    have hlt : prev.end_ < f.begin := (Separated.cons_iff.mp hs).2.1 f (by simp)
    have hfit := (hp f (by simp)).fits
    have hle := (hp f (by simp)).begin_le
    refine ⟨[], fillRest limit tag f ++ ys, ?_, List.getLastD_nil⟩
    rw [fillLoop, if_pos (by omega), fillHole, Word.add_eq (by omega), if_pos hgap]
    simp only [Word.sub_eq (show 1 ≤ f.begin by omega) (show f.begin < 2 ^ 64 by omega),
      Word.sub_eq (show 1 ≤ limit by omega) hlimit]
    rw [if_pos (by omega), List.singleton_append, List.nil_append]
  | cons x xs ih =>
    rw [List.cons_append] at hes
    obtain ⟨rfl, rfl⟩ := List.cons.inj hes
    obtain ⟨cur, next, hnext⟩ : ∃ cur next, xs ++ e :: f :: ys = cur :: next :=
      List.exists_cons_of_ne_nil (by simp)
    have hs' := (Separated.cons_iff.mp hs).2.2
    have hp' : ∀ x ∈ xs ++ e :: f :: ys, x.Paged := fun x hx => hp x (List.mem_cons_of_mem _ hx)
    have hcur : cur.begin ≤ e.begin := by
      cases xs with
      | nil =>
        rw [List.nil_append] at hnext
        rw [(List.cons.inj hnext).1]
      | cons y xs =>
        rw [List.cons_append] at hnext hs'
        obtain ⟨rfl, rfl⟩ := List.cons.inj hnext
        have hle := hs'.nonempty y (by simp)
        have hlt := (Separated.cons_iff.mp hs').2.1 e (by simp)
        simp only [lo_eq, hi_eq] at hle hlt
        omega
    rw [hnext] at hs' hp' ⊢
    obtain ⟨as, bs, hloop, hlast⟩ := ih hs' hp' hnext.symm
    refine ⟨fillHole limit tag prev cur ++ cur :: as, bs, ?_, ?_⟩
    · rw [fillLoop, if_neg (by omega), hloop, List.append_assoc, List.cons_append]
    · rw [getLastD_append_cons, hlast]

/-- Behind an entry up to the top of the address space, the new entry begins at zero. -/
private lemma fillLoop_top (tag : ℕ) (hs : Separated (prev :: es)) (hp : ∀ x ∈ prev :: es, x.Paged)
    (hpos : 0 < limit) (hlimit : limit < 2 ^ 64) (he : e ∈ prev :: es) (htop : e.end_ + 1 = 2 ^ 64)
    (hinside : ∀ f ∈ es, limit ≤ f.begin → f = e) :
    ∃ as, fillLoop limit tag prev es = prev :: (as ++ [⟨0, limit - 1, tag⟩]) := by
  have hrest : fillRest limit tag e = [⟨0, limit - 1, tag⟩] := by
    have hwrap : Word.add 64 e.end_ 1 = 0 := by
      rw [Word.add, htop, Nat.mod_self]
    rw [fillRest, hwrap, if_pos hpos, Word.sub_eq (by omega) hlimit]
  have hlast : ∀ x ∈ prev :: es, ¬e.end_ < x.begin := fun x hx hlt => by
    have hle := (hp x hx).begin_le
    have hfit := (hp x hx).fits
    omega
  induction es generalizing prev with
  | nil =>
    obtain rfl := List.mem_singleton.mp he
    exact ⟨[], by rw [fillLoop, hrest, List.nil_append]⟩
  | cons cur next ih =>
    obtain ⟨-, hlt, hs'⟩ := Separated.cons_iff.mp hs
    have he' : e ∈ cur :: next := by
      rcases List.mem_cons.mp he with rfl | he
      · exact absurd (hlt cur (by simp)) (hlast cur (by simp))
      · exact he
    rw [fillLoop]
    split_ifs with hge
    · obtain rfl := hinside cur (by simp) hge
      have hnext : next = [] := List.eq_nil_iff_forall_not_mem.mpr fun x hx =>
        hlast x (by simp [hx]) ((Separated.cons_iff.mp hs').2.1 x hx)
      refine ⟨fillHole limit tag prev cur ++ [cur], ?_⟩
      rw [hnext, hrest, List.append_assoc]
      rfl
    · obtain ⟨as, hloop⟩ := ih hs' (fun x hx => hp x (by simp [List.mem_cons.mp hx])) he'
        (fun f hf => hinside f (by simp [hf])) fun x hx => hlast x (by simp [List.mem_cons.mp hx])
      refine ⟨fillHole limit tag prev cur ++ cur :: as, ?_⟩
      rw [hloop, List.append_assoc, List.cons_append]

/-! ### Lists whose holes are filled -/

/-- What is merged is the list that was filled. -/
private lemma fillHoles_cons {ranges : Memranges} {first : RangeEntry} {rest : List RangeEntry}
    (hentries : ranges.entries = first :: rest) (hloop : fillLoop limit tag first rest = first :: xs) :
    (memrangesFillHolesUpTo ranges limit tag).entries = mergeNeighborLoop first xs := by
  rw [memrangesFillHolesUpTo, hentries]
  simp only [hloop, mergeNeighborEntries]

private lemma fillHoles_eq {ranges : Memranges} {first : RangeEntry} {rest : List RangeEntry}
    (hcan : ranges.IsCanonical) (hlimit : limit < 2 ^ 64) (hpos : 0 < limit)
    (hentries : ranges.entries = first :: rest) (h : Fillable ranges limit tag) :
    memrangesFillHolesUpTo ranges limit tag =
      mergeNeighborEntries ⟨fillClean limit tag first rest⟩ := by
  obtain ⟨hcanonical, hp⟩ := (Memranges.isCanonical_iff _).mp hcan
  obtain ⟨⟨_, _, hstart, hzero⟩, hreaches, hinside⟩ := h
  rw [hentries] at hcanonical hp hstart hreaches hinside
  obtain ⟨rfl, rfl⟩ := List.cons.inj hstart
  have hlt : first.begin < limit := by omega
  rw [memrangesFillHolesUpTo, hentries]
  rcases fillLoop_eq hcanonical.separated hp hlimit hlt hreaches hinside with heq |
    ⟨xs, m, ys, hloop, hclean, hbegin, htag, hend⟩
  · simp only [heq]
  · simp only [hloop, hclean, mergeNeighborEntries, mergeNeighborLoop_absorb hbegin htag hend]

lemma filled_of_fillable {ranges : Memranges} (hcan : ranges.IsCanonical) (hpos : 0 < limit)
    (hpage : 4096 ∣ limit) (hlimit : limit < 2 ^ 64) (h : Fillable ranges limit tag) :
    (memrangesFillHolesUpTo ranges limit tag).IsCanonical ∧
      Filled ranges limit tag (memrangesFillHolesUpTo ranges limit tag) := by
  obtain ⟨hcanonical, hp⟩ := (Memranges.isCanonical_iff _).mp hcan
  obtain ⟨first, rest, hentries, hzero⟩ := h.starts
  rw [fillHoles_eq hcan hlimit hpos hentries h]
  rw [hentries] at hcanonical hp
  obtain ⟨hsep, hmem, hlook⟩ := fillClean_spec tag hcanonical.separated hp hpage hlimit
  obtain ⟨hresult, hdenote⟩ := mergeNeighborEntries_spec ⟨fillClean limit tag first rest⟩ hsep
    fun x hx => (hmem x hx).1
  have hmap : ∀ a, (mergeNeighborEntries ⟨fillClean limit tag first rest⟩).denote a =
      if a < limit then some ((ranges.denote a).getD tag) else ranges.denote a := by
    intro a
    rw [hdenote, Memranges.denote, Memranges.denote, hentries, hlook, hzero]
    simp only [Nat.zero_le, true_and]
  refine ⟨hresult, ((Memranges.isCanonical_iff _).mp hresult).1, fun a t ha => ?_, fun a ha hnone => ?_,
    fun a ha => ?_⟩
  · rw [hmap, ha]
    split_ifs <;> rfl
  · rw [hmap, if_pos ha, hnone]
    rfl
  · rw [hmap, if_neg (by omega)]

private lemma exists_of_not_isChain {R : RangeEntry → RangeEntry → Prop} {l : List RangeEntry}
    (h : ¬l.IsChain R) : ∃ xs e f ys, l = xs ++ e :: f :: ys ∧ ¬R e f := by
  induction l with
  | nil => exact absurd .nil h
  | cons x l ih =>
    cases l with
    | nil => exact absurd (.singleton x) h
    | cons y l =>
      by_cases hxy : R x y
      · obtain ⟨xs, e, f, ys, hl, hR⟩ := ih fun hl => h (List.isChain_cons_cons.mpr ⟨hxy, hl⟩)
        exact ⟨x :: xs, e, f, ys, by rw [hl, List.cons_append], hR⟩
      · exact ⟨[], x, y, l, rfl, hxy⟩

/-- Where the entry that is added has no addresses, it stays in the list or cuts off the entry in
front of it. -/
private lemma not_filled_of_gap {ranges : Memranges} {first : RangeEntry} {rest : List RangeEntry}
    (hcan : ranges.IsCanonical) (hpos : 0 < limit) (hlimit : limit < 2 ^ 64)
    (hentries : ranges.entries = first :: rest) (hes : first :: rest = xs ++ e :: f :: ys)
    (hreach : ¬Reaches limit tag e f) :
    ¬Filled ranges limit tag (memrangesFillHolesUpTo ranges limit tag) := by
  intro hfilled
  obtain ⟨hcanonical, hp⟩ := (Memranges.isCanonical_iff _).mp hcan
  rw [hentries] at hcanonical hp
  simp only [Reaches, Classical.not_imp, not_or] at hreach
  obtain ⟨hbegin, hend, hgap, hat⟩ := hreach
  have hle : e.begin ≤ e.end_ := hcanonical.nonempty e (by rw [hes]; simp)
  have hlt : e.end_ < f.begin := by
    have hs := hcanonical.sorted
    rw [hes, List.pairwise_append] at hs
    exact ((List.pairwise_cons.mp hs.2.1).1 f (by simp)).1
  obtain ⟨as, bs, hloop, hlast⟩ :=
    fillLoop_gap tag hcanonical.separated hp hpos hlimit hes hbegin hend hgap
  have hresult := fillHoles_cons hentries hloop
  rw [show as ++ ⟨e.end_ + 1, limit - 1, tag⟩ :: f :: bs =
    (as ++ [⟨e.end_ + 1, limit - 1, tag⟩]) ++ f :: bs by simp] at hresult
  rw [mergeNeighborLoop_append (by
    rw [getLastD_append_cons, List.getLastD_nil]
    simp only
    rw [Word.add_eq (by omega)]
    omega)] at hresult
  have hmerged := hfilled.canonical
  rw [hresult] at hmerged
  obtain ⟨hfront, hback, -⟩ := List.pairwise_append.mp hmerged.sorted
  rcases hend.lt_or_eq with hcut | hcut
  · -- the addresses from the limit to the end of the entry are lost
    have hcovered : ranges.denote e.end_ = some e.tag := by
      rw [Memranges.denote, hentries]
      exact hcanonical.separated.lookup_mem (by rw [hes]; simp) hle le_rfl
    have hkept := hfilled.keeps _ _ hcovered
    rw [Memranges.denote, hresult] at hkept
    obtain ⟨x, hx, hxlo, hxhi, -⟩ := exists_of_lookup hkept
    simp only [lo_eq, hi_eq] at hxlo hxhi
    rcases List.mem_append.mp hx with hx | hx
    · obtain ⟨zs, z, hzs, hz⟩ := mergeNeighborLoop_last first
        (as ++ [⟨e.end_ + 1, limit - 1, tag⟩])
      rw [getLastD_append_cons, List.getLastD_nil] at hz
      simp only at hz
      rw [hzs] at hx hfront hmerged
      rcases List.mem_append.mp hx with hx | hx
      · have h₁ := ((List.pairwise_append.mp hfront).2.2 x hx z (by simp)).1
        have h₂ := hmerged.nonempty z (by simp)
        simp only [lo_eq, hi_eq] at h₁ h₂
        omega
      · rw [List.mem_singleton.mp hx] at hxhi
        omega
    · obtain ⟨z, zs, hzs, hz⟩ := mergeNeighborLoop_head f bs
      rw [hzs] at hx hback hmerged
      rcases List.mem_cons.mp hx with rfl | hx
      · omega
      · have h₁ := ((List.pairwise_cons.mp hback).1 x hx).1
        have h₂ := hmerged.nonempty z (by simp)
        simp only [lo_eq, hi_eq] at h₁ h₂
        omega
  · -- the entry is not merged with one of another tag
    rw [mergeNeighborLoop_append (by
      rw [hlast]
      exact fun h => hat ⟨hcut.symm, h.2⟩)] at hmerged
    have hempty := hmerged.nonempty ⟨e.end_ + 1, limit - 1, tag⟩ (by simp [mergeNeighborLoop])
    simp only [lo_eq, hi_eq] at hempty
    omega

/-- The entry that is added behind the top of the address space begins at zero. -/
private lemma not_filled_of_top {ranges : Memranges} {first : RangeEntry} {rest : List RangeEntry}
    (hcan : ranges.IsCanonical) (hpos : 0 < limit) (hlimit : limit < 2 ^ 64)
    (hentries : ranges.entries = first :: rest) (he : e ∈ first :: rest)
    (htop : e.end_ + 1 = 2 ^ 64) (hinside : ∀ f ∈ rest, limit ≤ f.begin → f = e) :
    ¬Filled ranges limit tag (memrangesFillHolesUpTo ranges limit tag) := by
  intro hfilled
  obtain ⟨hcanonical, hp⟩ := (Memranges.isCanonical_iff _).mp hcan
  rw [hentries] at hcanonical hp
  obtain ⟨as, hloop⟩ :=
    fillLoop_top tag hcanonical.separated hp hpos hlimit he htop hinside
  have hresult := fillHoles_cons hentries hloop
  obtain ⟨zs, z, hzs, hz⟩ := mergeNeighborLoop_last first (as ++ [⟨0, limit - 1, tag⟩])
  rw [getLastD_append_cons, List.getLastD_nil] at hz
  simp only at hz
  have hmerged := hfilled.canonical
  rw [hresult, hzs] at hmerged
  have hcovered : ranges.denote e.end_ = some e.tag := by
    rw [Memranges.denote, hentries]
    exact hcanonical.separated.lookup_mem he (hcanonical.nonempty e he) le_rfl
  have hkept := hfilled.keeps _ _ hcovered
  rw [Memranges.denote, hresult, hzs, lookup_none_of_last hmerged (by omega)] at hkept
  cases hkept

/-- The holes are filled exactly if the first entry begins at zero, the limit is not followed by a
hole behind an entry that reaches it, and the loop does not come to the top of the address space. -/
theorem filled_iff_fillable (ranges : Memranges) (limit tag : ℕ) (hcan : ranges.IsCanonical)
    (hpos : 0 < limit) (hpage : 4096 ∣ limit) (hlimit : limit < 2 ^ 64) :
    Filled ranges limit tag (memrangesFillHolesUpTo ranges limit tag) ↔
      Fillable ranges limit tag := by
  refine ⟨fun hfilled => ?_, fun h => (filled_of_fillable hcan hpos hpage hlimit h).2⟩
  have hzero : ∃ t, (memrangesFillHolesUpTo ranges limit tag).denote 0 = some t := by
    cases hdenote : ranges.denote 0 with
    | none => exact ⟨tag, hfilled.fills 0 hpos hdenote⟩
    | some t => exact ⟨t, hfilled.keeps 0 t hdenote⟩
  obtain ⟨t, ht⟩ := hzero
  cases hentries : ranges.entries with
  | nil =>
    rw [Memranges.denote, memrangesFillHolesUpTo, hentries] at ht
    simp only [mergeNeighborEntries, hentries, lookup_nil] at ht
    cases ht
  | cons first rest =>
    constructor
    · refine ⟨first, rest, hentries, ?_⟩
      obtain ⟨xs, hloop⟩ : ∃ xs, fillLoop limit tag first rest = first :: xs := by
        cases rest with
        | nil => exact ⟨_, rfl⟩
        | cons cur next => exact ⟨_, rfl⟩
      obtain ⟨z, zs, hzs, hz⟩ := mergeNeighborLoop_head first xs
      have hmerged := hfilled.canonical
      rw [fillHoles_cons hentries hloop, hzs] at hmerged
      rw [Memranges.denote, fillHoles_cons hentries hloop, hzs] at ht
      obtain ⟨x, hx, hxlo, -, -⟩ := exists_of_lookup ht
      simp only [lo_eq] at hxlo
      rcases List.mem_cons.mp hx with rfl | hx
      · omega
      · have hlt := ((Canonical.cons_iff.mp hmerged).2.1 x hx).1
        simp only [lo_eq, hi_eq] at hlt
        omega
    · by_contra hchain
      obtain ⟨xs, e, f, ys, hes, hreach⟩ := exists_of_not_isChain hchain
      rw [hentries] at hes
      exact not_filled_of_gap hcan hpos hlimit hentries hes hreach hfilled
    · intro e he htop
      by_contra hinside
      push Not at hinside
      rw [hentries] at he hinside
      exact not_filled_of_top hcan hpos hlimit hentries he htop
        (fun f hf => hinside f (List.mem_cons_of_mem _ hf)) hfilled

/-- The memory below 640 KiB and between 1 MiB and 2 GiB, filled up to 4 GiB. -/
theorem filled_iff_fillable_memory :
    Filled ⟨[⟨0, 0x9ffff, 6⟩, ⟨0x100000, 0x7fffffff, 6⟩]⟩ (2 ^ 32) 0
      (memrangesFillHolesUpTo ⟨[⟨0, 0x9ffff, 6⟩, ⟨0x100000, 0x7fffffff, 6⟩]⟩ (2 ^ 32) 0) :=
  (filled_iff_fillable _ _ _
    ⟨by decide, by decide, by decide, by decide, by decide, by decide⟩
    (by decide) (by decide) (by decide)).mpr
      ⟨⟨_, _, rfl, rfl⟩, List.isChain_pair.mpr (by unfold Reaches; decide), by decide⟩

/-- The hole in front of the first entry is not filled. -/
theorem not_filled_of_hole_at_zero :
    ¬∀ ranges : Memranges, ranges.IsCanonical → ∀ limit tag, 0 < limit → 4096 ∣ limit →
      limit < 2 ^ 64 → Filled ranges limit tag (memrangesFillHolesUpTo ranges limit tag) := by
  intro h
  have hfilled := h ⟨[⟨0x100000, 0x7fffffff, 6⟩]⟩
    ⟨by decide, by decide, by decide, by decide, by decide, by decide⟩ (2 ^ 32) 0
    (by decide) (by decide) (by decide)
  have hzero := hfilled.fills 0 (by decide) (by decide)
  exact absurd hzero (by decide)

end ApuBios.Memrange
