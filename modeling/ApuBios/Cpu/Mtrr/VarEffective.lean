import ApuBios.Cpu.Mtrr.VarCommit

/-!
# The memory types after `commit_var_mtrrs`

Each entry has registers for its own pages. A hole reaches beyond the end of its entry, but only
over pages of the default type. Both can fail where an end is rounded up to 2^44, which is page 0 in
32 bits.
-/

namespace ApuBios.Mtrr

open Memrange

variable {above4gb : Bool} {defType m page t : ℕ} {r : RangeEntry} {next : Option RangeEntry}

/-! ### Pages and entries -/

/-- Two places in a list. -/
lemma split_cases {α : Type*} {xs ys xs' ys' : List α} {x x' : α}
    (h : xs ++ x :: ys = xs' ++ x' :: ys') :
    (x' = x ∧ ys' = ys) ∨ x' ∈ ys ∨ ∃ zs, xs = xs' ++ x' :: zs ∧ ys' = zs ++ x :: ys := by
  rcases List.append_eq_append_iff.mp h with ⟨zs, rfl, htail⟩ | ⟨zs, rfl, htail⟩
  · cases zs with
    | nil =>
      obtain ⟨rfl, rfl⟩ := List.cons.inj htail
      exact Or.inl ⟨rfl, rfl⟩
    | cons z zs =>
      obtain ⟨rfl, rfl⟩ := List.cons.inj htail
      exact Or.inr (Or.inl (by simp))
  · cases zs with
    | nil =>
      obtain ⟨rfl, rfl⟩ := List.cons.inj htail
      exact Or.inl ⟨rfl, rfl⟩
    | cons z zs =>
      obtain ⟨rfl, rfl⟩ := List.cons.inj htail
      exact Or.inr (Or.inr ⟨zs, rfl, rfl⟩)

/-- The hole of an entry in front of `r` is over the page. -/
def HoleFrom (above4gb : Bool) (defType : ℕ) (xs : List RangeEntry) (r : RangeEntry)
    (ys : List RangeEntry) (page : ℕ) : Prop :=
  ∃ ws e zs, xs = ws ++ e :: zs ∧ HoleOver above4gb defType e (zs ++ r :: ys).head? page

/-- Whole pages below page `2 ^ m`, in order. -/
structure Ordered (m : ℕ) (l : List RangeEntry) : Prop where
  placed : ∀ r ∈ l, Placed m r
  sorted : l.Pairwise fun e f => e.end_ < f.begin

lemma gives_spans {l : List RangeEntry} :
    Gives (spans above4gb defType l) page t ↔
      ∃ xs r ys, l = xs ++ r :: ys ∧ Gives (entrySpans above4gb defType r ys.head?) page t := by
  constructor
  · rintro ⟨p, hp, hgives⟩
    obtain ⟨xs, r, ys, heq, hmem⟩ := mem_spans.mp hp
    exact ⟨xs, r, ys, heq, p, hmem, hgives⟩
  · rintro ⟨xs, r, ys, heq, p, hmem, hgives⟩
    exact ⟨p, mem_spans.mpr ⟨xs, r, ys, heq, hmem⟩, hgives⟩

section

variable {xs ys : List RangeEntry} (hm : m ≤ 32) (h14 : 14 ≤ m) (hdef : defType < 2 ^ 8)
  (hl : Ordered m (xs ++ r :: ys)) (hpage : RangeEntry.HasPage r page)
  (hmanaged : Managed above4gb page)

include hm h14 hdef hl hpage hmanaged

lemma own_gives :
    Gives (entrySpans above4gb defType r ys.head?) page t ↔ t = rangeEntryMtrrType r ∧
      rangeEntryMtrrType r ≠ defType ∧ ¬Lost above4gb defType r ys.head? := by
  have hr := hl.placed r (by simp)
  exact (hr.entrySpans_covering hm h14 hdef _).own
    fun hignored => (hr.page_iff hm hignored hmanaged).mpr hpage

lemma later_gives {e : RangeEntry} (he : e ∈ ys) (next : Option RangeEntry) :
    ¬Gives (entrySpans above4gb defType e next) page t := by
  have hplaced := hl.placed e (by simp [he])
  have hlt : r.end_ < e.begin := by
    have hsorted := (List.pairwise_append.mp hl.sorted).2.1
    exact (List.pairwise_cons.mp hsorted).1 e he
  refine (hplaced.entrySpans_covering hm h14 hdef next).front ?_
    fun hignored => (hplaced.base_lt_end hm hignored).1
  have hlow := hmanaged.1
  rw [RANGE_1MB_eq] at hlow
  rw [hplaced.base_eq hm]
  have hend := hpage.2
  have hdvd := hplaced.begin_page
  split_ifs <;> omega

omit hmanaged in
lemma earlier_gives {ws zs : List RangeEntry} {e : RangeEntry} (hxs : xs = ws ++ e :: zs) :
    (Gives (entrySpans above4gb defType e (zs ++ r :: ys).head?) page t →
      HoleOver above4gb defType e (zs ++ r :: ys).head? page) ∧
    (HoleOver above4gb defType e (zs ++ r :: ys).head? page →
      Gives (entrySpans above4gb defType e (zs ++ r :: ys).head?) page defType) := by
  subst hxs
  have hplaced := hl.placed e (by simp)
  have hlt : e.end_ < r.begin := (List.pairwise_append.mp hl.sorted).2.2 e (by simp) r (by simp)
  refine (hplaced.entrySpans_covering hm h14 hdef _).behind (by simp) fun hignored => ?_
  have hbegin := hpage.1
  have hdvd := hplaced.end_page
  rw [hplaced.end_eq hm hignored]
  split_ifs <;> omega

/-- The types that the ranges give to a page of an entry. -/
lemma of_gives :
    Gives (spans above4gb defType (xs ++ r :: ys)) page t →
      (t = rangeEntryMtrrType r ∧ rangeEntryMtrrType r ≠ defType ∧
        ¬Lost above4gb defType r ys.head?) ∨ HoleFrom above4gb defType xs r ys page := by
  intro hgives
  obtain ⟨xs', e, ys', heq, he⟩ := gives_spans.mp hgives
  rcases split_cases heq with ⟨rfl, rfl⟩ | hlater | ⟨zs, hxs, rfl⟩
  · exact Or.inl ((own_gives hm h14 hdef hl hpage hmanaged).mp he)
  · exact absurd he (later_gives hm h14 hdef hl hpage hmanaged hlater _)
  · exact Or.inr ⟨xs', e, zs, hxs, (earlier_gives hm h14 hdef hl hpage hxs).1 he⟩

omit hmanaged in
lemma gives_of_holeFrom (h : HoleFrom above4gb defType xs r ys page) :
    Gives (spans above4gb defType (xs ++ r :: ys)) page defType := by
  obtain ⟨ws, e, zs, rfl, hover⟩ := h
  refine gives_spans.mpr ⟨ws, e, zs ++ r :: ys, by simp, ?_⟩
  exact (earlier_gives (t := defType) hm h14 hdef hl hpage rfl).2 hover

/-- The type of a page of an entry is right unless the entry has no registers, or a hole of another
entry is over the page. -/
lemma effectiveType_iff {totalMtrrs : ℕ} {regs : ℕ → VarMtrr}
    (htypes : ∀ t, t ∈ matchingTypes totalMtrrs regs page ↔
      Gives (spans above4gb defType (xs ++ r :: ys)) page t) :
    effectiveType totalMtrrs regs defType page = some (rangeEntryMtrrType r) ↔
      rangeEntryMtrrType r = defType ∨
        (¬Lost above4gb defType r ys.head? ∧ ¬HoleFrom above4gb defType xs r ys page) := by
  by_cases hfrom : HoleFrom above4gb defType xs r ys page
  · -- the hole has the default type, which is UC
    have hmem := (htypes defType).mpr (gives_of_holeFrom hm h14 hdef hl hpage hfrom)
    obtain ⟨ws, e, zs, -, hover⟩ := id hfrom
    have huc : defType = MTRR_TYPE_UNCACHEABLE := hover.1.2.1.1
    rw [huc] at hmem
    rw [effectiveType_of_uc defType hmem, Option.some_inj, ← huc, eq_comm]
    exact (or_iff_left fun hnot => hnot.2 hfrom).symm
  · have hgives : ∀ t, t ∈ matchingTypes totalMtrrs regs page ↔ t = rangeEntryMtrrType r ∧
        rangeEntryMtrrType r ≠ defType ∧ ¬Lost above4gb defType r ys.head? := by
      intro t
      refine (htypes t).trans ⟨fun hg => ?_, fun hown => ?_⟩
      · exact (of_gives hm h14 hdef hl hpage hmanaged hg).resolve_right hfrom
      · exact gives_spans.mpr ⟨xs, r, ys, rfl, (own_gives hm h14 hdef hl hpage hmanaged).mpr hown⟩
    by_cases htype : rangeEntryMtrrType r = defType
    · rw [effectiveType_of_none defType fun t ht => ((hgives t).mp ht).2.1 htype, htype]
      exact iff_of_true rfl (Or.inl rfl)
    · by_cases hlost : Lost above4gb defType r ys.head?
      · rw [effectiveType_of_none defType fun t ht => ((hgives t).mp ht).2.2 hlost,
          Option.some_inj, eq_comm]
        exact (or_iff_left fun hnot => hnot.1 hlost).symm
      · rw [effectiveType_of_all defType ((hgives _).mpr ⟨rfl, htype, hlost⟩)
          fun t ht => ((hgives t).mp ht).1]
        exact iff_of_true rfl (Or.inr ⟨hlost, hfrom⟩)

end

/-! ### The top of the space -/

/-- The hole of the entry ends at 2^44. -/
def ReachesTop (above4gb : Bool) (defType : ℕ) (r : RangeEntry) (next : Option RangeEntry) : Prop :=
  (above4gb = true ∧ defType = MTRR_TYPE_UNCACHEABLE ∧ RangeEntry.UsesHole r) ∧
    (2 ^ 44 - 2 ^ 26 < r.end_ + 1 ∧ r.end_ + 1 < 2 ^ 44) ∧
      ∀ n ∈ next, rangeEntryMtrrType n = defType

instance (above4gb : Bool) (defType : ℕ) (r : RangeEntry) (next : Option RangeEntry) :
    Decidable (ReachesTop above4gb defType r next) := inferInstanceAs (Decidable (_ ∧ _))

/-- No entry that needs registers ends at 2^44, unless no page of it is managed. If a hole ends
there, its entry begins at 1 MiB or above, and has only entries of the default type behind it. -/
def BelowTop (above4gb : Bool) (defType : ℕ) : List RangeEntry → Prop
  | [] => True
  | r :: rest =>
    (rangeEntryMtrrType r ≠ defType →
      (r.end_ + 1 = 2 ^ 44 → above4gb = false ∧ 2 ^ 32 ≤ r.begin) ∧
      (ReachesTop above4gb defType r rest.head? →
        2 ^ 20 ≤ r.begin ∧ ∀ e ∈ rest, rangeEntryMtrrType e = defType)) ∧
    BelowTop above4gb defType rest

lemma belowTop_iff {l : List RangeEntry} :
    BelowTop above4gb defType l ↔ ∀ xs r ys, l = xs ++ r :: ys → rangeEntryMtrrType r ≠ defType →
      (r.end_ + 1 = 2 ^ 44 → above4gb = false ∧ 2 ^ 32 ≤ r.begin) ∧
      (ReachesTop above4gb defType r ys.head? →
        2 ^ 20 ≤ r.begin ∧ ∀ e ∈ ys, rangeEntryMtrrType e = defType) := by
  induction l with
  | nil =>
    refine iff_of_true trivial fun xs r ys heq => ?_
    simp at heq
  | cons r rest ih =>
    rw [BelowTop, ih]
    constructor
    · rintro ⟨hr, hrest⟩ xs r' ys heq
      cases xs with
      | nil =>
        obtain ⟨rfl, rfl⟩ := List.cons.inj heq
        exact hr
      | cons x xs =>
        obtain ⟨rfl, rfl⟩ := List.cons.inj heq
        exact hrest xs r' ys rfl
    · intro h
      exact ⟨h [] r rest rfl, fun xs r' ys heq => h (r :: xs) r' ys (by rw [heq]; rfl)⟩

section

variable (hm : m ≤ 32) (hplaced : Placed m r)

include hm hplaced

lemma holeEnd_top_iff (hignored : ¬Ignored above4gb r) :
    holeEnd above4gb r = 2 ^ 32 ↔
      above4gb = true ∧ 2 ^ 44 - 2 ^ 26 < r.end_ + 1 ∧ r.end_ + 1 < 2 ^ 44 := by
  have hend := hplaced.end_lt hm hignored
  have heq := hplaced.end_eq hm hignored
  have hpage := hplaced.end_page
  have hc := clippedEnd_lt above4gb r
  have hle : holeEnd above4gb r ≤ 2 ^ 32 := Word.roundUp_le hc.le (by norm_num)
  have hge : clippedEnd above4gb r ≤ holeEnd above4gb r := Word.le_roundUp
  have hlt : holeEnd above4gb r < clippedEnd above4gb r + 2 ^ 14 := Word.roundUp_lt
  have hdvd : 2 ^ 14 ∣ holeEnd above4gb r := Word.dvd_roundUp
  cases above4gb with
  | false =>
    have hclip : clippedEnd false r ≤ 2 ^ 20 := by
      rw [heq]
      split_ifs with hclipped
      · exact le_rfl
      · exact not_lt.mp fun hlt => hclipped ⟨rfl, hlt⟩
    exact iff_of_false (by omega) fun h => Bool.false_ne_true h.1
  | true =>
    rw [if_neg (by simp)] at heq
    simp only [true_and, hend, and_true]
    omega

end

/-- A hole that reaches 2^44 is one whose end is taken for page 0. -/
lemma hasHole_top_iff (hm : m ≤ 32) (hplaced : Placed m r)
    (htype : rangeEntryMtrrType r ≠ defType) (h : r.begin < 2 ^ 20 ∨ next ≠ none) :
    HasHole above4gb defType r next ∧ holeEnd above4gb r = 2 ^ 32 ↔
      ReachesTop above4gb defType r next := by
  constructor
  · rintro ⟨⟨-, ⟨hdef, huses⟩, hignored, -, hroom⟩, htop⟩
    obtain ⟨habove, hlow, hhigh⟩ := (holeEnd_top_iff hm hplaced hignored).mp htop
    refine ⟨⟨habove, hdef, huses⟩, ⟨hlow, hhigh⟩, fun n hn => ?_⟩
    by_contra hne
    exact hroom ⟨n, hn, Or.inl hne⟩
  · rintro ⟨⟨habove, hdef, huses⟩, ⟨hlow, hhigh⟩, hnext⟩
    have hignored : ¬Ignored above4gb r := by
      rintro (hend | ⟨hnot, -⟩)
      · rw [endMtrrAddr_eq hhigh, RANGE_1MB_eq] at hend
        omega
      · simp [habove] at hnot
    have htop := (holeEnd_top_iff hm hplaced hignored).mpr ⟨habove, hlow, hhigh⟩
    refine ⟨⟨htype, ⟨hdef, huses⟩, hignored, ?_, ?_⟩, htop⟩
    · rintro ⟨hbase, hnone, -⟩
      rw [RANGE_4GB_eq, hplaced.base_eq hm] at hbase
      rcases h with hbegin | hsome
      · rw [if_pos hbegin] at hbase
        omega
      · exact hsome hnone
    · -- the rounded end is page 0, and every end is behind that
      rintro ⟨n, hn, hne | hend⟩
      · exact hne (hnext n hn)
      · rw [alignUp_end, htop, Nat.mod_self] at hend
        exact Nat.not_lt_zero _ hend

/-- An entry with a managed page has registers for it, if neither its end nor that of its hole is
taken for page 0. -/
lemma not_lost (hm : m ≤ 32) (hplaced : Placed m r) (hpage : RangeEntry.HasPage r page)
    (hmanaged : Managed above4gb page) (htype : rangeEntryMtrrType r ≠ defType)
    (htop : r.end_ + 1 = 2 ^ 44 → above4gb = false ∧ 2 ^ 32 ≤ r.begin)
    (hreach : ReachesTop above4gb defType r next → 2 ^ 20 ≤ r.begin) :
    ¬Lost above4gb defType r next := by
  obtain ⟨hlow, hhigh⟩ := hmanaged
  rw [RANGE_1MB_eq] at hlow
  rw [RANGE_4GB_eq] at hhigh
  have hpow : 2 ^ m ≤ 2 ^ 32 := Nat.pow_le_pow_right (by norm_num) hm
  have hbase_eq := hplaced.base_eq hm
  obtain ⟨-, hbegin, hend, hlim⟩ := id hplaced
  obtain ⟨hfirst, hlast⟩ := hpage
  rintro (hignored | ⟨hhole, hbase, htop'⟩)
  · by_cases hat : r.end_ + 1 = 2 ^ 44
    · obtain ⟨habove, hhigh'⟩ := htop hat
      rcases hhigh with hhigh | hhigh
      · exact Bool.false_ne_true (habove.symm.trans hhigh)
      · omega
    · rcases hignored with hignored | ⟨hnot, hignored⟩
      · rw [endMtrrAddr_eq (by omega), RANGE_1MB_eq] at hignored
        omega
      · rw [RANGE_4GB_eq, hbase_eq] at hignored
        rcases hhigh with hhigh | hhigh
        · simp [hhigh] at hnot
        · split_ifs at hignored <;> omega
  · rw [hbase_eq] at hbase
    split_ifs at hbase with hsmall
    · have := hreach ((hasHole_top_iff hm hplaced htype (Or.inl hsmall)).mp ⟨hhole, htop'⟩)
      omega
    · omega

/-- Only a hole that reaches 2^44 is over the pages of an entry that does not have the default
type. -/
lemma HoleOver.top {xs ys ws zs : List RangeEntry} {e : RangeEntry} (hm : m ≤ 32)
    (hl : Ordered m (xs ++ r :: ys)) (hxs : xs = ws ++ e :: zs)
    (htype : rangeEntryMtrrType r ≠ defType) (hpage : RangeEntry.HasPage r page)
    (h : HoleOver above4gb defType e (zs ++ r :: ys).head? page) : holeEnd above4gb e = 2 ^ 32 := by
  subst hxs
  obtain ⟨⟨-, -, hignored, -, hroom⟩, -, hover⟩ := h
  have hc := clippedEnd_lt above4gb e
  have hle : holeEnd above4gb e ≤ 2 ^ 32 := Word.roundUp_le hc.le (by norm_num)
  refine hle.lt_or_eq.resolve_left fun hlt => ?_
  cases zs with
  | nil => exact hroom ⟨r, by simp, Or.inl htype⟩
  | cons n zs =>
    have hn : n.end_ < r.begin := (List.pairwise_append.mp hl.sorted).2.2 n (by simp) r (by simp)
    have hend : holeEnd above4gb e ≤ rangeEntryEndMtrrAddr n := by
      refine not_lt.mp fun hlt' => hroom ⟨n, by simp, Or.inr ?_⟩
      rwa [alignUp_end, Nat.mod_eq_of_lt hlt]
    have hplaced := hl.placed r (by simp)
    have hpow : 2 ^ m ≤ 2 ^ 32 := Nat.pow_le_pow_right (by norm_num) hm
    have hlim := hplaced.end_le
    have hle := hplaced.le
    have hbegin := hpage.1
    rw [endMtrrAddr_eq (by omega)] at hend
    omega

/-! ### All entries -/

/-- Every page that the variable registers are for has the type of its entry. -/
def EffectiveTypes (totalMtrrs : ℕ) (regs : ℕ → VarMtrr) (above4gb : Bool) (defType : ℕ)
    (l : List RangeEntry) : Prop :=
  ∀ r ∈ l, ∀ page, RangeEntry.HasPage r page → Managed above4gb page →
    effectiveType totalMtrrs regs defType page = some (rangeEntryMtrrType r)

section

variable {totalMtrrs : ℕ} {regs : ℕ → VarMtrr} {l : List RangeEntry} (hm : m ≤ 32) (h14 : 14 ≤ m)
  (hdef : defType < 2 ^ 8) (hl : Ordered m l)
  (htypes : ∀ page < 2 ^ m, ∀ t, t ∈ matchingTypes totalMtrrs regs page ↔
    Gives (spans above4gb defType l) page t)

include hm h14 hdef hl htypes

lemma right_iff {xs ys : List RangeEntry} (hsplit : l = xs ++ r :: ys)
    (hpage : RangeEntry.HasPage r page) (hmanaged : Managed above4gb page)
    (htype : rangeEntryMtrrType r ≠ defType) :
    effectiveType totalMtrrs regs defType page = some (rangeEntryMtrrType r) ↔
      ¬Lost above4gb defType r ys.head? ∧ ¬HoleFrom above4gb defType xs r ys page := by
  subst hsplit
  have hlim := (hl.placed r (by simp)).end_le
  have hlt : page < 2 ^ m := by
    have := hpage.2
    omega
  rw [effectiveType_iff hm h14 hdef hl hpage hmanaged (htypes page hlt)]
  exact or_iff_right htype

lemma belowTop_of_effectiveTypes (h : EffectiveTypes totalMtrrs regs above4gb defType l) :
    BelowTop above4gb defType l := by
  refine belowTop_iff.mpr fun xs r ys hsplit htype => ?_
  have hr : r ∈ l := by simp [hsplit]
  have hplaced := hl.placed r hr
  have hright : ∀ page, RangeEntry.HasPage r page → Managed above4gb page →
      ¬Lost above4gb defType r ys.head? := fun page hpage hmanaged =>
    ((right_iff hm h14 hdef hl htypes hsplit hpage hmanaged htype).mp (h r hr page hpage hmanaged)).1
  obtain ⟨hle, hbegin, hend, -⟩ := id hplaced
  constructor
  · intro htop
    by_contra hmanaged
    refine hright (max (r.begin / 4096) 256) ⟨by omega, by omega⟩ ⟨?_, ?_⟩
      (Or.inl (ignored_of_top htop))
    · rw [RANGE_1MB_eq]
      omega
    · rw [RANGE_4GB_eq]
      cases above4gb with
      | true => exact Or.inl rfl
      | false =>
        have : ¬2 ^ 32 ≤ r.begin := fun hhigh => hmanaged ⟨rfl, hhigh⟩
        exact Or.inr (by omega)
  · intro hreaches
    obtain ⟨⟨habove, huc, -⟩, ⟨hlow, hhigh⟩, -⟩ := id hreaches
    have hbase : 2 ^ 20 ≤ r.begin := by
      by_contra hbase
      obtain ⟨hhole, htop⟩ :=
        (hasHole_top_iff hm hplaced htype (Or.inl (not_le.mp hbase))).mpr hreaches
      refine hright 256 ⟨by omega, by omega⟩ ⟨?_, Or.inl habove⟩ (Or.inr ⟨hhole, ?_, htop⟩)
      · rw [RANGE_1MB_eq]
      · rw [hplaced.base_eq hm, if_pos (not_le.mp hbase)]
    refine ⟨hbase, fun e he => ?_⟩
    -- an entry behind the hole is under it
    by_contra hetype
    obtain ⟨zs, ws, rfl⟩ := List.append_of_mem he
    have he' : e ∈ l := by simp [hsplit]
    obtain ⟨hele, hebegin, -, helim⟩ := hl.placed e he'
    have hlt : r.end_ < e.begin := by
      have hsorted := hl.sorted
      rw [hsplit] at hsorted
      exact (List.pairwise_cons.mp (List.pairwise_append.mp hsorted).2.1).1 e (by simp)
    have hpage : RangeEntry.HasPage e (e.begin / 4096) := ⟨by omega, by omega⟩
    have hmanaged : Managed above4gb (e.begin / 4096) := by
      refine ⟨?_, Or.inl habove⟩
      rw [RANGE_1MB_eq]
      omega
    obtain ⟨hhole, htop⟩ := (hasHole_top_iff hm hplaced htype (Or.inr (by simp))).mpr hreaches
    have hfrom : HoleFrom above4gb defType (xs ++ r :: zs) e ws (e.begin / 4096) := by
      refine ⟨xs, r, zs, rfl, hhole, ?_, ?_⟩
      · rw [hplaced.end_eq hm hhole.2.2.1]
        split_ifs <;> omega
      · have hpow : 2 ^ m ≤ 2 ^ 32 := Nat.pow_le_pow_right (by norm_num) hm
        rw [htop]
        omega
    exact ((right_iff hm h14 hdef hl htypes (by simp [hsplit]) hpage hmanaged hetype).mp
      (h e he' _ hpage hmanaged)).2 hfrom

lemma effectiveTypes_of_belowTop (h : BelowTop above4gb defType l) :
    EffectiveTypes totalMtrrs regs above4gb defType l := by
  intro r hr page hpage hmanaged
  obtain ⟨xs, ys, hsplit⟩ := List.append_of_mem hr
  by_cases htype : rangeEntryMtrrType r = defType
  · subst hsplit
    have hlim := (hl.placed r hr).end_le
    have hlt : page < 2 ^ m := by
      have := hpage.2
      omega
    exact (effectiveType_iff hm h14 hdef hl hpage hmanaged (htypes page hlt)).mpr (Or.inl htype)
  refine (right_iff hm h14 hdef hl htypes hsplit hpage hmanaged htype).mpr ⟨?_, ?_⟩
  · obtain ⟨htop, hreach⟩ := belowTop_iff.mp h xs r ys hsplit htype
    exact not_lost hm (hl.placed r hr) hpage hmanaged htype htop fun h => (hreach h).1
  · rintro ⟨ws, e, zs, hxs, hover⟩
    have hetype := hover.1.1
    have hsplit' : l = ws ++ e :: (zs ++ r :: ys) := by simp [hsplit, hxs]
    have htop := HoleOver.top hm (hsplit ▸ hl) hxs htype hpage hover
    have hplaced := hl.placed e (by simp [hsplit'])
    have hreaches := (hasHole_top_iff hm hplaced hetype (Or.inr (by simp))).mp ⟨hover.1, htop⟩
    exact htype (((belowTop_iff.mp h ws e _ hsplit' hetype).2 hreaches).2 r (by simp))

end

/-! ### The address space -/

lemma mem_markAll {l : List RangeEntry} {e : RangeEntry} (he : e ∈ markAll above4gb l) :
    ∃ r ∈ l, SameCover e r := by
  induction l with
  | nil => cases he
  | cons r rest ih =>
    rcases List.mem_cons.mp he with rfl | he
    · exact ⟨r, by simp, markEntry_sameCover above4gb r rest.head?⟩
    · obtain ⟨r', hr', hsame⟩ := ih he
      exact ⟨r', List.mem_cons_of_mem _ hr', hsame⟩

lemma Placed.congr {e : RangeEntry} (h : Placed m r) (hbegin : e.begin = r.begin)
    (hend : e.end_ = r.end_) : Placed m e := by
  obtain ⟨h₁, h₂, h₃, h₄⟩ := h
  constructor
  · rwa [hbegin, hend]
  · rwa [hbegin]
  · rwa [hend]
  · rwa [hend]

lemma Ordered.markAll {l : List RangeEntry} (h : Ordered m l) : Ordered m (markAll above4gb l) := by
  constructor
  · intro e he
    obtain ⟨r, hr, hbegin, hend, -⟩ := mem_markAll he
    exact (h.placed r hr).congr hbegin hend
  · have hsorted := h.sorted
    induction l with
    | nil => exact .nil
    | cons r rest ih =>
      obtain ⟨hr, hrest⟩ := List.pairwise_cons.mp hsorted
      refine List.pairwise_cons.mpr ⟨fun e he => ?_,
        ih ⟨fun f hf => h.placed f (by simp [hf]), hrest⟩ hrest⟩
      obtain ⟨f, hf, hbegin, -, -⟩ := mem_markAll he
      rw [hbegin, (markEntry_sameCover above4gb r rest.head?).end_eq]
      exact hr f hf

lemma Ordered.updateTag {l : List RangeEntry} (hm : m ≤ 32) (h : Ordered m l) (oldTag newTag : ℕ) :
    Ordered m (memrangesUpdateTag ⟨l⟩ oldTag newTag).entries := by
  have hpow : 2 ^ m ≤ 2 ^ 32 := Nat.pow_le_pow_right (by norm_num) hm
  set f : RangeEntry → RangeEntry :=
    fun r => if r.tag = oldTag then { r with tag := newTag } else r with hf
  have hbegin : ∀ r, (f r).begin = r.begin := fun r => by
    rw [hf]
    dsimp only
    split_ifs <;> rfl
  have hend : ∀ r, (f r).end_ = r.end_ := fun r => by
    rw [hf]
    dsimp only
    split_ifs <;> rfl
  have hplaced : ∀ e ∈ l.map f, Placed m e := by
    intro e he
    obtain ⟨r, hr, rfl⟩ := List.mem_map.mp he
    exact (h.placed r hr).congr (hbegin r) (hend r)
  have hsep : IntervalMap.Separated (l.map f) := by
    refine ⟨fun e he => (hplaced e he).le, List.pairwise_map.mpr (h.sorted.imp fun hlt => ?_)⟩
    simpa only [lo_eq, hi_eq, hbegin, hend] using hlt
  obtain ⟨hcan, hdenote⟩ := mergeNeighborEntries_spec ⟨l.map f⟩ hsep fun e he => by
    obtain ⟨h₁, h₂, h₃, h₄⟩ := hplaced e he
    exact ⟨h₁, by omega, h₂, h₃⟩
  refine ⟨fun e he => ⟨hcan.begin_le e he, hcan.begin_page e he, hcan.end_page e he, ?_⟩,
    hcan.sorted⟩
  -- the last page of a merged entry is a page of one of its parts
  have hcanonical := ((Memranges.isCanonical_iff _).mp hcan).1
  have hlook := hcanonical.separated.lookup_mem he (hcan.begin_le e he) le_rfl
  obtain ⟨r, hr, -, hle, -⟩ := IntervalMap.exists_of_lookup ((congrFun hdenote e.end_).symm.trans hlook)
  have hlim := (hplaced r hr).end_le
  simp only [hi_eq] at hle
  omega

/-! ### `commit_var_mtrrs` -/

/-- The registers that are left give a page the types that the written ranges give it. -/
lemma commit_matchingTypes {totalMtrrs addressBits : ℕ} {regs : ℕ → VarMtrr} {l : List RangeEntry}
    (hm : m ≤ 32) (h14 : 14 ≤ m) (hbits : m + 12 ≤ addressBits) (hdef : defType < 2 ^ 8)
    (hl : Ordered m l) (hpage : page < 2 ^ m)
    (hroom : (commitVarMtrrs totalMtrrs regs ⟨l⟩ defType above4gb addressBits).mtrrIndex ≤
      totalMtrrs) :
    t ∈ matchingTypes totalMtrrs
        (commitVarMtrrs totalMtrrs regs ⟨l⟩ defType above4gb addressBits).regs page ↔
      Gives (spans above4gb defType l) page t := by
  rw [mem_matchingTypes hroom fun i hi => commitVarMtrrs_valid_iff regs ⟨l⟩ defType addressBits hi]
  set s : VarMtrrState := ⟨above4gb, addressBits, true, 0, defType, regs⟩ with hs
  have hloop : commitLoop totalMtrrs s l = writeSpans totalMtrrs s (spans above4gb defType l) :=
    commitLoop_eq_writeSpans totalMtrrs s l
  have hcommit : commitVarMtrrs totalMtrrs regs ⟨l⟩ defType above4gb addressBits =
      { commitLoop totalMtrrs s l with
        regs := clearRest totalMtrrs (commitLoop totalMtrrs s l).regs
          (commitLoop totalMtrrs s l).mtrrIndex } := rfl
  rw [hcommit] at hroom ⊢
  have hclear : TypeAt (clearRest totalMtrrs (commitLoop totalMtrrs s l).regs
      (commitLoop totalMtrrs s l).mtrrIndex) (commitLoop totalMtrrs s l).mtrrIndex page t ↔
      TypeAt (commitLoop totalMtrrs s l).regs (commitLoop totalMtrrs s l).mtrrIndex page t := by
    refine exists_congr fun i => and_congr_right fun hi => ?_
    rw [clearRest, foldl_clearVarMtrr, if_neg (by omega)]
  refine hclear.trans ?_
  rw [hloop] at hroom ⊢
  have hdecodable : Decodable s m := ⟨rfl, hm, hbits⟩
  rw [writeSpans_typeAt totalMtrrs hdecodable hpage ?_ hroom]
  · refine or_iff_right ?_
    rintro ⟨i, hi, -⟩
    exact Nat.not_lt_zero i hi
  · intro p hp
    obtain ⟨xs, r, ys, rfl, hmem⟩ := mem_spans.mp hp
    exact ((hl.placed r (by simp)).entrySpans_covering hm h14 hdef _).fits p hmem

/-- The entries that `calc_var_mtrrs` leaves are whole pages in order. -/
lemma calcVarMtrrs_ordered (totalMtrrs : ℕ) (regs : ℕ → VarMtrr) (biosMtrrs : ℤ)
    {addrSpace : Memranges} (above4gb : Bool) (addressBits : ℕ) (hm : m ≤ 32)
    (h : Ordered m addrSpace.entries) :
    Ordered m
      (calcVarMtrrs totalMtrrs regs biosMtrrs addrSpace above4gb addressBits).counts.entries := by
  simp only [calcVarMtrrs, calcVarMtrrsCounts_eq]
  split_ifs
  · exact (h.markAll.updateTag hm _ _).markAll
  · exact h.markAll

/-- With either default type, every page from 1 MiB on that an entry has, and that is below 4 GiB or
to be covered above it, gets the type of the entry, if and only if the entries stay below 2^44 as
far as they need registers. -/
theorem commitVarMtrrs_types_iff (totalMtrrs : ℕ) (regs : ℕ → VarMtrr) (biosMtrrs : ℤ)
    (addrSpace : Memranges) (above4gb : Bool) (addressBits defType : ℕ)
    (hcan : addrSpace.IsCanonical) (hcovers : ∀ a < 2 ^ 32, addrSpace.denote a ≠ none)
    (hbits : ∀ r ∈ addrSpace.entries, r.end_ < 2 ^ addressBits)
    (hlimit : ∀ r ∈ addrSpace.entries, r.end_ < 2 ^ 44)
    (hdef : defType = MTRR_TYPE_WRBACK ∨ defType = MTRR_TYPE_UNCACHEABLE)
    (hroom : (commitVarMtrrs totalMtrrs regs
      ⟨(calcVarMtrrs totalMtrrs regs biosMtrrs addrSpace above4gb addressBits).counts.entries⟩
      defType above4gb addressBits).mtrrIndex ≤ totalMtrrs) :
    EffectiveTypes totalMtrrs (commitVarMtrrs totalMtrrs regs
        ⟨(calcVarMtrrs totalMtrrs regs biosMtrrs addrSpace above4gb addressBits).counts.entries⟩
        defType above4gb addressBits).regs above4gb defType
        (calcVarMtrrs totalMtrrs regs biosMtrrs addrSpace above4gb addressBits).counts.entries ↔
      BelowTop above4gb defType
        (calcVarMtrrs totalMtrrs regs biosMtrrs addrSpace above4gb addressBits).counts.entries := by
  set l := (calcVarMtrrs totalMtrrs regs biosMtrrs addrSpace above4gb addressBits).counts.entries
    with hentries
  have h32 : 32 ≤ addressBits := by
    -- an entry has the last byte below 4 GiB
    obtain ⟨tag, htag⟩ := Option.ne_none_iff_exists'.mp (hcovers (2 ^ 32 - 1) (by norm_num))
    obtain ⟨r, hr, -, hle, -⟩ := IntervalMap.exists_of_lookup htag
    have hlt := hbits r hr
    simp only [hi_eq] at hle
    by_contra hsmall
    have hpow : 2 ^ addressBits ≤ 2 ^ 31 := Nat.pow_le_pow_right (by norm_num) (by omega)
    omega
  obtain ⟨m, hm⟩ : ∃ m, m + 12 = min addressBits 44 := ⟨min addressBits 44 - 12, by omega⟩
  have hordered : Ordered m l := by
    refine calcVarMtrrs_ordered totalMtrrs regs biosMtrrs above4gb addressBits (by omega) ⟨?_, ?_⟩
    · intro r hr
      have hend : r.end_ < 2 ^ (m + 12) := by
        rw [hm]
        rcases min_choice addressBits 44 with h | h
        · rw [h]
          exact hbits r hr
        · rw [h]
          exact hlimit r hr
      rw [pow_add] at hend
      exact ⟨hcan.begin_le r hr, hcan.begin_page r hr, hcan.end_page r hr, by omega⟩
    · exact hcan.sorted
  have hdef' : defType < 2 ^ 8 := by
    rcases hdef with rfl | rfl
    · decide
    · decide
  have htypes : ∀ page < 2 ^ m, ∀ t, t ∈ matchingTypes totalMtrrs
      (commitVarMtrrs totalMtrrs regs ⟨l⟩ defType above4gb addressBits).regs page ↔
        Gives (spans above4gb defType l) page t := fun page hpage t =>
    commit_matchingTypes (by omega) (by omega) (by omega) hdef' hordered hpage hroom
  exact ⟨belowTop_of_effectiveTypes (by omega) (by omega) hdef' hordered htypes,
    effectiveTypes_of_belowTop (by omega) (by omega) hdef' hordered htypes⟩

/-- Two entries that meet below 4 GiB cover the space up to there. -/
lemma covers_pair {b e t t' : ℕ} (hle : b ≤ 2 ^ 32) (he : 2 ^ 32 ≤ e + 1) (a : ℕ) (ha : a < 2 ^ 32) :
    (⟨[⟨0, b - 1, t⟩, ⟨b, e, t'⟩]⟩ : Memranges).denote a ≠ none := by
  simp only [Memranges.denote, IntervalMap.lookup_cons, IntervalMap.lookup_nil, lo_eq, hi_eq]
  split_ifs
  · exact Option.some_ne_none _
  · exact Option.some_ne_none _
  · omega

/-- Memory up to 2 GiB. -/
theorem commitVarMtrrs_types_iff_memory :
    EffectiveTypes 8 (commitVarMtrrs 8 (fun _ => ⟨⟨0, 0⟩, ⟨0, 0⟩⟩)
        ⟨(calcVarMtrrs 8 (fun _ => ⟨⟨0, 0⟩, ⟨0, 0⟩⟩) 6
          ⟨[⟨0, 0x80000000 - 1, 6⟩, ⟨0x80000000, 0xffffffff, 0⟩]⟩ false 40).counts.entries⟩
        MTRR_TYPE_UNCACHEABLE false 40).regs false MTRR_TYPE_UNCACHEABLE
      (calcVarMtrrs 8 (fun _ => ⟨⟨0, 0⟩, ⟨0, 0⟩⟩) 6
        ⟨[⟨0, 0x80000000 - 1, 6⟩, ⟨0x80000000, 0xffffffff, 0⟩]⟩ false 40).counts.entries := by
  refine (commitVarMtrrs_types_iff 8 _ 6 _ false 40 _
    ⟨by decide, by decide, by decide, by decide, by decide, by decide⟩
    (covers_pair (by norm_num) (by norm_num)) (by decide) (by decide) (Or.inr rfl)
    (by decide +kernel)).mpr ?_
  have hentries : (calcVarMtrrs 8 (fun _ => ⟨⟨0, 0⟩, ⟨0, 0⟩⟩) 6
      ⟨[⟨0, 0x80000000 - 1, 6⟩, ⟨0x80000000, 0xffffffff, 0⟩]⟩ false 40).counts.entries =
      [⟨0, 0x80000000 - 1, 0x106⟩, ⟨0x80000000, 0xffffffff, 0⟩] := by
    decide +kernel
  rw [hentries]
  simp only [BelowTop]
  decide

/-- Memory from 4 GiB up to 2^44 has no registers, so that it is left uncacheable. -/
theorem not_effectiveTypes_top :
    ¬∀ (totalMtrrs : ℕ) (regs : ℕ → VarMtrr) (biosMtrrs : ℤ) (addrSpace : Memranges)
      (above4gb : Bool) (addressBits defType : ℕ), addrSpace.IsCanonical →
      (∀ a < 2 ^ 32, addrSpace.denote a ≠ none) →
      (∀ r ∈ addrSpace.entries, r.end_ < 2 ^ addressBits) →
      (∀ r ∈ addrSpace.entries, r.end_ < 2 ^ 44) →
      defType = MTRR_TYPE_WRBACK ∨ defType = MTRR_TYPE_UNCACHEABLE →
      (commitVarMtrrs totalMtrrs regs
        ⟨(calcVarMtrrs totalMtrrs regs biosMtrrs addrSpace above4gb addressBits).counts.entries⟩
        defType above4gb addressBits).mtrrIndex ≤ totalMtrrs →
      EffectiveTypes totalMtrrs (commitVarMtrrs totalMtrrs regs
        ⟨(calcVarMtrrs totalMtrrs regs biosMtrrs addrSpace above4gb addressBits).counts.entries⟩
        defType above4gb addressBits).regs above4gb defType
        (calcVarMtrrs totalMtrrs regs biosMtrrs addrSpace above4gb addressBits).counts.entries := by
  intro h
  have htypes := h 8 (fun _ => ⟨⟨0, 0⟩, ⟨0, 0⟩⟩) 6
    ⟨[⟨0, 0x100000000 - 1, 0⟩, ⟨0x100000000, 0xfffffffffff, 6⟩]⟩ true 44 MTRR_TYPE_UNCACHEABLE
    ⟨by decide, by decide, by decide, by decide, by decide, by decide⟩
    (covers_pair (by norm_num) (by norm_num)) (by decide) (by decide) (Or.inr rfl)
    (by decide +kernel) ⟨0x100000000, 0xfffffffffff, 0x106⟩ (by decide +kernel) 0x100000
    ⟨by decide, by decide⟩ ⟨by decide, Or.inl rfl⟩
  exact absurd htypes (by decide +kernel)

end ApuBios.Mtrr
