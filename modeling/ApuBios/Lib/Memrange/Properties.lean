import ApuBios.Lib.Memrange.Basic

/-!
# The range list invariant

Every call keeps the list canonical and changes the map it denotes exactly as `Call.effect`
says. Removal and insertion are analysed on separated lists; merging then restores the
coalesced form.
-/

namespace ApuBios.Memrange

open IntervalMap

/-! ### Whole pages -/

/-- A nonempty entry of whole pages within the 64-bit address space. -/
structure RangeEntry.Paged (e : RangeEntry) : Prop where
  begin_le : e.begin ≤ e.end_
  fits : e.end_ < 2 ^ 64
  begin_page : 4096 ∣ e.begin
  end_page : 4096 ∣ e.end_ + 1

lemma Memranges.isCanonical_iff (ranges : Memranges) :
    ranges.IsCanonical ↔ Canonical ranges.entries ∧ ∀ e ∈ ranges.entries, e.Paged := by
  constructor
  · rintro ⟨hle, hfit, hbegin, hend, hsort, hcoal⟩
    exact ⟨⟨hle, hsort.and hcoal⟩, fun e he => ⟨hle e he, hfit e he, hbegin e he, hend e he⟩⟩
  · rintro ⟨⟨hle, hsort⟩, hpaged⟩
    exact ⟨hle, fun e he => (hpaged e he).fits, fun e he => (hpaged e he).begin_page,
      fun e he => (hpaged e he).end_page, hsort.imp fun h => h.1, hsort.imp fun h => h.2⟩

/-! ### Merging -/

/-- Each merged entry begins where `prev` or one of the later entries did, with its tag. -/
private lemma mem_mergeNeighborLoop {prev x : RangeEntry} {es : List RangeEntry}
    (hs : Separated (prev :: es)) (hx : x ∈ mergeNeighborLoop prev es) :
    prev.begin ≤ x.begin ∧ (x.begin = prev.begin → x.tag = prev.tag) := by
  induction es generalizing prev with
  | nil => simp_all [mergeNeighborLoop]
  | cons cur next ih =>
    obtain ⟨hp, hlt, hs'⟩ := Separated.cons_iff.mp hs
    obtain ⟨hc, hlt', hs''⟩ := Separated.cons_iff.mp hs'
    have hcur := hlt cur (by simp)
    simp only [lo_eq, hi_eq] at *
    rw [mergeNeighborLoop] at hx
    split_ifs at hx with hmerge
    · have hmerged : Separated ({ prev with end_ := cur.end_ } :: next) :=
        Separated.cons_iff.mpr ⟨by simp only [lo_eq, hi_eq]; omega, hlt', hs''⟩
      have hbegin := ih hmerged hx
      exact hbegin
    · rcases List.mem_cons.mp hx with rfl | hx
      · simp
      · have := (ih hs' hx).1
        exact ⟨by omega, by omega⟩

/-- Merging a separated list yields the canonical list of the same map. -/
private lemma mergeNeighborLoop_spec {prev : RangeEntry} {es : List RangeEntry}
    (hs : Separated (prev :: es)) (hp : ∀ e ∈ prev :: es, e.Paged) :
    Canonical (mergeNeighborLoop prev es) ∧ (∀ e ∈ mergeNeighborLoop prev es, e.Paged) ∧
      lookup (mergeNeighborLoop prev es) = lookup (prev :: es) := by
  induction es generalizing prev with
  | nil =>
    refine ⟨Canonical.cons_iff.mpr ⟨(hp prev (by simp)).begin_le, by simp, .nil⟩, ?_, rfl⟩
    simpa [mergeNeighborLoop] using hp
  | cons cur next ih =>
    obtain ⟨hle, hlt, hs'⟩ := Separated.cons_iff.mp hs
    obtain ⟨hle', hlt', hs''⟩ := Separated.cons_iff.mp hs'
    have hcur := hlt cur (by simp)
    have hprevP := hp prev (by simp)
    have hcurP := hp cur (by simp)
    have hfit := hcurP.fits
    simp only [lo_eq, hi_eq] at hle hle' hcur
    have hadd : Word.add 64 prev.end_ 1 = prev.end_ + 1 := Word.add_eq (by omega)
    rw [mergeNeighborLoop, hadd]
    split_ifs with hmerge
    · -- the merged entry covers both, since they touch
      have hs₂ : Separated ({ prev with end_ := cur.end_ } :: next) :=
        Separated.cons_iff.mpr ⟨by simp only [lo_eq, hi_eq]; omega, hlt', hs''⟩
      obtain ⟨hcan, hpaged, hlook⟩ := ih hs₂ (by
        intro e he
        rcases List.mem_cons.mp he with rfl | he
        · exact ⟨by simp only; omega, hfit, hprevP.begin_page, hcurP.end_page⟩
        · exact hp e (by simp [he]))
      refine ⟨hcan, hpaged, hlook.trans (funext fun a => ?_)⟩
      simp only [lookup_cons, lo_eq, hi_eq, val_eq, hmerge.2]
      split_ifs <;> first | rfl | omega
    · obtain ⟨hcan, hpaged, hlook⟩ := ih hs' fun e he => hp e (by simp [he])
      refine ⟨Canonical.cons_iff.mpr ⟨hle, fun x hx => ?_, hcan⟩, ?_, funext fun a => ?_⟩
      · obtain ⟨hbegin, htag⟩ := mem_mergeNeighborLoop hs' hx
        refine ⟨by simp only [lo_eq, hi_eq]; omega, fun htouch heq => ?_⟩
        simp only [lo_eq, hi_eq, val_eq] at htouch heq
        exact hmerge ⟨by omega, heq.trans (htag (by omega))⟩
      · intro e he
        rcases List.mem_cons.mp he with rfl | he
        · exact hprevP
        · exact hpaged e he
      · rw [lookup_cons, lookup_cons, hlook]

lemma mergeNeighborEntries_spec (ranges : Memranges) (hs : Separated ranges.entries)
    (hp : ∀ e ∈ ranges.entries, e.Paged) :
    (mergeNeighborEntries ranges).IsCanonical ∧
      (mergeNeighborEntries ranges).denote = ranges.denote := by
  rcases ranges with ⟨_ | ⟨first, rest⟩⟩
  · exact ⟨(Memranges.isCanonical_iff _).mpr ⟨.nil, hp⟩, rfl⟩
  · obtain ⟨hcan, hpaged, hlook⟩ := mergeNeighborLoop_spec hs hp
    exact ⟨(Memranges.isCanonical_iff _).mpr ⟨hcan, hpaged⟩, hlook⟩

/-! ### Removal -/

/-- `f` lies within `e` and has its tag. -/
private def Within (f e : RangeEntry) : Prop :=
  e.begin ≤ f.begin ∧ f.end_ ≤ e.end_ ∧ f.tag = e.tag

private lemma before_of_within {e f g : RangeEntry} (h : Before e g) (hf : Within f g) :
    Before e f := by
  obtain ⟨hlt, htouch⟩ := h
  obtain ⟨hlo, hhi, htag⟩ := hf
  simp only [lo_eq, hi_eq, val_eq] at hlt htouch
  refine ⟨by simp only [lo_eq, hi_eq]; omega, fun heq => ?_⟩
  simp only [lo_eq, hi_eq, val_eq] at heq ⊢
  rw [htag]
  exact htouch (by omega)

private lemma within_before {e f g : RangeEntry} (h : Before e g) (hf : Within f e) :
    Before f g := by
  obtain ⟨hlt, htouch⟩ := h
  obtain ⟨hlo, hhi, htag⟩ := hf
  simp only [lo_eq, hi_eq, val_eq] at hlt htouch
  refine ⟨by simp only [lo_eq, hi_eq]; omega, fun heq => ?_⟩
  simp only [lo_eq, hi_eq, val_eq] at heq ⊢
  rw [htag]
  exact htouch (by omega)

/-- Nothing is removed from entries that begin after the range. -/
lemma removeLoop_of_lt {begin end_ : ℕ} {es : List RangeEntry}
    (h : ∀ e ∈ es, end_ < e.begin) : removeLoop begin end_ es = es := by
  cases es with
  | nil => rfl
  | cons cur next => rw [removeLoop, if_pos (h cur (by simp))]

/-- What `remove_memranges` does to a canonical list. -/
private structure Removed (begin end_ : ℕ) (es out : List RangeEntry) : Prop where
  canonical : Canonical out
  paged : ∀ f ∈ out, f.Paged
  within : ∀ f ∈ out, ∃ e ∈ es, Within f e
  lookup_eq : ∀ a, lookup out a = if begin ≤ a ∧ a ≤ end_ then none else lookup es a

/-- Put an entry that stays, or what is left of it, in front of a finished removal. -/
private lemma Removed.cons {begin end_ begin' : ℕ} {cur cur' : RangeEntry}
    {next out : List RangeEntry} (hcan : Canonical (cur :: next))
    (hcur' : cur'.Paged) (hwithin : Within cur' cur) (h : Removed begin' end_ next out)
    (hlook : ∀ a, a ≤ cur.end_ →
      ((cur'.begin ≤ a ∧ a ≤ cur'.end_) ↔ cur.begin ≤ a ∧ ¬(begin ≤ a ∧ a ≤ end_)))
    (hlater : ∀ a, cur.end_ < a → (begin ≤ a ↔ begin' ≤ a)) :
    Removed begin end_ (cur :: next) (cur' :: out) := by
  obtain ⟨hle, hlt, hcan'⟩ := Canonical.cons_iff.mp hcan
  refine ⟨Canonical.cons_iff.mpr ⟨hcur'.begin_le, fun f hf => ?_, h.canonical⟩, ?_, ?_, fun a => ?_⟩
  · obtain ⟨e, he, hfe⟩ := h.within f hf
    refine within_before ?_ hwithin
    exact before_of_within (hlt e he) hfe
  · intro f hf
    rcases List.mem_cons.mp hf with rfl | hf
    exacts [hcur', h.paged f hf]
  · intro f hf
    rcases List.mem_cons.mp hf with rfl | hf
    · exact ⟨cur, by simp, hwithin⟩
    · obtain ⟨e, he, hfe⟩ := h.within f hf
      exact ⟨e, by simp [he], hfe⟩
  · rw [lookup_cons, lookup_cons, h.lookup_eq]
    simp only [lo_eq, hi_eq, val_eq]
    by_cases ha : a ≤ cur.end_
    · have hnone : lookup next a = none :=
        Separated.lookup_none fun f hf => by
          have := (hlt f hf).1
          simp only [lo_eq, hi_eq] at *
          omega
      have := hlook a ha
      rw [hnone, hwithin.2.2]
      split_ifs <;> first | rfl | (exfalso; omega)
    · have hl := hlater a (by omega)
      have hw := hwithin.2.1
      rw [if_neg (by omega), if_neg (show ¬(cur.begin ≤ a ∧ a ≤ cur.end_) by omega)]
      split_ifs <;> first | rfl | (exfalso; omega)

/-- With an empty removal range the tail of the list stays as it is. -/
private lemma Removed.of_lt {begin end_ : ℕ} {es : List RangeEntry} (hcan : Canonical es)
    (hp : ∀ e ∈ es, e.Paged) (h : ∀ e ∈ es, end_ < e.begin) : Removed begin end_ es es := by
  refine ⟨hcan, hp, fun f hf => ⟨f, hf, le_rfl, le_rfl, rfl⟩, fun a => ?_⟩
  split_ifs with ha
  · exact Separated.lookup_none fun f hf => by
      have := h f hf
      simp only [lo_eq]
      omega
  · rfl

/-- An entry that the range covers disappears. -/
private lemma Removed.drop {begin end_ : ℕ} {cur : RangeEntry} {next out : List RangeEntry}
    (hcan : Canonical (cur :: next)) (hbegin : begin ≤ cur.begin)
    (hend : cur.end_ ≤ end_) (h : Removed (cur.end_ + 1) end_ next out) :
    Removed begin end_ (cur :: next) out := by
  obtain ⟨hle, hlt, hcan'⟩ := Canonical.cons_iff.mp hcan
  refine ⟨h.canonical, h.paged, fun f hf => ?_, fun a => ?_⟩
  · obtain ⟨e, he, hfe⟩ := h.within f hf
    exact ⟨e, by simp [he], hfe⟩
  · rw [h.lookup_eq, lookup_cons]
    simp only [lo_eq, hi_eq] at hle ⊢
    by_cases ha : a ≤ cur.end_
    · have hnone : lookup next a = none :=
        Separated.lookup_none fun f hf => by
          have := (hlt f hf).1
          simp only [lo_eq, hi_eq] at *
          omega
      rw [hnone]
      split_ifs <;> first | rfl | (exfalso; omega)
    · split_ifs <;> first | rfl | (exfalso; omega)

/-! The three ways an entry is cut, with the arithmetic resolved. -/

private lemma removeLoop_clip_front {begin end_ : ℕ} {cur : RangeEntry} {next : List RangeEntry}
    (hbegin : begin ≤ cur.begin) (hover : cur.begin ≤ end_) (hend : end_ < cur.end_)
    (hfit : cur.end_ < 2 ^ 64) :
    removeLoop begin end_ (cur :: next) =
      { cur with begin := end_ + 1 } :: removeLoop cur.begin end_ next := by
  rw [removeLoop, if_neg (by omega), if_neg (by omega), if_neg (by omega)]
  simp only [hbegin, if_true, if_neg (show ¬cur.end_ < end_ by omega), lt_irrefl, false_and,
    if_false, if_neg hend.ne]
  rw [Word.add_eq (by omega)]

private lemma removeLoop_split {begin end_ : ℕ} {cur : RangeEntry} {next : List RangeEntry}
    (hbegin : cur.begin < begin) (hover : begin ≤ end_) (hend : end_ < cur.end_)
    (hfit : cur.end_ < 2 ^ 64) :
    removeLoop begin end_ (cur :: next) =
      { cur with end_ := begin - 1 } :: ⟨end_ + 1, cur.end_, cur.tag⟩ :: next := by
  rw [removeLoop, if_neg (by omega), if_neg (by omega), if_neg (by omega)]
  simp only [if_neg (show ¬begin ≤ cur.begin by omega), if_neg (show ¬cur.end_ < end_ by omega),
    hbegin, hend, and_self, if_true]
  rw [Word.add_eq (by omega), Word.sub_eq (by omega) (by omega)]

private lemma removeLoop_clip_back {begin end_ : ℕ} {cur : RangeEntry} {next : List RangeEntry}
    (hbegin : cur.begin < begin) (hover : begin ≤ cur.end_) (hend : cur.end_ ≤ end_)
    (hfit : cur.end_ < 2 ^ 64) :
    removeLoop begin end_ (cur :: next) =
      { cur with end_ := begin - 1 } :: removeLoop begin end_ next := by
  have htmp : (if cur.end_ < end_ then cur.end_ else end_) = cur.end_ := by
    split_ifs <;> omega
  rw [removeLoop, if_neg (by omega), if_neg (by omega), if_neg (by omega)]
  simp only [if_neg (show ¬begin ≤ cur.begin by omega), htmp, lt_irrefl, and_false, if_false,
    if_neg hbegin.ne', if_true]
  rw [Word.sub_eq (by omega) (by omega)]

/-- An entry around the range falls into two, and the later one stands for the tail. -/
private lemma Removed.split {begin end_ : ℕ} {cur : RangeEntry} {next : List RangeEntry}
    (hcan : Canonical (cur :: next)) (hp : ∀ e ∈ cur :: next, e.Paged) (hbegin : 4096 ∣ begin)
    (hend : 4096 ∣ end_ + 1) (hlow : cur.begin < begin) (hle : begin ≤ end_)
    (hhigh : end_ < cur.end_) :
    Removed begin end_ (cur :: next)
      ({ cur with end_ := begin - 1 } :: ⟨end_ + 1, cur.end_, cur.tag⟩ :: next) := by
  obtain ⟨hcur, hlt, hcan'⟩ := Canonical.cons_iff.mp hcan
  obtain ⟨-, hfit, hcbegin, hcend⟩ := hp cur (by simp)
  have hfront : RangeEntry.Paged { cur with end_ := begin - 1 } :=
    ⟨by simp only; omega, by simp only; omega, hcbegin, by simp only; rwa [Nat.sub_add_cancel]; omega⟩
  have hback : RangeEntry.Paged ⟨end_ + 1, cur.end_, cur.tag⟩ :=
    ⟨by simp only; omega, hfit, hend, hcend⟩
  have hfrontIn : Within { cur with end_ := begin - 1 } cur :=
    ⟨le_rfl, by simp only; omega, rfl⟩
  have hbackIn : Within ⟨end_ + 1, cur.end_, cur.tag⟩ cur := ⟨by simp only; omega, le_rfl, rfl⟩
  refine ⟨?_, ?_, ?_, fun a => ?_⟩
  · refine Canonical.cons_iff.mpr ⟨hfront.begin_le, fun f hf => ?_, Canonical.cons_iff.mpr
      ⟨hback.begin_le, fun f hf => within_before (hlt f hf) hbackIn, hcan'⟩⟩
    rcases List.mem_cons.mp hf with rfl | hf
    · exact ⟨by simp only [lo_eq, hi_eq]; omega, by simp only [lo_eq, hi_eq]; omega⟩
    · exact within_before (hlt f hf) hfrontIn
  · intro f hf
    rcases List.mem_cons.mp hf with rfl | hf
    · exact hfront
    rcases List.mem_cons.mp hf with rfl | hf
    exacts [hback, hp f (by simp [hf])]
  · intro f hf
    rcases List.mem_cons.mp hf with rfl | hf
    · exact ⟨cur, by simp, hfrontIn⟩
    rcases List.mem_cons.mp hf with rfl | hf
    · exact ⟨cur, by simp, hbackIn⟩
    · exact ⟨f, by simp [hf], le_rfl, le_rfl, rfl⟩
  · simp only [lookup_cons, lo_eq, hi_eq, val_eq]
    by_cases ha : cur.end_ < a
    · split_ifs <;> first | rfl | (exfalso; omega)
    · rw [show lookup next a = none from Separated.lookup_none fun f hf => by
        have := (hlt f hf).1
        simp only [lo_eq, hi_eq] at *
        omega]
      split_ifs <;> first | rfl | (exfalso; omega)

/-- Cutting a range of whole pages out of a canonical list leaves a canonical list that denotes
the map without that range. The induction follows the loop, whose `begin` only moves up. -/
private lemma removeLoop_spec {begin end_ : ℕ} (hle : begin ≤ end_) (hfit : end_ < 2 ^ 64)
    (hbegin : 4096 ∣ begin) (hend : 4096 ∣ end_ + 1) {es : List RangeEntry}
    (hcan : Canonical es) (hp : ∀ e ∈ es, e.Paged) :
    Removed begin end_ es (removeLoop begin end_ es) := by
  induction es generalizing begin with
  | nil => exact ⟨.nil, hp, by simp [removeLoop], by simp [removeLoop]⟩
  | cons cur next ih =>
    obtain ⟨hcur, hlt, hcan'⟩ := Canonical.cons_iff.mp hcan
    have hcurP := hp cur (by simp)
    have hnextP : ∀ e ∈ next, e.Paged := fun e he => hp e (by simp [he])
    have hnext : ∀ e ∈ next, cur.end_ < e.begin := fun e he => (hlt e he).1
    have hcfit := hcurP.fits
    have hcbegin := hcurP.begin_page
    have hcend := hcurP.end_page
    simp only [lo_eq, hi_eq] at hcur
    by_cases hstop : end_ < cur.begin
    · have hall : ∀ e ∈ cur :: next, end_ < e.begin := by
        intro e he
        rcases List.mem_cons.mp he with rfl | he
        · exact hstop
        · have := hnext e he
          omega
      rw [removeLoop_of_lt hall]
      exact Removed.of_lt hcan hp hall
    by_cases hskip : cur.end_ < begin
    · rw [removeLoop, if_neg hstop, if_pos hskip]
      exact Removed.cons hcan hcurP ⟨le_rfl, le_rfl, rfl⟩ (ih hle hbegin hcan' hnextP)
        (fun a ha => by omega) (fun a ha => by omega)
    by_cases hlow : begin ≤ cur.begin <;> by_cases hhigh : cur.end_ ≤ end_
    · -- full removal: the range goes on behind the entry, if anything of it is left
      rw [removeLoop, if_neg hstop, if_neg hskip, if_pos ⟨hlow, hhigh⟩]
      apply Removed.drop hcan hlow hhigh
      by_cases hlast : cur.end_ = end_
      · rw [removeLoop_of_lt fun e he => hlast ▸ hnext e he]
        exact Removed.of_lt hcan' hnextP fun e he => hlast ▸ hnext e he
      · rw [Word.add_eq (by omega)]
        exact ih (by omega) hcend hcan' hnextP
    · rw [removeLoop_clip_front hlow (by omega) (by omega) hcfit]
      refine Removed.cons hcan ⟨by simp only; omega, hcfit, hend, hcend⟩
        ⟨by simp only; omega, le_rfl, rfl⟩ (ih (by omega) hcbegin hcan' hnextP)
        (fun a ha => ?_) (fun a ha => by omega)
      simp only
      omega
    · rw [removeLoop_clip_back (by omega) (by omega) hhigh hcfit]
      refine Removed.cons hcan
        ⟨by simp only; omega, by simp only; omega, hcbegin, by simp only; rwa [Nat.sub_add_cancel]; omega⟩
        ⟨le_rfl, by simp only; omega, rfl⟩ (ih hle hbegin hcan' hnextP) (fun a ha => ?_)
        (fun a ha => by omega)
      simp only
      omega
    · rw [removeLoop_split (by omega) hle (by omega) hcfit]
      exact Removed.split hcan hp hbegin hend (by omega) hle (by omega)

lemma removeMemranges_spec {begin end_ : ℕ} (unused : ℕ) (hle : begin ≤ end_)
    (hfit : end_ < 2 ^ 64) (hbegin : 4096 ∣ begin) (hend : 4096 ∣ end_ + 1) {ranges : Memranges}
    (h : ranges.IsCanonical) :
    (removeMemranges ranges begin end_ unused).IsCanonical ∧
      ∀ a, (removeMemranges ranges begin end_ unused).denote a =
        if begin ≤ a ∧ a ≤ end_ then none else ranges.denote a := by
  obtain ⟨hcan, hp⟩ := (Memranges.isCanonical_iff _).mp h
  have hrem := removeLoop_spec hle hfit hbegin hend hcan hp
  exact ⟨(Memranges.isCanonical_iff _).mpr ⟨hrem.canonical, hrem.paged⟩, hrem.lookup_eq⟩

/-! ### Insertion -/

/-- A new entry in front of the first one that lies behind it. -/
private lemma addLoop_spec (new : RangeEntry) {es : List RangeEntry} (hs : Separated es)
    (hnew : new.begin ≤ new.end_) (hbeside : ∀ e ∈ es, e.end_ < new.begin ∨ new.end_ < e.begin) :
    Separated (addLoop new es) ∧ (∀ e ∈ addLoop new es, e = new ∨ e ∈ es) ∧
      ∀ a, lookup (addLoop new es) a =
        if new.begin ≤ a ∧ a ≤ new.end_ then some new.tag else lookup es a := by
  induction es with
  | nil => exact ⟨Separated.cons_iff.mpr ⟨hnew, by simp, .nil⟩, by simp [addLoop], fun a => rfl⟩
  | cons cur next ih =>
    obtain ⟨hcur, hlt, hs'⟩ := Separated.cons_iff.mp hs
    have hside := hbeside cur (by simp)
    simp only [lo_eq, hi_eq] at hcur hlt
    rw [addLoop]
    split_ifs with hspot
    · refine ⟨Separated.cons_iff.mpr ⟨hnew, fun f hf => ?_, hs⟩, by simp, fun a => rfl⟩
      rcases List.mem_cons.mp hf with rfl | hf
      · exact hspot
      · have := hlt f hf
        simp only [lo_eq, hi_eq]
        omega
    · obtain ⟨hsep, hmem, hlook⟩ := ih hs' fun e he => hbeside e (by simp [he])
      refine ⟨Separated.cons_iff.mpr ⟨hcur, fun f hf => ?_, hsep⟩, fun f hf => ?_, fun a => ?_⟩
      · rcases hmem f hf with rfl | hf
        · simp only [lo_eq, hi_eq]
          omega
        · exact hlt f hf
      · rcases List.mem_cons.mp hf with rfl | hf
        · simp
        · rcases hmem f hf with rfl | hf <;> simp [*]
      · rw [lookup_cons, hlook, lookup_cons]
        simp only [lo_eq, hi_eq]
        split_ifs <;> first | rfl | (exfalso; omega)

lemma mergeAddMemranges_spec {begin end_ : ℕ} (tag : ℕ) (hle : begin ≤ end_)
    (hfit : end_ < 2 ^ 64) (hbegin : 4096 ∣ begin) (hend : 4096 ∣ end_ + 1) {ranges : Memranges}
    (h : ranges.IsCanonical) :
    (mergeAddMemranges ranges begin end_ tag).IsCanonical ∧
      ∀ a, (mergeAddMemranges ranges begin end_ tag).denote a =
        if begin ≤ a ∧ a ≤ end_ then some tag else ranges.denote a := by
  obtain ⟨hcan, hnone⟩ := removeMemranges_spec (2 ^ 32 - 1) hle hfit hbegin hend h
  obtain ⟨hcan', hp⟩ := (Memranges.isCanonical_iff _).mp hcan
  have hs := hcan'.separated
  obtain ⟨hsep, hmem, hlook⟩ := addLoop_spec ⟨begin, end_, tag⟩ hs hle
    (hs.disjoint_of_lookup hle fun a hb he => by
      have := hnone a
      rwa [if_pos ⟨hb, he⟩] at this)
  obtain ⟨hmcan, hden⟩ := mergeNeighborEntries_spec
    ⟨addLoop ⟨begin, end_, tag⟩ (removeMemranges ranges begin end_ (2 ^ 32 - 1)).entries⟩
    hsep fun e he => by
      rcases hmem e he with rfl | he
      exacts [⟨hle, hfit, hbegin, hend⟩, hp e he]
  refine ⟨hmcan, fun a => (congrFun hden a).trans ((hlook a).trans ?_)⟩
  simp only
  split_ifs with ha
  · rfl
  · have := hnone a
    rwa [if_neg ha] at this

/-! ### Retagging -/

private lemma lookup_map_tag (f : ℕ → ℕ) (es : List RangeEntry) (a : ℕ) :
    lookup (es.map fun r => { r with tag := f r.tag }) a = (lookup es a).map f := by
  induction es with
  | nil => rfl
  | cons e es ih =>
    rw [List.map_cons, lookup_cons, lookup_cons, ih]
    simp only [lo_eq, hi_eq, val_eq]
    split_ifs <;> rfl

lemma memrangesUpdateTag_spec (oldTag newTag : ℕ) {ranges : Memranges} (h : ranges.IsCanonical) :
    (memrangesUpdateTag ranges oldTag newTag).IsCanonical ∧
      ∀ a, (memrangesUpdateTag ranges oldTag newTag).denote a =
        if ranges.denote a = some oldTag then some newTag else ranges.denote a := by
  obtain ⟨hcan, hp⟩ := (Memranges.isCanonical_iff _).mp h
  have hmap : (fun r : RangeEntry => if r.tag = oldTag then { r with tag := newTag } else r) =
      fun r => { r with tag := if r.tag = oldTag then newTag else r.tag } := by
    funext r
    split_ifs <;> rfl
  have hs : Separated (ranges.entries.map fun r =>
      { r with tag := if r.tag = oldTag then newTag else r.tag }) := by
    refine ⟨fun e he => ?_, List.pairwise_map.mpr hcan.separated.sorted⟩
    obtain ⟨r, hr, rfl⟩ := List.mem_map.mp he
    exact hcan.nonempty r hr
  obtain ⟨hmcan, hden⟩ := mergeNeighborEntries_spec ⟨_⟩ hs fun e he => by
    obtain ⟨r, hr, rfl⟩ := List.mem_map.mp he
    obtain ⟨hle, hfit, hbegin, hend⟩ := hp r hr
    exact ⟨hle, hfit, hbegin, hend⟩
  rw [memrangesUpdateTag, hmap]
  refine ⟨hmcan, fun a => (congrFun hden a).trans ?_⟩
  refine (lookup_map_tag (fun t => if t = oldTag then newTag else t) _ a).trans ?_
  change (ranges.denote a).map _ = _
  cases ranges.denote a with
  | none => simp
  | some t =>
    simp only [Option.map_some, Option.some.injEq]
    split_ifs <;> rfl

/-! ### Calls -/

/-- The last address of the interval that `do_action` hands on. -/
def lastOf (base size : ℕ) : ℕ :=
  let begin := Word.alignDown 64 base 4096
  let end_ := Word.add 64 (Word.add 64 begin size) (Word.sub 64 base begin)
  Word.sub 64 (Word.alignUp 64 end_ 4096) 1

lemma pageBegin_le (base : ℕ) : pageBegin base ≤ base := Nat.div_mul_le_self base 4096

lemma alignDown_eq_pageBegin {base : ℕ} (hbase : base < 2 ^ 64) :
    Word.alignDown 64 base 4096 = pageBegin base :=
  Word.alignDown_eq (k := 12) (by norm_num) hbase

lemma doAction_eq_lastOf {base : ℕ} (hbase : base < 2 ^ 64) (size : ℕ) (ranges : Memranges)
    (tag : ℕ) (action : Memranges → ℕ → ℕ → ℕ → Memranges) :
    doAction ranges base size tag action =
      action ranges (pageBegin base) (lastOf base size) tag := by
  rw [← alignDown_eq_pageBegin hbase]
  rfl

/-- The interval ends with the page range, also at the top of the address space. -/
lemma lastOf_eq {base size : ℕ} (hsize : 0 < size) (hfit : base + size ≤ 2 ^ 64) :
    lastOf base size = pageEnd base size - 1 := by
  have hle := pageBegin_le base
  have hsub : Word.sub 64 base (pageBegin base) = base - pageBegin base :=
    Word.sub_eq hle (by omega)
  have hpe : pageEnd base size = Word.roundUp (base + size) 12 := rfl
  have hsum : Word.add 64 (Word.add 64 (pageBegin base) size) (base - pageBegin base) =
      (base + size) % 2 ^ 64 := by
    rw [Word.add, Word.add, Nat.mod_add_mod,
      show pageBegin base + size + (base - pageBegin base) = base + size by omega]
  have hge : base + size ≤ Word.roundUp (base + size) 12 := Word.le_roundUp
  have hle64 : Word.roundUp (base + size) 12 ≤ 2 ^ 64 := Word.roundUp_le hfit (by norm_num)
  simp only [lastOf, alignDown_eq_pageBegin (show base < 2 ^ 64 by omega), hsub, hsum, hpe]
  rcases hfit.lt_or_eq with hlt | heq
  · rw [Nat.mod_eq_of_lt hlt]
    rcases hle64.lt_or_eq with hlt' | htop
    · rw [show 4096 = 2 ^ 12 from rfl, Word.alignUp_eq (by norm_num) hlt']
      exact Word.sub_eq (by omega) (by omega)
    · rw [show 4096 = 2 ^ 12 from rfl, Word.alignUp_eq_zero (by norm_num) hlt htop, htop]
      rfl
  · rw [heq]
    rfl

/-- `do_action` hands on the page range, also when it ends at the top of the address space. -/
lemma doAction_eq {base size : ℕ} (hsize : 0 < size) (hfit : base + size ≤ 2 ^ 64)
    (ranges : Memranges) (tag : ℕ) (action : Memranges → ℕ → ℕ → ℕ → Memranges) :
    doAction ranges base size tag action =
      action ranges (pageBegin base) (pageEnd base size - 1) tag := by
  rw [doAction_eq_lastOf (by omega), lastOf_eq hsize hfit]

lemma pageBegin_lt_pageEnd (base : ℕ) {size : ℕ} (hsize : 0 < size) :
    pageBegin base < pageEnd base size := by
  unfold pageBegin pageEnd
  omega

lemma pageEnd_le {base size : ℕ} (hfit : base + size ≤ 2 ^ 64) : pageEnd base size ≤ 2 ^ 64 := by
  unfold pageEnd
  omega

lemma dvd_pageBegin (base : ℕ) : 4096 ∣ pageBegin base := Dvd.intro_left _ rfl

lemma dvd_pageEnd (base size : ℕ) : 4096 ∣ pageEnd base size := Dvd.intro_left _ rfl

/-- One call keeps the list canonical and has the effect it is meant to have on the map. -/
lemma Call.exec_spec {c : Call} (hc : c.InBounds) {ranges : Memranges} (h : ranges.IsCanonical) :
    (Call.exec ranges c).IsCanonical ∧ (Call.exec ranges c).denote = c.effect ranges.denote := by
  cases c with
  | updateTag oldTag newTag =>
    obtain ⟨hcan, hden⟩ := memrangesUpdateTag_spec oldTag newTag h
    exact ⟨hcan, funext hden⟩
  | insert base size tag =>
    obtain ⟨hsize, hfit⟩ := hc
    have hlt := pageBegin_lt_pageEnd base hsize
    have hle := pageEnd_le hfit
    rw [Call.exec, memrangesInsert, doAction_eq hsize hfit]
    obtain ⟨hcan, hden⟩ := mergeAddMemranges_spec tag
      (show pageBegin base ≤ pageEnd base size - 1 by omega) (by omega) (dvd_pageBegin base)
      (by rw [Nat.sub_add_cancel (by omega)]; exact dvd_pageEnd base size) h
    refine ⟨hcan, funext fun a => (hden a).trans ?_⟩
    simp only [Call.effect]
    split_ifs <;> first | rfl | (exfalso; omega)
  | createHole base size =>
    obtain ⟨hsize, hfit⟩ := hc
    have hlt := pageBegin_lt_pageEnd base hsize
    have hle := pageEnd_le hfit
    rw [Call.exec, memrangesCreateHole, doAction_eq hsize hfit]
    obtain ⟨hcan, hden⟩ := removeMemranges_spec (2 ^ 32 - 1)
      (show pageBegin base ≤ pageEnd base size - 1 by omega) (by omega) (dvd_pageBegin base)
      (by rw [Nat.sub_add_cancel (by omega)]; exact dvd_pageEnd base size) h
    refine ⟨hcan, funext fun a => (hden a).trans ?_⟩
    simp only [Call.effect]
    split_ifs <;> first | rfl | (exfalso; omega)

/-- The list stays canonical over a whole run. -/
lemma run_isCanonical {calls : List Call} (h : ∀ c ∈ calls, c.InBounds) :
    (run calls).IsCanonical := by
  induction calls using List.reverseRecOn with
  | nil => exact (Memranges.isCanonical_iff _).mpr ⟨.nil, by simp [run]⟩
  | append_singleton calls c ih =>
    rw [run, List.foldl_append]
    exact (Call.exec_spec (h c (by simp)) (ih fun d hd => h d (by simp [hd]))).1

/-- Two canonical range lists that denote the same map are equal. -/
lemma Memranges.IsCanonical.ext {r s : Memranges} (hr : r.IsCanonical) (hs : s.IsCanonical)
    (h : r.denote = s.denote) : r = s := by
  cases r
  cases s
  congr
  exact Canonical.ext ((Memranges.isCanonical_iff _).mp hr).1
    ((Memranges.isCanonical_iff _).mp hs).1 h

/-- After every call of a run the list is canonical, the call has changed the denoted map
exactly as intended, and the list depends on nothing but that map. -/
theorem run_canonical_and_denotes (calls : List Call) (h : ∀ c ∈ calls, c.InBounds) :
    (run calls).IsCanonical ∧
      (∀ c : Call, c.InBounds →
        (run (calls ++ [c])).denote = c.effect (run calls).denote) ∧
      (run []).denote = (fun _ => none) ∧
      ∀ calls' : List Call, (∀ c ∈ calls', c.InBounds) →
        (run calls').denote = (run calls).denote → run calls' = run calls := by
  have hcan := run_isCanonical h
  refine ⟨hcan, fun c hc => ?_, rfl, fun calls' h' heq => (run_isCanonical h').ext hcan heq⟩
  rw [run, List.foldl_append]
  exact (Call.exec_spec hc hcan).2

theorem run_canonical_and_denotes_overwrite :
    (run [.insert 0 0x100000 1, .createHole 8191 2]).IsCanonical ∧
      (run ([.insert 0 0x100000 1, .createHole 8191 2] ++ [.updateTag 1 2])).denote =
        (Call.updateTag 1 2).effect (run [.insert 0 0x100000 1, .createHole 8191 2]).denote := by
  have h := run_canonical_and_denotes [.insert 0 0x100000 1, .createHole 8191 2] (by decide)
  exact ⟨h.1, h.2.1 (.updateTag 1 2) (by decide)⟩

end ApuBios.Memrange
