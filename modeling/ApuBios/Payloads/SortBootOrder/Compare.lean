import ApuBios.Payloads.SortBootOrder.Menu

/-!
# Comparing lines

`strcmp_printable_char` skips a position where one of the characters is not printable, also the one
where only one of the lines has ended, and goes on to the terminator of the first.
-/

namespace ApuBios.SortBootOrder

/-- A line that ends with a newline, or with the terminator alone. -/
structure Line where
  body : List Char8
  newline : Bool
  plain : ∀ c ∈ body, c ≠ NUL ∧ c ≠ NEWLINE
  fits : body.length < MAX_LENGTH

namespace Line

/-- The characters in front of the terminator. -/
def chars (l : Line) : List Char8 := l.body ++ if l.newline then [NEWLINE] else []

lemma length_chars_le (l : Line) : l.chars.length ≤ MAX_LENGTH := by
  have hfits := l.fits
  rw [chars, List.length_append]
  split_ifs
  · exact hfits
  · exact hfits.le

/-- The row that the line is in, filled with zeros. -/
def row (l : Line) : Row :=
  ⟨l.chars ++ List.replicate (MAX_LENGTH - l.chars.length) NUL, by
    rw [List.length_append, List.length_replicate]
    exact Nat.add_sub_cancel' l.length_chars_le⟩

end Line

/-- `c > 31`, for a signed character. -/
def isPrintable (c : Char8) : Bool := 31 < c.toInt

/-- The printable content before the end of the line. -/
def Line.content (l : Line) : List Char8 := l.body.filter isPrintable

/-- A line is compared with each of the defaults by its printable content, and the default that it
is named after is the first one with the same. -/
def Named (l : Line) (defs : List Line) : Prop :=
  (∀ d ∈ defs, ∃ res, strcmpPrintableChar l.row.1 d.row.1 = some res ∧
      (res = 0 ↔ l.content = d.content)) ∧
    findDef l.row.1 (defs.map Line.row) = some (defs.findIdx fun d => l.content = d.content)

/-- Different printable characters at one position. -/
def Clash (s t : List Char8) : Prop :=
  ∃ (i : ℕ) (a b : Char8), s[i]? = some a ∧ t[i]? = some b ∧
    a ≠ b ∧ isPrintable a = true ∧ isPrintable b = true

/-- A line that can be told from another one exactly if they are different. -/
structure Told (l d : Line) : Prop where
  same : l.content = d.content → ¬ Clash l.chars d.chars ∧ d.chars.length ≤ l.chars.length ∧
    l.chars.length < MAX_LENGTH
  other : l.content ≠ d.content → Clash l.chars d.chars ∨ l.chars.length < d.chars.length

variable {s t x y : List Char8} {a b : Char8} {m k : ℕ} {l d : Line}

/-! ### Clashes -/

lemma not_clash_nil_left : ¬ Clash [] t := by
  rintro ⟨i, a, b, ha, -⟩
  cases ha

lemma not_clash_nil_right : ¬ Clash s [] := by
  rintro ⟨i, a, b, -, hb, -⟩
  cases hb

lemma clash_cons : Clash (a :: s) (b :: t) ↔
    (a ≠ b ∧ isPrintable a = true ∧ isPrintable b = true) ∨ Clash s t := by
  constructor
  · rintro ⟨i, a', b', ha, hb, hclash⟩
    cases i with
    | zero =>
      obtain rfl := Option.some.inj ha
      obtain rfl := Option.some.inj hb
      exact .inl hclash
    | succ i => exact .inr ⟨i, a', b', ha, hb, hclash⟩
  · rintro (hclash | ⟨i, a', b', ha, hb, hclash⟩)
    · exact ⟨0, a, b, rfl, rfl, hclash⟩
    · exact ⟨i + 1, a', b', ha, hb, hclash⟩

/-! ### Comparing -/

lemma toInt_sub_eq_zero : a.toInt - b.toInt = 0 ↔ a = b := by
  rw [sub_eq_zero]
  exact BitVec.toInt_inj

/-- The step of the comparison. -/
lemma strcmpPrintableChar_cons (ha : a ≠ NUL) :
    strcmpPrintableChar (a :: s) (b :: t) =
      if a ≠ b ∧ isPrintable a = true ∧ isPrintable b = true then some (a.toInt - b.toInt)
      else strcmpPrintableChar s t := by
  rw [strcmpPrintableChar, if_neg ha]
  simp only [isPrintable, decide_eq_true_eq, ne_eq, toInt_sub_eq_zero]

/-- A clash is found. -/
lemma strcmpPrintableChar_clash (hs : NUL ∉ s) (h : Clash s t) :
    ∃ res, strcmpPrintableChar (s ++ x) (t ++ y) = some res ∧ res ≠ 0 := by
  induction s generalizing t with
  | nil => exact absurd h not_clash_nil_left
  | cons a s ih =>
    rw [List.mem_cons, not_or] at hs
    cases t with
    | nil => exact absurd h not_clash_nil_right
    | cons b t =>
      rw [List.cons_append, List.cons_append, strcmpPrintableChar_cons (Ne.symm hs.1)]
      split_ifs with hhead
      · exact ⟨_, rfl, fun hzero => hhead.1 (toInt_sub_eq_zero.mp hzero)⟩
      · exact ih hs.2 ((clash_cons.mp h).resolve_left hhead)

/-- Without one, the lines are equal up to the terminator of the first, if it has one. -/
lemma strcmpPrintableChar_match (hs : NUL ∉ s) (ht : NUL ∉ t) (h : ¬ Clash s t)
    (hlength : s.length + m = t.length + k) :
    (m = 0 → strcmpPrintableChar (s ++ List.replicate m NUL) (t ++ List.replicate k NUL) = none) ∧
      (0 < m → ∃ res,
        strcmpPrintableChar (s ++ List.replicate m NUL) (t ++ List.replicate k NUL) = some res ∧
          (res = 0 ↔ t.length ≤ s.length)) := by
  induction s generalizing t k with
  | nil =>
    refine ⟨fun hm => by rw [hm]; rfl, fun hm => ?_⟩
    obtain ⟨m, rfl⟩ : ∃ n, m = n + 1 := ⟨m - 1, by omega⟩
    rw [List.length_nil, Nat.zero_add] at hlength
    cases t with
    | nil =>
      rw [List.length_nil, Nat.zero_add] at hlength
      rw [← hlength]
      exact ⟨0, rfl, by simp⟩
    | cons b t =>
      rw [List.mem_cons, not_or] at ht
      exact ⟨NUL.toInt - b.toInt, rfl, by simpa [toInt_sub_eq_zero] using ht.1⟩
  | cons a s ih =>
    rw [List.mem_cons, not_or] at hs
    rw [List.length_cons] at hlength
    cases t with
    | nil =>
      rw [List.length_nil, Nat.zero_add] at hlength
      have hnul : ¬ (a ≠ NUL ∧ isPrintable a = true ∧ isPrintable NUL = true) :=
        fun hclash => absurd hclash.2.2 (by decide)
      have hk : k = (s.length + m) + 1 := by omega
      have hstep : strcmpPrintableChar (a :: s ++ List.replicate m NUL)
          ([] ++ List.replicate k NUL) = strcmpPrintableChar (s ++ List.replicate m NUL)
            ([] ++ List.replicate (s.length + m) NUL) := by
        rw [hk, List.nil_append, List.nil_append, List.replicate_succ, List.cons_append,
          strcmpPrintableChar_cons (Ne.symm hs.1), if_neg hnul]
      rw [hstep]
      have hrest := ih hs.2 ht not_clash_nil_right (Nat.zero_add _).symm
      simpa using hrest
    | cons b t =>
      rw [List.mem_cons, not_or] at ht
      rw [List.length_cons] at hlength
      rw [clash_cons, not_or] at h
      rw [List.cons_append, List.cons_append, strcmpPrintableChar_cons (Ne.symm hs.1), if_neg h.1,
        List.length_cons, List.length_cons, Nat.add_le_add_iff_right]
      exact ih hs.2 ht.2 h.2 (by omega)

lemma Line.nul_notMem (l : Line) : NUL ∉ l.chars := by
  rw [chars, List.mem_append, not_or]
  refine ⟨fun hmem => (l.plain NUL hmem).1 rfl, ?_⟩
  split_ifs
  · decide
  · exact List.not_mem_nil

/-- What a comparison of two lines returns. -/
lemma strcmp_lines (l d : Line) :
    (∃ res, strcmpPrintableChar l.row.1 d.row.1 = some res ∧
        (res = 0 ↔ l.content = d.content)) ↔ Told l d := by
  have hlength : l.chars.length + (MAX_LENGTH - l.chars.length) =
      d.chars.length + (MAX_LENGTH - d.chars.length) := by
    rw [Nat.add_sub_cancel' l.length_chars_le, Nat.add_sub_cancel' d.length_chars_le]
  have hle := d.length_chars_le
  by_cases hclash : Clash l.chars d.chars
  · obtain ⟨res, hres, hne⟩ := @strcmpPrintableChar_clash _ _
      (List.replicate (MAX_LENGTH - l.chars.length) NUL)
      (List.replicate (MAX_LENGTH - d.chars.length) NUL) l.nul_notMem hclash
    constructor
    · rintro ⟨res', hres', hiff⟩
      obtain rfl : res' = res := Option.some.inj (hres'.symm.trans hres)
      exact ⟨fun hsame => absurd (hiff.mpr hsame) hne, fun _ => .inl hclash⟩
    · intro h
      exact ⟨res, hres, iff_of_false hne fun hsame => (h.same hsame).1 hclash⟩
  · obtain ⟨hnone, hsome⟩ :=
      strcmpPrintableChar_match l.nul_notMem d.nul_notMem hclash hlength
    by_cases hfull : MAX_LENGTH - l.chars.length = 0
    · constructor
      · rintro ⟨res, hres, -⟩
        rw [Line.row, Line.row, hnone hfull] at hres
        cases hres
      · intro h
        by_cases hsame : l.content = d.content
        · have hlt := (h.same hsame).2.2
          omega
        · have hlt := (h.other hsame).resolve_left hclash
          omega
    · obtain ⟨res, hres, hzero⟩ := hsome (Nat.pos_of_ne_zero hfull)
      constructor
      · rintro ⟨res', hres', hiff⟩
        obtain rfl : res' = res := Option.some.inj (hres'.symm.trans hres)
        refine ⟨fun hsame => ⟨hclash, hzero.mp (hiff.mpr hsame), by omega⟩, fun hother => .inr ?_⟩
        by_contra hshort
        exact hother (hiff.mp (hzero.mpr (not_lt.mp hshort)))
      · intro h
        refine ⟨res, hres, fun h0 => ?_, fun hsame => hzero.mpr (h.same hsame).2.1⟩
        by_contra hother
        exact absurd (hzero.mp h0) (not_le.mpr ((h.other hother).resolve_left hclash))

/-! ### Names -/

/-- The default that a line is named after. -/
lemma findDef_told {defs : List Line} (h : ∀ d ∈ defs, Told l d) :
    findDef l.row.1 (defs.map Line.row) =
      some (defs.findIdx fun d => l.content = d.content) := by
  induction defs with
  | nil => rfl
  | cons d defs ih =>
    rw [List.forall_mem_cons] at h
    obtain ⟨res, hres, hiff⟩ := (strcmp_lines l d).mpr h.1
    rw [List.map_cons, findDef, hres, Option.bind_some, List.findIdx_cons]
    by_cases hsame : l.content = d.content
    · rw [if_pos (hiff.mpr hsame)]
      simp [hsame]
    · rw [if_neg fun h0 => hsame (hiff.mp h0), ih h.2]
      simp [hsame]

/-- A line is named after the defaults with its content exactly if it can be told from each default
that is different. -/
theorem named_iff (l : Line) (defs : List Line) : Named l defs ↔ ∀ d ∈ defs, Told l d := by
  constructor
  · rintro ⟨hcompare, -⟩ d hd
    exact (strcmp_lines l d).mp (hcompare d hd)
  · intro h
    exact ⟨fun d hd => (strcmp_lines l d).mpr (h d hd), findDef_told h⟩

/-- Of lines that differ in no position, the shorter one is a prefix. -/
lemma prefix_of_not_clash (hs : ∀ c ∈ s, isPrintable c = true) (ht : ∀ c ∈ t, isPrintable c = true)
    (h : ¬ Clash s t) (hle : t.length ≤ s.length) : t <+: s := by
  induction s generalizing t with
  | nil =>
    rw [List.length_nil, Nat.le_zero, List.length_eq_zero_iff] at hle
    rw [hle]
  | cons a s ih =>
    cases t with
    | nil => exact List.nil_prefix
    | cons b t =>
      rw [List.forall_mem_cons] at hs ht
      rw [clash_cons, not_or] at h
      have hab : a = b := by
        by_contra hne
        exact h.1 ⟨hne, hs.1, ht.1⟩
      rw [List.length_cons, List.length_cons, Nat.add_le_add_iff_right] at hle
      rw [hab, List.cons_prefix_cons]
      exact ⟨rfl, ih hs.2 ht.2 h.2 hle⟩

lemma not_clash_append (t x : List Char8) : ¬ Clash (t ++ x) t := by
  induction t with
  | nil => exact not_clash_nil_right
  | cons b t ih =>
    rw [List.cons_append, clash_cons, not_or]
    exact ⟨fun h => h.1 rfl, ih⟩

/-- Newlines do not clash. -/
lemma clash_concat : Clash (s ++ [NEWLINE]) (t ++ [NEWLINE]) ↔ Clash s t := by
  have hnl : isPrintable NEWLINE = false := by decide
  induction s generalizing t with
  | nil =>
    cases t <;> simp [clash_cons, hnl, not_clash_nil_left]
  | cons a s ih =>
    cases t with
    | nil => simp [clash_cons, hnl, not_clash_nil_right]
    | cons b t =>
      rw [List.cons_append, List.cons_append, clash_cons, clash_cons]
      exact or_congr Iff.rfl ih

/-- Lines of printable characters with newlines: a line is told from all but its proper prefixes. -/
theorem told_iff_of_printable (hl : ∀ c ∈ l.body, isPrintable c = true)
    (hd : ∀ c ∈ d.body, isPrintable c = true) (hlnl : l.newline = true) (hdnl : d.newline = true)
    (hroom : l.chars.length < MAX_LENGTH) :
    Told l d ↔ ¬ (d.body <+: l.body ∧ d.body ≠ l.body) := by
  have hlcontent : l.content = l.body := List.filter_eq_self.mpr hl
  have hdcontent : d.content = d.body := List.filter_eq_self.mpr hd
  have hlchars : l.chars = l.body ++ [NEWLINE] := by rw [Line.chars, hlnl, if_pos rfl]
  have hdchars : d.chars = d.body ++ [NEWLINE] := by rw [Line.chars, hdnl, if_pos rfl]
  constructor
  · rintro ⟨-, hother⟩ ⟨⟨x, hx⟩, hne⟩
    rw [hlcontent, hdcontent, hlchars, hdchars, clash_concat] at hother
    rcases hother (Ne.symm hne) with hclash | hlt
    · rw [← hx] at hclash
      exact not_clash_append _ _ hclash
    · rw [← hx] at hlt
      simp only [List.length_append] at hlt
      omega
  · intro hprefix
    refine ⟨?_, ?_⟩
    · rw [hlcontent, hdcontent, hlchars, hdchars, clash_concat]
      intro hsame
      rw [hlchars] at hroom
      rw [← hsame]
      refine ⟨?_, le_rfl, hroom⟩
      have hself := not_clash_append l.body []
      rwa [List.append_nil] at hself
    · rw [hlcontent, hdcontent, hlchars, hdchars, clash_concat]
      intro hother
      by_contra hnot
      obtain ⟨hclash, hlt⟩ := not_or.mp hnot
      simp only [List.length_append, List.length_singleton, not_lt, Nat.add_le_add_iff_right] at hlt
      exact hprefix ⟨prefix_of_not_clash hl hd hclash hlt, Ne.symm hother⟩

/-- A device, and one with a further digit. -/
def device : Line := ⟨[0x40, 0x31], true, by decide, by decide⟩

def deviceTen : Line := ⟨[0x40, 0x31, 0x30], true, by decide, by decide⟩

/-- A line is named after the default that it begins with. -/
theorem not_named_prefix : ¬ Named deviceTen [device, deviceTen] := by
  rintro ⟨-, hfind⟩
  have hfirst : findDef deviceTen.row.1 ([device, deviceTen].map Line.row) = some 0 := by decide
  rw [hfirst] at hfind
  exact absurd hfind (by decide)

end ApuBios.SortBootOrder
