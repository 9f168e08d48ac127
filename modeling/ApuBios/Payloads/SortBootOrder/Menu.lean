import ApuBios.Library.Transition
import ApuBios.Payloads.SortBootOrder.Flash

/-!
# Moving lines to the top

Letters permute the lines, and the identifiers stay those that are shown exactly if the characters
behind a line do not change what is shown for it.
-/

namespace ApuBios.SortBootOrder

open Transition

variable {f : Files} {l body dest s tail : List Char8} {lines : List (List Char8)}
  {buffer : Table} {id : ℕ → Char8} {m m' : Menu} {row row' temp_line : Row} {stack : ℕ → Char8}
  {key : Char8} {keys : List Char8} {i j n x : ℕ}

/-! ### Copying -/

lemma copyLine_eq (tail : List Char8) (hbody : NEWLINE ∉ body) (hdest : body.length + 2 ≤ dest.length) :
    ∃ r, copyLine (body ++ NEWLINE :: tail) dest = some r ∧ body ++ [NEWLINE, NUL] <+: r := by
  induction body generalizing dest with
  | nil =>
    obtain ⟨d, d', dest, rfl⟩ : ∃ d d' dest', dest = d :: d' :: dest' := by
      match dest, hdest with
      | d :: d' :: dest', _ => exact ⟨d, d', dest', rfl⟩
    exact ⟨NEWLINE :: NUL :: dest, rfl, dest, rfl⟩
  | cons c cs ih =>
    rw [List.mem_cons, not_or] at hbody
    obtain ⟨d, dest, rfl⟩ := List.exists_cons_of_length_pos (by omega : 0 < dest.length)
    rw [List.length_cons, List.length_cons] at hdest
    obtain ⟨r, hr, hstarts⟩ := ih hbody.2 (by omega : cs.length + 2 ≤ dest.length)
    refine ⟨c :: r, ?_, List.cons_prefix_cons.mpr ⟨rfl, hstarts⟩⟩
    rw [List.cons_append, copyLine, if_neg (Ne.symm hbody.1), hr]
    rfl

/-- A copied line has a terminator. -/
lemma copyListLine_eq (hl : IsLine l) (hrow : l <+: row.1) (row' : Row) :
    ∃ r, copyListLine row row' = some r ∧ l ++ [NUL] <+: r.1 := by
  obtain ⟨body, rfl, hbody, -, hlen⟩ := hl
  obtain ⟨tail, htail⟩ := hrow
  rw [List.length_append, List.length_singleton] at hlen
  obtain ⟨r, hr, hstarts⟩ := copyLine_eq tail hbody
    (by rw [row'.2]; omega : body.length + 2 ≤ row'.1.length)
  have hcopy : copyLine row.1 row'.1 = some r := by
    rw [← htail, List.append_assoc]
    exact hr
  refine ⟨⟨r, (copyLine_length hcopy).trans row'.2⟩, ?_, ?_⟩
  · unfold copyListLine
    split
    · rename_i hnone
      rw [hcopy] at hnone
      cases hnone
    · rename_i r' hr'
      simp only [Option.some.injEq, Subtype.mk.injEq]
      exact Option.some.inj (hr'.symm.trans hcopy)
  · rw [List.append_assoc]
    exact hstarts

/-- The rows below `x` are copied to the next ones. -/
lemma shuffle_eq (id : ℕ → Char8) (hlines : ∀ l ∈ lines, IsLine l) (hx : x ≤ lines.length)
    (hheld : ∀ i (h : i < lines.length), i < x → lines[i] <+: (buffer i).1) :
    ∃ t, shuffle x buffer id = some t ∧
      (∀ i (h : i < lines.length), i < x →
        lines[i] ++ [NUL] <+: (t.1 (i + 1)).1 ∧ t.2 (i + 1) = id i) ∧
      ∀ i, i = 0 ∨ x < i → t.1 i = buffer i ∧ t.2 i = id i := by
  induction x generalizing buffer id with
  | zero => exact ⟨_, rfl, fun i _ hi => absurd hi (Nat.not_lt_zero i), fun i _ => ⟨rfl, rfl⟩⟩
  | succ x ih =>
    obtain ⟨r, hr, hstarts⟩ := copyListLine_eq (hlines _ (List.getElem_mem hx))
      (hheld x hx (Nat.lt_succ_self x)) (buffer (x + 1))
    have hheld' : ∀ i (h : i < lines.length), i < x →
        lines[i] <+: (Function.update buffer (x + 1) r i).1 := fun i h hi => by
      rw [Function.update_of_ne (by omega)]
      exact hheld i h (by omega)
    obtain ⟨t, ht, hmoved, hkept⟩ := ih (Function.update id (x + 1) (id x)) (by omega) hheld'
    refine ⟨t, ?_, fun i h hi => ?_, fun i hi => ?_⟩
    · rw [shuffle, hr, Option.bind_some, ht]
    · rcases Nat.lt_succ_iff_lt_or_eq.mp hi with hlt | rfl
      · have := hmoved i h hlt
        rwa [Function.update_of_ne (by omega)] at this
      · have := hkept (i + 1) (Or.inr (Nat.lt_succ_self i))
        rw [Function.update_self, Function.update_self] at this
        rw [this.1, this.2]
        exact ⟨hstarts, rfl⟩
    · have := hkept i (by omega)
      rwa [Function.update_of_ne (by omega), Function.update_of_ne (by omega)] at this

/-! ### Moving -/

/-- The line is moved to the top. -/
def moveToTop {α : Type*} (line : ℕ) (lines : List α) : List α :=
  lines[line]?.toList ++ lines.eraseIdx line

lemma moveToTop_perm {α : Type*} {l : List α} (h : j < l.length) : (moveToTop j l).Perm l := by
  rw [moveToTop, List.getElem?_eq_getElem h]
  exact List.getElem_cons_eraseIdx_perm h

lemma moveToTop_zero {α : Type*} (l : List α) : moveToTop 0 l = l := by
  cases l <;> rfl

lemma moveToTop_getElem? {α : Type*} {l : List α} (h : j < l.length) (i : ℕ) :
    (moveToTop j l)[i]? = if i = 0 then l[j]? else if i ≤ j then l[i - 1]? else l[i]? := by
  rw [moveToTop, List.getElem?_eq_getElem h]
  cases i with
  | zero => rfl
  | succ i =>
    change (l.eraseIdx j)[i]? = _
    rw [List.getElem?_eraseIdx, if_neg (Nat.succ_ne_zero i), Nat.add_sub_cancel]
    rfl

lemma holds_iff : Holds buffer lines ↔ ∀ i l, lines[i]? = some l → l <+: (buffer i).1 := by
  constructor
  · rintro h i l hl
    obtain ⟨hi, rfl⟩ := List.getElem?_eq_some_iff.mp hl
    exact h i hi
  · exact fun h i hi => h i _ (List.getElem?_eq_getElem hi)

/-- A line that is not the first is moved: it and the ones above it are copied, those below are
kept. -/
lemma moveBootList_eq (temp_line : Row) (hlines : ∀ l ∈ lines, IsLine l)
    (hheld : Holds m.bootlist lines)
    (hj : j < lines.length) (hpos : 0 < j) :
    ∃ m', moveBootList temp_line m j = some m' ∧ m'.exited = m.exited ∧
      Holds m'.bootlist (moveToTop j lines) ∧
      (∀ i ≤ j, ∀ l, (moveToTop j lines)[i]? = some l → l ++ [NUL] <+: (m'.bootlist i).1) ∧
      (∀ i, j < i → m'.bootlist i = m.bootlist i ∧ m'.id i = m.id i) ∧
      m'.id 0 = m.id j ∧ ∀ i < j, m'.id (i + 1) = m.id i := by
  obtain ⟨temp, htemp, htop⟩ := copyListLine_eq (hlines _ (List.getElem_mem hj)) (hheld j hj)
    temp_line
  obtain ⟨t, ht, hmoved, hkept⟩ := shuffle_eq m.id hlines hj.le
    fun i h _ => hheld i h
  obtain ⟨row, hrow, hfirst⟩ := copyListLine_eq (hlines _ (List.getElem_mem hj))
    ((List.prefix_append _ _).trans htop) (t.1 0)
  have hcopied : ∀ i ≤ j, ∀ l, (moveToTop j lines)[i]? = some l →
      l ++ [NUL] <+: (Function.update t.1 0 row i).1 := by
    intro i hi l hl
    rw [moveToTop_getElem? hj] at hl
    cases i with
    | zero =>
      obtain rfl : lines[j] = l := by
        rw [if_pos rfl, List.getElem?_eq_getElem hj] at hl
        exact Option.some.inj hl
      rwa [Function.update_self]
    | succ i =>
      have hi' : i < lines.length := by omega
      obtain rfl : lines[i] = l := by
        rw [if_neg (Nat.succ_ne_zero i), if_pos hi, Nat.add_sub_cancel,
          List.getElem?_eq_getElem hi'] at hl
        exact Option.some.inj hl
      rw [Function.update_of_ne (Nat.succ_ne_zero i)]
      exact (hmoved i hi' hi).1
  have hrows : ∀ i, j < i → Function.update t.1 0 row i = m.bootlist i ∧
      Function.update t.2 0 (m.id j) i = m.id i := by
    intro i hi
    rw [Function.update_of_ne (by omega), Function.update_of_ne (by omega)]
    exact hkept i (Or.inr hi)
  refine ⟨{ m with
      bootlist := Function.update t.1 0 row
      id := Function.update t.2 0 (m.id j) }, ?_, rfl, ?_, hcopied, hrows,
    by dsimp only; rw [Function.update_self], fun i hi => ?_⟩
  · rw [moveBootList, if_neg (by omega), htemp, Option.bind_some, ht, Option.bind_some]
    dsimp only
    rw [hrow]
    rfl
  · refine holds_iff.mpr fun i l hl => ?_
    by_cases hi : i ≤ j
    · exact (List.prefix_append _ _).trans (hcopied i hi l hl)
    · rw [moveToTop_getElem? hj, if_neg (by omega), if_neg hi] at hl
      dsimp only
      rw [(hrows i (by omega)).1]
      exact holds_iff.mp hheld i l hl
  · dsimp only
    rw [Function.update_of_ne (Nat.succ_ne_zero i)]
    exact (hmoved i (by omega) hi).2

/-! ### Letters -/

/-- The letter that a character is, if it is one. -/
def asLetter (c : Char8) : Option Char8 := if isLower c then some c else none

/-- The letter that is shown for a line, if one is. -/
def shownLetter (f : Files) (line : List Char8) : Option (Option Char8) :=
  (shown f line).map asLetter

/-- The identifier of each line names the letter that is shown for it. -/
def InStep (f : Files) (m : Menu) : Prop :=
  ∀ i < f.max_lines, shownLetter f (m.bootlist i).1 = some (asLetter (m.id i))

/-- A line without a default is shown without a letter. -/
def Labelled (f : Files) (m : Menu) : Prop :=
  ∀ i < f.max_lines, findDef (m.bootlist i).1 f.defs = some f.bootlist_def_ln →
    f.bootlist_def_ln < MAX_DEVICES ∧ asLetter (f.bootlist_map f.bootlist_def_ln).first = none

/-- For each line that a key moves, the same letter is shown without the characters behind it. -/
def KeepsLetters (f : Files) (m : Menu) (key : Char8) : Prop :=
  0 < getLineNumber f m key → ∀ i ≤ getLineNumber f m key, ∀ l ∈ packLine (m.bootlist i).1,
    shownLetter f (l ++ [NUL]) = shownLetter f (m.bootlist i).1

/-- Nothing behind the terminator is compared. -/
lemma strcmpPrintableChar_terminated (l tail s : List Char8) :
    strcmpPrintableChar (l ++ NUL :: tail) s = strcmpPrintableChar (l ++ [NUL]) s := by
  induction l generalizing s with
  | nil => cases s <;> rfl
  | cons c cs ih =>
    cases s with
    | nil => rfl
    | cons d s => simp only [List.cons_append, strcmpPrintableChar, ih]

lemma findDef_terminated (l tail : List Char8) (ds : List Row) :
    findDef (l ++ NUL :: tail) ds = findDef (l ++ [NUL]) ds := by
  induction ds with
  | nil => rfl
  | cons d ds ih => rw [findDef, findDef, ih, strcmpPrintableChar_terminated]

lemma shownLetter_terminated (h : l ++ [NUL] <+: row.1) :
    shownLetter f row.1 = shownLetter f (l ++ [NUL]) := by
  obtain ⟨tail, htail⟩ := h
  rw [← htail, List.append_assoc, shownLetter, shownLetter, shown, shown, List.singleton_append,
    findDef_terminated]

lemma findDef_le {ds : List Row} {y : ℕ} (h : findDef l ds = some y) : y ≤ ds.length := by
  induction ds generalizing y with
  | nil => exact (Option.some.inj h).ge
  | cons d ds ih =>
    obtain ⟨r, -, hr⟩ := Option.bind_eq_some_iff.mp h
    split_ifs at hr with hzero
    · exact (Option.some.inj hr).ge.trans (Nat.zero_le _)
    · obtain ⟨y', hy', rfl⟩ := Option.map_eq_some_iff.mp hr
      exact Nat.succ_le_succ (ih hy')

lemma intIds_id (h : intIds f m = some m') {n : ℕ} (hn : n < f.max_lines) :
    ∃ y, findDef (m.bootlist n).1 f.defs = some y ∧
      m'.id n = if y < f.bootlist_def_ln then (f.bootlist_map y).first else m.id n := by
  have hpart : ∀ k id', (List.range k).foldlM (intId f m.bootlist) m.id = some id' →
      ∀ i, if i < k then ∃ y, findDef (m.bootlist i).1 f.defs = some y ∧
        id' i = if y < f.bootlist_def_ln then (f.bootlist_map y).first else m.id i
      else id' i = m.id i := by
    intro k
    induction k with
    | zero =>
      rintro id' hid i
      rw [if_neg (Nat.not_lt_zero i), ← Option.some.inj hid]
    | succ k ih =>
      intro id' hid i
      rw [List.range_succ, List.foldlM_append, Option.bind_eq_bind] at hid
      obtain ⟨id₁, hid₁, hlast⟩ := Option.bind_eq_some_iff.mp hid
      rw [List.foldlM_cons, Option.bind_eq_bind] at hlast
      obtain ⟨id₂, hid₂, heq⟩ := Option.bind_eq_some_iff.mp hlast
      obtain rfl := Option.some.inj heq
      obtain ⟨y, hy, rfl⟩ := Option.map_eq_some_iff.mp hid₂
      have hi := ih id₁ hid₁ i
      rcases lt_trichotomy i k with hlt | rfl | hgt
      · have hne : i ≠ k := hlt.ne
        rw [if_pos hlt] at hi
        rw [if_pos (by omega)]
        split_ifs with hy'
        · rwa [Function.update_of_ne hne]
        · exact hi
      · rw [if_neg (lt_irrefl i)] at hi
        rw [if_pos (Nat.lt_succ_self i)]
        refine ⟨y, hy, ?_⟩
        split_ifs with hy'
        · rw [Function.update_self]
        · exact hi
      · rw [if_neg (by omega)] at hi ⊢
        split_ifs
        · rwa [Function.update_of_ne hgt.ne']
        · exact hi
  obtain ⟨id', hid, rfl⟩ := Option.map_eq_some_iff.mp h
  have := hpart _ _ hid n
  rwa [if_pos hn] at this

lemma intIds_bootlist (h : intIds f m = some m') :
    m'.bootlist = m.bootlist ∧ m'.exited = m.exited := by
  obtain ⟨id', -, rfl⟩ := Option.map_eq_some_iff.mp h
  exact ⟨rfl, rfl⟩

/-- The identifiers are in step at first if every line without a default is shown without a
letter. -/
lemma intIds_inStep_iff (h : intIds f m = some m') (hid : m.id = fun _ => NUL) :
    InStep f m' ↔ Labelled f m := by
  refine forall₂_congr fun i hi => ?_
  obtain ⟨y, hy, hid'⟩ := intIds_id h hi
  have hle : y ≤ f.bootlist_def_ln := by
    have := findDef_le hy
    rwa [Files.defs, List.length_map, List.length_range] at this
  have hnul : asLetter NUL = none := rfl
  rw [(intIds_bootlist h).1, shownLetter, shown, hy, Option.bind_some, Option.some.injEq, hid', hid]
  by_cases hlt : y < f.bootlist_def_ln
  · have := f.bootlist_def_ln_le
    rw [if_pos hlt, if_pos (by omega)]
    exact iff_of_true rfl fun heq => absurd heq hlt.ne
  · obtain rfl : y = f.bootlist_def_ln := by omega
    rw [if_neg hlt, hnul]
    by_cases hmax : f.bootlist_def_ln < MAX_DEVICES
    · rw [if_pos hmax, Option.map_some, Option.some.injEq]
      exact ⟨fun h _ => ⟨hmax, h⟩, fun h => (h rfl).2⟩
    · rw [if_neg hmax]
      exact iff_of_false (by simp) fun h => hmax (h rfl).1

/-! ### Runs -/

lemma getLineNumber_lt (hmax : f.max_lines = lines.length) (hpos : 0 < getLineNumber f m key) :
    getLineNumber f m key < lines.length := by
  rw [getLineNumber] at hpos ⊢
  cases hfind : (List.range f.max_lines).find? fun i => m.id i == key with
  | none =>
    rw [hfind] at hpos
    exact absurd hpos (lt_irrefl 0)
  | some i =>
    rw [Option.getD_some, ← hmax]
    exact List.mem_range.mp (List.mem_of_find?_eq_some hfind)

lemma mainStep_lower (hkey : isLower key = true) (hrunning : m.exited = false) :
    mainStep f temp_line stack m key = moveBootList temp_line m (getLineNumber f m key) := by
  have hne : ∀ c : Char8, isLower c = false → key ≠ c := fun c hc h => by
    rw [h, hc] at hkey
    cases hkey
  rw [mainStep, hrunning, if_neg Bool.false_ne_true, if_neg (hne _ rfl), if_neg (hne _ rfl),
    if_neg (hne _ rfl), if_neg (hne _ rfl), if_neg (hne _ rfl), if_pos hkey]

/-- Moving keeps the identifiers in step exactly if it keeps the letters. -/
private lemma inStep_moved_iff (hlines : ∀ l ∈ lines, IsLine l) (hmax : f.max_lines = lines.length)
    (hheld : Holds m.bootlist lines) (hstep : InStep f m) (hj : j < lines.length)
    (hcopied : ∀ i ≤ j, ∀ l, (moveToTop j lines)[i]? = some l → l ++ [NUL] <+: (m'.bootlist i).1)
    (hkept : ∀ i, j < i → m'.bootlist i = m.bootlist i ∧ m'.id i = m.id i)
    (htop : m'.id 0 = m.id j) (hids : ∀ i < j, m'.id (i + 1) = m.id i) :
    InStep f m' ↔ ∀ i ≤ j, ∀ l ∈ packLine (m.bootlist i).1,
      shownLetter f (l ++ [NUL]) = shownLetter f (m.bootlist i).1 := by
  -- where the line `i` is shown afterwards, and with which identifier
  have hplace : ∀ i ≤ j, ∀ h : i < lines.length, ∃ k ≤ j, m'.id k = m.id i ∧
      shownLetter f (m'.bootlist k).1 = shownLetter f (lines[i] ++ [NUL]) := by
    intro i hi h
    rcases hi.lt_or_eq with hlt | rfl
    · refine ⟨i + 1, hlt, hids i hlt, shownLetter_terminated (hcopied _ hlt _ ?_)⟩
      rw [moveToTop_getElem? hj, if_neg (Nat.succ_ne_zero i), if_pos (Nat.succ_le_of_lt hlt),
        Nat.succ_sub_one, List.getElem?_eq_getElem h]
    · refine ⟨0, Nat.zero_le i, htop, shownLetter_terminated (hcopied 0 (Nat.zero_le i) _ ?_)⟩
      rw [moveToTop_getElem? hj, if_pos rfl, List.getElem?_eq_getElem h]
  constructor
  · intro hstep' i hi l hl
    have h : i < lines.length := by omega
    obtain rfl : lines[i] = l :=
      Option.some.inj ((packLine_eq (hlines _ (List.getElem_mem h)) (hheld i h)).symm.trans hl)
    obtain ⟨k, hk, hid, hshown⟩ := hplace i hi h
    rw [← hshown, hstep' k (by omega), hid, hstep i (by omega)]
  · intro hsame k hk
    by_cases hkj : k ≤ j
    · obtain ⟨i, hi, hid, hline⟩ : ∃ i ≤ j, m'.id k = m.id i ∧
          (moveToTop j lines)[k]? = lines[i]? := by
        rw [moveToTop_getElem? hj]
        cases k with
        | zero => exact ⟨j, le_rfl, htop, if_pos rfl⟩
        | succ k =>
          refine ⟨k, by omega, hids k hkj, ?_⟩
          rw [if_neg (Nat.succ_ne_zero k), if_pos hkj, Nat.add_sub_cancel]
      have h : i < lines.length := by omega
      rw [List.getElem?_eq_getElem h] at hline
      have hpack := packLine_eq (hlines _ (List.getElem_mem h)) (hheld i h)
      rw [hid, shownLetter_terminated (hcopied k hkj _ hline), hsame i hi _ hpack,
        hstep i (by omega)]
    · rw [(hkept k (by omega)).1, (hkept k (by omega)).2]
      exact hstep k hk

/-- What a letter does. -/
private lemma mainStep_eq (temp_line : Row) (stack : ℕ → Char8)
    (hlines : ∀ l ∈ lines, IsLine l) (hmax : f.max_lines = lines.length)
    (hheld : Holds m.bootlist lines) (hrunning : m.exited = false) (hkey : isLower key = true) :
    ∃ m', mainStep f temp_line stack m key = some m' ∧ m'.exited = false ∧
      Holds m'.bootlist (moveToTop (getLineNumber f m key) lines) ∧
      (InStep f m → (InStep f m' ↔ KeepsLetters f m key)) := by
  rw [mainStep_lower hkey hrunning, KeepsLetters]
  rcases Nat.eq_zero_or_pos (getLineNumber f m key) with hzero | hpos
  · rw [hzero, moveToTop_zero]
    exact ⟨m, rfl, hrunning, hheld, fun h => iff_of_true h fun h => absurd h (lt_irrefl 0)⟩
  · have hlt := getLineNumber_lt hmax hpos
    obtain ⟨m', hmove, hexit, hheld', hcopied, hkept, htop, hids⟩ :=
      moveBootList_eq temp_line hlines hheld hlt hpos
    refine ⟨m', hmove, hexit.trans hrunning, hheld', fun hstep => ?_⟩
    rw [inStep_moved_iff hlines hmax hheld hstep hlt hcopied hkept htop hids]
    exact ⟨fun h _ => h, fun h => h hpos⟩

/-- In every state that the keys lead to, the table holds a permutation of the lines, any next
letter moves its line to the top, and the identifiers are in step with the lines. -/
def KeepsBootOrder (f : Files) (temp_line : Row) (stack : ℕ → Char8) (lines : List (List Char8))
    (m : Menu) (keys : List Char8) : Prop :=
  ∀ p, p <+: keys → ∃ m₁ ∈ exec (mainStep f temp_line stack) m p, InStep f m₁ ∧
    ∃ lines₁, lines₁.Perm lines ∧ Holds m₁.bootlist lines₁ ∧
      ∀ key, isLower key = true → ∃ m₂ ∈ mainStep f temp_line stack m₁ key,
        Holds m₂.bootlist (moveToTop (getLineNumber f m₁ key) lines₁)

/-- The table holds a permutation of the lines. -/
private def Permuted (lines : List (List Char8)) (m : Menu) : Prop :=
  m.exited = false ∧ ∃ lines₁, lines₁.Perm lines ∧ Holds m.bootlist lines₁

private lemma mainStep_permuted (temp_line : Row) (stack : ℕ → Char8)
    (hlines : ∀ l ∈ lines, IsLine l)
    (hmax : f.max_lines = lines.length) (hm : Permuted lines m) (hkey : isLower key = true) :
    ∃ m', mainStep f temp_line stack m key = some m' ∧ Permuted lines m' ∧
      (InStep f m → (InStep f m' ↔ KeepsLetters f m key)) := by
  obtain ⟨hrunning, lines₁, hperm, hheld⟩ := hm
  have hmax₁ : f.max_lines = lines₁.length := hmax.trans hperm.length_eq.symm
  obtain ⟨m', hstep, hexit, hheld', hiff⟩ := mainStep_eq temp_line stack
    (fun l hl => hlines l (hperm.subset hl)) hmax₁ hheld hrunning hkey
  refine ⟨m', hstep, ⟨hexit, _, ?_, hheld'⟩, hiff⟩
  rcases Nat.eq_zero_or_pos (getLineNumber f m key) with hzero | hpos
  · rwa [hzero, moveToTop_zero]
  · exact (moveToTop_perm (getLineNumber_lt hmax₁ hpos)).trans hperm

private lemma keepsBootOrder_iff_of_ids {m₀ : Menu} (hlines : ∀ l ∈ lines, IsLine l)
    (hmax : f.max_lines = lines.length) (hheld : Holds m.bootlist lines)
    (hid : m.id = fun _ => NUL) (hrunning : m.exited = false) (hids : intIds f m = some m₀)
    (hkeys : ∀ key ∈ keys, isLower key = true) :
    KeepsBootOrder f temp_line stack lines m₀ keys ↔
      Labelled f m ∧ Meets (mainStep f temp_line stack) (KeepsLetters f) m₀ keys := by
  obtain ⟨hbootlist, hexit⟩ := intIds_bootlist hids
  have hm₀ : Permuted lines m₀ :=
    ⟨hexit.trans hrunning, lines, List.Perm.refl _, by rwa [hbootlist]⟩
  have hstep : ∀ m key m', Permuted lines m → isLower key = true →
      mainStep f temp_line stack m key = some m' → Permuted lines m' ∧
        (InStep f m → (InStep f m' ↔ KeepsLetters f m key)) := by
    intro m key m' hm hkey hsome
    obtain ⟨m'', hsome', hpermuted, hiff⟩ := mainStep_permuted temp_line stack hlines hmax hm hkey
    obtain rfl := Option.some.inj (hsome.symm.trans hsome')
    exact ⟨hpermuted, hiff⟩
  -- apart from the identifiers, letters keep the boot order
  have hrun : ∀ p, p <+: keys → ∃ m₁, exec (mainStep f temp_line stack) m₀ p = some m₁ ∧
      Permuted lines m₁ := fun p hp => exec_of_forall
    (fun m key hm hkey => by
      obtain ⟨m', h, hpermuted, -⟩ := mainStep_permuted temp_line stack hlines hmax hm hkey
      exact ⟨m', h, hpermuted⟩) hm₀ fun key hkey => hkeys key (hp.subset hkey)
  have hiff : KeepsBootOrder f temp_line stack lines m₀ keys ↔
      ∀ p, p <+: keys → ∀ m₁ ∈ exec (mainStep f temp_line stack) m₀ p, InStep f m₁ := by
    refine forall₂_congr fun p hp => ?_
    obtain ⟨m₁, hexec, hrunning₁, lines₁, hperm, hheld₁⟩ := hrun p hp
    simp only [hexec, Option.mem_def, Option.some.injEq, exists_eq_left', forall_eq']
    refine and_iff_left ⟨lines₁, hperm, hheld₁, fun key hkey => ?_⟩
    obtain ⟨m₂, hm₂, -, hheld₂, -⟩ := mainStep_eq temp_line stack
      (fun l hl => hlines l (hperm.subset hl)) (hmax.trans hperm.length_eq.symm) hheld₁ hrunning₁
      hkey
    exact ⟨m₂, hm₂, hheld₂⟩
  rw [hiff, ← intIds_inStep_iff hids hid]
  constructor
  · intro h
    have hin := h [] List.nil_prefix m₀ rfl
    exact ⟨hin, (prefix_iff_meets hstep hm₀ hin hkeys).mp h⟩
  · exact fun h => (prefix_iff_meets hstep hm₀ h.1 hkeys).mpr h.2

/-- Letters keep the boot order exactly if the lines can be compared with the defaults and are
labelled, and each letter finds lines for which the characters behind them do not matter. -/
theorem keepsBootOrder_iff (hlines : ∀ l ∈ lines, IsLine l) (hmax : f.max_lines = lines.length)
    (hheld : Holds m.bootlist lines) (hid : m.id = fun _ => NUL) (hrunning : m.exited = false)
    (hkeys : ∀ key ∈ keys, isLower key = true) :
    (∃ m₀ ∈ intIds f m, KeepsBootOrder f temp_line stack lines m₀ keys) ↔
      ∃ m₀ ∈ intIds f m, Labelled f m ∧
        Meets (mainStep f temp_line stack) (KeepsLetters f) m₀ keys :=
  exists_congr fun _ => and_congr_right fun hids =>
    keepsBootOrder_iff_of_ids hlines hmax hheld hid hrunning hids hkeys

instance : Decidable (Labelled f m) :=
  inferInstanceAs (Decidable (∀ i < f.max_lines, _ = _ → _ ∧ _))

instance : DecidablePred (KeepsLetters f m) := fun key =>
  inferInstanceAs (Decidable (0 < getLineNumber f m key → ∀ i ≤ _, ∀ l ∈ packLine _, _ = _))

/-! ### A character behind a line -/

/-- Three rows with lines, and empty ones. -/
def exampleTable (l₀ l₁ l₂ : List Char8) : Table
  | 0 => exampleRow l₀
  | 1 => exampleRow l₁
  | 2 => exampleRow l₂
  | _ => exampleRow []

/-- The devices `abc`, `ab` and `x` with the letters `c`, `b` and `x`. -/
def exampleFiles : Files where
  bootlist_def := exampleTable [0x61, 0x62, 0x63, 0x0a] [0x61, 0x62, 0x0a] [0x78, 0x0a]
  bootlist_def_ln := 3
  bootlist_map := exampleTable [0x63, 0x0a] [0x62, 0x0a] [0x78, 0x0a]
  max_lines := 2
  flash_address := 0x1000
  bootlist_def_ln_le := by decide
  max_lines_le := by decide

def exampleMenu (l₀ l₁ : List Char8) : Menu where
  bootlist := exampleTable l₀ l₁ []
  id := fun _ => NUL
  ipxe_toggle := 1
  serial_toggle := 1
  flash := fun _ => 0
  exited := false

theorem keepsBootOrder_iff_clean :
    ∃ m₀ ∈ intIds exampleFiles (exampleMenu [0x61, 0x62, 0x0a] [0x78, 0x0a]),
      KeepsBootOrder exampleFiles (exampleRow []) (fun _ => 0) [[0x61, 0x62, 0x0a], [0x78, 0x0a]] m₀
        [0x78, 0x62] := by
  have hline : ∀ l ∈ [[0x61, 0x62, 0x0a], [0x78, 0x0a]], IsLine l := by
    intro l hl
    rw [List.mem_pair] at hl
    rcases hl with rfl | rfl
    · exact ⟨[0x61, 0x62], rfl, by decide, by decide, by decide⟩
    · exact ⟨[0x78], rfl, by decide, by decide, by decide⟩
  refine (keepsBootOrder_iff hline rfl (fun i hi => ?_) rfl rfl (by decide)).mpr
    ⟨_, rfl, by decide +kernel, by decide +kernel⟩
  obtain rfl | rfl : i = 0 ∨ i = 1 := by
    change i < 2 at hi
    omega
  · exact exampleRow_prefix (hline _ List.mem_cons_self)
  · exact exampleRow_prefix (hline _ (List.mem_cons_of_mem _ List.mem_cons_self))

/-- With a character behind its newline, `ab` is taken for `abc` until it is copied. -/
theorem not_keepsBootOrder_of_tail :
    ¬∃ m₀ ∈ intIds exampleFiles (exampleMenu [0x61, 0x62, 0x0a, 0x6a] [0x78, 0x0a]),
      KeepsBootOrder exampleFiles (exampleRow []) (fun _ => 0) [[0x61, 0x62, 0x0a], [0x78, 0x0a]] m₀
        [0x78] := by
  rintro ⟨m₀, hm₀, hkeeps⟩
  obtain ⟨m₁, hm₁, hin, -⟩ := hkeeps [0x78] List.prefix_rfl
  have hshown : ((intIds exampleFiles (exampleMenu [0x61, 0x62, 0x0a, 0x6a] [0x78, 0x0a])).bind
      fun m₀ => (exec (mainStep exampleFiles (exampleRow []) fun _ => 0) m₀ [0x78]).map
        fun m₁ => decide (shownLetter exampleFiles (m₁.bootlist 1).1 =
          some (asLetter (m₁.id 1)))) = some false := by
    decide +kernel
  rw [Option.mem_def.mp hm₀, Option.bind_some, Option.mem_def.mp hm₁, Option.map_some,
    decide_eq_true (hin 1 (by decide))] at hshown
  cases hshown

end ApuBios.SortBootOrder
