import ApuBios.Libpayload.Video.Console

/-!
# The cells that are written

While the cursor is enabled it is brought back into the console after every call. A disabled cursor
leaves the console, and what is printed then is written where it is.
-/

namespace ApuBios.VideoConsole

variable {con : Console} {s t : Cursor} {op : Op} {x y : ℤ} {fuel ch : ℕ}

/-- A cell that the driver is asked to write lies in the console. -/
def Call.Inside (con : Console) : Call → Prop
  | .putc row col _ => row < con.rows ∧ col < con.columns
  | _ => True

instance (c : Call) : Decidable (c.Inside con) :=
  match c with
  | .putc _ _ _ => inferInstanceAs (Decidable (_ ∧ _))
  | .scrollUp | .clear | .setCursor _ _ | .enableCursor _ => .isTrue trivial

/-! ### Loops -/

lemma scrollLoop_calls {c : Call} (h : c ∈ (scrollLoop con fuel y).1) : c = .scrollUp := by
  induction fuel generalizing y with
  | zero => exact absurd h List.not_mem_nil
  | succ fuel ih =>
    rw [scrollLoop] at h
    split_ifs at h
    · exact (List.mem_cons.mp h).elim id ih
    · exact absurd h List.not_mem_nil

/-- Behind the loop the cursor is in a row of the console. -/
lemma scrollLoop_lt {y' : ℤ} (h : (scrollLoop con fuel y).2 = some y') :
    Word.ofInt 32 y' < con.rows := by
  induction fuel generalizing y with
  | zero => exact absurd h (by simp [scrollLoop])
  | succ fuel ih =>
    rw [scrollLoop] at h
    split_ifs at h with hrows
    · exact ih h
    · obtain rfl := Option.some.inj h
      exact Nat.lt_of_not_le hrows

lemma ofInt_pred (h : 0 < Word.ofInt 32 y) : Word.ofInt 32 (y - 1) = Word.ofInt 32 y - 1 := by
  rw [Word.ofInt] at h ⊢
  rw [Word.ofInt]
  omega

/-- In a console that has rows the loop ends. -/
lemma scrollLoop_returns (hrows : 0 < con.rows) (h : Word.ofInt 32 y < fuel) :
    (scrollLoop con fuel y).2.isSome := by
  induction fuel generalizing y with
  | zero => exact absurd h (Nat.not_lt_zero _)
  | succ fuel ih =>
    rw [scrollLoop]
    split_ifs with hle
    · refine ih ?_
      rw [Word.ofInt_toInt, ofInt_pred (by omega)]
      omega
    · rfl

/-- Behind the loop the cursor is at a tab stop or behind the line. -/
theorem tabLoop_done (h : -x % 8 < fuel) :
    (tabLoop con ch fuel x y).2.tmod 8 = 0 ∨ con.columns ≤ Word.ofInt 32 (tabLoop con ch fuel x y).2 := by
  induction fuel generalizing x with
  | zero => omega
  | succ fuel ih =>
    rw [tabLoop]
    split_ifs with hgoes
    · refine ih ?_
      have hmod : Word.toInt 32 (x + 1) % 8 = (x + 1) % 8 := by
        rw [Word.toInt, ← Int.emod_emod_of_dvd _ (show (8 : ℤ) ∣ (2 ^ 32 : ℕ) by norm_num),
          Int.bmod_emod, Int.emod_emod_of_dvd _ (by norm_num)]
      have hne : x % 8 ≠ 0 := fun hzero =>
        hgoes.1 (Int.tmod_eq_zero_of_dvd (Int.dvd_of_emod_eq_zero hzero))
      omega
    · rw [not_and_or, not_not, not_lt] at hgoes
      exact hgoes

/-- Truncation to a byte does not lead out of the console. -/
lemma ofInt_byte_le : Word.ofInt 8 x ≤ Word.ofInt 32 x := by
  rw [Word.ofInt, Word.ofInt]
  omega

lemma tabLoop_calls {c : Call} (h : c ∈ (tabLoop con ch fuel x y).1) :
    ∃ row col ch', c = .putc row col ch' ∧ row = Word.ofInt 8 y ∧ col < con.columns := by
  induction fuel generalizing x with
  | zero => exact absurd h List.not_mem_nil
  | succ fuel ih =>
    rw [tabLoop] at h
    split_ifs at h with hgoes
    · obtain rfl | hrest := List.mem_cons.mp h
      · exact ⟨_, _, _, rfl, rfl, ofInt_byte_le.trans_lt hgoes.2⟩
      · exact ih hrest
    · exact absurd h List.not_mem_nil

/-- A tab is written into the row of the cursor, and into columns of the console. -/
lemma tabLoop_inside :
    (∀ c ∈ (tabLoop con ch (fuel + 1) x y).1, c.Inside con) ↔
      (x.tmod 8 = 0 ∨ con.columns ≤ Word.ofInt 32 x ∨ Word.ofInt 8 y < con.rows) := by
  constructor
  · intro h
    rw [tabLoop] at h
    split_ifs at h with hgoes
    · have hfirst : Call.Inside con (.putc _ _ _) := h _ (List.mem_cons_self ..)
      exact .inr (.inr hfirst.1)
    · omega
  · rintro h c hc
    obtain ⟨row, col, ch', rfl, rfl, hcol⟩ := tabLoop_calls hc
    refine ⟨?_, hcol⟩
    by_contra hrow
    rw [tabLoop, if_neg (by omega)] at hc
    exact absurd hc List.not_mem_nil

/-! ### The cursor -/

/-- An enabled cursor is in a row of the console, and in a column if there are any. -/
def Fixed (con : Console) (s : Cursor) : Prop :=
  s.cursorEnabled ≠ 0 → Word.ofInt 32 s.cursory < con.rows ∧
    (0 < con.columns → Word.ofInt 32 s.cursorx < con.columns)

lemma setDriverCursor_inside {c : Call} (h : c ∈ setDriverCursor con x y) : c.Inside con := by
  rw [setDriverCursor] at h
  split_ifs at h
  · obtain rfl := List.mem_singleton.mp h
    trivial
  · exact absurd h List.not_mem_nil

lemma enableDriverCursor_inside {c : Call} {state : ℤ} (h : c ∈ enableDriverCursor con state) :
    c.Inside con := by
  rw [enableDriverCursor] at h
  split_ifs at h
  · obtain rfl := List.mem_singleton.mp h
    trivial
  · exact absurd h List.not_mem_nil

lemma wrapCursor_lt (h : 0 < con.columns) : Word.ofInt 32 (wrapCursor con x y).1 < con.columns := by
  rw [wrapCursor]
  by_cases hx : con.columns ≤ Word.ofInt 32 (if x < 0 then 0 else x)
  · rw [if_pos hx]
    exact h
  · rw [if_neg hx]
    exact Nat.lt_of_not_le hx

/-- No cell is written while the cursor is brought back, and it is in the console then. -/
lemma videoConsoleFixupCursor_spec :
    (∀ c ∈ (videoConsoleFixupCursor con s).1, c.Inside con) ∧
      ∀ t ∈ (videoConsoleFixupCursor con s).2, Fixed con t ∧ t.cursorEnabled = s.cursorEnabled := by
  rw [videoConsoleFixupCursor]
  split_ifs with hdisabled
  · refine ⟨fun c hc => absurd hc List.not_mem_nil, fun t ht => ?_⟩
    obtain rfl := Option.some.inj ht
    exact ⟨fun henabled => absurd hdisabled henabled, rfl⟩
  · have hscroll : ∀ c ∈ (scrollLoop con (2 ^ 32) (wrapCursor con s.cursorx s.cursory).2).1, c.Inside con := by
      intro c hc
      rw [scrollLoop_calls hc]
      trivial
    simp only
    cases hloop : (scrollLoop con (2 ^ 32) (wrapCursor con s.cursorx s.cursory).2).2 with
    | none => exact ⟨hscroll, fun t ht => absurd ht (Option.not_mem_none t)⟩
    | some y =>
      refine ⟨fun c hc => ?_, fun t ht => ?_⟩
      · exact (List.mem_append.mp hc).elim (hscroll c) setDriverCursor_inside
      · obtain rfl := Option.some.inj ht
        exact ⟨fun _ => ⟨scrollLoop_lt hloop, wrapCursor_lt⟩, rfl⟩

/-- In a console that has rows the cursor is brought back. -/
lemma videoConsoleFixupCursor_returns (h : 0 < con.rows) : (videoConsoleFixupCursor con s).2.isSome := by
  rw [videoConsoleFixupCursor]
  split_ifs
  · rfl
  · have hloop := scrollLoop_returns h
      (Word.ofInt_lt (w := 32) (i := (wrapCursor con s.cursorx s.cursory).2))
    obtain ⟨y, hy⟩ := Option.isSome_iff_exists.mp hloop
    simp only
    rw [hy]
    rfl

/-! ### The calls -/

lemma replaceBlack_and : replaceBlack ch &&& 0xFF = ch &&& 0xFF := by
  rw [replaceBlack]
  split_ifs
  · rw [Nat.and_or_distrib_right]
    exact Nat.or_zero _
  · rfl

/-- With rows in the console every function returns. -/
theorem step_isSome (h : 0 < con.rows) : (step con s op).isSome := by
  cases op with
  | putchar ch => exact videoConsoleFixupCursor_returns h
  | setCursor x y => exact videoConsoleFixupCursor_returns h
  | clear => rfl
  | cursorEnable state =>
    rw [step, perform, videoConsoleCursorEnable]
    split_ifs
    · exact videoConsoleFixupCursor_returns h
    · rfl

lemma step_fixed (hs : Fixed con s) (h : step con s op = some t) : Fixed con t := by
  cases op with
  | putchar ch => exact (videoConsoleFixupCursor_spec.2 t h).1
  | setCursor x y => exact (videoConsoleFixupCursor_spec.2 t h).1
  | clear =>
    obtain rfl := Option.some.inj h
    exact fun henabled => ⟨Nat.zero_lt_of_lt (hs henabled).1, id⟩
  | cursorEnable state =>
    rw [step, perform, videoConsoleCursorEnable] at h
    split_ifs at h with hstate
    · exact (videoConsoleFixupCursor_spec.2 t h).1
    · obtain rfl := Option.some.inj h
      exact fun henabled => absurd henabled hstate

lemma videoInit_fixed {report : Option (ℕ × ℕ × ℕ)} (h : s ∈ (videoInit con report).2) :
    Fixed con s := (videoConsoleFixupCursor_spec.2 s h).1

/-- Every cell that a function asks the driver to write lies in the console. -/
def WritesInside (con : Console) (s : Cursor) (op : Op) : Prop :=
  ∀ c ∈ (perform con op s).1, c.Inside con

instance : Decidable (WritesInside con s op) := inferInstanceAs (Decidable (∀ c ∈ _, _))

/-- A printed character finds the cursor enabled and a console with columns, or the cursor where it is
inside; a tab finds the cursor enabled, nothing to be filled, or the row inside. -/
def CursorFits (con : Console) (s : Cursor) : Op → Prop
  | .putchar ch =>
    match ch &&& 0xFF with
    | 0x0D | 0x0A | 0x08 => True
    | 0x09 => s.cursorEnabled ≠ 0 ∨ s.cursorx.tmod 8 = 0 ∨ con.columns ≤ Word.ofInt 32 s.cursorx ∨
        Word.ofInt 8 s.cursory < con.rows
    | _ => s.cursorEnabled ≠ 0 ∧ 0 < con.columns ∨
        Word.ofInt 8 s.cursory < con.rows ∧ Word.ofInt 8 s.cursorx < con.columns
  | _ => True

lemma putcharSwitch_inside (hs : Fixed con s) :
    (∀ c ∈ (putcharSwitch con (replaceBlack ch) s).1, c.Inside con) ↔ CursorFits con s (.putchar ch) := by
  rw [putcharSwitch, CursorFits, replaceBlack_and]
  generalize ch &&& 0xFF = key
  split
  · simp
  · simp
  · simp only
    split_ifs <;> simp
  · rw [tabLoop_inside]
    refine ⟨.inr, fun h => h.elim (fun henabled => ?_) id⟩
    exact .inr (.inr (ofInt_byte_le.trans_lt (hs henabled).1))
  · simp only [List.mem_singleton, forall_eq]
    refine ⟨.inr, fun h => h.elim (fun henabled => ?_) id⟩
    obtain ⟨hrow, hcol⟩ := hs henabled.1
    exact ⟨ofInt_byte_le.trans_lt hrow, ofInt_byte_le.trans_lt (hcol henabled.2)⟩

lemma writesInside_iff (hs : Fixed con s) : WritesInside con s op ↔ CursorFits con s op := by
  cases op with
  | putchar ch =>
    rw [← putcharSwitch_inside hs]
    refine ⟨fun h c hc => h c (List.mem_append_left _ hc), fun h c hc => ?_⟩
    exact (List.mem_append.mp hc).elim (h c) (videoConsoleFixupCursor_spec.1 c)
  | setCursor x y => exact iff_of_true videoConsoleFixupCursor_spec.1 trivial
  | clear =>
    refine iff_of_true (fun c hc => ?_) trivial
    obtain rfl | hrest := List.mem_cons.mp hc
    · trivial
    · exact setDriverCursor_inside hrest
  | cursorEnable state =>
    refine iff_of_true (fun c hc => ?_) trivial
    rw [perform, videoConsoleCursorEnable] at hc
    split_ifs at hc
    · exact (List.mem_append.mp hc).elim enableDriverCursor_inside (videoConsoleFixupCursor_spec.1 c)
    · exact enableDriverCursor_inside hc

/-! ### Runs -/

/-- What is printed moves the cursor only. -/
lemma putcharSwitch_moves (con : Console) (ch : ℕ) (s : Cursor) : ∃ x y, (putcharSwitch con ch s).2 = ⟨x, y, s.cursorEnabled⟩ := by
  rw [putcharSwitch]
  split
  · exact ⟨_, _, rfl⟩
  · exact ⟨_, _, rfl⟩
  · simp only
    split_ifs
    · exact ⟨_, _, rfl⟩
    · exact ⟨_, _, rfl⟩
  · exact ⟨_, _, rfl⟩
  · exact ⟨_, _, rfl⟩

/-- Only `video_console_cursor_enable` changes whether the cursor is enabled. -/
lemma step_cursorEnabled (h : step con s op = some t) (hs : s.cursorEnabled ≠ 0)
    (hop : ∀ state, op = .cursorEnable state → Word.ofInt 32 state ≠ 0) : t.cursorEnabled ≠ 0 := by
  cases op with
  | putchar ch =>
    have hfixup : t ∈ (videoConsoleFixupCursor con (putcharSwitch con (replaceBlack ch) s).2).2 := h
    obtain ⟨x, y, hmoves⟩ := putcharSwitch_moves con (replaceBlack ch) s
    rw [(videoConsoleFixupCursor_spec.2 t hfixup).2, hmoves]
    exact hs
  | setCursor x y =>
    have hfixup := (videoConsoleFixupCursor_spec.2 t h).2
    exact hfixup ▸ hs
  | clear =>
    obtain rfl := Option.some.inj h
    exact hs
  | cursorEnable state =>
    rw [step, perform, videoConsoleCursorEnable, if_pos (hop state rfl)] at h
    have hfixup := (videoConsoleFixupCursor_spec.2 t h).2
    rw [hfixup]
    exact hop state rfl

lemma cursorFits_of_enabled (hcolumns : 0 < con.columns) (hs : s.cursorEnabled ≠ 0) :
    CursorFits con s op := by
  cases op with
  | putchar ch =>
    rw [CursorFits]
    split
    · trivial
    · trivial
    · trivial
    · exact .inl hs
    · exact .inl ⟨hs, hcolumns⟩
  | setCursor x y => trivial
  | clear => trivial
  | cursorEnable state => trivial

/-- While nobody disables the cursor, all cells that are written lie in the console. -/
theorem writes_inside_of_enabled {ops : List Op} (hcolumns : 0 < con.columns) (hfixed : Fixed con s)
    (hs : s.cursorEnabled ≠ 0)
    (hops : ∀ op ∈ ops, ∀ state, op = .cursorEnable state → Word.ofInt 32 state ≠ 0) :
    Transition.Admits (step con) (WritesInside con) s ops := by
  refine Transition.admits_of_invariant (I := fun s => Fixed con s ∧ s.cursorEnabled ≠ 0) ?_ ?_
    ⟨hfixed, hs⟩ hops
  · exact fun s op t hI hop h => ⟨step_fixed hI.1 h, step_cursorEnabled h hI.2 hop⟩
  · exact fun s op hI _ => (writesInside_iff hI.1).mpr (cursorFits_of_enabled hcolumns hI.2)

/-- In a run after `video_init` every cell that is written lies in the console exactly if the cursor
fits whenever something is printed. -/
theorem writes_inside_iff (con : Console) (report : Option (ℕ × ℕ × ℕ)) (ops : List Op) :
    (∀ s ∈ (videoInit con report).2, Transition.Admits (step con) (WritesInside con) s ops) ↔
      ∀ s ∈ (videoInit con report).2, Transition.Admits (step con) (CursorFits con) s ops := by
  refine forall₂_congr fun s hs => ?_
  exact Transition.admits_congr_of_invariant (fun _ _ _ => step_fixed) (fun _ _ => writesInside_iff)
    (videoInit_fixed hs)

/-- With the cursor disabled the console does not scroll. -/
theorem row_behind_console :
    ¬∀ s ∈ (videoInit ⟨25, 80, true, true⟩ none).2,
      Transition.Admits (step ⟨25, 80, true, true⟩) (WritesInside ⟨25, 80, true, true⟩) s
        (.cursorEnable 0 :: List.replicate 25 (.putchar 10) ++ [.putchar 65]) := by
  intro h
  have hrun := h ⟨0, 0, 1⟩ (by decide +kernel)
  revert hrun
  decide +kernel

end ApuBios.VideoConsole
