import ApuBios.Library.CString
import ApuBios.Library.Tokens

/-!
# Tokens of a string

Model of `strspn`, `strcspn` and `strtok_r` in `libc/string.c`. A pointer is an index into the array of
the string, of which the terminator is the last byte; an access behind it has no result.
-/

namespace ApuBios.Libc

open Tokens

/-! ### Model -/

/-- The array of the string, and the pointer that the tokenizer keeps its state in. -/
structure Tokenizer where
  bytes : List UInt8
  ptr : ℕ
deriving DecidableEq

/-- The inner loop: the character is one of them. -/
def found (a : CString) (c : UInt8) : Bool := a.1.any (c == ·)

/-- The number of characters up to the terminator or up to one that stops the loop. -/
def scan (stop : UInt8 → Bool) : List UInt8 → Option ℕ
  | [] => none
  | c :: s => if c ≠ 0 ∧ stop c = false then (scan stop s).map (· + 1) else some 0

def strspn (bytes : List UInt8) (s : ℕ) (a : CString) : Option ℕ :=
  scan (fun c => ! found a c) (bytes.drop s)

def strcspn (bytes : List UInt8) (s : ℕ) (a : CString) : Option ℕ := scan (found a) (bytes.drop s)

/-- The result is a pointer, of which `none` is `NULL`. -/
def strtokR (str : Option ℕ) (delim : CString) (t : Tokenizer) : Option (Option ℕ × Tokenizer) := do
  let str := str.getD t.ptr
  let start := str + (← strspn t.bytes str delim)
  let last := start + (← strcspn t.bytes start delim)
  if last < t.bytes.length then
    return (some start, { bytes := t.bytes.set last 0, ptr := last + 1 })
  else none

/-- The call with this index: the first one is with `str`, all others with `NULL`. -/
def nthCall (delim : CString) (str : Option ℕ) (t : Tokenizer) : ℕ → Option (Option ℕ × Tokenizer)
  | 0 => strtokR str delim t
  | k + 1 => (strtokR str delim t).bind fun r => nthCall delim none r.2 k

/-- The string in memory. What the pointer is before the first call does not matter. -/
def tokenizer (s : CString) (ptr : ℕ) : Tokenizer := { bytes := s.1 ++ [0], ptr := ptr }

/-! ### What is to hold -/

/-- The string that a pointer points to. -/
def stringAt (bytes : List UInt8) (p : ℕ) : List UInt8 := (bytes.drop p).takeWhile (· ≠ 0)

/-- The calls return the tokens one by one. -/
def ReturnsTokens (delim : CString) (str : Option ℕ) (t : Tokenizer) (ws : List (List UInt8)) : Prop :=
  ∀ k (h : k < ws.length), ∃ p t', nthCall delim str t k = some (some p, t') ∧
    stringAt t'.bytes p = ws[k]

/-- The calls return the tokens and then `NULL`, and all of them stay inside of the string. -/
def Tokenizes (delim s : CString) (ptr : ℕ) : Prop :=
  ReturnsTokens delim (some 0) (tokenizer s ptr) (tokens (found delim) s.1) ∧
    ∃ t', nthCall delim (some 0) (tokenizer s ptr) (tokens (found delim) s.1).length = some (none, t')

variable {delim : CString} {t : Tokenizer} {ds w l tl : List UInt8} {ws : List (List UInt8)}
  {stop : UInt8 → Bool} {c : UInt8} {p k : ℕ}

/-! ### One call -/

lemma found_ne_zero (h : found delim c = true) : c ≠ 0 := by
  rintro rfl
  obtain ⟨b, hb, heq⟩ := List.any_eq_true.mp h
  rw [beq_iff_eq] at heq
  exact delim.2 (heq ▸ hb)

lemma scan_eq (hds : ∀ d ∈ ds, d ≠ 0 ∧ stop d = false) (hc : c = 0 ∨ stop c = true) :
    scan stop (ds ++ c :: tl) = some ds.length := by
  induction ds with
  | nil =>
    rw [List.nil_append, scan, if_neg]
    · rfl
    · rintro ⟨hne, hstop⟩
      rcases hc with hc | hc
      · exact hne hc
      · rw [hstop] at hc
        cases hc
  | cons d ds ih =>
    rw [List.forall_mem_cons] at hds
    rw [List.cons_append, scan, if_pos hds.1, ih hds.2]
    rfl

lemma token_chars (hzero : 0 ∉ w) (hw : ∀ d ∈ w, found delim d = false) :
    ∀ d ∈ w, d ≠ 0 ∧ found delim d = false := by
  intro d hd
  refine ⟨?_, hw d hd⟩
  rintro rfl
  exact hzero hd

/-- Delimiters are skipped, and the end of the token is overwritten. -/
lemma strtokR_eq (hbytes : t.bytes.drop t.ptr = ds ++ (w ++ c :: tl)) (hds : ∀ d ∈ ds, found delim d)
    (hw : ∀ d ∈ w, d ≠ 0 ∧ found delim d = false) (hc : c = 0 ∨ found delim c = true)
    (hempty : w = [] → c = 0) :
    ∃ t', strtokR none delim t = some (some (t.ptr + ds.length), t') ∧
      t'.bytes.drop (t.ptr + ds.length) = w ++ 0 :: tl ∧ t'.bytes.drop t'.ptr = tl := by
  have hstart : t.bytes.drop (t.ptr + ds.length) = w ++ c :: tl := by
    rw [← List.drop_drop, hbytes, List.drop_left]
  have hlast : t.bytes.drop (t.ptr + ds.length + w.length) = c :: tl := by
    rw [← List.drop_drop, hstart, List.drop_left]
  have hspn : strspn t.bytes t.ptr delim = some ds.length := by
    have hds' : ∀ d ∈ ds, d ≠ 0 ∧ (! found delim d) = false := fun d hd =>
      ⟨found_ne_zero (hds d hd), by rw [hds d hd]; rfl⟩
    rw [strspn, hbytes]
    cases w with
    | nil => exact scan_eq hds' (Or.inl (hempty rfl))
    | cons b w =>
      refine scan_eq hds' (Or.inr ?_)
      rw [(hw b List.mem_cons_self).2]
      rfl
  have hcspn : strcspn t.bytes (t.ptr + ds.length) delim = some w.length := by
    rw [strcspn, hstart]
    exact scan_eq hw hc
  have hlt : t.ptr + ds.length + w.length < t.bytes.length := by
    have := congrArg List.length hlast
    rw [List.length_drop, List.length_cons] at this
    omega
  refine ⟨⟨t.bytes.set (t.ptr + ds.length + w.length) 0, t.ptr + ds.length + w.length + 1⟩, ?_, ?_, ?_⟩
  · simp [strtokR, hspn, hcspn, hlt]
  · rw [List.drop_set, if_neg (by omega), hstart, Nat.add_sub_cancel_left,
      List.set_append_right _ _ le_rfl, Nat.sub_self, List.set_cons_zero]
  · rw [List.drop_set_of_lt (Nat.lt_add_one _), ← List.drop_drop, hlast, List.drop_one,
      List.tail_cons]

/-- Behind the terminator there is nothing to read. -/
lemma strtokR_eq_none (hbytes : t.bytes.drop t.ptr = []) : strtokR none delim t = none := by
  simp [strtokR, strspn, hbytes, scan]

lemma stringAt_eq (hw : 0 ∉ w) (h : t.bytes.drop p = w ++ 0 :: tl) : stringAt t.bytes p = w := by
  have hall : ∀ c ∈ w, decide (c ≠ 0) = true := fun c hc =>
    decide_eq_true fun hzero => hw (hzero ▸ hc)
  rw [stringAt, h, List.takeWhile_append_of_pos hall, List.takeWhile_cons_of_neg (by simp),
    List.append_nil]

/-! ### All calls -/

/-- After the tokens the pointer is at the terminator or behind it. -/
structure Ends (delim : CString) (t : Tokenizer) (n : ℕ) : Prop where
  notNull : ∀ t', nthCall delim none t n ≠ some (none, t')
  beyond : nthCall delim none t (n + 1) = none

lemma nthCall_succ {r : Option ℕ × Tokenizer} (h : strtokR none delim t = some r) :
    nthCall delim none t (k + 1) = nthCall delim none r.2 k := by
  rw [nthCall, h, Option.bind_some]

lemma nthCall_eq_none (hbytes : t.bytes.drop t.ptr = []) : nthCall delim none t k = none := by
  cases k with
  | zero => exact strtokR_eq_none hbytes
  | succ k => rw [nthCall, strtokR_eq_none hbytes, Option.bind_none]

/-- What a call has returned goes before what the others return. -/
lemma returnsTokens_cons {t' : Tokenizer} (h : strtokR none delim t = some (some p, t'))
    (hp : stringAt t'.bytes p = w) (hws : ReturnsTokens delim none t' ws) :
    ReturnsTokens delim none t (w :: ws) := by
  intro k hk
  cases k with
  | zero => exact ⟨p, t', h, hp⟩
  | succ k =>
    rw [nthCall_succ h]
    exact hws k (Nat.lt_of_succ_lt_succ hk)

/-- By induction on the tokens: each call leaves what is behind the separator it has overwritten. -/
lemma calls_eq (h : Splits (found delim) l ws) (hl : 0 ∉ l) (hbytes : t.bytes.drop t.ptr = l ++ [0]) :
    ReturnsTokens delim none t ws ∧ Ends delim t ws.length := by
  induction h generalizing t with
  | none ds hds =>
    obtain ⟨t', hcall, -, hrest⟩ := strtokR_eq (w := []) hbytes hds (by simp) (Or.inl rfl) fun _ => rfl
    refine ⟨fun k hk => absurd hk (Nat.not_lt_zero k), fun t'' heq => ?_, ?_⟩
    · rw [List.length_nil, nthCall, hcall] at heq
      cases heq
    · rw [nthCall_succ hcall, nthCall_eq_none hrest]
  | last ds w hds hne hw =>
    have hzero : 0 ∉ w := fun hmem => hl (List.mem_append_right _ hmem)
    rw [List.append_assoc] at hbytes
    obtain ⟨t', hcall, htoken, hrest⟩ := strtokR_eq hbytes hds (token_chars hzero hw)
      (Or.inl rfl) fun h => absurd h hne
    refine ⟨returnsTokens_cons hcall (stringAt_eq hzero htoken) fun k hk =>
      absurd hk (Nat.not_lt_zero k), fun t'' heq => ?_, ?_⟩
    · rw [List.length_singleton, nthCall_succ hcall, nthCall_eq_none hrest] at heq
      cases heq
    · rw [nthCall_succ hcall, nthCall_eq_none hrest]
  | cons ds w d l ws hds hne hw hd _ ih =>
    have hzero : 0 ∉ w := fun hmem => hl (List.mem_append_right _ (List.mem_append_left _ hmem))
    have hzero' : 0 ∉ l := fun hmem =>
      hl (List.mem_append_right _ (List.mem_append_right _ (List.mem_cons_of_mem _ hmem)))
    rw [List.append_assoc, List.append_assoc, List.cons_append] at hbytes
    obtain ⟨t', hcall, htoken, hrest⟩ := strtokR_eq hbytes hds (token_chars hzero hw)
      (Or.inr hd) fun h => absurd h hne
    obtain ⟨hws, hend⟩ := ih hzero' hrest
    refine ⟨returnsTokens_cons hcall (stringAt_eq hzero htoken) hws, fun t'' heq => ?_, ?_⟩
    · rw [List.length_cons, nthCall_succ hcall] at heq
      exact hend.notNull t'' heq
    · rw [List.length_cons, nthCall_succ hcall]
      exact hend.beyond

/-- Giving the string is the same as starting at its front. -/
lemma nthCall_tokenizer (delim s : CString) (p k : ℕ) :
    nthCall delim (some 0) (tokenizer s p) k = nthCall delim none (tokenizer s 0) k := by
  cases k <;> rfl

/-- The tokens are returned, but no call returns `NULL`: the next one returns an empty string or is
beyond the terminator, and the one after that is always beyond it. -/
theorem not_tokenizes (delim s : CString) (ptr : ℕ) :
    ReturnsTokens delim (some 0) (tokenizer s ptr) (tokens (found delim) s.1) ∧
      ¬ Tokenizes delim s ptr ∧
      nthCall delim (some 0) (tokenizer s ptr) ((tokens (found delim) s.1).length + 1) = none := by
  obtain ⟨htokens, hend⟩ := calls_eq (t := tokenizer s 0) (splits_tokens (found delim) s.1) s.2 rfl
  refine ⟨fun k hk => ?_, fun h => ?_, ?_⟩
  · rw [nthCall_tokenizer]
    exact htokens k hk
  · obtain ⟨-, t', hnull⟩ := h
    rw [nthCall_tokenizer] at hnull
    exact hend.notNull t' hnull
  · rw [nthCall_tokenizer]
    exact hend.beyond

/-- One token up to the terminator. The second call is with the pointer behind it. -/
theorem not_tokenizes_single :
    ¬ Tokenizes (CString.ofString " ") (CString.ofString "a") 0 := by
  rintro ⟨-, t', hnull⟩
  have hbeyond : nthCall (CString.ofString " ") (some 0) (tokenizer (CString.ofString "a") 0)
      (tokens (found (CString.ofString " ")) (CString.ofString "a").1).length = none := by
    decide +kernel
  rw [hbeyond] at hnull
  cases hnull

end ApuBios.Libc
