import ApuBios.Library.DecisionTree

/-!
# Range coders

A range coder answers questions from a stream of bytes. It keeps a range and a code below it. For a
question the range is split into two parts, the part that the code lies in is the answer and becomes
the range, and a range that has got too small is scaled up with another byte of the stream.

Whatever a program asks, every path through it is the run for some stream (`exists_code`), from any
reader that gives the bytes of the stream (`run_of_reads`).
-/

namespace RangeCoder

open DecisionTree

variable {ε ι μ ρ α : Type}

/-- The parts of a range for the two answers to a question, and what is learned from an answer.
Ranges have `width + 8` bits and are scaled up below `2 ^ width`. -/
structure Coder (μ ι : Type) where
  width : ℕ
  no : μ → ι → ℕ → ℕ
  yes : μ → ι → ℕ → ℕ
  learn : μ → ι → Bool → μ

structure State (μ ρ : Type) where
  model : μ
  range : ℕ
  code : ℕ
  reader : ρ

variable (C : Coder μ ι) (read : ρ → Except ε (UInt8 × ρ))

def Coder.part (m : μ) (i : ι) (range : ℕ) (b : Bool) : ℕ :=
  if b then C.yes m i range else C.no m i range

def normalize (s : State μ ρ) : Except ε (State μ ρ) :=
  if s.range < 2 ^ C.width then do
    let (b, reader) ← read s.reader
    return { s with
      range := 2 ^ 8 * s.range
      code := (2 ^ 8 * s.code + b.toNat) % 2 ^ (C.width + 8)
      reader := reader }
  else .ok s

/-- The answer from a range that is large enough. -/
def split (s : State μ ρ) (i : ι) : Bool × State μ ρ :=
  let no := C.no s.model i s.range
  if s.code < no then (false, { s with model := C.learn s.model i false, range := no })
  else
    (true, { s with
      model := C.learn s.model i true, range := C.yes s.model i s.range, code := s.code - no })

def answer (s : State μ ρ) (i : ι) : Except ε (Bool × State μ ρ) := do
  let s ← normalize C read s
  return split C s i

/-- The reader of a list. -/
def readList (e : ε) : List UInt8 → Except ε (UInt8 × List UInt8)
  | [] => .error e
  | b :: bytes => .ok (b, bytes)

/-- Both parts of every range are large enough to be scaled up by one byte, for all questions in `I`
and as long as `M` holds of what has been learned. -/
structure Splits (M : μ → Prop) (I : ι → Prop) : Prop where
  width_le : 8 ≤ C.width
  le_part : ∀ {m i range} b, M m → I i → 2 ^ C.width ≤ range → range < 2 ^ (C.width + 8) →
    2 ^ (C.width - 8) ≤ C.part m i range b
  parts_le : ∀ {m i range}, M m → I i → 2 ^ C.width ≤ range → range < 2 ^ (C.width + 8) →
    C.no m i range + C.yes m i range ≤ range
  learn : ∀ {m i} b, M m → I i → M (C.learn m i b)

variable {C read}

/-- The range after it is scaled up. -/
def Coder.scaled (C : Coder μ ι) (range : ℕ) : ℕ :=
  if range < 2 ^ C.width then 2 ^ 8 * range else range

lemma scaled_bounds {range : ℕ} (hwidth : 8 ≤ C.width) (hle : 2 ^ (C.width - 8) ≤ range)
    (hlt : range < 2 ^ (C.width + 8)) :
    2 ^ C.width ≤ C.scaled range ∧ C.scaled range < 2 ^ (C.width + 8) := by
  have hpow : 2 ^ C.width = 2 ^ 8 * 2 ^ (C.width - 8) := by
    rw [← pow_add, Nat.add_sub_cancel' hwidth]
  rw [Coder.scaled]
  split_ifs with hsmall
  · constructor
    · rw [hpow]
      exact Nat.mul_le_mul_left _ hle
    · rw [pow_add, Nat.mul_comm]
      exact Nat.mul_lt_mul_of_pos_right hsmall (by decide)
  · exact ⟨not_lt.mp hsmall, hlt⟩

/-! ### What holds in every state -/

/-- The range of a coder, as it is between two questions. -/
structure Fits (M : μ → Prop) (C : Coder μ ι) (s : State μ ρ) : Prop where
  model : M s.model
  le_range : 2 ^ (C.width - 8) ≤ s.range
  range_lt : s.range < 2 ^ (C.width + 8)

lemma range_of_normalize {s s' : State μ ρ} (h : normalize C read s = .ok s') :
    s'.model = s.model ∧ s'.range = C.scaled s.range := by
  rw [normalize] at h
  split_ifs at h with hsmall
  · cases hread : read s.reader with
    | error e =>
      rw [hread] at h
      cases h
    | ok x =>
      rw [hread] at h
      cases h
      exact ⟨rfl, (if_pos hsmall).symm⟩
  · cases h
    exact ⟨rfl, (if_neg hsmall).symm⟩

/-- One byte makes the range large enough for the next question. -/
lemma Fits.scaled {M : μ → Prop} {I : ι → Prop} (hC : Splits C M I) {s s' : State μ ρ}
    (h : Fits M C s) (hs : normalize C read s = .ok s') :
    M s'.model ∧ 2 ^ C.width ≤ s'.range ∧ s'.range < 2 ^ (C.width + 8) := by
  obtain ⟨hmodel, hrange⟩ := range_of_normalize hs
  rw [hmodel, hrange]
  exact ⟨h.model, scaled_bounds hC.width_le h.le_range h.range_lt⟩

lemma split_part (s : State μ ρ) (i : ι) :
    (split C s i).2.model = C.learn s.model i (split C s i).1 ∧
    (split C s i).2.range = C.part s.model i s.range (split C s i).1 := by
  rw [split]
  split_ifs
  · exact ⟨rfl, rfl⟩
  · exact ⟨rfl, rfl⟩

lemma Splits.part_lt {M : μ → Prop} {I : ι → Prop} (hC : Splits C M I) {m : μ} {i : ι} {range : ℕ}
    (b : Bool) (hm : M m) (hi : I i) (hle : 2 ^ C.width ≤ range) (hlt : range < 2 ^ (C.width + 8)) :
    C.part m i range b < 2 ^ (C.width + 8) := by
  have hparts := hC.parts_le hm hi hle hlt
  refine lt_of_le_of_lt ?_ hlt
  rw [Coder.part]
  split_ifs <;> omega

/-- The parts fit again. -/
lemma Fits.split {M : μ → Prop} {I : ι → Prop} (hC : Splits C M I) {s : State μ ρ} {i : ι}
    (hm : M s.model) (hi : I i) (hle : 2 ^ C.width ≤ s.range) (hlt : s.range < 2 ^ (C.width + 8)) :
    Fits M C (split C s i).2 := by
  obtain ⟨hmodel, hrange⟩ := split_part (C := C) s i
  refine ⟨?_, ?_, ?_⟩
  · rw [hmodel]
    exact hC.learn _ hm hi
  · rw [hrange]
    exact hC.le_part _ hm hi hle hlt
  · rw [hrange]
    exact hC.part_lt _ hm hi hle hlt

section Keeps

variable {M : μ → Prop} {I : ι → Prop} {P : ρ → Prop} {F : ε → Prop} {s : State μ ρ}

/-- What reading a byte keeps is kept, and what errors there are come from the reader. -/
lemma normalize_keeps
    (hread : ∀ r, P r → (∀ b r', read r = .ok (b, r') → P r') ∧ ∀ e, read r = .error e → F e)
    (hs : P s.reader) :
    (∀ s', normalize C read s = .ok s' → P s'.reader) ∧ ∀ e, normalize C read s = .error e → F e := by
  rw [normalize]
  split_ifs with hsmall
  · obtain ⟨hok, herror⟩ := hread s.reader hs
    cases heq : read s.reader with
    | error e =>
      refine ⟨fun s' h => ?_, fun e' h => ?_⟩
      · cases h
      · cases h
        exact herror e heq
    | ok x =>
      refine ⟨fun s' h => ?_, fun e' h => ?_⟩
      · cases h
        exact hok x.1 x.2 heq
      · cases h
  · refine ⟨fun s' h => ?_, fun e h => ?_⟩
    · cases h
      exact hs
    · cases h

/-- An answer leaves a range that fits, and keeps what reading keeps. -/
lemma answer_keeps (hC : Splits C M I)
    (hread : ∀ r, P r → (∀ b r', read r = .ok (b, r') → P r') ∧ ∀ e, read r = .error e → F e)
    (hfits : Fits M C s) (hs : P s.reader) {i : ι} (hi : I i) :
    (∀ b s', answer C read s i = .ok (b, s') → Fits M C s' ∧ P s'.reader) ∧
      ∀ e, answer C read s i = .error e → F e := by
  obtain ⟨hok, herror⟩ := normalize_keeps hread hs
  rw [answer]
  cases heq : normalize C read s with
  | error e =>
    refine ⟨fun b s' h => ?_, fun e' h => ?_⟩
    · cases h
    · cases h
      exact herror e heq
  | ok s₁ =>
    refine ⟨fun b s' h => ?_, fun e h => ?_⟩
    · obtain ⟨hmodel, hle, hlt⟩ := hfits.scaled hC heq
      have hsplit : RangeCoder.split C s₁ i = (b, s') := Except.ok.inj h
      have hkept := Fits.split hC hmodel hi hle hlt
      have hreader : (RangeCoder.split C s₁ i).2.reader = s₁.reader := by
        rw [RangeCoder.split]
        split_ifs <;> rfl
      rw [hsplit] at hkept hreader
      refine ⟨hkept, ?_⟩
      rw [hreader]
      exact hok s₁ heq
    · cases h

end Keeps

/-! ### Readers of the same bytes -/

/-- The states of two coders whose readers are related. -/
structure Reads {ρ' : Type} (R : ρ → ρ' → Prop) (s : State μ ρ) (s' : State μ ρ') : Prop where
  model : s'.model = s.model
  range : s'.range = s.range
  code : s'.code = s.code
  reader : R s.reader s'.reader

section Reads

variable {ρ' : Type} {read' : ρ' → Except ε (UInt8 × ρ')} {R : ρ → ρ' → Prop}

lemma normalize_of_reads
    (hR : ∀ r r' b r₁, R r r' → read r = .ok (b, r₁) → ∃ r₁', read' r' = .ok (b, r₁') ∧ R r₁ r₁')
    {s s₁ : State μ ρ} {s' : State μ ρ'} (hs : Reads R s s') (h : normalize C read s = .ok s₁) :
    ∃ s₁', normalize C read' s' = .ok s₁' ∧ Reads R s₁ s₁' := by
  rw [normalize] at h
  rw [normalize, hs.range, hs.code]
  split_ifs at h ⊢ with hsmall
  · cases hread : read s.reader with
    | error e =>
      rw [hread] at h
      cases h
    | ok x =>
      obtain ⟨b, r₁⟩ := x
      rw [hread] at h
      cases h
      obtain ⟨r₁', hread', hr₁⟩ := hR _ _ _ _ hs.reader hread
      rw [hread']
      exact ⟨_, rfl, hs.model, rfl, rfl, hr₁⟩
  · cases h
    exact ⟨s', rfl, hs⟩

lemma split_of_reads {s : State μ ρ} {s' : State μ ρ'} (hs : Reads R s s') (i : ι) :
    (split C s' i).1 = (split C s i).1 ∧ Reads R (split C s i).2 (split C s' i).2 := by
  rw [split, split, hs.model, hs.range, hs.code]
  split_ifs
  · exact ⟨rfl, rfl, rfl, rfl, hs.reader⟩
  · exact ⟨rfl, rfl, rfl, rfl, hs.reader⟩

/-- What a program gives with one reader it gives with any other that reads the same, and by the same
answers. -/
lemma run_of_reads
    (hR : ∀ r r' b r₁, R r r' → read r = .ok (b, r₁) → ∃ r₁', read' r' = .ok (b, r₁') ∧ R r₁ r₁')
    {t : DecisionTree ε ι α} {a : α} {s s₁ : State μ ρ} {s' : State μ ρ'} (hs : Reads R s s')
    (h : run (answer C read) t s = .ok (a, s₁)) :
    (∃ s₁', run (answer C read') t s' = .ok (a, s₁') ∧ Reads R s₁ s₁') ∧
      trace (answer C read') t s' = trace (answer C read) t s := by
  refine run_of_simulates (R := Reads R) (fun s s' i b s₁ hs h => ?_) hs h
  rw [answer] at h
  cases hnormalize : normalize C read s with
  | error e =>
    rw [hnormalize] at h
    cases h
  | ok s₂ =>
    rw [hnormalize] at h
    obtain ⟨s₂', hnormalize', hs₂⟩ := normalize_of_reads hR hs hnormalize
    obtain ⟨hbit, hs₁⟩ := split_of_reads (C := C) hs₂ i
    have hsplit : split C s₂ i = (b, s₁) := Except.ok.inj h
    rw [hsplit] at hbit hs₁
    refine ⟨(split C s₂' i).2, ?_, hs₁⟩
    rw [answer, hnormalize']
    exact congrArg Except.ok (Prod.ext hbit rfl)

end Reads

/-! ### A stream for every path -/

/-- Any code in the scaled range is reached, with a byte of its own if there is one to be read. -/
lemma exists_normalize {e : ε} {m : μ} {range c : ℕ} (hlt : C.scaled range < 2 ^ (C.width + 8))
    (hc : c < C.scaled range) :
    ∃ c₀ < range, ∃ bytes : List UInt8, ∀ rest,
      normalize C (readList e) ⟨m, range, c₀, bytes ++ rest⟩ = .ok ⟨m, C.scaled range, c, rest⟩ := by
  rw [Coder.scaled] at hlt hc ⊢
  by_cases hsmall : range < 2 ^ C.width
  · rw [if_pos hsmall] at hlt hc ⊢
    refine ⟨c / 2 ^ 8, Nat.div_lt_of_lt_mul hc, [UInt8.ofNat (c % 2 ^ 8)], fun rest => ?_⟩
    have hbyte : (UInt8.ofNat (c % 2 ^ 8)).toNat = c % 2 ^ 8 := by
      rw [UInt8.toNat_ofNat', Nat.mod_mod]
    have hcode : (2 ^ 8 * (c / 2 ^ 8) + (UInt8.ofNat (c % 2 ^ 8)).toNat) % 2 ^ (C.width + 8) = c := by
      rw [hbyte, Nat.div_add_mod, Nat.mod_eq_of_lt (hc.trans hlt)]
    rw [normalize, if_pos hsmall]
    exact congrArg
      (fun code => Except.ok (⟨m, 2 ^ 8 * range, code, rest⟩ : State μ (List UInt8))) hcode
  · rw [if_neg hsmall] at hc ⊢
    exact ⟨c, hc, [], fun rest => if_neg hsmall⟩

/-- The code for an answer is in its part of the range. -/
lemma exists_split {m : μ} {i : ι} {range c : ℕ} {b : Bool}
    (hparts : C.no m i range + C.yes m i range ≤ range) (hc : c < C.part m i range b) :
    ∃ c₁ < range, ∀ rest : ρ, split C ⟨m, range, c₁, rest⟩ i =
      (b, ⟨C.learn m i b, C.part m i range b, c, rest⟩) := by
  cases b with
  | false =>
    have hlt : c < C.no m i range := hc
    refine ⟨c, by omega, fun rest => ?_⟩
    rw [split]
    exact if_pos hlt
  | true =>
    have hlt : c < C.yes m i range := hc
    refine ⟨C.no m i range + c, by omega, fun rest => ?_⟩
    have hge : ¬ C.no m i range + c < C.no m i range := by omega
    simp only [split, if_neg hge, Nat.add_sub_cancel_left]
    rfl

/-- For every path there is a stream that the coder follows it with. By induction on the path: from a
code for what follows, the code in front of the answer and the byte to be read are found. -/
theorem exists_code {e : ε} {M : μ → Prop} {I : ι → Prop} (h : Splits C M I)
    {t : DecisionTree ε ι α} {bs : List Bool} {a : α} (hends : Ends t bs (.ok a))
    {Q : α → Prop} {F : ε → Prop} (hasks : Sat I Q F t) {m : μ} (hm : M m) {range : ℕ}
    (hle : 2 ^ (C.width - 8) ≤ range) (hlt : range < 2 ^ (C.width + 8)) :
    ∃ c < range, ∃ bytes : List UInt8, ∀ rest,
      (∃ s, s.reader = rest ∧
        run (answer C (readList e)) t ⟨m, range, c, bytes ++ rest⟩ = .ok (a, s)) ∧
      trace (answer C (readList e)) t ⟨m, range, c, bytes ++ rest⟩ = bs := by
  generalize hres : (Except.ok a : Except ε α) = res at hends
  induction hends generalizing m range with
  | done a' =>
    cases hres
    have hpos : 0 < range := lt_of_lt_of_le (by positivity) hle
    exact ⟨0, hpos, [], fun rest => ⟨⟨⟨m, range, 0, rest⟩, rfl, rfl⟩, rfl⟩⟩
  | fail e => cases hres
  | @ask i next b bs r _ ih =>
    obtain ⟨hlarge, hsmall⟩ := scaled_bounds h.width_le hle hlt
    have hpart := h.le_part b hm hasks.1 hlarge hsmall
    have hparts := h.parts_le hm hasks.1 hlarge hsmall
    have hpartlt := h.part_lt b hm hasks.1 hlarge hsmall
    obtain ⟨c, hc, bytes, hrest⟩ := ih (hasks.2 b) (h.learn b hm hasks.1) hpart hpartlt hres
    obtain ⟨c₁, hc₁, hsplit⟩ := exists_split (ρ := List UInt8) hparts hc
    obtain ⟨c₀, hc₀, bytes₀, hnormalize⟩ := exists_normalize (e := e) (m := m) hsmall hc₁
    refine ⟨c₀, hc₀, bytes₀ ++ bytes, fun rest => ?_⟩
    obtain ⟨⟨s, hs, hrun⟩, htrace⟩ := hrest rest
    have hanswer : answer C (readList e) ⟨m, range, c₀, bytes₀ ++ bytes ++ rest⟩ i =
        .ok (b, ⟨C.learn m i b, C.part m i (C.scaled range) b, c, bytes ++ rest⟩) := by
      rw [List.append_assoc, answer, hnormalize]
      exact congrArg Except.ok (hsplit (bytes ++ rest))
    rw [run_ask_of_ok hanswer, trace_ask_of_ok hanswer, htrace]
    exact ⟨⟨s, hs, hrun⟩, rfl⟩

end RangeCoder
