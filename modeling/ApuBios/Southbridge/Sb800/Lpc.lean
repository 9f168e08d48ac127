import ApuBios.Device.Allocator.Basic

/-!
# Ports behind the LPC bridge

Model of `lpc_enable_childrens_resources` in `southbridge/amd/cimx/sb800/lpc.c`. Standard port
ranges have a decode bit each; a port at any other base takes the next of three wide ranges, of
which the bases are recorded in an array that is not initialised.
-/

namespace ApuBios.Sb800

open Allocator

/-- The part of a child that is looked at. -/
structure Child where
  enabled : Bool
  /-- whether `path.type` is `DEVICE_PATH_PNP` -/
  isPnp : Bool
  resourceList : List Resource

/-- The decode registers, at 0x44 and 0x48. -/
inductive Register where
  | reg
  | reg_x
  deriving DecidableEq, Repr

/-- The bases of the standard ranges, with their decode bits. -/
def standardRanges : List (BitVec 32 × Register × ℕ) :=
  [(0x60, .reg, 29), (0x64, .reg, 29), (0x3f8, .reg, 6), (0x2f8, .reg, 7), (0x378, .reg, 0),
    (0x3f0, .reg, 26), (0x220, .reg, 8), (0x300, .reg, 18), (0x400, .reg_x, 16),
    (0x480, .reg_x, 17), (0x500, .reg_x, 18), (0x580, .reg_x, 19), (0x4700, .reg_x, 22),
    (0xfd60, .reg_x, 23)]

def standardBit (base : BitVec 32) : Option (Register × ℕ) := standardRanges.lookup base

/-- The enable bit of a wide range, in the register at 0x48. -/
def wideBit : ℕ → ℕ
  | 0 => 2
  | 1 => 24
  | _ => 25

/-- The variables of the loops; `none` is what has not been stored to. -/
structure Decode where
  reg : BitVec 32
  reg_x : BitVec 32
  var_num : ℕ
  reg_var : ℕ → Option (BitVec 16)

def Decode.get (s : Decode) : Register → BitVec 32
  | .reg => s.reg
  | .reg_x => s.reg_x

def Decode.setBit (s : Decode) (r : Register) (bit : ℕ) : Decode :=
  match r with
  | .reg => { s with reg := s.reg ||| 1#32 <<< bit }
  | .reg_x => { s with reg_x := s.reg_x ||| 1#32 <<< bit }

/-- `base = res->base` -/
def portBase (res : Resource) : BitVec 32 := BitVec.ofNat 32 res.base

/-- The body of the loop over the resources. -/
def decodeResource (s : Decode) (res : Resource) : Decode :=
  if !res.has IORESOURCE_IO then s
  else
    match standardBit (portBase res) with
    | some (r, bit) => s.setBit r bit
    | none =>
      if 3 ≤ s.var_num then s
      else
        let s := s.setBit .reg_x (wideBit s.var_num)
        { s with
          reg_var := Function.update s.reg_var s.var_num (some ((portBase res).truncate 16))
          var_num := s.var_num + 1 }

def decodeChild (s : Decode) (child : Child) : Decode :=
  if child.enabled && child.isPnp then child.resourceList.foldl decodeResource s else s

/-- What is written: the decode registers, and 16-bit registers with their values. -/
structure Written where
  reg : BitVec 32
  reg_x : BitVec 32
  wide : List (ℕ × Option (BitVec 16))

def Written.get (w : Written) : Register → BitVec 32
  | .reg => w.reg
  | .reg_x => w.reg_x

/-- The fall-through switch at the end. -/
def wideWrites (s : Decode) : List (ℕ × Option (BitVec 16)) :=
  match s.var_num with
  | 2 => [(0x90, s.reg_var 2), (0x66, s.reg_var 1)]
  | 1 => [(0x66, s.reg_var 1)]
  | _ => []

/-- `reg` and `reg_x` are what is read from the bridge. -/
def lpcEnableChildrensResources (reg reg_x : BitVec 32) (links : List (List Child)) : Written :=
  let s := links.foldl (List.foldl decodeChild) ⟨reg, reg_x, 0, fun _ => none⟩
  ⟨s.reg, s.reg_x, wideWrites s⟩

/-! ### Ports -/

/-- The I/O resources of the enabled children. -/
def ports (links : List (List Child)) : List Resource :=
  ((links.flatten.filter fun child => child.enabled && child.isPnp).flatMap
    Child.resourceList).filter fun res => res.has IORESOURCE_IO

/-- The bases of the wide ranges. -/
def wideBases (rs : List Resource) : List (BitVec 16) :=
  ((rs.map portBase).filter fun base => (standardBit base).isNone).map (·.truncate 16)

/-- The base register of a wide range; that of range 0 is not written. -/
def wideRegister : ℕ → Option ℕ
  | 1 => some 0x66
  | 2 => some 0x90
  | _ => none

/-- Every standard range that is used is decoded, a base register that is written holds the base of
its range, the base registers of the ranges 1 and 2 are written when the ranges are enabled, and
only ranges that have a base are. -/
structure Decoded (links : List (List Child)) (w : Written) : Prop where
  standard : ∀ res ∈ ports links, ∀ r bit, standardBit (portBase res) = some (r, bit) →
    (w.get r).getLsbD bit = true
  wide : ∀ x ∈ w.wide, ∃ n base, wideRegister n = some x.1 ∧ x.2 = some base ∧
    (wideBases (ports links))[n]? = some base
  written : ∀ n register, wideRegister n = some register →
    w.reg_x.getLsbD (wideBit n) = true → ∃ value, (register, value) ∈ w.wide
  assigned : ∀ n < 3, w.reg_x.getLsbD (wideBit n) = true → n < (wideBases (ports links)).length

/-! ### The loops -/

variable {s : Decode} {links : List (List Child)} {rs : List Resource}

lemma foldl_decodeResource (s : Decode) (rs : List Resource) :
    rs.foldl decodeResource s =
      (rs.filter fun res => res.has IORESOURCE_IO).foldl decodeResource s := by
  induction rs generalizing s with
  | nil => rfl
  | cons res rs ih =>
    by_cases hio : res.has IORESOURCE_IO = true
    · rw [List.filter_cons, if_pos hio, List.foldl_cons, List.foldl_cons, ih]
    · rw [List.filter_cons, if_neg hio, List.foldl_cons, ih, decodeResource,
        if_pos (by simpa using hio)]

/-- The loops go over the ports. -/
lemma foldl_decodeChild (s : Decode) (links : List (List Child)) :
    links.foldl (List.foldl decodeChild) s = (ports links).foldl decodeResource s := by
  rw [ports, ← foldl_decodeResource, List.foldl_flatMap, ← List.foldl_flatten]
  generalize links.flatten = children
  induction children generalizing s with
  | nil => rfl
  | cons child children ih =>
    by_cases hused : (child.enabled && child.isPnp) = true
    · rw [List.filter_cons, if_pos hused, List.foldl_cons, List.foldl_cons, ih, decodeChild,
        if_pos hused]
    · rw [List.filter_cons, if_neg hused, List.foldl_cons, ih, decodeChild, if_neg hused]

lemma getLsbD_or_bit (x : BitVec 32) {bit : ℕ} (hbit : bit < 32) (i : ℕ) :
    (x ||| 1#32 <<< bit).getLsbD i = (x.getLsbD i || decide (i = bit)) := by
  rw [BitVec.getLsbD_or, ← BitVec.twoPow_eq, BitVec.getLsbD_twoPow]
  by_cases hi : i = bit
  · simp [hi, hbit]
  · simp [hi, Ne.symm hi]

lemma wideBit_cases (n : ℕ) : wideBit n = 2 ∨ wideBit n = 24 ∨ wideBit n = 25 := by
  match n with
  | 0 => exact .inl rfl
  | 1 => exact .inr (.inl rfl)
  | n + 2 => exact .inr (.inr rfl)

lemma wideBit_inj {m n : ℕ} (hm : m < 3) (hn : n < 3) : wideBit m = wideBit n ↔ m = n := by
  interval_cases m <;> interval_cases n <;> decide

/-- A decode bit is not an enable bit. -/
lemma standardBit_spec {base : BitVec 32} {r : Register} {bit : ℕ}
    (h : standardBit base = some (r, bit)) : bit < 32 ∧ ∀ n, r = .reg_x → bit ≠ wideBit n := by
  have hranges : ∀ x ∈ standardRanges, x.2.2 < 32 ∧ (x.2.1 = .reg_x → 2 < x.2.2 ∧ x.2.2 < 24) := by
    decide
  obtain ⟨l₁, l₂, heq, -⟩ := List.lookup_eq_some_iff.mp h
  obtain ⟨hlt, hx⟩ := hranges (base, r, bit) (by simp [heq])
  refine ⟨hlt, fun n hr => ?_⟩
  have := hx hr
  have := wideBit_cases n
  dsimp only at *
  omega

/-- The variables of the loops after some ports. -/
structure Seen (s₀ : Decode) (rs : List Resource) (s : Decode) : Prop where
  var_num : s.var_num = min 3 (wideBases rs).length
  reg_var : ∀ n, s.reg_var n = ((wideBases rs).take 3)[n]?
  enabled : ∀ n < 3, s.reg_x.getLsbD (wideBit n) =
    (s₀.reg_x.getLsbD (wideBit n) || decide (n < (wideBases rs).length))
  standard : ∀ res ∈ rs, ∀ r bit, standardBit (portBase res) = some (r, bit) →
    (s.get r).getLsbD bit = true

lemma wideBases_concat (rs : List Resource) (res : Resource) :
    wideBases (rs ++ [res]) = wideBases rs ++
      if (standardBit (portBase res)).isNone then [(portBase res).truncate 16] else [] := by
  simp only [wideBases, List.map_append, List.filter_append, List.map_cons, List.map_nil,
    List.filter_cons, List.filter_nil]
  split_ifs <;> rfl

lemma setBit_get (s : Decode) (r q : Register) {bit : ℕ} (hbit : bit < 32) (i : ℕ) :
    ((s.setBit r bit).get q).getLsbD i = ((s.get q).getLsbD i || decide (q = r ∧ i = bit)) := by
  cases r <;> cases q <;> simp [Decode.setBit, Decode.get, getLsbD_or_bit _ hbit]

@[simp] lemma setBit_var_num (s : Decode) (r : Register) (bit : ℕ) :
    (s.setBit r bit).var_num = s.var_num := by
  cases r <;> rfl

@[simp] lemma setBit_reg_var (s : Decode) (r : Register) (bit : ℕ) :
    (s.setBit r bit).reg_var = s.reg_var := by
  cases r <;> rfl

lemma Seen.step {s₀ s : Decode} {res : Resource} (h : Seen s₀ rs s)
    (hio : res.has IORESOURCE_IO = true) : Seen s₀ (rs ++ [res]) (decodeResource s res) := by
  rw [decodeResource, if_neg (by simp [hio])]
  cases hstandard : standardBit (portBase res) with
  | some rbit =>
    obtain ⟨r, bit⟩ := rbit
    obtain ⟨hbit, hne⟩ := standardBit_spec hstandard
    have hwide : wideBases (rs ++ [res]) = wideBases rs := by
      rw [wideBases_concat, hstandard, if_neg (by simp), List.append_nil]
    have hget := setBit_get s r
    refine ⟨?_, ?_, fun n hn => ?_, ?_⟩
    · rw [hwide, setBit_var_num, h.var_num]
    · rw [hwide, setBit_reg_var]
      exact h.reg_var
    · have hx := hget .reg_x hbit (wideBit n)
      rw [hwide, ← h.enabled n hn]
      refine hx.trans ?_
      rw [decide_eq_false, Bool.or_false]
      · rfl
      · rintro ⟨hr, heq⟩
        exact hne n hr.symm heq.symm
    · intro res' hres' r' bit' hstandard'
      rw [hget r' hbit]
      rcases List.mem_append.mp hres' with hres' | hres'
      · rw [h.standard res' hres' r' bit' hstandard', Bool.true_or]
      · rw [List.mem_singleton.mp hres', hstandard] at hstandard'
        obtain ⟨rfl, rfl⟩ := Prod.mk.inj (Option.some.inj hstandard')
        simp
  | none =>
    have hwide : wideBases (rs ++ [res]) = wideBases rs ++ [(portBase res).truncate 16] := by
      rw [wideBases_concat, hstandard, Option.isNone_none, if_pos rfl]
    have hnum := h.var_num
    have hold : ∀ res' ∈ rs ++ [res], ∀ r bit, standardBit (portBase res') = some (r, bit) →
        (s.get r).getLsbD bit = true := by
      intro res' hres' r bit hstandard'
      rcases List.mem_append.mp hres' with hres' | hres'
      · exact h.standard res' hres' r bit hstandard'
      · rw [List.mem_singleton.mp hres', hstandard] at hstandard'
        cases hstandard'
    dsimp only
    split_ifs with hfull
    · -- more than three: the port is passed over
      refine ⟨?_, fun n => ?_, fun n hn => ?_, hold⟩
      · rw [hwide, List.length_append, List.length_singleton]
        omega
      · rw [hwide, List.take_append_of_le_length (by omega), h.reg_var]
      · rw [hwide, h.enabled n hn, List.length_append, List.length_singleton,
          decide_eq_true (by omega), decide_eq_true (by omega)]
    · have hlen : s.var_num = (wideBases rs).length := by omega
      have hbit : wideBit s.var_num < 32 := by
        have := wideBit_cases s.var_num
        omega
      refine ⟨?_, fun n => ?_, fun n hn => ?_, fun res' hres' r bit hstandard' => ?_⟩
      · rw [hwide, List.length_append, List.length_singleton, setBit_var_num]
        dsimp only
        omega
      · have hn := h.reg_var n
        rw [List.take_of_length_le (by omega)] at hn
        rw [hwide, List.take_of_length_le (by rw [List.length_append, List.length_singleton]; omega),
          setBit_var_num, setBit_reg_var, List.getElem?_append, ← hn, ← hlen]
        dsimp only
        rcases Nat.lt_trichotomy n s.var_num with hlt | rfl | hgt
        · rw [Function.update_of_ne (by omega), if_pos hlt]
        · rw [Function.update_self, if_neg (Nat.lt_irrefl _), Nat.sub_self]
          rfl
        · rw [Function.update_of_ne (by omega), if_neg (by omega), hn,
            List.getElem?_eq_none (by omega),
            List.getElem?_eq_none (by rw [List.length_singleton]; omega)]
      · have hx := setBit_get s .reg_x .reg_x hbit (wideBit n)
        refine hx.trans ?_
        have hdecide : decide (Register.reg_x = .reg_x ∧ wideBit n = wideBit s.var_num) =
            decide (n = s.var_num) := by
          simp only [true_and, wideBit_inj hn (not_le.mp hfull)]
        have henabled : (s.get .reg_x).getLsbD (wideBit n) = _ := h.enabled n hn
        rw [hdecide, henabled, hwide, List.length_append, List.length_singleton, Bool.or_assoc,
          ← Bool.decide_or]
        congr 2
        rw [eq_iff_iff]
        omega
      · have hx := setBit_get s .reg_x r hbit bit
        refine hx.trans ?_
        rw [hold res' hres' r bit hstandard', Bool.true_or]

/-- The variables after the loops. -/
lemma seen_foldl (s₀ : Decode) (h₀ : s₀.var_num = 0) (hvar : s₀.reg_var = fun _ => none)
    (rs : List Resource) (hio : ∀ res ∈ rs, res.has IORESOURCE_IO = true) :
    Seen s₀ rs (rs.foldl decodeResource s₀) := by
  induction rs using List.reverseRecOn with
  | nil =>
    refine ⟨h₀, fun n => by rw [List.foldl_nil, hvar]; rfl, fun n _ => ?_, by simp⟩
    rw [wideBases, List.foldl_nil, decide_eq_false (by simp), Bool.or_false]
  | append_singleton rs res ih =>
    rw [List.foldl_append, List.foldl_cons, List.foldl_nil]
    exact (ih fun q hq => hio q (List.mem_append_left _ hq)).step (hio res (by simp))

/-- With a port at a base that is not a standard one, a base register is written from an element
that has not been stored to, or not written at all, so that there must be none; and a range that was
enabled before stays so. -/
theorem decoded_iff (reg reg_x : BitVec 32) (links : List (List Child)) :
    Decoded links (lpcEnableChildrensResources reg reg_x links) ↔
      wideBases (ports links) = [] ∧ ∀ n < 3, reg_x.getLsbD (wideBit n) = false := by
  have hseen := seen_foldl ⟨reg, reg_x, 0, fun _ => none⟩ rfl rfl (ports links)
    (fun res hres => (List.mem_filter.mp hres).2)
  rw [← foldl_decodeChild] at hseen
  rw [lpcEnableChildrensResources]
  generalize links.foldl (List.foldl decodeChild) ⟨reg, reg_x, 0, fun _ => none⟩ = s at hseen ⊢
  obtain ⟨hnum, hvar, henabled, hstandard⟩ := hseen
  have hget : ∀ r, (⟨s.reg, s.reg_x, wideWrites s⟩ : Written).get r = s.get r := by
    rintro (_ | _) <;> rfl
  dsimp only at hnum hvar henabled
  constructor
  · rintro ⟨-, hwide, hwritten, hassigned⟩
    have hbases : wideBases (ports links) = [] := by
      rw [← List.length_eq_zero_iff]
      rcases (by omega : s.var_num = 0 ∨ s.var_num = 1 ∨ s.var_num = 2 ∨ s.var_num = 3) with
        h | h | h | h
      · omega
      · -- the register of range 1 is written from the element of a second port
        have hvar₁ : s.reg_var 1 = none := by
          rw [hvar, List.getElem?_eq_none (by rw [List.length_take]; omega)]
        obtain ⟨n, base, -, hbase, -⟩ := hwide (0x66, s.reg_var 1) (by simp [wideWrites, h])
        rw [hvar₁] at hbase
        cases hbase
      · have hvar₂ : s.reg_var 2 = none := by
          rw [hvar, List.getElem?_eq_none (by rw [List.length_take]; omega)]
        obtain ⟨n, base, -, hbase, -⟩ := hwide (0x90, s.reg_var 2) (by simp [wideWrites, h])
        rw [hvar₂] at hbase
        cases hbase
      · -- range 1 is enabled, and nothing is written
        obtain ⟨value, hvalue⟩ := hwritten 1 0x66 rfl (by
          rw [henabled 1 (by norm_num), decide_eq_true (by omega), Bool.or_true])
        simp [wideWrites, h] at hvalue
    refine ⟨hbases, fun n hn => ?_⟩
    by_contra hset
    rw [Bool.not_eq_false] at hset
    have := hassigned n hn (by rw [henabled n hn, hset, Bool.true_or])
    rw [hbases] at this
    exact absurd this (Nat.not_lt_zero n)
  · rintro ⟨hbases, hclear⟩
    rw [hbases, List.length_nil, Nat.min_zero] at hnum
    have hnone : wideWrites s = [] := by
      simp only [wideWrites, hnum]
    have hdisabled : ∀ n < 3, ¬s.reg_x.getLsbD (wideBit n) = true := by
      intro n hn
      rw [henabled n hn, hclear n hn, hbases]
      simp
    refine ⟨fun res hres r bit h => by rw [hget]; exact hstandard res hres r bit h, ?_, ?_, ?_⟩
    · rw [hnone]
      simp
    · intro n register hregister hset
      refine absurd hset (hdisabled n ?_)
      match n, hregister with
      | 1, _ => norm_num
      | 2, _ => norm_num
    · exact fun n hn hset => absurd hset (hdisabled n hn)

/-- A hardware monitor at 0x290. -/
def hardwareMonitor : Child :=
  ⟨true, true, [⟨0x290, 8, 0xffff, IORESOURCE_IO, 0x60, 3, 3⟩]⟩

/-- The base register of range 1 is written for a single port, which has range 0. -/
theorem not_decoded_hardwareMonitor :
    ¬Decoded [[hardwareMonitor]] (lpcEnableChildrensResources 0 0 [[hardwareMonitor]]) := by
  intro h
  obtain ⟨n, base, -, hbase, -⟩ := h.wide (0x66, none) (by decide)
  cases hbase

end ApuBios.Sb800
