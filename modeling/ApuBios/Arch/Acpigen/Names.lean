import ApuBios.Arch.Acpigen.Run

/-!
# Names

A path of names is given as a string with dots; what is emitted are names of four characters each,
filled with underscores.
-/

namespace ApuBios.Acpigen

open Aml

/-- A name in a path: it starts with a letter or an underscore, and contains no dot. -/
structure Segment where
  lead : UInt8
  rest : List UInt8
  valid : lead = 0x5f ∨ 0x41 ≤ lead ∧ lead ≤ 0x5a
  plain : ∀ c ∈ rest, c ≠ 0 ∧ c ≠ 0x2e

/-- A path of names as it is written in ASL. -/
structure NamePath where
  root : Bool
  parents : ℕ
  segs : List Segment
  nonempty : segs ≠ []
  short : segs.length < 256

variable {σ τ : Segment} {ss : List Segment} {name tail : List UInt8} {i n c k : ℕ}

def Segment.chars (σ : Segment) : List UInt8 := σ.lead :: σ.rest

/-- The name of four characters. -/
def Segment.seg (σ : Segment) : NameSeg :=
  ⟨σ.lead, σ.rest.getD 0 0x5f, σ.rest.getD 1 0x5f, σ.rest.getD 2 0x5f, σ.valid⟩

def joinDots : List Segment → List UInt8
  | [] => []
  | [σ] => σ.chars
  | σ :: ss => σ.chars ++ 0x2e :: joinDots ss

/-- The characters of the path, without the zero byte. -/
def NamePath.chars (path : NamePath) : List UInt8 :=
  (if path.root then [0x5c] else []) ++ (List.replicate path.parents 0x5e ++ joinDots path.segs)

/-- The names that are to be emitted. -/
def NamePath.string (path : NamePath) : NameString :=
  ⟨path.root, path.parents, path.segs.map Segment.seg⟩

lemma NamePath.string_fits (path : NamePath) : path.string.Fits :=
  ⟨by simpa [string] using path.nonempty, by simpa [string] using path.short⟩

lemma Segment.lead_ne (σ : Segment) {b : UInt8} (hb : b ≠ 0x5f) (h : b < 0x41 ∨ 0x5a < b) :
    σ.lead ≠ b := NameSeg.lead_ne σ.seg hb h

lemma Segment.ne_of_mem (σ : Segment) {b : UInt8} (hb : b ∈ σ.chars) : b ≠ 0 ∧ b ≠ 0x2e := by
  rcases List.mem_cons.mp hb with rfl | hb
  · exact ⟨σ.lead_ne (by decide) (by decide), σ.lead_ne (by decide) (by decide)⟩
  · exact σ.plain b hb

/-! ### One name -/

/-- Behind a name there is a dot or the end of the string. -/
def Ends (tail : List UInt8) : Prop := char tail 0 = 0 ∨ char tail 0 = 0x2e

/-- The next `n` characters, filled with underscores. -/
def padded (name : List UInt8) : ℕ → List UInt8
  | 0 => []
  | n + 1 => name.headD 0x5f :: padded name.tail n

lemma padded_nil : padded [] n = List.replicate n 0x5f := by
  induction n with
  | zero => rfl
  | succ n ih => rw [padded, List.tail_nil, ih]; rfl

lemma simpleNamestringLoop_emits (pre : List UInt8) (hname : ∀ b ∈ name, b ≠ 0 ∧ b ≠ 0x2e)
    (htail : Ends tail)
    (hn : n ≤ 4) :
    Emits 0 (simpleNamestringLoop (pre ++ (name ++ tail)) n pre.length) (padded name n) := by
  induction n generalizing name pre with
  | zero => exact appends_pure 0
  | succ n ih =>
    have hchar : char (pre ++ (name ++ tail)) pre.length = char (name ++ tail) 0 := by
      rw [char, List.getD_append_right _ _ _ _ le_rfl, Nat.sub_self]
      rfl
    rw [simpleNamestringLoop, hchar]
    cases name with
    | nil =>
      rw [if_pos (show char ([] ++ tail) 0 = 0 ∨ char ([] ++ tail) 0 = 0x2e from htail),
        padded_nil]
      have h := emitStream_appends [0x5f, 0x5f, 0x5f, 0x5f] (n + 1)
      have htake : ([0x5f, 0x5f, 0x5f, 0x5f] : List UInt8).take (n + 1) =
          List.replicate (n + 1) 0x5f := by
        rw [show ([0x5f, 0x5f, 0x5f, 0x5f] : List UInt8) = List.replicate 4 0x5f from rfl,
          List.take_replicate, Nat.min_eq_left hn]
      rw [htake] at h
      rw [Emits, List.length_replicate]
      exact h
    | cons b name =>
      rw [List.forall_mem_cons] at hname
      have hne : ¬(char (b :: name ++ tail) 0 = 0 ∨ char (b :: name ++ tail) 0 = 0x2e) :=
        not_or.mpr hname.1
      have hrest := ih (pre ++ [b]) hname.2 (Nat.le_of_succ_le hn)
      rw [List.append_assoc, List.length_append, List.length_singleton] at hrest
      rw [if_neg hne]
      exact (emitByte_emits b).add hrest

lemma Segment.encode_seg (σ : Segment) : σ.seg.encode = padded σ.chars 4 := by
  have hget : ∀ (l : List UInt8) n, l.getD n 0x5f = (l.drop n).headD 0x5f := fun l n => by
    rw [List.getD_eq_getElem?_getD, List.headD_eq_head?_getD, List.head?_drop]
  simp only [NameSeg.encode, seg, padded, chars, List.headD_cons, List.tail_cons, hget,
    List.drop_zero, ← List.tail_drop]

/-- One name, up to the next dot. -/
lemma emitSimpleNamestring_emits (σ : Segment) (htail : Ends tail) :
    Emits 0 (acpigenEmitSimpleNamestring (σ.chars ++ tail)) σ.seg.encode := by
  rw [σ.encode_seg]
  exact simpleNamestringLoop_emits [] (fun b => σ.ne_of_mem) htail le_rfl

/-! ### Paths -/

lemma ends_nil : Ends [] := Or.inl rfl

lemma ends_dot (tail : List UInt8) : Ends (0x2e :: tail) := Or.inr rfl

lemma joinDots_cons (hss : ss ≠ []) : joinDots (σ :: ss) = σ.chars ++ 0x2e :: joinDots ss := by
  cases ss with
  | nil => exact absurd rfl hss
  | cons τ ss => rfl

lemma countDotsLoop_append (tail : List UInt8) (i c k : ℕ) (hname : ∀ b ∈ name, b ≠ 0x2e) :
    countDotsLoop (name ++ tail) i c k = countDotsLoop tail (i + name.length) c k := by
  induction name generalizing i with
  | nil => rfl
  | cons b name ih =>
    rw [List.forall_mem_cons] at hname
    rw [List.cons_append, countDotsLoop, if_neg hname.1, ih _ hname.2, List.length_cons,
      Nat.add_right_comm, Nat.add_assoc]

private lemma Segment.no_dot (σ : Segment) : ∀ b ∈ σ.chars, b ≠ 0x2e := fun _ hb =>
  (σ.ne_of_mem hb).2

lemma countDotsLoop_joinDots (i c k : ℕ) : (countDotsLoop (joinDots (σ :: ss)) i c k).1 = c + ss.length := by
  induction ss generalizing σ i c k with
  | nil =>
    have h := countDotsLoop_append [] i c k σ.no_dot
    rw [List.append_nil] at h
    rw [joinDots, h]
    rfl
  | cons τ ss ih =>
    rw [joinDots_cons (List.cons_ne_nil _ _), countDotsLoop_append _ _ _ _ σ.no_dot, countDotsLoop,
      if_pos rfl, ih, List.length_cons]
    omega

/-- Of two names, the dot between them is found. -/
lemma countDotsLoop_pair : countDotsLoop (joinDots [σ, τ]) 0 0 0 = (1, σ.chars.length) := by
  have h := countDotsLoop_append [] (0 + σ.chars.length + 1) (0 + 1) (0 + σ.chars.length) τ.no_dot
  rw [List.append_nil] at h
  rw [joinDots_cons (List.cons_ne_nil _ _), joinDots, countDotsLoop_append _ _ _ _ σ.no_dot, countDotsLoop,
    if_pos rfl, h, countDotsLoop, Nat.zero_add, Nat.zero_add]

lemma emitDoubleNamestring_emits :
    Emits 0 (acpigenEmitDoubleNamestring (joinDots [σ, τ]) σ.chars.length)
      (encodeSegs [σ.seg, τ.seg]) := by
  have hsecond : (joinDots [σ, τ]).drop (σ.chars.length + 1) = τ.chars ++ [] := by
    rw [joinDots_cons (List.cons_ne_nil _ _), joinDots, List.append_nil, ← List.drop_drop,
      List.drop_left]
    rfl
  have h₁ := emitSimpleNamestring_emits σ (ends_dot (joinDots [τ]))
  have h₂ := emitSimpleNamestring_emits τ ends_nil
  rw [← hsecond] at h₂
  rw [← joinDots_cons (List.cons_ne_nil _ _)] at h₁
  have h : Appends 0 (acpigenEmitDoubleNamestring (joinDots [σ, τ]) σ.chars.length)
      ([0x2e] ++ (σ.seg.encode ++ (τ.seg.encode ++ []))) (1 + 4 + 4) :=
    Appends.bind (appends_emitByte _) (Appends.bind h₁ (Appends.bind h₂ (appends_pure _)))
  rw [List.append_nil] at h
  exact h

lemma nextName_append (htail : tail = [] ∨ ∃ r, tail = 0x2e :: r) :
    nextName (σ.chars ++ tail) = tail.tail := by
  have hdrop : (σ.chars ++ tail).dropWhile (· ≠ 0x2e) = tail.dropWhile (· ≠ 0x2e) :=
    List.dropWhile_append_of_pos fun b hb => decide_eq_true (σ.no_dot b hb)
  rw [nextName, hdrop]
  rcases htail with rfl | ⟨r, rfl⟩
  · rfl
  · rw [List.dropWhile_cons_of_neg (by simp)]

lemma multiNamestringLoop_appends {fuel : ℕ} (hfuel : ss.length ≤ fuel) :
    Appends 0 (multiNamestringLoop fuel (joinDots ss)) ((ss.map Segment.seg).flatMap NameSeg.encode)
      (((ss.map Segment.seg).flatMap NameSeg.encode).length, ss.length) := by
  induction ss generalizing fuel with
  | nil => cases fuel <;> exact appends_pure (0, 0)
  | cons σ ss ih =>
    obtain ⟨fuel, rfl⟩ : ∃ n, fuel = n + 1 := ⟨fuel - 1, by rw [List.length_cons] at hfuel; omega⟩
    rw [List.length_cons] at hfuel
    have hrest := ih (Nat.le_of_succ_le_succ hfuel)
    obtain ⟨tail, hends, htail, hjoin⟩ : ∃ tail, Ends tail ∧
        nextName (σ.chars ++ tail) = joinDots ss ∧ joinDots (σ :: ss) = σ.chars ++ tail := by
      cases ss with
      | nil => exact ⟨[], ends_nil, nextName_append (Or.inl rfl), (List.append_nil _).symm⟩
      | cons τ ss => exact ⟨0x2e :: joinDots (τ :: ss), ends_dot _,
          nextName_append (Or.inr ⟨_, rfl⟩), rfl⟩
    have hfirst := emitSimpleNamestring_emits σ hends
    rw [← htail] at hrest
    have h : Appends 0 (multiNamestringLoop (fuel + 1) (σ.chars ++ tail))
        (σ.seg.encode ++ ((ss.map Segment.seg).flatMap NameSeg.encode ++ []))
        (4 + ((ss.map Segment.seg).flatMap NameSeg.encode).length, ss.length + 1) :=
      Appends.bind hfirst (Appends.bind hrest (appends_pure _))
    rw [List.append_nil] at h
    rw [hjoin, List.map_cons, List.flatMap_cons, List.length_append, List.length_cons]
    exact h

lemma emitMultiNamestring_emits (hss : 2 < ss.length) :
    Emits 0 (acpigenEmitMultiNamestring (joinDots ss)) (encodeSegs (ss.map Segment.seg)) := by
  have hle : ss.length ≤ (joinDots ss).length := by
    clear hss
    induction ss with
    | nil => exact le_rfl
    | cons σ ss ih =>
      cases ss with
      | nil => simp [joinDots, Segment.chars]
      | cons τ ss =>
        rw [joinDots_cons (List.cons_ne_nil _ _), List.length_append]
        simp only [List.length_cons] at ih ⊢
        omega
  have hencode : encodeSegs (ss.map Segment.seg) = 0x2f :: UInt8.ofNat ss.length ::
      (ss.map Segment.seg).flatMap NameSeg.encode := by
    match ss with
    | _ :: _ :: _ :: _ =>
      rw [List.map_cons, List.map_cons, List.map_cons, encodeSegs, List.length_cons, List.length_cons,
        List.length_cons, List.length_map]
      · rfl
      · simp
      · simp
  have hloop := multiNamestringLoop_appends hle
  generalize (ss.map Segment.seg).flatMap NameSeg.encode = names at hencode hloop
  rw [hencode]
  intro s hs
  have hrun := hloop ⟨s.out ++ [0x2f] ++ [0], s.lenStack⟩ hs
  have hset : ((s.out ++ [0x2f] ++ [0] ++ names).set ((s.out ++ [0x2f] ++ [0]).length - 1)
      (UInt8.ofNat ss.length)) = s.out ++ 0x2f :: UInt8.ofNat ss.length :: names := by
    rw [List.append_assoc, List.append_assoc, List.set_append_right _ _ (by simp)]
    simp
  simp only [acpigenEmitMultiNamestring, bind_apply, acpigenEmitByte, Option.bind_some,
    acpigenGetCurrent, hrun, poke, pure_apply]
  rw [hset, List.length_cons, List.length_cons, Nat.add_comm (1 + 1)]

lemma parentsLoop_appends (n : ℕ) (hname : char name 0 ≠ 0x5e) :
    Appends 0 (parentsLoop (List.replicate n 0x5e ++ name)) (List.replicate n 0x5e) (n, name) := by
  induction n with
  | zero =>
    cases name with
    | nil => exact appends_pure (0, [])
    | cons b name =>
      have hb : b ≠ 0x5e := hname
      rw [List.replicate_zero, List.nil_append, parentsLoop, if_neg hb]
      exact appends_pure _
  | succ n ih =>
    have hbytes : List.replicate (n + 1) (0x5e : UInt8) =
        [0x5e] ++ (List.replicate n 0x5e ++ []) := by
      rw [List.append_nil]
      rfl
    rw [hbytes, List.append_nil, List.singleton_append, List.cons_append, parentsLoop, if_pos rfl,
      Nat.add_comm n, ← List.singleton_append]
    nth_rewrite 2 [← List.append_nil (List.replicate n 0x5e)]
    exact Appends.bind (appends_emitByte _) (Appends.bind ih (appends_pure _))

lemma emitRoot_appends (root : Bool) (hname : char name 0 ≠ 0x5c) :
    Appends 0 (emitRoot ((if root then [0x5c] else []) ++ name)) (if root then [0x5c] else [])
      (if root then 1 else 0, name) := by
  cases root with
  | true => exact Appends.bind (b := [0x5c]) (appends_emitByte _) (appends_pure _)
  | false =>
    have hne : ¬char ((if false = true then [0x5c] else []) ++ name) 0 = 0x5c := hname
    rw [emitRoot, if_neg hne]
    exact appends_pure _

/-- The names without their prefix. -/
lemma emitNames_emits :
    Emits 0 (emitNames (joinDots (σ :: ss))) (encodeSegs ((σ :: ss).map Segment.seg)) := by
  unfold emitNames
  dsimp only
  rw [countDotsLoop_joinDots 0 0 0]
  match ss with
  | [] =>
    have h := emitSimpleNamestring_emits σ ends_nil
    rw [List.append_nil] at h
    exact h
  | [τ] =>
    rw [countDotsLoop_pair]
    exact emitDoubleNamestring_emits
  | τ :: υ :: ss =>
    rw [if_neg (by simp), if_neg (by simp)]
    exact emitMultiNamestring_emits (by simp)

/-- The first character behind the prefix is that of a name. -/
lemma joinDots_lead {b : UInt8} (hb : b ≠ 0x5f) (h : b < 0x41 ∨ 0x5a < b) :
    char (joinDots (σ :: ss)) 0 ≠ b := by
  cases ss with
  | nil => exact σ.lead_ne hb h
  | cons τ ss => exact σ.lead_ne hb h

/-- No root is read behind the root. -/
lemma parents_lead (n : ℕ) (hname : char name 0 ≠ 0x5c) :
    char (List.replicate n 0x5e ++ name) 0 ≠ 0x5c := by
  cases n with
  | zero => exact hname
  | succ n => exact (by decide : (0x5e : UInt8) ≠ 0x5c)

lemma length_encode (p : NameString) :
    p.encode.length = (if p.root then 1 else 0) + (p.parents + (encodeSegs p.segs).length) := by
  have hlength : (if p.root then [(0x5c : UInt8)] else []).length = if p.root then 1 else 0 := by
    cases p.root <;> rfl
  rw [NameString.encode, List.length_append, List.length_append, hlength, List.length_replicate,
    Nat.add_assoc]

/-- The prefix in front of names that are emitted as AML encodes them. -/
lemma emitNamestring_of_names (root : Bool) (parents : ℕ) {segs : List NameSeg}
    (hroot : char name 0 ≠ 0x5c) (hparents : char name 0 ≠ 0x5e)
    (hnames : Emits 0 (emitNames name) (encodeSegs segs)) :
    Emits 0 (acpigenEmitNamestring
      ((if root then [0x5c] else []) ++ (List.replicate parents 0x5e ++ name)))
      (NameString.encode ⟨root, parents, segs⟩) := by
  have h : Appends 0 (acpigenEmitNamestring _) _ _ :=
    Appends.bind (emitRoot_appends root (parents_lead parents hroot))
      (Appends.bind (parentsLoop_appends parents hparents) (Appends.bind hnames (appends_pure _)))
  rw [List.append_nil] at h
  rw [Emits, length_encode, NameString.encode, List.append_assoc, ← Nat.add_assoc]
  exact h

/-- The path is emitted as AML encodes it. -/
theorem emitNamestring_emits (path : NamePath) :
    Emits 0 (acpigenEmitNamestring path.chars) path.string.encode := by
  obtain ⟨root, parents, segs, hne, hlt⟩ := path
  obtain ⟨σ, ss, rfl⟩ := List.exists_cons_of_ne_nil hne
  exact emitNamestring_of_names root parents (joinDots_lead (by decide) (by decide))
    (joinDots_lead (by decide) (by decide)) emitNames_emits

/-! ### Named objects -/

lemma writeName_emits (path : NamePath) :
    Emits 0 (acpigenWriteName path.chars) (Leaf.name path.string).encode :=
  (emitByte_emits 0x08).add (emitNamestring_emits path)

lemma writeScope_opens (path : NamePath) :
    Opens (acpigenWriteScope path.chars) (.scope path.string) := fun s F p hs => by
  simp only [acpigenWriteScope, bind_apply, emitByte_at, Option.bind_some, writeLenF_at hs,
    Appends.at_zero (emitNamestring_emits path), List.nil_append, pure_apply]
  rfl

/-- A name may begin with an underscore. -/
lemma underscore_valid : (0x5f : UInt8) = 0x5f ∨ (0x41 : UInt8) ≤ 0x5f ∧ (0x5f : UInt8) ≤ 0x5a :=
  .inl rfl

/-- The path of a processor. -/
def processorPath (cpuindex : UInt8) : NamePath where
  root := true
  parents := 0
  segs := [⟨0x5f, [0x50, 0x52], underscore_valid, by simp⟩,
    ⟨0x43, [0x50, 0x55] ++ (if cpuindex.toNat < 16 then [hexDigit cpuindex.toNat]
      else [hexDigit (cpuindex.toNat / 16), hexDigit (cpuindex.toNat % 16)]), by decide, by
      have hdigit : ∀ n < 16, hexDigit n ≠ 0 ∧ hexDigit n ≠ 0x2e := by decide
      have hlt := cpuindex.toNat_lt
      split_ifs with h
      · simp [hdigit _ h]
      · simp [hdigit (cpuindex.toNat / 16) (by omega), hdigit (cpuindex.toNat % 16) (by omega)]⟩]
  nonempty := List.cons_ne_nil _ _
  short := show 2 < 256 by decide

lemma chars_processorPath (cpuindex : UInt8) :
    (processorPath cpuindex).chars = processorName cpuindex := rfl

lemma writeProcessor_opens (cpuindex : UInt8) (pblockAddr : ℕ) (pblockLen : UInt8) :
    Opens (acpigenWriteProcessor cpuindex pblockAddr pblockLen)
      (.processor (processorPath cpuindex).string cpuindex (pblockAddr % 256 ^ 4) pblockLen) :=
  fun s F p hs => by
    simp only [acpigenWriteProcessor, bind_apply, emitByte_at, Option.bind_some, writeLenF_at hs,
      ← chars_processorPath, Appends.at_zero (emitNamestring_emits _),
      Appends.at_zero (emitDword_appends _), List.nil_append, List.append_assoc, pure_apply]
    refine congrArg some (Prod.ext ?_ ?_)
    · simp only [Header.opcode, Header.fields, List.length_append, List.length_cons,
        List.length_nil, length_leBytes]
      omega
    · simp only [Header.fields, leBytes_mod]
      rfl

/-- A method without arguments. -/
def writeMethod (name : List UInt8) : Gen ℕ := do
  let _ ← acpigenEmitByte 0x14
  let len ← acpigenWriteLenF
  let k ← acpigenEmitNamestring name
  let _ ← acpigenEmitByte 0x00
  return len + k + 2

lemma writeMethod_opens (path : NamePath) :
    Opens (writeMethod path.chars) (.method path.string 0) := fun s F p hs => by
  simp only [writeMethod, bind_apply, emitByte_at, Option.bind_some, writeLenF_at hs,
    Appends.at_zero (emitNamestring_emits path), List.nil_append, pure_apply]
  refine congrArg some (Prod.ext ?_ rfl)
  simp only [Header.opcode, Header.fields, List.length_append, List.length_cons, List.length_nil]
  omega

end ApuBios.Acpigen
