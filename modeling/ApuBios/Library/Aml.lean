import Mathlib.Tactic

/-!
# AML

The part of the ACPI machine language in which objects are nested: each object states its length, in
one to four bytes, and a reader finds the objects inside it from there.
-/

namespace Aml

variable {bs rest : List UInt8} {k n v : ℕ}

/-! ### Numbers -/

/-- The `k` low bytes of `v`, the lowest one first. -/
def leBytes : ℕ → ℕ → List UInt8
  | 0, _ => []
  | k + 1, v => UInt8.ofNat v :: leBytes k (v / 256)

def ofLe : List UInt8 → ℕ
  | [] => 0
  | b :: bs => b.toNat + 256 * ofLe bs

@[simp] lemma length_leBytes : (leBytes k v).length = k := by
  induction k generalizing v with
  | zero => rfl
  | succ k ih => rw [leBytes, List.length_cons, ih]

lemma ofLe_leBytes (h : v < 256 ^ k) : ofLe (leBytes k v) = v := by
  induction k generalizing v with
  | zero =>
    rw [pow_zero] at h
    rw [leBytes, ofLe]
    omega
  | succ k ih =>
    rw [pow_succ'] at h
    rw [leBytes, ofLe, ih (Nat.div_lt_of_lt_mul h), UInt8.toNat_ofNat', Nat.mod_add_div]

lemma leBytes_ofLe (bs : List UInt8) : leBytes bs.length (ofLe bs) = bs := by
  induction bs with
  | nil => rfl
  | cons b bs ih =>
    have hb : b.toNat < 256 := b.toNat_lt
    have hfirst : UInt8.ofNat (b.toNat + 256 * ofLe bs) = b := by
      apply UInt8.toNat_inj.mp
      rw [UInt8.toNat_ofNat']
      omega
    rw [List.length_cons, leBytes, ofLe, hfirst, Nat.add_mul_div_left _ _ (by decide),
      Nat.div_eq_of_lt hb, Nat.zero_add, ih]

lemma ofLe_lt (bs : List UInt8) : ofLe bs < 256 ^ bs.length := by
  induction bs with
  | nil => exact Nat.one_pos
  | cons b bs ih =>
    have hb : b.toNat < 256 := b.toNat_lt
    rw [ofLe, List.length_cons, pow_succ]
    omega

lemma leBytes_zero (k : ℕ) : leBytes k 0 = List.replicate k 0 := by
  induction k with
  | zero => rfl
  | succ k ih => rw [leBytes, Nat.zero_div, ih, List.replicate_succ]; rfl

lemma leBytes_mod : leBytes k (v % 256 ^ k) = leBytes k v := by
  induction k generalizing v with
  | zero => rfl
  | succ k ih =>
    have hfirst : UInt8.ofNat (v % 256 ^ (k + 1)) = UInt8.ofNat v := by
      rw [← UInt8.ofNat_mod_size, pow_succ']
      change UInt8.ofNat (v % (256 * 256 ^ k) % 256) = _
      rw [Nat.mod_mul_right_mod]
      exact UInt8.ofNat_mod_size
    rw [leBytes, leBytes, hfirst, pow_succ', Nat.mod_mul_right_div_self, ih]

lemma leBytes_add (k k' v : ℕ) : leBytes (k + k') v = leBytes k v ++ leBytes k' (v / 256 ^ k) := by
  induction k generalizing v with
  | zero => rw [Nat.zero_add, leBytes, List.nil_append, pow_zero, Nat.div_one]
  | succ k ih =>
    rw [Nat.add_right_comm, leBytes, leBytes, ih, List.cons_append, Nat.div_div_eq_div_mul,
      pow_succ']

/-! ### Lengths of objects -/

/-- The length `n` of an object, with `k` bytes behind the first one. -/
def pkgLength (k n : ℕ) : List UInt8 :=
  if k = 0 then [UInt8.ofNat n] else UInt8.ofNat (64 * k + n % 16) :: leBytes k (n / 16)

/-- The lengths that have this form. -/
def LengthFits (k n : ℕ) : Prop := if k = 0 then n < 64 else k < 4 ∧ n < 16 * 256 ^ k

/-- How many bytes are behind the first one, and the length. -/
def readPkgLength : List UInt8 → Option (ℕ × ℕ)
  | [] => none
  | b :: bs =>
    let k := b.toNat / 64
    if k = 0 then some (0, b.toNat % 64)
    else if k ≤ bs.length then some (k, b.toNat % 16 + 16 * ofLe (bs.take k))
    else none

@[simp] lemma length_pkgLength : (pkgLength k n).length = k + 1 := by
  unfold pkgLength
  split_ifs with hk
  · rw [hk, List.length_singleton]
  · rw [List.length_cons, length_leBytes]

lemma readPkgLength_append (h : LengthFits k n) :
    readPkgLength (pkgLength k n ++ rest) = some (k, n) := by
  unfold LengthFits at h
  unfold pkgLength
  split_ifs at h ⊢ with hk
  · have hb : (UInt8.ofNat n).toNat = n := by
      rw [UInt8.toNat_ofNat']
      omega
    rw [List.singleton_append, readPkgLength, hb, if_pos (by omega), Nat.mod_eq_of_lt h, hk]
  · have hb : (UInt8.ofNat (64 * k + n % 16)).toNat = 64 * k + n % 16 := by
      rw [UInt8.toNat_ofNat']
      omega
    have hdiv : (64 * k + n % 16) / 64 = k := by omega
    have hmod : (64 * k + n % 16) % 16 = n % 16 := by omega
    have hhigh : n / 16 < 256 ^ k := Nat.div_lt_of_lt_mul h.2
    rw [List.cons_append, readPkgLength]
    simp only [hb, hdiv, hmod]
    rw [if_neg hk, if_pos (by simp), List.take_left' length_leBytes, ofLe_leBytes hhigh,
      Nat.mod_add_div]

/-- The form of the length, what is in the object behind it, and what is behind the object. -/
def readPackage (bs : List UInt8) : Option (ℕ × List UInt8 × List UInt8) :=
  (readPkgLength bs).bind fun r =>
    if r.1 + 1 ≤ r.2 ∧ r.2 ≤ bs.length then
      some (r.1, (bs.take r.2).drop (r.1 + 1), bs.drop r.2)
    else none

theorem readPackage_append {content : List UInt8} (h : LengthFits k (k + 1 + content.length)) :
    readPackage (pkgLength k (k + 1 + content.length) ++ (content ++ rest)) =
      some (k, content, rest) := by
  have hlength : (pkgLength k (k + 1 + content.length) ++ content).length =
      k + 1 + content.length := by simp
  rw [readPackage, readPkgLength_append h, Option.bind_some, if_pos ⟨by omega, by simp⟩,
    ← List.append_assoc, List.take_left' hlength, List.drop_left' hlength,
    List.drop_left' length_pkgLength]

/-! ### Names -/

/-- A name of four characters. -/
structure NameSeg where
  lead : UInt8
  second : UInt8
  third : UInt8
  fourth : UInt8
  valid : lead = 0x5f ∨ 0x41 ≤ lead ∧ lead ≤ 0x5a

def NameSeg.encode (s : NameSeg) : List UInt8 := [s.lead, s.second, s.third, s.fourth]

/-- A path of names, from the root or from a parent. -/
structure NameString where
  root : Bool
  parents : ℕ
  segs : List NameSeg

def encodeSegs : List NameSeg → List UInt8
  | [s] => s.encode
  | [s, t] => 0x2e :: (s.encode ++ t.encode)
  | ss => 0x2f :: UInt8.ofNat ss.length :: ss.flatMap NameSeg.encode

def NameString.encode (p : NameString) : List UInt8 :=
  (if p.root then [0x5c] else []) ++ List.replicate p.parents 0x5e ++ encodeSegs p.segs

def NameString.Fits (p : NameString) : Prop := p.segs ≠ [] ∧ p.segs.length < 256

def readSegs : ℕ → List UInt8 → Option (List NameSeg × List UInt8)
  | 0, bs => some ([], bs)
  | n + 1, b :: c :: d :: e :: bs =>
    if h : b = 0x5f ∨ 0x41 ≤ b ∧ b ≤ 0x5a then
      (readSegs n bs).map fun r => (⟨b, c, d, e, h⟩ :: r.1, r.2)
    else none
  | _ + 1, _ => none

def readPath : List UInt8 → Option (List NameSeg × List UInt8)
  | [] => none
  | b :: bs =>
    if b = 0x2e then readSegs 2 bs
    else if b = 0x2f then readSegs (bs.headD 0).toNat bs.tail
    else readSegs 1 (b :: bs)

def readParents : List UInt8 → ℕ × List UInt8
  | [] => (0, [])
  | b :: bs => if b = 0x5e then ((readParents bs).1 + 1, (readParents bs).2) else (0, b :: bs)

def readName (bs : List UInt8) : Option (NameString × List UInt8) :=
  let root := bs.head? == some 0x5c
  let r := readParents (if root then bs.tail else bs)
  (readPath r.2).map fun p => (⟨root, r.1, p.1⟩, p.2)

lemma readSegs_append (ss : List NameSeg) :
    readSegs ss.length (ss.flatMap NameSeg.encode ++ rest) = some (ss, rest) := by
  induction ss with
  | nil => rfl
  | cons s ss ih =>
    rw [List.flatMap_cons, List.append_assoc]
    simp only [NameSeg.encode, List.cons_append, List.nil_append, List.length_cons, readSegs]
    rw [dif_pos s.valid, ih]
    rfl

/-- The first byte of a name is not one that starts something else. -/
lemma NameSeg.lead_ne (s : NameSeg) {b : UInt8} (hb : b ≠ 0x5f) (h : b < 0x41 ∨ 0x5a < b) :
    s.lead ≠ b := by
  rintro rfl
  rcases s.valid with hs | hs
  · exact hb hs
  · rcases h with h | h
    · exact absurd hs.1 (UInt8.not_le.mpr h)
    · exact absurd hs.2 (UInt8.not_le.mpr h)

lemma readPath_append {ss : List NameSeg} (hss : ss ≠ []) (hlt : ss.length < 256) :
    readPath (encodeSegs ss ++ rest) = some (ss, rest) := by
  match ss with
  | [s] =>
    have hread := @readSegs_append rest [s]
    simp only [List.flatMap_cons, List.flatMap_nil, List.append_nil, NameSeg.encode,
      List.cons_append, List.nil_append, List.length_singleton] at hread
    simp only [encodeSegs, NameSeg.encode, List.cons_append, List.nil_append, readPath]
    rw [if_neg (s.lead_ne (by decide) (by decide)), if_neg (s.lead_ne (by decide) (by decide)), hread]
  | [s, t] =>
    have hread := @readSegs_append rest [s, t]
    rw [encodeSegs, List.cons_append, readPath, if_pos rfl]
    simpa using hread
  | s :: t :: u :: ss =>
    have hread := @readSegs_append rest (s :: t :: u :: ss)
    rw [encodeSegs, List.cons_append, readPath, if_neg (by decide), if_pos rfl]
    · simp only [List.cons_append, List.headD_cons, List.tail_cons]
      rw [UInt8.toNat_ofNat', Nat.mod_eq_of_lt hlt]
      exact hread
    · simp
    · simp

lemma readParents_append (h : bs.head? ≠ some 0x5e) :
    readParents (List.replicate n 0x5e ++ bs) = (n, bs) := by
  induction n with
  | zero =>
    cases bs with
    | nil => rfl
    | cons b bs =>
      have hb : b ≠ 0x5e := fun hb => h (by rw [hb]; rfl)
      rw [List.replicate_zero, List.nil_append, readParents, if_neg hb]
  | succ n ih => rw [List.replicate_succ, List.cons_append, readParents, if_pos rfl, ih]

lemma encodeSegs_head (ss : List NameSeg) (hss : ss ≠ []) {b : UInt8} (hb : b ≠ 0x5f)
    (h : b < 0x41 ∨ 0x5a < b) (h₂ : b ≠ 0x2e) (h₃ : b ≠ 0x2f) :
    (encodeSegs ss ++ rest).head? ≠ some b := by
  match ss with
  | [s] =>
    simp only [encodeSegs, NameSeg.encode, List.cons_append, List.head?_cons, ne_eq,
      Option.some.injEq]
    exact s.lead_ne hb h
  | [s, t] =>
    simp only [encodeSegs, List.cons_append, List.head?_cons, ne_eq, Option.some.injEq]
    exact h₂.symm
  | s :: t :: u :: ss =>
    rw [encodeSegs, List.cons_append, List.head?_cons]
    · simpa using h₃.symm
    · simp
    · simp

theorem readName_append (p : NameString) (h : p.Fits) :
    readName (p.encode ++ rest) = some (p, rest) := by
  obtain ⟨root, parents, segs⟩ := p
  have hpath := @readPath_append rest _ h.1 h.2
  have hparents := readParents_append (n := parents)
    (@encodeSegs_head rest segs h.1 0x5e (by decide) (by decide) (by decide)
      (by decide))
  cases root with
  | true =>
    simp only [NameString.encode, readName, if_true, List.cons_append, List.nil_append,
      List.append_assoc, List.head?_cons, BEq.rfl, List.tail_cons, hparents, hpath]
    rfl
  | false =>
    have hhead : (List.replicate parents 0x5e ++ (encodeSegs segs ++ rest)).head? ≠
        some 0x5c := by
      cases parents with
      | zero => exact encodeSegs_head segs h.1 (by decide) (by decide) (by decide) (by decide)
      | succ n => simp [List.replicate_succ]
    simp only [NameString.encode, readName, List.nil_append, List.append_assoc,
      Bool.false_eq_true, if_false, beq_eq_false_iff_ne.mpr hhead, hparents, hpath]
    rfl

/-! ### Terms -/

/-- The sizes of constants. -/
inductive Size
  | byte
  | word
  | dword
  | qword
  deriving DecidableEq

def Size.opcode : Size → UInt8
  | .byte => 0x0a
  | .word => 0x0b
  | .dword => 0x0c
  | .qword => 0x0e

def Size.bytes : Size → ℕ
  | .byte => 1
  | .word => 2
  | .dword => 4
  | .qword => 8

/-- What contains no other terms. -/
inductive Leaf
  | const (w : Size) (v : ℕ)
  | name (p : NameString)
  | ret
  | ref (p : NameString)
  | buffer (k : ℕ) (w : Size) (bytes : List UInt8)

/-- What stands between the length of an object and the terms inside it. -/
inductive Header
  | scope (p : NameString)
  | package (count : UInt8)
  | method (p : NameString) (flags : UInt8)
  | processor (p : NameString) (id : UInt8) (addr : ℕ) (len : UInt8)

/-- A list of terms: `k` is the form of the length of an object. -/
inductive Terms
  | nil
  | leaf (l : Leaf) (rest : Terms)
  | node (h : Header) (k : ℕ) (body rest : Terms)

/-- The bytes in a buffer, behind their number. -/
def bufferContent (w : Size) (bytes : List UInt8) : List UInt8 :=
  w.opcode :: leBytes w.bytes bytes.length ++ bytes

def Leaf.encode : Leaf → List UInt8
  | .const w v => w.opcode :: leBytes w.bytes v
  | .name p => 0x08 :: p.encode
  | .ret => [0xa4]
  | .ref p => p.encode
  | .buffer k w bytes =>
    0x11 :: pkgLength k (k + 1 + (bufferContent w bytes).length) ++ bufferContent w bytes

def Header.opcode : Header → List UInt8
  | .scope _ => [0x10]
  | .package _ => [0x12]
  | .method .. => [0x14]
  | .processor .. => [0x5b, 0x83]

def Header.fields : Header → List UInt8
  | .scope p => p.encode
  | .package count => [count]
  | .method p flags => p.encode ++ [flags]
  | .processor p id addr len => p.encode ++ (id :: leBytes 4 addr ++ [len])

def Terms.encode : Terms → List UInt8
  | .nil => []
  | .leaf l rest => l.encode ++ rest.encode
  | .node h k body rest =>
    h.opcode ++ (pkgLength k (k + 1 + (h.fields ++ body.encode).length) ++
      (h.fields ++ body.encode ++ rest.encode))

def Terms.append : Terms → Terms → Terms
  | .nil, u => u
  | .leaf l rest, u => .leaf l (rest.append u)
  | .node h k body rest, u => .node h k body (rest.append u)

def Leaf.Fits : Leaf → Prop
  | .const w v => v < 256 ^ w.bytes
  | .name p => p.Fits
  | .ret => True
  | .ref p => p.Fits
  | .buffer k w bytes => bytes.length < 256 ^ w.bytes ∧
      LengthFits k (k + 1 + (bufferContent w bytes).length)

def Header.Fits : Header → Prop
  | .scope p => p.Fits
  | .package _ => True
  | .method p _ => p.Fits
  | .processor p _ addr _ => p.Fits ∧ addr < 256 ^ 4

/-- All numbers and lengths fit into their bytes. -/
def Terms.Fits : Terms → Prop
  | .nil => True
  | .leaf l rest => l.Fits ∧ rest.Fits
  | .node h k body rest => h.Fits ∧ LengthFits k (k + 1 + (h.fields ++ body.encode).length) ∧
      body.Fits ∧ rest.Fits

/-- All objects are at most `max` bytes long, counted from their length. -/
def Terms.Within (max : ℕ) : Terms → Prop
  | .nil => True
  | .leaf (.buffer k w bytes) rest =>
    k + 1 + (bufferContent w bytes).length ≤ max ∧ rest.Within max
  | .leaf _ rest => rest.Within max
  | .node h k body rest => k + 1 + (h.fields ++ body.encode).length ≤ max ∧ body.Within max ∧
      rest.Within max

lemma encode_append (t u : Terms) : (t.append u).encode = t.encode ++ u.encode := by
  induction t with
  | nil => rfl
  | leaf l rest ih => rw [Terms.append, Terms.encode, Terms.encode, ih, List.append_assoc]
  | node h k body rest _ ih =>
    simp only [Terms.append, Terms.encode, ih, List.append_assoc]

lemma fits_append {t u : Terms} : (t.append u).Fits ↔ t.Fits ∧ u.Fits := by
  induction t with
  | nil => exact (true_and _).symm ▸ Iff.rfl
  | leaf l rest ih => rw [Terms.append, Terms.Fits, Terms.Fits, ih, and_assoc]
  | node h k body rest _ ih => rw [Terms.append, Terms.Fits, Terms.Fits, ih]; tauto

lemma within_append {t u : Terms} {max : ℕ} :
    (t.append u).Within max ↔ t.Within max ∧ u.Within max := by
  induction t with
  | nil => exact (true_and _).symm ▸ Iff.rfl
  | leaf l rest ih =>
    cases l with
    | buffer k w bytes => rw [Terms.append, Terms.Within, Terms.Within, ih, and_assoc]
    | _ => exact ih
  | node h k body rest _ ih => rw [Terms.append, Terms.Within, Terms.Within, ih]; tauto

/-- The bytes are these terms, one after the other, and each length in them is read as the number of
bytes from there to the end of its object. -/
def Terms.Delimited : Terms → List UInt8 → Prop
  | .nil, bs => bs = []
  | .leaf (.buffer k w bytes) rest, bs => ∃ object more,
      bs = 0x11 :: (object ++ more) ∧ readPkgLength (object ++ more) = some (k, object.length) ∧
      object.drop (k + 1) = bufferContent w bytes ∧ rest.Delimited more
  | .leaf l rest, bs => ∃ more, bs = l.encode ++ more ∧ rest.Delimited more
  | .node h k body rest, bs => ∃ object content more,
      bs = h.opcode ++ (object ++ more) ∧ readPkgLength (object ++ more) = some (k, object.length) ∧
      object.drop (k + 1) = h.fields ++ content ∧ body.Delimited content ∧ rest.Delimited more

lemma delimited_encode {t : Terms} (h : t.Fits) : t.Delimited t.encode := by
  have hobject : ∀ k (content : List UInt8),
      (pkgLength k (k + 1 + content.length) ++ content).length = k + 1 + content.length :=
    fun k content => by rw [List.length_append, length_pkgLength]
  induction t with
  | nil => rfl
  | leaf l rest ih =>
    cases l with
    | buffer k w bytes =>
      refine ⟨pkgLength k (k + 1 + (bufferContent w bytes).length) ++ bufferContent w bytes,
        rest.encode, rfl, ?_, List.drop_left' length_pkgLength, ih h.2⟩
      rw [hobject, List.append_assoc, readPkgLength_append h.1.2]
    | _ => exact ⟨rest.encode, rfl, ih h.2⟩
  | node hd k body rest ihbody ih =>
    refine ⟨pkgLength k (k + 1 + (hd.fields ++ body.encode).length) ++ (hd.fields ++ body.encode),
      body.encode, rest.encode, ?_, ?_, List.drop_left' length_pkgLength, ihbody h.2.2.1,
      ih h.2.2.2⟩
    · rw [Terms.encode, List.append_assoc (pkgLength _ _)]
    · rw [hobject, List.append_assoc, readPkgLength_append h.2.1]

/-! ### Reading terms -/

def readSize (b : UInt8) : Option Size :=
  if b = 0x0a then some .byte
  else if b = 0x0b then some .word
  else if b = 0x0c then some .dword
  else if b = 0x0e then some .qword
  else none

def readConst (bs : List UInt8) : Option (Size × ℕ × List UInt8) :=
  (readSize (bs.headD 0)).bind fun w =>
    if w.bytes ≤ bs.tail.length then
      some (w, ofLe (bs.tail.take w.bytes), bs.tail.drop w.bytes)
    else none

/-- The object that starts behind the opcode `0x11`. -/
def readBuffer (bs : List UInt8) : Option (Leaf × List UInt8) :=
  (readPackage bs).bind fun r => (readConst r.2.1).bind fun c =>
    if c.2.1 = c.2.2.length then some (.buffer r.1 c.1 c.2.2, r.2.2) else none

def readScope (content : List UInt8) : Option (Header × List UInt8) :=
  (readName content).map fun r => (.scope r.1, r.2)

def readElements : List UInt8 → Option (Header × List UInt8)
  | [] => none
  | count :: body => some (.package count, body)

def readMethod (content : List UInt8) : Option (Header × List UInt8) :=
  (readName content).bind fun r =>
    r.2.head?.map fun flags => (.method r.1 flags, r.2.tail)

def readProcessor (content : List UInt8) : Option (Header × List UInt8) :=
  (readName content).bind fun r => match r.2 with
    | id :: a :: b :: c :: d :: len :: body =>
      some (.processor r.1 id (ofLe [a, b, c, d]) len, body)
    | _ => none

/-- One term: a leaf, or an object with the bytes inside it. -/
inductive Item
  | leaf (l : Leaf)
  | node (h : Header) (k : ℕ) (body : List UInt8)

def readNode (read : List UInt8 → Option (Header × List UInt8)) (bs : List UInt8) :
    Option (Item × List UInt8) :=
  (readPackage bs).bind fun r => (read r.2.1).map fun h => (.node h.1 r.1 h.2, r.2.2)

def readItem : List UInt8 → Option (Item × List UInt8)
  | [] => none
  | b :: bs =>
    if (readSize b).isSome then (readConst (b :: bs)).map fun r => (.leaf (.const r.1 r.2.1), r.2.2)
    else if b = 0x08 then (readName bs).map fun r => (.leaf (.name r.1), r.2)
    else if b = 0xa4 then some (.leaf .ret, bs)
    else if b = 0x11 then (readBuffer bs).map fun r => (.leaf r.1, r.2)
    else if b = 0x10 then readNode readScope bs
    else if b = 0x12 then readNode readElements bs
    else if b = 0x14 then readNode readMethod bs
    else if b = 0x5b then (if bs.headD 0 = 0x83 then readNode readProcessor bs.tail else none)
    else (readName (b :: bs)).map fun r => (.leaf (.ref r.1), r.2)

/-- Splits the bytes into terms, and the objects among them into the terms inside. -/
def parse : ℕ → List UInt8 → Option Terms
  | _, [] => some .nil
  | 0, _ :: _ => none
  | fuel + 1, b :: bs => (readItem (b :: bs)).bind fun r => match r.1 with
    | .leaf l => (parse fuel r.2).map (.leaf l)
    | .node h k body => (parse fuel body).bind fun t => (parse fuel r.2).map (.node h k t)

lemma readSize_opcode (w : Size) : readSize w.opcode = some w := by
  cases w <;> rfl

lemma readConst_append {w : Size} (h : v < 256 ^ w.bytes) :
    readConst (w.opcode :: (leBytes w.bytes v ++ rest)) = some (w, v, rest) := by
  rw [readConst, List.headD_cons, readSize_opcode, Option.bind_some, List.tail_cons,
    if_pos (by simp), List.take_left' length_leBytes, List.drop_left' length_leBytes,
    ofLe_leBytes h]

lemma readBuffer_append {w : Size} {bytes : List UInt8} (h : bytes.length < 256 ^ w.bytes)
    (hk : LengthFits k (k + 1 + (bufferContent w bytes).length)) :
    readBuffer (pkgLength k (k + 1 + (bufferContent w bytes).length) ++
      (bufferContent w bytes ++ rest)) = some (.buffer k w bytes, rest) := by
  rw [readBuffer, readPackage_append hk, Option.bind_some]
  dsimp only
  rw [bufferContent, List.cons_append, readConst_append h, Option.bind_some]
  exact if_pos rfl

/-- A byte with which a name starts. -/
private lemma readItem_name {p : NameString} (h : p.Fits) :
    readItem (p.encode ++ rest) = (readName (p.encode ++ rest)).map
      fun r => (.leaf (.ref r.1), r.2) := by
  have hlead : ∀ b : UInt8, b ≠ 0x5f → b < 0x41 ∨ 0x5a < b → b ≠ 0x2e → b ≠ 0x2f → b ≠ 0x5c →
      b ≠ 0x5e → (p.encode ++ rest).head? ≠ some b := by
    intro b h₁ h₂ h₃ h₄ h₅ h₆
    obtain ⟨root, parents, segs⟩ := p
    cases root with
    | true => simpa [NameString.encode] using Ne.symm h₅
    | false =>
      cases parents with
      | zero => exact encodeSegs_head segs h.1 h₁ h₂ h₃ h₄
      | succ n => simpa [NameString.encode, List.replicate_succ] using Ne.symm h₆
  generalize p.encode ++ rest = bs at hlead ⊢
  cases bs with
  | nil => rfl
  | cons b bs =>
    have hne : ∀ c : UInt8, c ≠ 0x5f → c < 0x41 ∨ 0x5a < c → c ≠ 0x2e → c ≠ 0x2f → c ≠ 0x5c →
        c ≠ 0x5e → b ≠ c := fun c h₁ h₂ h₃ h₄ h₅ h₆ hb =>
      hlead c h₁ h₂ h₃ h₄ h₅ h₆ (by rw [hb]; rfl)
    have hsize : readSize b = none := by
      unfold readSize
      rw [if_neg (hne _ (by decide) (by decide) (by decide) (by decide) (by decide) (by decide)),
        if_neg (hne _ (by decide) (by decide) (by decide) (by decide) (by decide) (by decide)),
        if_neg (hne _ (by decide) (by decide) (by decide) (by decide) (by decide) (by decide)),
        if_neg (hne _ (by decide) (by decide) (by decide) (by decide) (by decide) (by decide))]
    rw [readItem, hsize]
    rw [if_neg (by simp),
      if_neg (hne _ (by decide) (by decide) (by decide) (by decide) (by decide) (by decide)),
      if_neg (hne _ (by decide) (by decide) (by decide) (by decide) (by decide) (by decide)),
      if_neg (hne _ (by decide) (by decide) (by decide) (by decide) (by decide) (by decide)),
      if_neg (hne _ (by decide) (by decide) (by decide) (by decide) (by decide) (by decide)),
      if_neg (hne _ (by decide) (by decide) (by decide) (by decide) (by decide) (by decide)),
      if_neg (hne _ (by decide) (by decide) (by decide) (by decide) (by decide) (by decide)),
      if_neg (hne _ (by decide) (by decide) (by decide) (by decide) (by decide) (by decide))]

lemma readItem_leaf {l : Leaf} (h : l.Fits) : readItem (l.encode ++ rest) = some (.leaf l, rest) := by
  cases l with
  | const w v =>
    rw [Leaf.encode, List.cons_append, readItem, readSize_opcode, if_pos Option.isSome_some,
      readConst_append h]
    rfl
  | name p =>
    rw [Leaf.encode, List.cons_append, readItem, readName_append p h]
    rfl
  | ret => rfl
  | ref p =>
    rw [Leaf.encode, readItem_name h, readName_append p h]
    rfl
  | buffer k w bytes =>
    have hread := @readBuffer_append rest _ _ _ h.1 h.2
    rw [← List.append_assoc] at hread
    rw [Leaf.encode, List.cons_append, List.cons_append, readItem, hread]
    rfl

lemma readItem_node {h : Header} (hh : h.Fits) {body : List UInt8}
    (hk : LengthFits k (k + 1 + (h.fields ++ body).length)) :
    readItem (h.opcode ++ (pkgLength k (k + 1 + (h.fields ++ body).length) ++
      (h.fields ++ body ++ rest))) = some (.node h k body, rest) := by
  have hpackage := @readPackage_append rest _ _ hk
  generalize pkgLength k (k + 1 + (h.fields ++ body).length) ++ (h.fields ++ body ++ rest) = bs
    at hpackage ⊢
  cases h with
  | scope p =>
    change readNode readScope bs = _
    rw [readNode, hpackage, Option.bind_some]
    dsimp only
    rw [readScope, Header.fields, readName_append p hh]
    rfl
  | package count =>
    change readNode readElements bs = _
    rw [readNode, hpackage]
    rfl
  | method p flags =>
    change readNode readMethod bs = _
    rw [readNode, hpackage, Option.bind_some]
    dsimp only
    rw [readMethod, Header.fields, List.append_assoc, readName_append p hh]
    rfl
  | processor p id addr len =>
    have haddr : ofLe (leBytes 4 addr) = addr := ofLe_leBytes hh.2
    change readNode readProcessor bs = _
    rw [readNode, hpackage, Option.bind_some]
    dsimp only
    rw [readProcessor, Header.fields, List.append_assoc, readName_append p hh.1, Option.bind_some]
    simp only [leBytes] at haddr ⊢
    simp only [List.cons_append, List.nil_append, haddr]
    rfl

lemma Leaf.encode_ne_nil {l : Leaf} (h : l.Fits) : l.encode ≠ [] := by
  intro hnil
  have hread := @readItem_leaf [] _ h
  rw [hnil] at hread
  cases hread

lemma Header.opcode_ne_nil (h : Header) : h.opcode ≠ [] := by
  cases h <;> simp [opcode]

lemma parse_eq {fuel : ℕ} (hbs : bs ≠ []) : parse (fuel + 1) bs = (readItem bs).bind fun r =>
    match r.1 with
    | .leaf l => (parse fuel r.2).map (.leaf l)
    | .node h k body => (parse fuel body).bind fun t => (parse fuel r.2).map (.node h k t) := by
  cases bs with
  | nil => exact absurd rfl hbs
  | cons b bs => rfl

/-- What was encoded is split into the same terms. -/
theorem parse_encode {t : Terms} (h : t.Fits) {fuel : ℕ} (hfuel : t.encode.length ≤ fuel) :
    parse fuel t.encode = some t := by
  induction t generalizing fuel with
  | nil => cases fuel <;> rfl
  | leaf l rest ih =>
    have hne := Leaf.encode_ne_nil h.1
    have hpos := List.length_pos_of_ne_nil hne
    rw [Terms.encode, List.length_append] at hfuel
    obtain ⟨fuel, rfl⟩ : ∃ n, fuel = n + 1 := ⟨fuel - 1, by omega⟩
    rw [Terms.encode, parse_eq (by simp [hne]), readItem_leaf h.1, Option.bind_some]
    dsimp only
    rw [ih h.2 (show rest.encode.length ≤ fuel by omega)]
    rfl
  | node hd k body rest ihbody ih =>
    have hne := hd.opcode_ne_nil
    have hpos := List.length_pos_of_ne_nil hne
    simp only [Terms.encode, List.length_append] at hfuel
    obtain ⟨fuel, rfl⟩ : ∃ n, fuel = n + 1 := ⟨fuel - 1, by omega⟩
    rw [Terms.encode, parse_eq (by simp [hne]), readItem_node h.1 h.2.1, Option.bind_some]
    dsimp only
    rw [ihbody h.2.2.1 (show body.encode.length ≤ fuel by omega), Option.bind_some,
      ih h.2.2.2 (show rest.encode.length ≤ fuel by omega)]
    rfl

end Aml
