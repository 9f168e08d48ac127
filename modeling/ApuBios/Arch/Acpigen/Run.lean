import ApuBios.Arch.Acpigen.Packages
import ApuBios.Library.Aml

/-!
# Running generators

While objects are open, what was emitted consists of pieces with two bytes between them that are
stored later. A generator either appends bytes to the last piece, opens an object, or closes one.
-/

namespace ApuBios.Acpigen

open Aml

variable {α β : Type} {s : State} {F : List (List UInt8)} {p q b b' : List UInt8} {d d' n : ℕ}

/-! ### Steps -/

@[simp] lemma bind_apply (g : Gen α) (f : α → Gen β) (s : State) :
    (g >>= f) s = (g s).bind fun r => f r.1 r.2 := rfl

@[simp] lemma pure_apply (a : α) (s : State) : (pure a : Gen α) s = some (a, s) := rfl

/-- Behind the state `s`, the pieces `F` have been emitted, the last one first, each with an open
length behind it, and then `p`. -/
def State.at (s : State) : List (List UInt8) → List UInt8 → State
  | [], p => { s with out := s.out ++ p }
  | q :: F, p => ⟨(s.at F q).out ++ 0 :: 0 :: p, (s.at F q).out.length :: (s.at F q).lenStack⟩

@[simp] lemma at_nil : s.at [] [] = s := by
  rw [State.at, List.append_nil]

lemma out_at : (s.at F (p ++ b)).out = (s.at F p).out ++ b := by
  cases F <;> simp [State.at]

lemma lenStack_at : (s.at F (p ++ b)).lenStack = (s.at F p).lenStack := by
  cases F <;> rfl

@[simp] lemma length_lenStack_at : (s.at F p).lenStack.length = s.lenStack.length + F.length := by
  induction F generalizing p with
  | nil => rfl
  | cons q F ih =>
    rw [State.at, List.length_cons, ih, List.length_cons]
    rfl

lemma append_at : ⟨(s.at F p).out ++ b, (s.at F p).lenStack⟩ = s.at F (p ++ b) := by
  rw [← out_at, ← lenStack_at (b := b)]

lemma emitByte_at (c : UInt8) : acpigenEmitByte c (s.at F p) = some (1, s.at F (p ++ [c])) :=
  congrArg (fun t => some (1, t)) append_at

lemma writeLenF_at (h : s.lenStack.length + F.length < 9) :
    acpigenWriteLenF (s.at F p) = some (2, s.at (p :: F) []) := by
  have hpush : pushCurrent (s.at F p) = some ((), ⟨(s.at F p).out,
      (s.at F p).out.length :: (s.at F p).lenStack⟩) := by
    refine if_pos ?_
    rw [length_lenStack_at]
    exact h.trans (by decide)
  simp only [acpigenWriteLenF, bind_apply, Option.bind_some, hpush, acpigenEmitByte, pure_apply,
    List.append_assoc]
  rfl

/-- Storing the two bytes of the last open length. -/
lemma poke_poke_at (c c' : UInt8) : (((s.at (p :: F) q).out.set (s.at F p).out.length c).set
    ((s.at F p).out.length + 1) c') = (s.at F (p ++ c :: c' :: q)).out := by
  rw [out_at, State.at, List.set_append_right _ _ le_rfl, Nat.sub_self, List.set_cons_zero,
    List.set_append_right _ _ (Nat.le_succ _), Nat.succ_sub le_rfl, Nat.sub_self]
  rfl

lemma patchLen_at (h : n ≤ ACPIGEN_MAXLEN) :
    acpigenPatchLen n (s.at (p :: F) q) = some ((), s.at F (p ++ (pkgLength 1 n ++ q))) := by
  have hmax : ACPIGEN_MAXLEN = 0xfff := rfl
  have hpop : popLen (s.at (p :: F) q) =
      some ((s.at F p).out.length, ⟨(s.at (p :: F) q).out, (s.at F p).lenStack⟩) := rfl
  have hlow : 0x40 ||| (n &&& 0xf) = 64 * 1 + n % 16 := by
    rw [show (0xf : ℕ) = 2 ^ 4 - 1 from rfl, Nat.and_two_pow_sub_one_eq_mod]
    exact Nat.two_pow_add_eq_or_of_lt (show n % 16 < 2 ^ 6 by omega) 1 |>.symm
  have hhigh : UInt8.ofNat (n >>> 4 &&& 0xff) = UInt8.ofNat (n / 16) := by
    rw [show (0xff : ℕ) = 2 ^ 8 - 1 from rfl, Nat.and_two_pow_sub_one_eq_mod,
      Nat.shiftRight_eq_div_pow, Nat.mod_eq_of_lt (by omega)]
  simp only [acpigenPatchLen, bind_apply, Option.bind_some, hpop, poke]
  rw [poke_poke_at, hlow, hhigh, ← lenStack_at (b := pkgLength 1 n ++ q)]
  rfl

/-! ### Appending -/

/-- With room for `d` more lengths on the stack, the generator appends the bytes and returns `r`. -/
def Appends (d : ℕ) (g : Gen α) (b : List UInt8) (r : α) : Prop :=
  ∀ s, (0 < d → s.lenStack.length + d ≤ 9) → g s = some (r, ⟨s.out ++ b, s.lenStack⟩)

variable {g : Gen α} {f : α → Gen β} {r : α} {r' : β}

lemma Appends.at (h : Appends d g b r) (hs : s.lenStack.length + F.length + d ≤ 9) :
    g (s.at F p) = some (r, s.at F (p ++ b)) := by
  rw [h _ fun _ => by rwa [length_lenStack_at], append_at]

/-- A generator that opens no object does not need room. -/
lemma Appends.at_zero (h : Appends 0 g b r) : g (s.at F p) = some (r, s.at F (p ++ b)) := by
  rw [h _ fun h => absurd h (lt_irrefl 0), append_at]

lemma Appends.mono (h : Appends d g b r) (hd : d ≤ d') : Appends d' g b r :=
  fun s hs => h s fun hpos => by
    have := hs (hpos.trans_le hd)
    omega

lemma appends_pure (r : α) : Appends 0 (pure r) [] r := fun s _ => by
  rw [pure_apply, List.append_nil]

lemma appends_emitByte (c : UInt8) : Appends 0 (acpigenEmitByte c) [c] 1 := fun _ _ => rfl

lemma Appends.bind (h : Appends d g b r) (h' : Appends d (f r) b' r') :
    Appends d (g >>= f) (b ++ b') r' := fun s hs => by
  rw [bind_apply, h s hs, Option.bind_some, h' ⟨s.out ++ b, s.lenStack⟩ hs, List.append_assoc]

lemma emitStream_appends (data : List UInt8) (n : ℕ) :
    Appends 0 (acpigenEmitStream data n) (data.take n) n := by
  have hloop : ∀ bs : List UInt8, Appends 0 (bs.forM fun b => do
      let _ ← acpigenEmitByte b) bs () := by
    intro bs
    induction bs with
    | nil => exact appends_pure ()
    | cons c bs ih =>
      have hfirst : Appends 0 (do let _ ← acpigenEmitByte c) ([c] ++ []) () :=
        Appends.bind (appends_emitByte c) (appends_pure ())
      exact Appends.bind (b := [c]) hfirst ih
  have h : Appends 0 (acpigenEmitStream data n) (data.take n ++ []) n :=
    Appends.bind (hloop _) (appends_pure n)
  rwa [List.append_nil] at h

/-- The mask of a byte does not matter. -/
@[simp] lemma ofNat_and_0xff (v : ℕ) : UInt8.ofNat (v &&& 0xff) = UInt8.ofNat v := by
  rw [show (0xff : ℕ) = 2 ^ 8 - 1 from rfl, Nat.and_two_pow_sub_one_eq_mod]
  exact UInt8.ofNat_mod_size

lemma emitDword_appends (v : ℕ) : Appends 0 (emitDword v) (leBytes 4 v) () := by
  have hbytes : leBytes 4 v = [UInt8.ofNat (v &&& 0xff)] ++ ([UInt8.ofNat (v >>> 8 &&& 0xff)] ++
      ([UInt8.ofNat (v >>> 16 &&& 0xff)] ++ ([UInt8.ofNat (v >>> 24 &&& 0xff)] ++ []))) := by
    simp only [ofNat_and_0xff, leBytes, Nat.shiftRight_eq_div_pow, Nat.div_div_eq_div_mul]
    rfl
  rw [hbytes]
  exact Appends.bind (appends_emitByte _) (Appends.bind (appends_emitByte _)
    (Appends.bind (appends_emitByte _) (Appends.bind (appends_emitByte _) (appends_pure ()))))

/-- A generator of bytes that returns their number. -/
def Emits (d : ℕ) (g : Gen ℕ) (b : List UInt8) : Prop := Appends d g b b.length

/-- The lengths of two generators are added. -/
lemma Emits.add {g g' : Gen ℕ} (h : Emits d g b) (h' : Emits d g' b') : Emits d (do
    let n ← g
    let k ← g'
    return n + k) (b ++ b') := by
  have hsum : Appends d (g >>= fun n => g' >>= fun k => pure (n + k)) (b ++ (b' ++ []))
      (b.length + b'.length) :=
    Appends.bind h (Appends.bind h' (Appends.mono (appends_pure _) (Nat.zero_le d)))
  rw [List.append_nil] at hsum
  rwa [Emits, List.length_append]

lemma emitByte_emits (c : UInt8) : Emits 0 (acpigenEmitByte c) [c] := appends_emitByte c

lemma writeByte_emits (v : ℕ) :
    Emits 0 (acpigenWriteByte v) (0x0a :: leBytes 1 (v % 256 ^ 1)) := by
  have hbytes : (0x0a :: leBytes 1 (v % 256 ^ 1) : List UInt8) =
      [0x0a] ++ ([UInt8.ofNat (v &&& 0xff)] ++ []) := by
    rw [leBytes_mod, ofNat_and_0xff]
    rfl
  unfold Emits
  rw [hbytes]
  exact Appends.bind (appends_emitByte _) (Appends.bind (appends_emitByte _) (appends_pure 2))

lemma writeDword_emits (v : ℕ) :
    Emits 0 (acpigenWriteDword v) (0x0c :: leBytes 4 (v % 256 ^ 4)) := by
  have hbytes : (0x0c :: leBytes 4 (v % 256 ^ 4) : List UInt8) = [0x0c] ++ (leBytes 4 v ++ []) := by
    rw [leBytes_mod, List.append_nil, List.singleton_append]
  unfold Emits
  rw [hbytes]
  exact Appends.bind (appends_emitByte _) (Appends.bind (emitDword_appends v) (appends_pure 5))

lemma writeQword_emits (v : ℕ) :
    Emits 0 (acpigenWriteQword v) (0x0e :: leBytes 8 (v % 256 ^ 8)) := by
  have hbytes : (0x0e :: leBytes 8 (v % 256 ^ 8) : List UInt8) =
      ([0x0e] : List UInt8) ++ (leBytes 4 v ++ (leBytes 4 (v >>> 32) ++ [])) := by
    rw [leBytes_mod, List.append_nil, List.singleton_append, leBytes_add 4 4,
      Nat.shiftRight_eq_div_pow]
    norm_num
  unfold Emits
  rw [hbytes]
  exact Appends.bind (appends_emitByte _) (Appends.bind (emitDword_appends v)
    (Appends.bind (emitDword_appends _) (appends_pure 9)))

lemma Emits.mono {g : Gen ℕ} (h : Emits d g b) (hd : d ≤ d') : Emits d' g b := Appends.mono h hd

lemma getCurrent_appends {g : Gen Unit} (h : Appends d g b ()) : Emits d (do
    let start ← acpigenGetCurrent
    g
    let stop ← acpigenGetCurrent
    return stop - start) b := fun s hs => by
  simp only [acpigenGetCurrent, bind_apply, Option.bind_some, h s hs, pure_apply]
  rw [List.length_append, Nat.add_sub_cancel_left]

/-! ### Objects -/

/-- The generator writes the opcode of an object, leaves room for its length and writes what stands
between the length and the terms inside. -/
def Opens (g : Gen ℕ) (h : Header) : Prop :=
  ∀ (s : State) F p, s.lenStack.length + F.length < 9 → g (s.at F p) =
    some (h.opcode.length + 2 + h.fields.length, s.at ((p ++ h.opcode) :: F) h.fields)

/-- An object with what `body` generates inside; its length is stored when it is complete. -/
def block (opener : Gen ℕ) (opcodeLength : ℕ) (body : Gen ℕ) : Gen ℕ := do
  let len ← opener
  let k ← body
  acpigenPatchLen (len + k - opcodeLength)
  return len + k

lemma encode_node (h : Header) (t : Terms) : (Terms.node h 1 t .nil).encode =
    h.opcode ++ (pkgLength 1 (1 + 1 + (h.fields ++ t.encode).length) ++ (h.fields ++ t.encode)) := by
  rw [Terms.encode, Terms.encode, List.append_nil]

theorem Opens.block {opener body : Gen ℕ} {h : Header} {t : Terms} (ho : Opens opener h)
    (hb : Emits d body t.encode) (hfits : 2 + (h.fields ++ t.encode).length ≤ ACPIGEN_MAXLEN) :
    Emits (d + 1) (block opener h.opcode.length body) (Terms.node h 1 t .nil).encode := by
  intro s hs
  have hd := hs (Nat.succ_pos d)
  have hopen := ho s [] [] (by rw [List.length_nil]; omega)
  have hbody : body (s.at [h.opcode] h.fields) =
      some (t.encode.length, s.at [h.opcode] (h.fields ++ t.encode)) :=
    Appends.at hb (by rw [List.length_singleton]; omega)
  have hlen : h.opcode.length + 2 + h.fields.length + t.encode.length - h.opcode.length =
      1 + 1 + (h.fields ++ t.encode).length := by
    rw [List.length_append]
    omega
  rw [at_nil, List.nil_append] at hopen
  simp only [Acpigen.block, bind_apply, hopen, Option.bind_some, hbody, hlen, patchLen_at hfits,
    pure_apply]
  rw [encode_node]
  simp only [List.length_append, length_pkgLength]
  congr 2
  omega

lemma writePackage_opens (nrEl : ℕ) :
    Opens (acpigenWritePackage nrEl) (.package (UInt8.ofNat nrEl)) := fun s F p hs => by
  simp only [acpigenWritePackage, bind_apply, emitByte_at, Option.bind_some, writeLenF_at hs,
    List.nil_append, pure_apply]
  rfl

/-! ### Resource templates -/

def template (items : Gen ℕ) : Gen ℕ := do
  let len ← acpigenWriteResourcetemplateHeader
  let k ← items
  let footer ← acpigenWriteResourcetemplateFooter (len + k)
  return len + k + footer

lemma writeResourcetemplateHeader_at (hs : s.lenStack.length + F.length < 9) :
    acpigenWriteResourcetemplateHeader (s.at F p) =
      some (6, s.at ([0x0b] :: (p ++ [0x11]) :: F) []) := by
  have hpush : pushCurrent (s.at ((p ++ [0x11]) :: F) [0x0b]) =
      some ((), ⟨(s.at ((p ++ [0x11]) :: F) [0x0b]).out,
        (s.at ((p ++ [0x11]) :: F) [0x0b]).out.length ::
          (s.at ((p ++ [0x11]) :: F) [0x0b]).lenStack⟩) := by
    refine if_pos ?_
    rw [length_lenStack_at, List.length_cons]
    exact Nat.succ_lt_succ hs
  have hemit : ∀ o l, acpigenEmitByte 0 ⟨o, l⟩ = some (1, ⟨o ++ [0], l⟩) := fun _ _ => rfl
  simp only [acpigenWriteResourcetemplateHeader, bind_apply, emitByte_at, Option.bind_some,
    writeLenF_at hs, List.nil_append, hpush, hemit, pure_apply, List.append_assoc]
  rfl

/-- The two bytes of a word. -/
lemma word_bytes (n : ℕ) : [UInt8.ofNat (n &&& 0xff), UInt8.ofNat (n >>> 8 &&& 0xff)] =
    leBytes 2 n := by
  rw [ofNat_and_0xff, ofNat_and_0xff, Nat.shiftRight_eq_div_pow]
  rfl

lemma writeResourcetemplateFooter_at (hfits : q.length + 7 ≤ ACPIGEN_MAXLEN) :
    acpigenWriteResourcetemplateFooter (6 + q.length) (s.at ([0x0b] :: (p ++ [0x11]) :: F) q) =
      some (2, s.at F (p ++ (Leaf.buffer 1 .word (q ++ [0x79, 0x00])).encode)) := by
  have hpop : popLen (s.at ([0x0b] :: (p ++ [0x11]) :: F) q) =
      some ((s.at ((p ++ [0x11]) :: F) [0x0b]).out.length,
        ⟨(s.at ([0x0b] :: (p ++ [0x11]) :: F) q).out,
          (s.at ((p ++ [0x11]) :: F) [0x0b]).lenStack⟩) := rfl
  have hemit : ∀ c o l, acpigenEmitByte c ⟨o, l⟩ = some (1, ⟨o ++ [c], l⟩) := fun _ _ _ => rfl
  have hout : (s.at ([0x0b] :: (p ++ [0x11]) :: F) q).out ++ [0x79] ++ [0x00] =
      (s.at ([0x0b] :: (p ++ [0x11]) :: F) (q ++ [0x79, 0x00])).out := by
    rw [out_at, List.append_assoc]
    rfl
  have hlen : 6 + q.length + 1 + 1 - 6 = q.length + 2 := by omega
  have hlen' : 6 + q.length + 1 + 1 - 1 = q.length + 7 := by omega
  have hcontent : ([0x0b] : List UInt8) ++ UInt8.ofNat (q.length + 2 &&& 0xff) ::
      UInt8.ofNat ((q.length + 2) >>> 8 &&& 0xff) :: (q ++ [0x79, 0x00]) =
        bufferContent .word (q ++ [0x79, 0x00]) := by
    have hword := word_bytes (q.length + 2)
    rw [bufferContent, List.length_append, show ([0x79, 0x00] : List UInt8).length = 2 from rfl,
      show Size.bytes .word = 2 from rfl, ← hword]
    rfl
  have hpatch : acpigenPatchLen (q.length + 7) (s.at ((p ++ [0x11]) :: F)
      (bufferContent .word (q ++ [0x79, 0x00]))) = _ := patchLen_at hfits
  simp only [acpigenWriteResourcetemplateFooter, bind_apply, hpop, Option.bind_some, hemit, poke,
    hout, hlen, hlen', poke_poke_at, pure_apply]
  rw [← lenStack_at (b := UInt8.ofNat (q.length + 2 &&& 0xff) ::
    UInt8.ofNat ((q.length + 2) >>> 8 &&& 0xff) :: (q ++ [0x79, 0x00])), hcontent, hpatch]
  have hlength : (bufferContent .word (q ++ [0x79, 0x00])).length = q.length + 5 := by
    rw [← hcontent]
    simp
  rw [Leaf.encode, hlength, List.append_assoc, show 1 + 1 + (q.length + 5) = q.length + 7 by omega]
  rfl

theorem Emits.template {items : Gen ℕ} (h : Emits 0 items q)
    (hfits : q.length + 7 ≤ ACPIGEN_MAXLEN) :
    Emits 1 (template items) (Leaf.buffer 1 .word (q ++ [0x79, 0x00])).encode := by
  intro s hs
  have hd := hs Nat.one_pos
  have hheader := writeResourcetemplateHeader_at (s := s) (F := []) (p := []) (by
    rw [List.length_nil]
    omega)
  have hitems : items (s.at [[0x0b], [0x11]] []) = some (q.length, s.at [[0x0b], [0x11]] q) :=
    Appends.at_zero h
  have hfooter := writeResourcetemplateFooter_at (s := s) (F := []) (p := []) hfits
  have hlength : (Leaf.buffer 1 .word (q ++ [0x79, 0x00])).encode.length = 6 + q.length + 2 := by
    simp [Leaf.encode, bufferContent, Size.bytes]
    omega
  rw [at_nil] at hheader
  simp only [List.nil_append] at hheader hfooter
  simp only [Acpigen.template, bind_apply, hheader, Option.bind_some, hitems, hfooter, pure_apply]
  rw [hlength]
  rfl

end ApuBios.Acpigen
