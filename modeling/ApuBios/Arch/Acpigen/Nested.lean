import ApuBios.Arch.Acpigen.Properties

/-!
# Reading what was generated

A well-nested use returns the number of the bytes that it appends, and a reader that goes by the
lengths in these bytes finds the terms of the use.
-/

namespace ApuBios.Acpigen

open Aml

variable {t u : Terms} {s : State}

/-! ### Terms fit -/

/-- Everything but the lengths fits, and the lengths are stored in two bytes. -/
def TwoByte : Terms → Prop
  | .nil => True
  | .leaf (.buffer k w _) rest => k = 1 ∧ w = .word ∧ TwoByte rest
  | .leaf l rest => l.Fits ∧ TwoByte rest
  | .node h k body rest => h.Fits ∧ k = 1 ∧ TwoByte body ∧ TwoByte rest

lemma twoByte_append (ht : TwoByte t) (hu : TwoByte u) : TwoByte (t.append u) := by
  induction t with
  | nil => exact hu
  | leaf l rest ih =>
    cases l with
    | buffer k w bytes => exact ⟨ht.1, ht.2.1, ih ht.2.2⟩
    | _ => exact ⟨ht.1, ih ht.2⟩
  | node h k body rest _ ih => exact ⟨ht.1, ht.2.1, ht.2.2.1, ih ht.2.2.2⟩

/-- A length of at most 0xfff fits into two bytes. -/
lemma TwoByte.fits (ht : TwoByte t) (hmax : t.Within ACPIGEN_MAXLEN) : t.Fits := by
  have hlength : ∀ n ≤ ACPIGEN_MAXLEN, LengthFits 1 n := fun n hn =>
    ⟨by decide, lt_of_le_of_lt hn (by decide)⟩
  induction t with
  | nil => trivial
  | leaf l rest ih =>
    cases l with
    | buffer k w bytes =>
      obtain ⟨rfl, rfl, hrest⟩ := ht
      have hbytes : bytes.length < 256 ^ 2 := by
        have h : 1 + 1 + (bufferContent .word bytes).length ≤ 0xfff := hmax.1
        rw [bufferContent, List.length_append] at h
        omega
      exact ⟨⟨hbytes, hlength _ hmax.1⟩, ih hrest hmax.2⟩
    | _ => exact ⟨ht.1, ih ht.2 hmax⟩
  | node h k body rest ihbody ih =>
    obtain ⟨hh, rfl, hbody, hrest⟩ := ht
    exact ⟨hh, hlength _ hmax.1, ihbody hbody hmax.2.1, ih hrest hmax.2.2⟩

lemma twoByte_const (w : Size) (v : ℕ) : TwoByte (const w v) :=
  ⟨Nat.mod_lt _ (Nat.pow_pos (by decide)), trivial⟩

lemma twoByte_named (path : NamePath) : TwoByte (named path) := ⟨path.string_fits, trivial⟩

lemma twoByte_ref (path : NamePath) : TwoByte (.leaf (.ref path.string) .nil) :=
  ⟨path.string_fits, trivial⟩

lemma twoByte_template (items : List ResourceItem) : TwoByte (templateTerms items) :=
  ⟨rfl, rfl, trivial⟩

lemma twoByte_concat {ts : List Terms} (h : ∀ t ∈ ts, TwoByte t) : TwoByte (concat ts) := by
  induction ts with
  | nil => trivial
  | cons t ts ih =>
    rw [List.forall_mem_cons] at h
    exact twoByte_append h.1 (ih h.2)

lemma twoByte_package (nrEl : ℕ) {elements : List Terms} (h : ∀ t ∈ elements, TwoByte t) :
    TwoByte (package nrEl elements) := ⟨trivial, rfl, twoByte_concat h, trivial⟩

lemma twoByte_method (path : NamePath) (h : TwoByte t) : TwoByte (method path t) :=
  ⟨path.string_fits, rfl, ⟨trivial, h⟩, trivial⟩

lemma twoByte_dependency (path : NamePath) (domain numprocs coordtype : ℕ) :
    TwoByte (dependencyTerms path domain numprocs coordtype) := by
  refine twoByte_append (twoByte_named path) (twoByte_package _ ?_)
  rw [List.forall_mem_singleton]
  exact twoByte_package _ (by simp [twoByte_const])

lemma twoByte_cstate (cstate : AcpiCstate) : TwoByte (cstateTerms cstate) :=
  twoByte_package _ (by simp [twoByte_const, twoByte_template])

lemma twoByte_tstate (tstate : AcpiTstate) : TwoByte (tstateTerms tstate) :=
  twoByte_package _ (by simp [twoByte_const])

/-- The stream of an empty `_PCT` is the only one that states its lengths in one byte. -/
lemma emptyPCT_fits : emptyPCTTerms.Fits := by
  refine ⟨namePCT.string_fits, trivial, ?_, ⟨?_, ?_, trivial⟩, trivial⟩
  · exact (by decide : (44 : ℕ) < 64)
  all_goals exact ⟨(by decide : (17 : ℕ) < 256 ^ 1), (by decide : (20 : ℕ) < 64)⟩

lemma Call.fits (c : Call) (hmax : c.terms.Within ACPIGEN_MAXLEN) : c.terms.Fits := by
  cases c with
  | emptyPCT => exact emptyPCT_fits
  | byte | dword | qword => exact (twoByte_const _ _).fits hmax
  | name path => exact (twoByte_named path).fits hmax
  | nameByte path | nameDword path | nameQword path =>
    exact (twoByte_append (twoByte_named path) (twoByte_const _ _)).fits hmax
  | template items => exact (twoByte_template items).fits hmax
  | mainboardTemplate devices => exact (twoByte_template _).fits hmax
  | mainboardResources devices scope path =>
    exact TwoByte.fits ⟨scope.string_fits, rfl,
      twoByte_append (twoByte_named path) (twoByte_template _), trivial⟩ hmax
  | ppc nr => exact (twoByte_method _ (twoByte_const _ _)).fits hmax
  | ppcNVS => exact (twoByte_method _ (twoByte_ref _)).fits hmax
  | tpc path => exact (twoByte_method _ (twoByte_ref path)).fits hmax
  | emptyPTC =>
    exact (twoByte_append (twoByte_named _)
      (twoByte_package _ (by simp [twoByte_template]))).fits hmax
  | pss => exact (twoByte_package _ (by simp [twoByte_const])).fits hmax
  | psd | tsd => exact (twoByte_dependency _ _ _ _).fits hmax
  | cstEntry cstate => exact (twoByte_cstate cstate).fits hmax
  | cst cstates =>
    exact (twoByte_append (twoByte_named _) (twoByte_package _
      (by simp [twoByte_const, twoByte_cstate]))).fits hmax
  | tss tstateList =>
    exact (twoByte_append (twoByte_named _) (twoByte_package _
      (by simp [twoByte_tstate]))).fits hmax

lemma Opener.header_fits (o : Opener) : o.header.Fits := by
  cases o with
  | scope path => exact path.string_fits
  | package nrEl => trivial
  | processor cpuindex pblockAddr pblockLen =>
    exact ⟨(processorPath cpuindex).string_fits, Nat.mod_lt _ (by decide)⟩

lemma Use.fits (u : Use) (hmax : u.terms.Within ACPIGEN_MAXLEN) : u.terms.Fits := by
  induction u with
  | done => trivial
  | call c rest ih =>
    have h := within_append.mp hmax
    exact fits_append.mpr ⟨c.fits h.1, ih h.2⟩
  | nest o body rest ihbody ih =>
    exact ⟨o.header_fits, ⟨by decide, lt_of_le_of_lt hmax.1 (by decide)⟩, ihbody hmax.2.1,
      ih hmax.2.2⟩

/-! ### What is generated -/

lemma Call.generates (c : Call) (hmax : c.terms.Within ACPIGEN_MAXLEN) :
    Generates c.depth c.run c.terms := by
  cases c with
  | byte data => exact generates_const_byte data
  | dword data => exact generates_const_dword data
  | qword data => exact generates_const_qword data
  | name path => exact generates_named path
  | nameByte path val => exact (generates_named path).add (generates_const_byte val)
  | nameDword path val => exact (generates_named path).add (generates_const_dword val)
  | nameQword path val => exact (generates_named path).add (generates_const_qword val)
  | template items => exact generates_template items hmax (writeAll_emits items)
  | mainboardTemplate devices => exact generates_mainboardTemplate devices hmax
  | mainboardResources devices scope path =>
    exact generates_mainboardResources devices scope path hmax
  | ppc nr =>
    rw [Call.run, writePPC_eq]
    exact generates_method _ (generates_const_byte nr) hmax
  | ppcNVS =>
    rw [Call.run, writePPCNVS_eq]
    exact generates_method _ (generates_ref _) hmax
  | tpc path =>
    rw [Call.run, writeTPC_eq]
    exact generates_method _ (generates_ref _) hmax
  | emptyPCT => exact generates_emptyPCT
  | emptyPTC => exact generates_emptyPTC hmax
  | pss => exact generates_pss _ _ _ _ _ _ hmax
  | psd domain numprocs coordtype =>
    have hname : chars "_PSD" = namePSD.chars := by decide
    rw [Call.run, acpigenWritePSDPackage, hname]
    exact generates_dependency _ _ _ _ hmax
  | tsd domain numprocs coordtype =>
    have hname : chars "_TSD" = nameTSD.chars := by decide
    rw [Call.run, acpigenWriteTSDPackage, hname]
    exact generates_dependency _ _ _ _ hmax
  | cstEntry cstate => exact generates_cstEntry cstate hmax
  | cst cstates => exact generates_cst cstates hmax
  | tss tstateList => exact generates_tss tstateList hmax

lemma Opener.opens (o : Opener) : Opens o.run o.header := by
  cases o with
  | scope path => exact writeScope_opens path
  | package nrEl => exact writePackage_opens nrEl
  | processor => exact writeProcessor_opens _ _ _

lemma Opener.opcodeLength_eq (o : Opener) : o.opcodeLength = o.header.opcode.length := by
  cases o <;> rfl

lemma Use.generates (u : Use) (hmax : u.terms.Within ACPIGEN_MAXLEN) :
    Generates u.depth u.run u.terms := by
  induction u with
  | done => exact appends_pure 0
  | call c rest ih =>
    have h := within_append.mp hmax
    exact ((c.generates h.1).mono (le_max_left _ _)).add ((ih h.2).mono (le_max_right _ _))
  | nest o body rest ihbody ih =>
    have hnode : (Terms.node o.header 1 body.terms .nil).Within ACPIGEN_MAXLEN :=
      ⟨hmax.1, hmax.2.1, trivial⟩
    have hblock := o.opens.generates (ihbody hmax.2.1) hnode
    rw [← o.opcodeLength_eq] at hblock
    exact (hblock.mono (le_max_left _ _)).add ((ih hmax.2.2).mono (le_max_right _ _))

/-- The generator returns by how many bytes the output has grown. -/
def ReturnsLength (g : Gen ℕ) (s : State) : Prop :=
  ∃ n s', g s = some (n, s') ∧ s'.out.length = s.out.length + n

lemma Emits.returnsLength {d : ℕ} {g : Gen ℕ} {b : List UInt8} (h : Emits d g b)
    (hs : 0 < d → s.lenStack.length + d ≤ 9) : ReturnsLength g s :=
  ⟨b.length, _, h s hs, List.length_append⟩

lemma Opens.returnsLength {g : Gen ℕ} {h : Header} (ho : Opens g h) (hs : s.lenStack.length < 9) :
    ReturnsLength g s := by
  have hrun := ho s [] [] hs
  rw [at_nil] at hrun
  refine ⟨_, _, hrun, ?_⟩
  simp only [State.at, List.length_append, List.length_cons, List.nil_append]
  omega

/-- The header and the footer of a template, with the items between them. -/
lemma header_footer_returnsLength (items : List ResourceItem)
    (hmax : (templateTerms items).Within ACPIGEN_MAXLEN) (hs : s.lenStack.length < 9) :
    ∃ s₁ s₂ n, acpigenWriteResourcetemplateHeader s = some (6, s₁) ∧
      s₁.out.length = s.out.length + 6 ∧ writeAll ResourceItem.run items s₁ = some (n, s₂) ∧
      ReturnsLength (acpigenWriteResourcetemplateFooter (6 + n)) s₂ := by
  have hheader := writeResourcetemplateHeader_at (s := s) (F := []) (p := []) hs
  rw [at_nil] at hheader
  have hitems := Appends.at_zero (s := s) (F := [[0x0b], [0x11]]) (p := []) (writeAll_emits items)
  have hfooter := writeResourcetemplateFooter_at (s := s) (F := []) (p := [])
    (template_length items hmax)
  refine ⟨_, _, _, hheader, by simp [State.at], hitems, 2, _, hfooter, ?_⟩
  simp [State.at, Leaf.encode, bufferContent, Size.bytes]
  omega

/-- The generators return the lengths of what they append. A well-nested use appends the terms of the
use: each length in it reaches to the end of its object, so that the terms are what a reader finds. -/
theorem use_generates (u : Use) (s : State) (hdepth : s.lenStack.length + u.depth ≤ 9)
    (hmax : u.terms.Within ACPIGEN_MAXLEN) :
    (∃ bytes, u.run s = some (bytes.length, ⟨s.out ++ bytes, s.lenStack⟩) ∧
      u.terms.Delimited bytes ∧ parse bytes.length bytes = some u.terms) ∧
    (∀ item : ResourceItem, ReturnsLength item.run s) ∧
    (∀ path : NamePath, ReturnsLength (acpigenEmitNamestring path.chars) s) ∧
    (s.lenStack.length < 9 → ∀ o : Opener, ReturnsLength o.run s) ∧
    (s.lenStack.length < 9 → ∀ items, (templateTerms items).Within ACPIGEN_MAXLEN →
      ∃ s₁ s₂ n, acpigenWriteResourcetemplateHeader s = some (6, s₁) ∧
        s₁.out.length = s.out.length + 6 ∧ writeAll ResourceItem.run items s₁ = some (n, s₂) ∧
        ReturnsLength (acpigenWriteResourcetemplateFooter (6 + n)) s₂) := by
  have hfits := u.fits hmax
  have hzero : 0 < 0 → s.lenStack.length + 0 ≤ 9 := fun h => absurd h (lt_irrefl 0)
  refine ⟨⟨u.terms.encode, u.generates hmax s fun _ => hdepth, delimited_encode hfits,
    parse_encode hfits le_rfl⟩, fun item => (run_emits item).returnsLength hzero,
    fun path => (emitNamestring_emits path).returnsLength hzero,
    fun hs o => o.opens.returnsLength hs,
    fun hs items hitems => header_footer_returnsLength items hitems hs⟩

/-- The scope of a bus with two constants and a resource template inside. -/
theorem use_generates_scope :
    let path : NamePath := ⟨true, 0, [⟨0x5f, [0x53, 0x42], underscore_valid, by simp⟩,
      ⟨0x50, [0x43, 0x49, 0x30], by decide, by simp⟩], by decide, by decide⟩
    let tom : NamePath := simple 0x54 [0x4f, 0x4d, 0x31] (by decide) (by simp)
    let u : Use := .nest (.scope path) (.call (.nameDword tom 0xc0000000)
      (.call (.template [.mem32fixed false 0xf8000000 0x4000000]) .done)) .done
    ∃ bytes, u.run ⟨[], []⟩ = some (bytes.length, ⟨bytes, []⟩) ∧
      u.terms.Delimited bytes ∧ parse bytes.length bytes = some u.terms := by
  intro path tom u
  have hmax : u.terms.Within ACPIGEN_MAXLEN := by
    refine ⟨?_, ⟨?_, trivial⟩, trivial⟩ <;> decide
  exact (use_generates u ⟨[], []⟩ (by decide) hmax).1

end ApuBios.Acpigen
