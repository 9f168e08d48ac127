import ApuBios.Payloads.SortBootOrder.Tags

/-!
# Writing and reading the values of the toggles

What is put behind a tag and saved is read at the next start unless the tag is found in front of its
line, another digit follows, or the value is not written. Without a line of its tag a toggle has the
value that is found elsewhere, and never its default.
-/

namespace ApuBios.SortBootOrder

/-- The first line that starts with the tag. -/
structure TagLine (lines : List (List Char8)) (tag : List Char8) (i : ℕ) (l : List Char8) :
    Prop where
  get : lines[i]? = some l
  starts : tag <+: l
  first : ∀ l ∈ lines.take i, ¬ tag <+: l

/-- Reader and writer agree: what is written is read, a tag that no line starts with has its
default, and for one that a line starts with the number in the line is read. -/
structure Agree (stack : ℕ → Char8) (mem : Flash) (flash_address : ℕ) (buffer : Table)
    (lines : List (List Char8)) (tag : List Char8) : Prop where
  written : ∀ i l, TagLine lines tag i l → ∀ v < 10,
    ∃ mem' ∈ saveFlash stack mem flash_address
      (updateTagValue buffer lines.length tag (digit v)) lines.length,
      Starts mem' flash_address tag (BitVec.ofNat 8 v)
  absent : (∀ l ∈ lines, ¬ tag <+: l) → Starts mem flash_address tag 1
  present : ∀ i l, TagLine lines tag i l → ∀ n, strtoul (l.drop tag.length) = some n →
    Starts mem flash_address tag (BitVec.ofNat 8 n)

/-- No line before has the tag inside, with the value in it the line ends in its row, and the value
is among what is written, with no other digit behind it. -/
structure Readable (buffer : Table) (lines : List (List Char8)) (tag : List Char8) (i : ℕ) :
    Prop where
  before : ∀ l ∈ lines.take i, ¬ tag <:+: l
  saved : ∃ l, packLine ((buffer i).set tag.length 0x30).1 = some l ∧
    (lines.take i).flatten.length + tag.length < writtenSize ((lines.set i l).flatten.length + 1) ∧
    ((lines.take i).flatten.length + tag.length + 1 <
        writtenSize ((lines.set i l).flatten.length + 1) →
      ∀ c, (buffer i).1[tag.length + 1]? = some c → ¬ valid c)

/-- The first place of the tag in a text. -/
structure FirstAt (text tag : List Char8) (k : ℕ) : Prop where
  here : tag <+: text.drop k
  first : ∀ j < k, ¬ tag <+: text.drop j

/-- What is read as the default: the memory behind address zero, or what stands behind the tag
inside a line. -/
structure ReadsOne (mem : Flash) (flash_address : ℕ) (lines : List (List Char8))
    (tag : List Char8) : Prop where
  nowhere : (∀ l ∈ lines, ¬ tag <:+: l) → NumberAt mem tag.length 1
  inside : ∀ k, FirstAt lines.flatten tag k → NumberAt mem (flash_address + k + tag.length) 1

variable {mem mem' : Flash} {stack : ℕ → Char8} {buffer : Table} {lines : List (List Char8)}
  {tag text l l' : List Char8} {c value : Char8} {flash_address a p n i k : ℕ}

/-! ### Places of the tag -/

/-- A tag does not reach behind the end of a line. -/
lemma starts_of_newline (htag : IsTag tag) {rest : List Char8}
    (h : tag <+: text ++ NEWLINE :: rest) : tag <+: text := by
  rcases Nat.lt_or_ge text.length tag.length with hlt | hle
  · have hend : text ++ [NEWLINE] <+: text ++ NEWLINE :: rest := ⟨rest, by simp⟩
    have hline : text ++ [NEWLINE] <+: tag :=
      List.prefix_of_prefix_length_le hend h (by rw [List.length_append]; exact hlt)
    exact absurd (hline.subset (by simp)) htag.newline
  · exact List.prefix_of_prefix_length_le h (List.prefix_append _ _) hle

lemma not_occurs (htag : IsTag tag) (hlines : ∀ l ∈ lines, IsLine l)
    (hnone : ∀ l ∈ lines, ¬ tag <:+: l) (hk : k < lines.flatten.length) (rest : List Char8) :
    ¬ tag <+: (lines.flatten ++ rest).drop k := by
  induction lines generalizing k with
  | nil => exact absurd hk (Nat.not_lt_zero k)
  | cons l lines ih =>
    obtain ⟨body, hl, -⟩ := hlines l List.mem_cons_self
    rw [List.flatten_cons, List.length_append] at hk
    rw [List.flatten_cons, List.append_assoc]
    intro h
    by_cases hin : k < l.length
    · rw [hl, List.length_append, List.length_singleton] at hin
      rw [hl, List.append_assoc, List.drop_append_of_le_length (by omega)] at h
      have hbody := starts_of_newline htag h
      refine hnone l List.mem_cons_self ?_
      rw [hl]
      exact (hbody.isInfix.trans (List.drop_suffix k body).isInfix).trans
        (List.prefix_append body _).isInfix
    · rw [List.drop_append, List.drop_eq_nil_of_le (by omega), List.nil_append] at h
      exact ih (fun l hl => hlines l (List.mem_cons_of_mem _ hl))
        (fun l hl => hnone l (List.mem_cons_of_mem _ hl)) (by omega) h

lemma exists_firstAt (hl : l ∈ lines) (h : tag <:+: l) : ∃ k, FirstAt lines.flatten tag k := by
  have hsome : ∃ k, tag <+: lines.flatten.drop k := by
    obtain ⟨s, t, hst⟩ := h.trans (List.infix_of_mem_flatten hl)
    refine ⟨s.length, ?_⟩
    rw [← hst, List.append_assoc, List.drop_left]
    exact List.prefix_append _ _
  classical
  exact ⟨Nat.find hsome, Nat.find_spec hsome, fun j hj => Nat.find_min hsome hj⟩

lemma FirstAt.le (htag : IsTag tag) (h : FirstAt text tag k) : k + tag.length ≤ text.length := by
  have hlen := h.here.length_le
  have hpos := List.length_pos_of_ne_nil htag.ne
  rw [List.length_drop] at hlen
  omega

lemma FirstAt.starts (h : FirstAt text tag k) : text.take k ++ tag <+: text := by
  have := (List.prefix_append_right_inj (text.take k)).mpr h.here
  rwa [List.take_append_drop] at this

lemma FirstAt.find (htag : IsTag tag) (h : FirstAt text tag k) (hreads : Reads mem p text)
    (hnul : NUL ∉ text) : cbfsFindString mem tag (k + 1) p = some (p + k) := by
  have hlen : (text.take k).length = k := by
    rw [List.length_take, min_eq_left]
    have := h.le htag
    omega
  have hfind := find_first htag (hreads.of_prefix h.starts)
    (fun hin => hnul (List.mem_of_mem_take hin)) (fun j hj hin => ?_) (n := k + 1) (by omega)
  · rwa [hlen] at hfind
  · rw [hlen] at hj
    refine h.first j hj (hin.trans ?_)
    exact h.starts.drop j

/-! ### Writing the value -/

/-- A row starts with the tag if its line does. -/
lemma row_starts (htag : IsTag tag) (hlines : ∀ l ∈ lines, IsLine l) (hbuffer : Holds buffer lines)
    (hi : i < lines.length) : tag <+: (buffer i).1 ↔ tag <+: lines[i] := by
  constructor
  · intro h
    obtain ⟨body, hl, -⟩ := hlines _ (List.getElem_mem hi)
    obtain ⟨rest, hrest⟩ := hbuffer i hi
    rw [hl] at hrest ⊢
    rw [← hrest, List.append_assoc] at h
    exact (starts_of_newline htag h).trans (List.prefix_append _ _)
  · intro h
    exact h.trans (hbuffer i hi)

/-- The value is put into the first line that starts with the tag. -/
lemma updateTagValue_eq (htag : IsTag tag) (hlines : ∀ l ∈ lines, IsLine l)
    (hbuffer : Holds buffer lines) (hline : TagLine lines tag i l) :
    updateTagValue buffer lines.length tag c =
      Function.update buffer i ((buffer i).set tag.length c) := by
  obtain ⟨hi, hget⟩ := List.getElem?_eq_some_iff.mp hline.get
  have hfind : ((List.range lines.length).find? fun i => tag.isPrefixOf (buffer i).1) = some i := by
    rw [List.find?_range_eq_some]
    refine ⟨?_, List.mem_range.mpr hi, fun j hj => ?_⟩
    · rw [List.isPrefixOf_iff_prefix, row_starts htag hlines hbuffer hi, hget]
      exact hline.starts
    · rw [Bool.not_eq_true', ← Bool.not_eq_true, List.isPrefixOf_iff_prefix,
        row_starts htag hlines hbuffer (by omega)]
      refine hline.first _ ?_
      rw [List.mem_take_iff_getElem]
      exact ⟨j, by omega, rfl⟩
  rw [updateTagValue, hfind]

/-- The row of the line, with the character that is replaced. -/
lemma row_eq (htag : IsTag tag) (hlines : ∀ l ∈ lines, IsLine l) (hbuffer : Holds buffer lines)
    (hline : TagLine lines tag i l) : ∃ c tail, (buffer i).1 = tag ++ c :: tail := by
  obtain ⟨hi, hget⟩ := List.getElem?_eq_some_iff.mp hline.get
  obtain ⟨rest, hrest⟩ := hbuffer i hi
  obtain ⟨line, hl⟩ := hline.starts
  have hne : line ≠ [] := by
    rintro rfl
    obtain ⟨body, hbody, -⟩ := hlines _ (List.getElem_mem hi)
    rw [hget, ← hl, List.append_nil] at hbody
    exact htag.newline (hbody ▸ List.mem_append_right _ List.mem_cons_self)
  obtain ⟨c, line, rfl⟩ := List.exists_cons_of_ne_nil hne
  refine ⟨c, line ++ rest, ?_⟩
  rw [← hrest, hget, ← hl]
  simp

lemma set_row {row : Row} {tail : List Char8} {d : Char8} (h : row.1 = tag ++ d :: tail)
    (c : Char8) : (row.set tag.length c).1 = tag ++ c :: tail := by
  change row.1.set tag.length c = _
  rw [h, List.set_append_right _ _ le_rfl, Nat.sub_self]
  rfl

lemma packLine_tag {tail : List Char8} (htag : NEWLINE ∉ tag) (hc : c ≠ NEWLINE) :
    packLine (tag ++ c :: tail) = (packLine tail).map fun g => tag ++ c :: g := by
  induction tag with
  | nil => exact if_neg hc
  | cons d tag ih =>
    rw [List.mem_cons, not_or] at htag
    rw [List.cons_append, packLine, if_neg (Ne.symm htag.1), ih htag.2, Option.map_map]
    rfl

/-- The packed list with another line. -/
lemma packLines_update {row : Row} (hlines : ∀ l ∈ lines, IsLine l) (hbuffer : Holds buffer lines)
    (hi : i < lines.length) :
    packLines (Function.update buffer i row) lines.length =
      (packLine row.1).map fun l => (lines.set i l).flatten := by
  cases hpack : packLine row.1 with
  | none => exact packLines_none hi (by rw [Function.update_self, hpack])
  | some l =>
    have hlen : lines.length = (lines.set i l).length := List.length_set.symm
    rw [hlen, packLines_of_rows fun j hj => ?_]
    · rfl
    · rcases eq_or_ne j i with rfl | hne
      · rw [Function.update_self, List.getElem_set_self, hpack]
      · rw [Function.update_of_ne hne, List.getElem_set_ne hne.symm]
        rw [← hlen] at hj
        exact packLine_eq (hlines _ (List.getElem_mem hj)) (hbuffer j hj)

/-! ### The list that is written -/

section Written

variable {front rest : List Char8} {mem₀ mem₁ : Flash} {c' : Char8}

lemma writtenSize_le (size : ℕ) : writtenSize size ≤ 256 := by
  rw [writtenSize]
  omega

lemma sector_eq (hp : p < writtenSize (text.length + 1)) (hc : text[p]? = some c) :
    sector stack text p = c := by
  have hlt := (List.getElem?_eq_some_iff.mp hc).1
  rw [sector, if_pos hp, List.getElem?_append_left hlt, hc, Option.getD_some]

/-- Another character is seen at its place only. -/
lemma sector_of_ne (hp : p ≠ front.length) :
    sector stack (front ++ c :: rest) p = sector stack (front ++ c' :: rest) p := by
  have hget : (front ++ c :: rest ++ [NUL])[p]? = (front ++ c' :: rest ++ [NUL])[p]? := by
    rw [List.append_assoc, List.append_assoc]
    rcases Nat.lt_or_gt_of_ne hp with hlt | hgt
    · rw [List.getElem?_append_left hlt, List.getElem?_append_left hlt]
    · obtain ⟨k, rfl⟩ : ∃ k, p = front.length + (k + 1) := ⟨p - front.length - 1, by omega⟩
      have hright : ∀ l : List Char8, (front ++ l)[front.length + (k + 1)]? = l[k + 1]? := by
        intro l
        rw [List.getElem?_append_right (by omega), Nat.add_sub_cancel_left]
      rw [hright, hright]
      rfl
  have hlen : (front ++ c :: rest).length = (front ++ c' :: rest).length := by simp
  rw [sector, sector, hget, hlen]

/-- And not at all if it is not written. -/
lemma sector_of_cut (h : writtenSize ((front ++ c :: rest).length + 1) ≤ front.length) (p : ℕ) :
    sector stack (front ++ c :: rest) p = sector stack (front ++ c' :: rest) p := by
  by_cases hp : p = front.length
  · have hlen : (front ++ c' :: rest).length = (front ++ c :: rest).length := by simp
    rw [sector, sector, hlen, if_neg (by omega), if_neg (by omega)]
  · exact sector_of_ne hp

lemma Written.unique {text' : List Char8} (h₀ : Written stack mem a text mem₀)
    (h₁ : Written stack mem a text' mem₁)
    (h : ∀ p, sector stack text p = sector stack text' p) : mem₀ = mem₁ := by
  funext x
  by_cases hx : a ≤ x ∧ x < a + FLASH_SIZE_CHUNK
  · obtain ⟨p, rfl⟩ := Nat.exists_eq_add_of_le hx.1
    have hp : p < FLASH_SIZE_CHUNK := by omega
    exact (h₀.inside p hp).trans ((h p).trans (h₁.inside p hp).symm)
  · rw [h₀.outside x (by omega), h₁.outside x (by omega)]

/-- What is written is read up to the character. -/
lemma Written.reads (h : Written stack mem a (front ++ c :: rest) mem')
    (hcut : front.length < writtenSize ((front ++ c :: rest).length + 1)) :
    Reads mem' a (front ++ [c]) := by
  intro i hi
  have hle := writtenSize_le ((front ++ c :: rest).length + 1)
  rw [List.length_append, List.length_singleton] at hi
  refine (h.inside i (by rw [FLASH_SIZE_CHUNK]; omega)).trans (sector_eq (by omega) ?_)
  have hfront : front ++ c :: rest = front ++ [c] ++ rest := by simp
  rw [hfront, List.getElem?_append_left (by simpa using hi), List.getElem?_eq_getElem]

/-- What is in the sector behind a place. -/
def behind (mem : Flash) (a k : ℕ) : List Char8 :=
  chars mem (a + (k + 1)) (FLASH_SIZE_CHUNK - (k + 1))

lemma head_behind (hk : k + 1 < FLASH_SIZE_CHUNK) :
    (behind mem a k).head? = some (cbfsFile mem a (k + 1)) := by
  rw [behind, chars, List.head?_map, List.head?_range, if_neg (by omega)]
  rfl

lemma Written.reads_behind (h : Written stack mem a (front ++ c :: rest) mem')
    (hcut : front.length < writtenSize ((front ++ c :: rest).length + 1)) :
    Reads mem' a (front ++ c :: behind mem' a front.length) := by
  have hfront : front ++ c :: behind mem' a front.length =
      (front ++ [c]) ++ behind mem' a front.length := by simp
  rw [hfront]
  refine (h.reads hcut).append ?_
  rw [List.length_append, List.length_singleton]
  exact reads_chars

/-- It does not depend on the character. -/
lemma Written.behind_eq (h₀ : Written stack mem a (front ++ c :: rest) mem₀)
    (h₁ : Written stack mem a (front ++ c' :: rest) mem₁) :
    behind mem₀ a front.length = behind mem₁ a front.length := by
  refine chars_congr fun i hi => ?_
  have hplace : front.length + 1 + i < FLASH_SIZE_CHUNK := by omega
  have hbyte₀ := h₀.inside _ hplace
  have hbyte₁ := h₁.inside _ hplace
  rw [cbfsFile, ← Nat.add_assoc] at hbyte₀ hbyte₁
  rw [hbyte₀, hbyte₁, sector_of_ne (by omega)]

/-- The next character, if it is written. -/
lemma Written.behind_head (h : Written stack mem a (front ++ c :: rest) mem')
    (hcut : front.length + 1 < writtenSize ((front ++ c :: rest).length + 1))
    (hnext : rest[0]? = some c') : (behind mem' a front.length).head? = some c' := by
  have hle := writtenSize_le ((front ++ c :: rest).length + 1)
  have hsector : FLASH_SIZE_CHUNK = 4096 := rfl
  have hget : (front ++ c :: rest)[front.length + 1]? = some c' := by
    rw [List.getElem?_append_right (by omega), Nat.add_sub_cancel_left, ← hnext]
    rfl
  rw [head_behind (by omega), h.inside _ (by omega), sector_eq hcut hget]

/-- One of the characters is no digit. -/
lemma Written.ends (h : Written stack mem a (front ++ c :: rest) mem')
    (hcut : front.length < writtenSize ((front ++ c :: rest).length + 1)) (hend : NEWLINE ∈ rest) :
    ∃ y ∈ behind mem' a front.length, ¬ valid y := by
  have hle := writtenSize_le ((front ++ c :: rest).length + 1)
  have hsector : FLASH_SIZE_CHUNK = 4096 := rfl
  obtain ⟨e, he, hnl⟩ := List.getElem_of_mem hend
  by_cases hin : front.length + 1 + e < writtenSize ((front ++ c :: rest).length + 1)
  · have hget : (front ++ c :: rest)[front.length + 1 + e]? = some NEWLINE := by
      have hfront : front ++ c :: rest = (front ++ [c]) ++ rest := by simp
      rw [hfront, List.getElem?_append_right (by simp), ← hnl, ← List.getElem?_eq_getElem he]
      congr 1
      simp
    have hbyte := h.inside (front.length + 1 + e) (by omega)
    rw [sector_eq hin hget, cbfsFile, ← Nat.add_assoc] at hbyte
    exact ⟨NEWLINE, mem_chars.mpr ⟨e, by omega, hbyte⟩, by decide⟩
  · obtain ⟨k, hk⟩ := Nat.exists_eq_add_of_le (Nat.succ_le_of_lt hcut)
    have hbyte := h.inside (front.length + 1 + k) (by omega)
    rw [sector, if_neg (by omega), cbfsFile, ← Nat.add_assoc] at hbyte
    exact ⟨0xff, mem_chars.mpr ⟨k, by omega, hbyte⟩, by decide⟩

end Written

lemma nul_flatten (hlines : ∀ l ∈ lines, IsLine l) : NUL ∉ lines.flatten := by
  intro h
  obtain ⟨l, hl, hnul⟩ := List.mem_flatten.mp h
  exact not_mem_nul (hlines l hl) hnul

/-- The tag is found behind lines that do not have it inside, and what stands behind it is
converted. -/
lemma starts_line_iff (htag : IsTag tag) (hlines : ∀ l ∈ lines, IsLine l)
    (hbefore : ∀ l ∈ lines, ¬ tag <:+: l) (hreads : Reads mem a (lines.flatten ++ tag ++ text))
    (hnumber : strtoul text = some n) :
    Starts mem a tag value ↔ BitVec.ofNat 8 n = value := by
  have hfind := find_first htag hreads.left (nul_flatten hlines)
    (fun j hj => not_occurs htag hlines hbefore hj tag) (Nat.lt_succ_self _)
  have htext := hreads.right
  rw [List.length_append, ← Nat.add_assoc] at htext
  rw [starts_iff htag hfind, numberAt_iff htext hnumber]

section TwoValues

variable {rest : List Char8} {mem₀ mem₁ : Flash}

/-- A line before with the tag inside: both values are read as the same number. -/
lemma not_starts_inside (htag : IsTag tag) (hlines : ∀ l ∈ lines, IsLine l)
    (hinside : ∃ l ∈ lines, tag <:+: l) (h₀ : Reads mem₀ a (lines.flatten ++ tag))
    (h₁ : Reads mem₁ a (lines.flatten ++ tag)) (hs₀ : Starts mem₀ a tag 0) :
    ¬ Starts mem₁ a tag 1 := by
  intro hs₁
  obtain ⟨l, hl, hin⟩ := hinside
  obtain ⟨k, hk⟩ := exists_firstAt hl hin
  obtain ⟨t, tag', htag'⟩ := List.exists_cons_of_ne_nil htag.ne
  have hletter := htag.letter t (htag' ▸ List.mem_cons_self)
  obtain ⟨n, hn⟩ := strtoul_stop (lines.flatten.drop (k + tag.length)) hletter.1 hletter.2
  have hread : ∀ {mem value}, Reads mem a (lines.flatten ++ tag) → Starts mem a tag value →
      BitVec.ofNat 8 n = value := by
    intro mem value hreads hstarts
    have hle := hk.le htag
    have hrest := hreads.drop (k := k + tag.length) (by rw [List.length_append]; omega)
    rw [List.drop_append_of_le_length hle, ← Nat.add_assoc] at hrest
    have hprefix : lines.flatten.drop (k + tag.length) ++ [t] <+:
        lines.flatten.drop (k + tag.length) ++ tag := by
      rw [List.prefix_append_right_inj, htag']
      exact ⟨tag', rfl⟩
    rw [starts_iff htag (hk.find htag hreads.left (nul_flatten hlines)),
      numberAt_iff (hrest.of_prefix hprefix) hn] at hstarts
    exact hstarts
  have hzero := hread h₀ hs₀
  rw [hread h₁ hs₁] at hzero
  exact absurd hzero (by decide)

/-- More digits behind the value. -/
lemma not_starts_more (htag : IsTag tag) (hlines : ∀ l ∈ lines, IsLine l)
    (hbefore : ∀ l ∈ lines, ¬ tag <:+: l)
    (h₀ : Written stack mem a (lines.flatten ++ tag ++ digit 0 :: rest) mem₀)
    (h₁ : Written stack mem a (lines.flatten ++ tag ++ digit 1 :: rest) mem₁)
    (hcut : (lines.flatten ++ tag).length + 1 <
      writtenSize ((lines.flatten ++ tag ++ digit 0 :: rest).length + 1))
    (hend : NEWLINE ∈ rest) (hnext : rest[0]? = some c) (hc : valid c)
    (hs₀ : Starts mem₀ a tag 0) : ¬ Starts mem₁ a tag 1 := by
  intro hs₁
  have hlen : (lines.flatten ++ tag ++ digit 1 :: rest).length =
      (lines.flatten ++ tag ++ digit 0 :: rest).length := by simp
  obtain ⟨ds, y, more, hds, hvalid, hy⟩ := exists_digits (h₀.ends (by omega) hend)
  have hreads₀ := h₀.reads_behind (by omega)
  have hreads₁ := h₁.reads_behind (by rw [hlen]; omega)
  have hhead := h₀.behind_head hcut hnext
  rw [← h₀.behind_eq h₁, hds] at hreads₁
  rw [hds] at hreads₀ hhead
  have hne : ds ≠ [] := by
    rintro rfl
    rw [List.nil_append, List.head?_cons, Option.some_inj] at hhead
    exact hy (hhead ▸ hc)
  obtain ⟨n₀, n₁, hn₀, hn₁, hnot⟩ := strtoul_more hvalid hne hy more
  rw [starts_line_iff htag hlines hbefore hreads₀ hn₀] at hs₀
  rw [starts_line_iff htag hlines hbefore hreads₁ hn₁] at hs₁
  exact hnot ⟨hs₀, hs₁⟩

/-- A value that is not written. -/
lemma not_starts_cut {front : List Char8} (htag : IsTag tag)
    (h₀ : Written stack mem a (front ++ digit 0 :: rest) mem₀)
    (h₁ : Written stack mem a (front ++ digit 1 :: rest) mem₁)
    (hcut : writtenSize ((front ++ digit 0 :: rest).length + 1) ≤ front.length)
    (hs₀ : Starts mem₀ a tag 0) : ¬ Starts mem₁ a tag 1 := by
  intro hs₁
  rw [← h₀.unique h₁ (sector_of_cut hcut)] at hs₁
  exact absurd (hs₀.unique htag hs₁) (by decide)

end TwoValues

/-- One digit that is written is read. -/
lemma starts_written {v : ℕ} {rest : List Char8} (htag : IsTag tag)
    (hlines : ∀ l ∈ lines, IsLine l) (hbefore : ∀ l ∈ lines, ¬ tag <:+: l) (hv : v < 10)
    (h : Written stack mem a (lines.flatten ++ tag ++ digit v :: rest) mem')
    (hcut : (lines.flatten ++ tag).length <
      writtenSize ((lines.flatten ++ tag ++ digit v :: rest).length + 1))
    (hnext : (lines.flatten ++ tag).length + 1 <
        writtenSize ((lines.flatten ++ tag ++ digit v :: rest).length + 1) →
      ∃ c, rest[0]? = some c ∧ ¬ valid c) :
    Starts mem' a tag (BitVec.ofNat 8 v) := by
  have hle := writtenSize_le ((lines.flatten ++ tag ++ digit v :: rest).length + 1)
  have hsector : FLASH_SIZE_CHUNK = 4096 := rfl
  have hhead : ∃ y, (behind mem' a (lines.flatten ++ tag).length).head? = some y ∧ ¬ valid y := by
    by_cases hin : (lines.flatten ++ tag).length + 1 <
        writtenSize ((lines.flatten ++ tag ++ digit v :: rest).length + 1)
    · obtain ⟨c, hget, hc⟩ := hnext hin
      exact ⟨c, h.behind_head hin hget, hc⟩
    · refine ⟨0xff, ?_, by decide⟩
      rw [head_behind (by omega), h.inside _ (by omega), sector, if_neg hin]
  obtain ⟨y, hy, hvalid⟩ := hhead
  obtain ⟨more, hmore⟩ := List.head?_eq_some_iff.mp hy
  have hreads := h.reads_behind hcut
  rw [hmore] at hreads
  exact (starts_line_iff htag hlines hbefore hreads (strtoul_digit hv hvalid more)).mpr rfl

/-! ### Files -/

/-- The line with the tag, in its row and in the list. -/
structure Place (buffer : Table) (lines : List (List Char8)) (tag : List Char8) (i : ℕ)
    (tail : List Char8) : Prop where
  row : ∀ c, ((buffer i).set tag.length c).1 = tag ++ c :: tail
  next : (buffer i).1[tag.length + 1]? = tail[0]?
  size : tag.length + 1 + tail.length = MAX_LENGTH
  update : ∀ c, updateTagValue buffer lines.length tag c =
    Function.update buffer i ((buffer i).set tag.length c)

lemma TagLine.place (htag : IsTag tag) (hlines : ∀ l ∈ lines, IsLine l)
    (hbuffer : Holds buffer lines) (hline : TagLine lines tag i l) :
    ∃ tail, Place buffer lines tag i tail := by
  obtain ⟨c, tail, hrow⟩ := row_eq htag hlines hbuffer hline
  refine ⟨tail, fun c => set_row hrow c, ?_, ?_,
    fun c => updateTagValue_eq htag hlines hbuffer hline⟩
  · rw [hrow, List.getElem?_append_right (by omega), Nat.add_sub_cancel_left]
    rfl
  · have hlen := (buffer i).2
    rw [hrow, List.length_append, List.length_cons] at hlen
    omega

lemma packLine_spec {g tail : List Char8} (h : packLine tail = some g) :
    NEWLINE ∈ g ∧ g[0]? = tail[0]? ∧ g.length ≤ tail.length := by
  induction tail generalizing g with
  | nil => cases h
  | cons c tail ih =>
    rw [packLine] at h
    split_ifs at h with hc
    · rw [← Option.some.inj h, hc]
      exact ⟨List.mem_cons_self, rfl, by simp⟩
    · obtain ⟨g', hg', rfl⟩ := Option.map_eq_some_iff.mp h
      obtain ⟨hmem, -, hlen⟩ := ih hg'
      exact ⟨List.mem_cons_of_mem _ hmem, rfl, by simpa using hlen⟩

/-- What is behind the value in the list. -/
def restOf (lines : List (List Char8)) (i : ℕ) (g : List Char8) : List Char8 :=
  g ++ (lines.drop (i + 1)).flatten

lemma flatten_set (hi : i < lines.length) (tag g : List Char8) (c : Char8) :
    (lines.set i (tag ++ c :: g)).flatten =
      (lines.take i).flatten ++ tag ++ c :: restOf lines i g := by
  rw [List.set_eq_take_append_cons_drop, if_pos hi, List.flatten_append, List.flatten_cons, restOf]
  simp

/-- Saving writes the list with the value, if the line still ends. -/
lemma Place.saved {tail g : List Char8} (hplace : Place buffer lines tag i tail)
    (htag : IsTag tag) (hlines : ∀ l ∈ lines, IsLine l) (hcount : lines.length ≤ MAX_DEVICES)
    (hbuffer : Holds buffer lines) (hi : i < lines.length) (hpack : packLine tail = some g)
    (hc : c ≠ NEWLINE) :
    ∃ mem', saveFlash stack mem flash_address (updateTagValue buffer lines.length tag c)
        lines.length = some mem' ∧
      Written stack mem flash_address ((lines.take i).flatten ++ tag ++ c :: restOf lines i g)
        mem' := by
  have hupdate : packLines (updateTagValue buffer lines.length tag c) lines.length =
      some ((lines.take i).flatten ++ tag ++ c :: restOf lines i g) := by
    rw [hplace.update, packLines_update hlines hbuffer hi, hplace.row,
      packLine_tag htag.newline hc, hpack, Option.map_some, Option.map_some, flatten_set hi]
  refine saveFlash_packed stack mem flash_address hupdate ?_
  have hbefore : (lines.take i).flatten.length ≤ (lines.take i).length * (MAX_LENGTH - 1) :=
    length_flatten_le fun l hl => hlines l (List.mem_of_mem_take hl)
  have hbehind : (lines.drop (i + 1)).flatten.length ≤
      (lines.drop (i + 1)).length * (MAX_LENGTH - 1) :=
    length_flatten_le fun l hl => hlines l (List.mem_of_mem_drop hl)
  have hg := (packLine_spec hpack).2.2
  have hsize := hplace.size
  rw [List.length_take] at hbefore
  rw [List.length_drop] at hbehind
  simp only [MAX_DEVICES, MAX_LENGTH] at *
  rw [List.length_append, List.length_append, List.length_cons, restOf, List.length_append]
  omega

/-- Without a newline behind the value there is nothing that could be written. -/
lemma Place.not_saved {tail : List Char8} (hplace : Place buffer lines tag i tail)
    (htag : IsTag tag) (hi : i < lines.length) (hpack : packLine tail = none) (hc : c ≠ NEWLINE) :
    saveFlash stack mem flash_address (updateTagValue buffer lines.length tag c) lines.length =
      none := by
  have hnone : packLines (updateTagValue buffer lines.length tag c) lines.length = none := by
    refine packLines_none hi ?_
    rw [hplace.update, Function.update_self, hplace.row, packLine_tag htag.newline hc, hpack]
    rfl
  rw [saveFlash, hnone]
  rfl

/-- How much is written of the list with the value. -/
def tagSize (lines : List (List Char8)) (tag : List Char8) (i : ℕ) (g : List Char8) : ℕ :=
  writtenSize (((lines.take i).flatten ++ tag ++ digit 0 :: restOf lines i g).length + 1)

lemma tagSize_eq (lines : List (List Char8)) (tag : List Char8) (i : ℕ) (g : List Char8) (v : ℕ) :
    writtenSize (((lines.take i).flatten ++ tag ++ digit v :: restOf lines i g).length + 1) =
      tagSize lines tag i g := by
  simp only [tagSize, List.length_append, List.length_cons]

/-- The line goes on behind the value. -/
lemma restOf_spec {tail g : List Char8} (hpack : packLine tail = some g) :
    NEWLINE ∈ restOf lines i g ∧ ∃ c, tail[0]? = some c ∧ (restOf lines i g)[0]? = some c := by
  obtain ⟨hend, hhead, -⟩ := packLine_spec hpack
  obtain ⟨c, g', rfl⟩ := List.exists_cons_of_ne_nil (List.ne_nil_of_mem hend)
  exact ⟨List.mem_append_left _ hend, c, hhead.symm, rfl⟩

lemma Place.readable_iff {tail : List Char8} (hplace : Place buffer lines tag i tail)
    (htag : IsTag tag) (hi : i < lines.length) :
    Readable buffer lines tag i ↔ (∀ l ∈ lines.take i, ¬ tag <:+: l) ∧
      ∃ g, packLine tail = some g ∧
        ((lines.take i).flatten ++ tag).length < tagSize lines tag i g ∧
        (((lines.take i).flatten ++ tag).length + 1 < tagSize lines tag i g →
          ∀ c, tail[0]? = some c → ¬ valid c) := by
  have hpack : packLine ((buffer i).set tag.length 0x30).1 =
      (packLine tail).map fun g => tag ++ digit 0 :: g := by
    rw [hplace.row]
    exact packLine_tag htag.newline (by decide)
  constructor
  · rintro ⟨hbefore, l, hl, hwritten, hnext⟩
    rw [hpack] at hl
    obtain ⟨g, hg, rfl⟩ := Option.map_eq_some_iff.mp hl
    rw [flatten_set hi, ← List.length_append] at hwritten hnext
    rw [hplace.next] at hnext
    exact ⟨hbefore, g, hg, hwritten, hnext⟩
  · rintro ⟨hbefore, g, hg, hwritten, hnext⟩
    refine ⟨hbefore, tag ++ digit 0 :: g, by rw [hpack, hg]; rfl, ?_⟩
    rw [flatten_set hi, ← List.length_append, hplace.next]
    exact ⟨hwritten, hnext⟩

/-- The values are written and read exactly if the line is readable. -/
lemma written_iff (htag : IsTag tag) (hlines : ∀ l ∈ lines, IsLine l)
    (hcount : lines.length ≤ MAX_DEVICES) (hbuffer : Holds buffer lines)
    (hline : TagLine lines tag i l) :
    (∀ v < 10, ∃ mem' ∈ saveFlash stack mem flash_address
      (updateTagValue buffer lines.length tag (digit v)) lines.length,
      Starts mem' flash_address tag (BitVec.ofNat 8 v)) ↔ Readable buffer lines tag i := by
  obtain ⟨tail, hplace⟩ := hline.place htag hlines hbuffer
  obtain ⟨hi, -⟩ := List.getElem?_eq_some_iff.mp hline.get
  have hdigit : ∀ v < 10, digit v ≠ NEWLINE := by decide
  have hlines' : ∀ l ∈ lines.take i, IsLine l := fun l hl => hlines l (List.mem_of_mem_take hl)
  rw [hplace.readable_iff htag hi]
  cases hpack : packLine tail with
  | none =>
    refine iff_of_false (fun h => ?_) fun h => ?_
    · obtain ⟨mem', hsave, -⟩ := h 0 (by norm_num)
      rw [hplace.not_saved htag hi hpack (hdigit 0 (by norm_num))] at hsave
      cases hsave
    · obtain ⟨-, g, hg, -⟩ := h
      cases hg
  | some g =>
    have hsaved : ∀ v < 10, ∃ mem', saveFlash stack mem flash_address
        (updateTagValue buffer lines.length tag (digit v)) lines.length = some mem' ∧
          Written stack mem flash_address
            ((lines.take i).flatten ++ tag ++ digit v :: restOf lines i g) mem' :=
      fun v hv => hplace.saved htag hlines hcount hbuffer hi hpack (hdigit v hv)
    obtain ⟨hend, c, hhead, hnext⟩ := @restOf_spec lines i tail g hpack
    constructor
    · intro h
      obtain ⟨mem₀, hsave₀, hs₀⟩ := h 0 (by norm_num)
      obtain ⟨mem₁, hsave₁, hs₁⟩ := h 1 (by norm_num)
      obtain ⟨mem', hsave₀', h₀⟩ := hsaved 0 (by norm_num)
      obtain ⟨mem'', hsave₁', h₁⟩ := hsaved 1 (by norm_num)
      obtain rfl := Option.some.inj (hsave₀.symm.trans hsave₀')
      obtain rfl := Option.some.inj (hsave₁.symm.trans hsave₁')
      have hcut : ((lines.take i).flatten ++ tag).length < tagSize lines tag i g := by
        by_contra hcut
        exact not_starts_cut htag h₀ h₁ (not_lt.mp hcut) hs₀ hs₁
      have hcut₁ := hcut
      rw [← tagSize_eq lines tag i g 1] at hcut₁
      have hbefore : ∀ l ∈ lines.take i, ¬ tag <:+: l := by
        intro l hl hin
        exact not_starts_inside htag hlines' ⟨l, hl, hin⟩ (h₀.reads hcut).left
          (h₁.reads hcut₁).left hs₀ hs₁
      refine ⟨hbefore, g, rfl, hcut, fun hlt d hd hvalid => ?_⟩
      rw [hhead, Option.some_inj] at hd
      exact not_starts_more htag hlines' hbefore h₀ h₁ hlt hend hnext (hd ▸ hvalid) hs₀ hs₁
    · rintro ⟨hbefore, g', hg', hcut, hvalid⟩ v hv
      obtain rfl := Option.some.inj hg'
      rw [← tagSize_eq lines tag i g v] at hcut hvalid
      obtain ⟨mem', hsave, hwritten⟩ := hsaved v hv
      exact ⟨mem', hsave, starts_written htag hlines' hbefore hv hwritten hcut fun hlt =>
        ⟨c, hnext, hvalid hlt c hhead⟩⟩

/-- Without a line that starts with it, the tag is searched in vain, or found inside a line. -/
lemma absent_iff (htag : IsTag tag) (hlines : ∀ l ∈ lines, IsLine l)
    (hfile : Reads mem flash_address (lines.flatten ++ [NUL])) :
    Starts mem flash_address tag 1 ↔ ReadsOne mem flash_address lines tag := by
  have hnul := nul_flatten hlines
  by_cases hinside : ∃ l ∈ lines, tag <:+: l
  · obtain ⟨l, hl, hin⟩ := hinside
    obtain ⟨k, hk⟩ := exists_firstAt hl hin
    rw [starts_iff htag (hk.find htag hfile.left hnul)]
    constructor
    · intro h
      refine ⟨fun hnone => absurd hin (hnone l hl), fun k' hk' => ?_⟩
      rcases Nat.lt_trichotomy k k' with hlt | rfl | hgt
      · exact absurd hk.here (hk'.first k hlt)
      · exact h
      · exact absurd hk'.here (hk.first k' hgt)
    · intro h
      exact h.inside k hk
  · have hnone : ∀ l ∈ lines, ¬ tag <:+: l := fun l hl hin => hinside ⟨l, hl, hin⟩
    have hnowhere : ∀ k, ¬ tag <+: lines.flatten.drop k := by
      intro k hk
      rcases Nat.lt_or_ge k lines.flatten.length with hlt | hge
      · have hnot := not_occurs htag hlines hnone hlt []
        rw [List.append_nil] at hnot
        exact hnot hk
      · rw [List.drop_eq_nil_of_le hge, List.prefix_nil] at hk
        exact htag.ne hk
    rw [starts_iff htag (find_none htag hfile hnul hnowhere (Nat.lt_succ_self _)), Nat.zero_add]
    constructor
    · intro h
      exact ⟨fun _ => h, fun k hk => absurd hk.here (hnowhere k)⟩
    · intro h
      exact h.nowhere hnone

/-- The value of the line is read, if the tag is found there. -/
lemma present_of_before (htag : IsTag tag) (hlines : ∀ l ∈ lines, IsLine l)
    (hfile : Reads mem flash_address (lines.flatten ++ [NUL])) (hline : TagLine lines tag i l)
    (hbefore : ∀ l ∈ lines.take i, ¬ tag <:+: l) (hn : strtoul (l.drop tag.length) = some n) :
    Starts mem flash_address tag (BitVec.ofNat 8 n) := by
  obtain ⟨hi, hget⟩ := List.getElem?_eq_some_iff.mp hline.get
  obtain ⟨rest, hrest⟩ := hline.starts
  have hsplit : lines.flatten = (lines.take i).flatten ++ tag ++
      (rest ++ (lines.drop (i + 1)).flatten) := by
    conv_lhs => rw [← List.take_append_drop i lines]
    rw [List.drop_eq_getElem_cons hi, hget, ← hrest, List.flatten_append, List.flatten_cons]
    simp only [List.append_assoc]
  rw [← hrest, List.drop_left] at hn
  have hreads := hfile.left
  rw [hsplit] at hreads
  exact (starts_line_iff htag (fun l hl => hlines l (List.mem_of_mem_take hl)) hbefore hreads
    (strtoul_mono hn _)).mpr rfl

/-- Reader and writer agree exactly if the line of the tag is readable, and what is read without one
is 1. -/
theorem toggle_agree_iff (stack : ℕ → Char8) (mem : Flash) (flash_address : ℕ) (buffer : Table)
    (lines : List (List Char8)) (tag : List Char8) (htag : tag ∈ [tagScon, tagPxen])
    (hlines : ∀ l ∈ lines, IsLine l) (hcount : lines.length ≤ MAX_DEVICES)
    (hbuffer : Holds buffer lines)
    (hfile : Reads mem flash_address (lines.flatten ++ [NUL])) :
    Agree stack mem flash_address buffer lines tag ↔
      (∀ i l, TagLine lines tag i l → Readable buffer lines tag i) ∧
        ((∀ l ∈ lines, ¬ tag <+: l) → ReadsOne mem flash_address lines tag) := by
  have htag := isTag_of_mem htag
  constructor
  · rintro ⟨hwritten, habsent, -⟩
    refine ⟨fun i l hline => ?_, fun hnone => ?_⟩
    · exact (written_iff htag hlines hcount hbuffer hline).mp (hwritten i l hline)
    · exact (absent_iff htag hlines hfile).mp (habsent hnone)
  · rintro ⟨hreadable, hone⟩
    refine ⟨fun i l hline => ?_, fun hnone => ?_, fun i l hline n hn => ?_⟩
    · exact (written_iff htag hlines hcount hbuffer hline).mpr (hreadable i l hline)
    · exact (absent_iff htag hlines hfile).mpr (hone hnone)
    · exact present_of_before htag hlines hfile hline (hreadable i l hline).before hn

/-- Memory with a file, and zeros. -/
def exampleMemory (flash_address : ℕ) (text : List Char8) : Flash := fun a =>
  if flash_address ≤ a then (text[a - flash_address]?).getD 0 else 0

lemma reads_exampleMemory : Reads (exampleMemory a text) a text := by
  intro i hi
  rw [exampleMemory, if_pos (Nat.le_add_right a i), Nat.add_sub_cancel_left,
    List.getElem?_eq_getElem hi, Option.getD_some]

/-- The line of the network toggle, with the value 1. -/
def examplePxen : List Char8 := tagPxen ++ [0x31, NEWLINE]

theorem toggle_agree_iff_pxen :
    Agree (fun _ => 0) (exampleMemory 0x1000 (examplePxen ++ [NUL])) 0x1000
      (fun _ => exampleRow examplePxen) [examplePxen] tagPxen := by
  have hline : IsLine examplePxen :=
    ⟨tagPxen ++ [0x31], rfl, by decide, by decide, by decide⟩
  refine (toggle_agree_iff _ _ _ _ [examplePxen] tagPxen (by decide) (fun l hl => ?_) (by decide)
    (fun i hi => ?_) reads_exampleMemory).mpr ⟨fun i l htag => ?_, fun hnone => ?_⟩
  · exact List.mem_singleton.mp hl ▸ hline
  · obtain rfl : i = 0 := Nat.lt_one_iff.mp hi
    exact exampleRow_prefix hline
  · obtain ⟨hi, -⟩ := List.getElem?_eq_some_iff.mp htag.get
    obtain rfl : i = 0 := Nat.lt_one_iff.mp hi
    exact ⟨fun l hl => absurd hl List.not_mem_nil, tagPxen ++ [0x30, NEWLINE], by decide,
      by decide, fun _ => by decide⟩
  · exact absurd ⟨[0x31, NEWLINE], rfl⟩ (hnone examplePxen List.mem_cons_self)

/-- A file without the tag: the value is 0, from address 4, and not the default. -/
theorem not_agree_absent :
    ¬ Agree (fun _ => 0) (exampleMemory 0x1000 [0x75, 0x73, 0x62, 0x0a, NUL]) 0x1000
      (fun _ => exampleRow [0x75, 0x73, 0x62, 0x0a]) [[0x75, 0x73, 0x62, 0x0a]] tagPxen := by
  intro h
  have hdefault := h.absent fun l hl => by
    rw [List.mem_singleton.mp hl]
    decide
  have hread : Starts (exampleMemory 0x1000 [0x75, 0x73, 0x62, 0x0a, NUL]) 0x1000 tagPxen 0 :=
    ⟨6, by decide⟩
  exact absurd (hdefault.unique (isTag_of_mem (by decide)) hread) (by decide)

end ApuBios.SortBootOrder
