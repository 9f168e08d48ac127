import ApuBios.Lib.SelfBoot.Properties

/-!
# The order of the segments

`build_self_segment_list` is to order the segments by stream offset. It looks for the place of a new
segment with the load address of the next record, which does not depend on the place, so that the
new segment goes to the front or to the end. `streamOrdered_iff` says for which tables the list is
sorted nevertheless; it has every segment once in any case.
-/

namespace ApuBios.SelfBoot

variable {env : Env} {new : Segment} {r behind last : CbfsPayloadSegment}
  {rest records : List CbfsPayloadSegment} {list seen : List Segment}

/-- The segments lie one behind the other in the stream. -/
def Sorted (list : List Segment) : Prop := list.Pairwise fun s t => s.srcaddr ≤ t.srcaddr

/-- The list is sorted by stream offset, and has the segments of the table once each. -/
structure StreamOrdered (env : Env) (records : List CbfsPayloadSegment) (built : Built) :
    Prop where
  sorted : Sorted built.segments
  perm : built.segments.Perm ((beforeLast records).filterMap (describe env))

/-- A new segment goes where it belongs: to the front if nothing that is there is in front of it in
the stream, to the end if nothing is behind it. -/
def Belongs (new : Segment) (behind : CbfsPayloadSegment) (s : Segment) : Prop :=
  if new.srcaddr < behind.loadAddr.toNat then new.srcaddr ≤ s.srcaddr else s.srcaddr ≤ new.srcaddr

/-- Every segment belongs where it goes, with `seen` in the list at first. -/
def BelongFrom (env : Env) (seen : List Segment) (records : List CbfsPayloadSegment) : Prop :=
  ∀ before r behind after, records = before ++ r :: behind :: after → (∀ x ∈ before, ¬IsLast x) →
    ∀ new ∈ describe env r, ∀ s ∈ seen ++ before.filterMap (describe env), Belongs new behind s

/-- Every segment of the table that is in front of the load address of the record behind it is in
front of all segments before it, and every other segment is behind them. -/
def Belong (env : Env) (records : List CbfsPayloadSegment) : Prop := BelongFrom env [] records

lemma sorted_insertSegment :
    Sorted (insertSegment new behind list) ↔ Sorted list ∧ ∀ s ∈ list, Belongs new behind s := by
  unfold Sorted Belongs
  rw [insertSegment]
  cases list with
  | nil => simp
  | cons s list =>
    simp only [ne_eq, List.cons_ne_nil, not_false_eq_true, true_and]
    split_ifs
    · rw [List.pairwise_cons, and_comm]
    · rw [List.pairwise_append]
      simp

lemma sorted_insertRecord :
    Sorted (insertRecord env r behind list) ↔
      Sorted list ∧ ∀ new ∈ describe env r, ∀ s ∈ list, Belongs new behind s := by
  rw [insertRecord]
  cases describe env r with
  | none => simp
  | some new => simp [sorted_insertSegment]

lemma insertRecord_perm (env : Env) (r behind : CbfsPayloadSegment) (list : List Segment) :
    (insertRecord env r behind list).Perm (list ++ (describe env r).toList) := by
  rw [insertRecord]
  cases describe env r with
  | none => simp
  | some new =>
    dsimp only [Option.toList]
    rw [insertSegment]
    split_ifs
    · exact (List.perm_append_singleton new list).symm
    · exact .refl _

/-- Only what is in the list matters, not its order. -/
lemma BelongFrom.congr {seen' : List Segment} (h : seen.Perm seen') :
    BelongFrom env seen records ↔ BelongFrom env seen' records := by
  simp only [BelongFrom, List.mem_append, h.mem_iff]

lemma belongFrom_last (h : IsLast r) : BelongFrom env seen (r :: rest) := by
  intro before r' behind after heq hbefore new hnew
  cases before with
  | nil =>
    obtain ⟨rfl, -⟩ := List.cons.inj heq
    rw [describe_last h] at hnew
    cases hnew
  | cons x before =>
    obtain ⟨rfl, -⟩ := List.cons.inj heq
    exact absurd h (hbefore r List.mem_cons_self)

/-- The first record, and those behind it. -/
lemma belongFrom_cons (h : ¬IsLast r) :
    BelongFrom env seen (r :: behind :: rest) ↔
      (∀ new ∈ describe env r, ∀ s ∈ seen, Belongs new behind s) ∧
        BelongFrom env (seen ++ (describe env r).toList) (behind :: rest) := by
  have hseen (before : List CbfsPayloadSegment) :
      seen ++ (describe env r).toList ++ before.filterMap (describe env) =
        seen ++ (r :: before).filterMap (describe env) := by
    rw [List.append_assoc, List.filterMap_cons]
    cases describe env r <;> rfl
  constructor
  · intro hall
    refine ⟨fun new hnew s hs => ?_, fun before r' behind' after heq hbefore new hnew s hs => ?_⟩
    · exact hall [] r behind rest rfl (by simp) new hnew s (by simpa using hs)
    · rw [hseen] at hs
      refine hall (r :: before) r' behind' after (by rw [heq]; rfl) ?_ new hnew s hs
      simpa using ⟨h, hbefore⟩
  · rintro ⟨hfirst, hrest⟩ before r' behind' after heq hbefore new hnew s hs
    cases before with
    | nil =>
      obtain ⟨rfl, hcons⟩ := List.cons.inj heq
      obtain ⟨rfl, -⟩ := List.cons.inj hcons
      exact hfirst new hnew s (by simpa using hs)
    | cons x before =>
      obtain ⟨rfl, hcons⟩ := List.cons.inj heq
      refine hrest before r' behind' after hcons (fun y hy => hbefore y (by simp [hy])) new hnew s ?_
      rwa [hseen]

/-- The loop, from any list on. -/
lemma buildLoop_sorted (env : Env) (list : List Segment) (hlast : lastRecord records = some last) :
    ∃ segments, buildLoop env list records = some (builtOf last segments) ∧
      segments.Perm (list ++ (beforeLast records).filterMap (describe env)) ∧
      (Sorted segments ↔ Sorted list ∧ BelongFrom env list records) := by
  revert list
  refine lastRecord_induction ?_ ?_ hlast
  · intro rest hr list
    refine ⟨list, buildLoop_last list hr rest, by simp [beforeLast_last hr], ?_⟩
    exact (and_iff_left (belongFrom_last hr)).symm
  · intro r behind rest hr _ ih list
    obtain ⟨segments, hbuild, hperm, hsorted⟩ := ih (insertRecord env r behind list)
    have hinsert := insertRecord_perm env r behind list
    refine ⟨segments, by rw [buildLoop_cons list hr, hbuild], ?_, ?_⟩
    · refine hperm.trans ((hinsert.append_right _).trans ?_)
      rw [List.append_assoc, beforeLast_cons hr, List.filterMap_cons]
      cases describe env r <;> exact .refl _
    · rw [hsorted, sorted_insertRecord, BelongFrom.congr hinsert, belongFrom_cons hr, and_assoc]

/-- The list has every segment of the table once, and is sorted by stream offset if and only if every
segment belongs where it goes. -/
theorem streamOrdered_iff (env : Env) {records : List CbfsPayloadSegment}
    {last : CbfsPayloadSegment} (hlast : lastRecord records = some last) :
    ∃ built, buildSelfSegmentList env records = some built ∧
      (StreamOrdered env records built ↔ Belong env records) := by
  obtain ⟨segments, hbuild, hperm, hsorted⟩ := buildLoop_sorted env [] hlast
  refine ⟨_, hbuild, ?_⟩
  have hiff : Sorted segments ↔ Belong env records := by
    rw [hsorted, Belong]
    exact and_iff_right .nil
  have hsegments := builtOf_segments last segments
  rw [← hiff]
  exact ⟨fun h => hsegments ▸ h.sorted, fun h => ⟨hsegments.symm ▸ h, hsegments.symm ▸ hperm⟩⟩

/-- Two records whose data lies in the stream in the order of the records, and the entry. -/
def ascending : List CbfsPayloadSegment :=
  [⟨PAYLOAD_SEGMENT_CODE, 0, 84, 0x400000, 0x100, 0x100⟩,
    ⟨PAYLOAD_SEGMENT_DATA, 0, 340, 0x500000, 0x100, 0x100⟩,
    ⟨PAYLOAD_SEGMENT_ENTRY, 0, 0, 0x400000, 0, 0⟩]

theorem streamOrdered_iff_ascending :
    ∃ built, buildSelfSegmentList flash ascending = some built ∧ StreamOrdered flash ascending built := by
  obtain ⟨built, hbuilt, hiff⟩ := streamOrdered_iff flash
    (show lastRecord ascending = some ⟨PAYLOAD_SEGMENT_ENTRY, 0, 0, 0x400000, 0, 0⟩ by decide)
  refine ⟨built, hbuilt, hiff.mpr fun before r behind after heq _ => ?_⟩
  rcases before with _ | ⟨a, _ | ⟨b, _ | ⟨c, before⟩⟩⟩
  · obtain ⟨rfl, rfl, -⟩ : r = _ ∧ behind = _ ∧ _ := by simpa [ascending, eq_comm] using heq
    simp
  · obtain ⟨rfl, rfl, rfl, -⟩ : a = _ ∧ r = _ ∧ behind = _ ∧ _ := by
      simpa [ascending, eq_comm] using heq
    unfold Belongs
    decide
  · simp [ascending] at heq
  · simp [ascending] at heq

/-- The data of the second record is in front of that of the first one. -/
def descending : List CbfsPayloadSegment :=
  [⟨PAYLOAD_SEGMENT_CODE, 0, 340, 0x400000, 0x100, 0x100⟩,
    ⟨PAYLOAD_SEGMENT_DATA, 0, 84, 0x500000, 0x100, 0x100⟩,
    ⟨PAYLOAD_SEGMENT_ENTRY, 0, 0, 0x400000, 0, 0⟩]

theorem not_streamOrdered_descending :
    lastRecord descending = some ⟨PAYLOAD_SEGMENT_ENTRY, 0, 0, 0x400000, 0, 0⟩ ∧
      ∃ built, buildSelfSegmentList flash descending = some built ∧
        ¬StreamOrdered flash descending built := by
  refine ⟨by decide, _, rfl, fun h => ?_⟩
  have hsorted := h.sorted
  revert hsorted
  rw [Sorted]
  decide

end ApuBios.SelfBoot
