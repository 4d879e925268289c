import Mathlib.Data.List.TFAE
import MachO.Proofs.ExactRegions
import MachO.Proofs.ImageRuns
import MachO.Proofs.RunComparison

namespace MachO

def Section.stopFrom (origin : UInt64) (s : Section) : Nat := s.offsetFrom origin + s.size.toNat

/-- The account after more sections, by their headers alone. -/
def Summary.addAll (origin : UInt64) (sections : List Section) (a : Summary) : Summary :=
  sections.foldl (fun a s => a.add (s.offsetFrom origin) s.size.toNat) a

namespace Summary

variable {origin : UInt64} {sections : List Section} {a : Summary}

theorem addAll_written : (a.addAll origin sections).written = a.written + sections.length := by
  induction sections generalizing a with
  | nil => rfl
  | cons s rest ih =>
      have hrest := ih (a := a.add (s.offsetFrom origin) s.size.toNat)
      have hadd : (a.add (s.offsetFrom origin) s.size.toNat).written = a.written + 1 := rfl
      rw [hadd] at hrest
      rw [List.length_cons]
      exact hrest.trans (by omega)

theorem addAll_kept : (a.addAll origin sections).origin = a.origin ∧
    (a.addAll origin sections).skipped = a.skipped := by
  induction sections generalizing a with
  | nil => exact ⟨rfl, rfl⟩
  | cons s rest ih => exact ih (a := a.add (s.offsetFrom origin) s.size.toNat)

theorem isGreatest_extent_addAll :
    IsGreatest {n | n = a.extent ∨ ∃ s ∈ sections, n = s.stopFrom origin}
      (a.addAll origin sections).extent := by
  induction sections generalizing a with
  | nil =>
      refine ⟨.inl rfl, ?_⟩
      rintro n (rfl | ⟨s, hs, -⟩)
      · exact Nat.le_refl _
      · cases hs
  | cons s rest ih =>
      obtain ⟨hmem, hbound⟩ := ih (a := a.add (s.offsetFrom origin) s.size.toNat)
      have hadd : (a.add (s.offsetFrom origin) s.size.toNat).extent =
          max a.extent (s.stopFrom origin) := rfl
      have hmax := hbound (.inl rfl)
      rw [hadd] at hmax
      constructor
      · rcases hmem with hfirst | ⟨x, hx, hrest⟩
        · rw [hadd] at hfirst
          rcases Nat.le_total a.extent (s.stopFrom origin) with hle | hle
          · exact .inr ⟨s, List.mem_cons_self, hfirst.trans (Nat.max_eq_right hle)⟩
          · exact .inl (hfirst.trans (Nat.max_eq_left hle))
        · exact .inr ⟨x, List.mem_cons_of_mem s hx, hrest⟩
      · rintro n (rfl | ⟨x, hx, rfl⟩)
        · exact Nat.le_trans (Nat.le_max_left _ _) hmax
        · rcases List.mem_cons.mp hx with rfl | hx
          · exact Nat.le_trans (Nat.le_max_right _ _) hmax
          · exact hbound (.inr ⟨x, hx, rfl⟩)

end Summary

section Copied

variable {r : Reader} {k : Sink} {t t' : Transfer} {origin : UInt64} {summary summary' : Summary}

theorem Placement.exists_writeAll_of_copy {p : Placement} (hp : p.target.isZero = false) {n : Nat}
    (h : p.copy r k t = .ok n t') :
    ∃ bytes o, bytes.length = n ∧ bytes.length = p.target.size.toNat ∧ o.position = p.offset ∧
      o.image = t.output.image ∧ k.writeAll bytes o = .ok () t'.output := by
  rw [copy] at h
  obtain ⟨bytes, t₁, hread, h⟩ := bind_eq_ok_iff.mp h
  obtain ⟨_, t₂, htell, h⟩ := bind_eq_ok_iff.mp h
  obtain ⟨_, t₃, hseek, h⟩ := bind_eq_ok_iff.mp h
  obtain ⟨_, t₄, hwrite, h⟩ := bind_eq_ok_iff.mp h
  obtain ⟨rfl, rfl⟩ := pure_eq_ok_iff.mp h
  obtain ⟨hregion, houtput₁⟩ := Copying.scan_eq_ok hread
  obtain ⟨-, houtput₂⟩ := Copying.scan_eq_ok htell
  obtain ⟨hposition, himage⟩ := Sink.seekTo_eq_ok (Copying.writing_eq_ok hseek).1
  rw [Section.read_eq_region hp] at hregion
  refine ⟨bytes, t₃.output, rfl, (Reader.region_eq_ok hregion).2, hposition, ?_,
    (Copying.writing_eq_ok hwrite).1⟩
  rw [himage, houtput₂, houtput₁]

theorem Placement.copy_eq_ok {s : Section} (hs : s.isZero = false) {n : Nat}
    (h : (s.place origin).copy r k t = .ok n t') :
    n = s.size.toNat ∧ ∀ x, (t'.output.image.get? x).isSome ↔
      s.covers origin x = true ∨ (t.output.image.get? x).isSome := by
  obtain ⟨bytes, o, rfl, hlen, hposition, himage, hwrite⟩ := exists_writeAll_of_copy hs h
  refine ⟨hlen, fun x => ?_⟩
  rw [Sink.writeAll_eq_ok hwrite, isSome_put, hposition, himage, hlen, Section.covers,
    Bool.and_eq_true, decide_eq_true_eq, decide_eq_true_eq]
  rfl

theorem copyAll_eq_ok {sections : List Section} (hsections : ∀ s ∈ sections, s.isZero = false)
    (h : copyAll r k (sections.map (·.place origin)) summary t = .ok summary' t') :
    summary' = summary.addAll origin sections ∧ ∀ x, (t'.output.image.get? x).isSome ↔
      (∃ s ∈ sections, s.covers origin x = true) ∨ (t.output.image.get? x).isSome := by
  induction sections generalizing summary t with
  | nil =>
      obtain ⟨rfl, rfl⟩ := pure_eq_ok_iff.mp h
      exact ⟨rfl, fun x => by simp⟩
  | cons s rest ih =>
      obtain ⟨hs, hrest⟩ := List.forall_mem_cons.mp hsections
      obtain ⟨n, t₁, hcopy, h⟩ := bind_eq_ok_iff.mp h
      obtain ⟨rfl, hfirst⟩ := Placement.copy_eq_ok hs hcopy
      obtain ⟨hsummary, hothers⟩ := ih hrest h
      refine ⟨hsummary, fun x => ?_⟩
      rw [hothers, hfirst]
      simp only [List.mem_cons, exists_eq_or_imp]
      exact or_left_comm.trans or_assoc.symm

end Copied

theorem extract_eq_ok {r : Reader} {k : Sink} {commands : List Command} {selection : Selection}
    {t t' : Transfer} {summary : Summary}
    (h : extract r k commands selection t = .ok summary t') :
    let sections := selection.storedIn commands
    let placements := sections.map (·.place (originOf sections))
    plan commands selection = .ok placements ∧
    summary = (Summary.begin placements ((selection.sectionsIn commands).countP (·.isZero))).addAll
      (originOf sections) sections ∧
    ∀ x, (t'.output.image.get? x).isSome ↔
      (∃ s ∈ sections, s.covers (originOf sections) x = true) ∨
        (t.output.image.get? x).isSome := by
  intro sections placements
  rw [extract] at h
  obtain ⟨-, h⟩ := ite_throw_eq_ok_iff.mp h
  obtain ⟨_, t₁, htell, h⟩ := bind_eq_ok_iff.mp h
  obtain ⟨planned, t₂, hplanned, h⟩ := bind_eq_ok_iff.mp h
  obtain ⟨account, t₃, hcopy, h⟩ := bind_eq_ok_iff.mp h
  obtain ⟨_, t₄, hflush, h⟩ := bind_eq_ok_iff.mp h
  obtain ⟨_, t₅, hreport, h⟩ := bind_eq_ok_iff.mp h
  obtain ⟨rfl, rfl⟩ := pure_eq_ok_iff.mp h
  have hplan : plan commands selection = .ok planned :=
    Copying.eq_of_scan_ofExcept ⟨_, _, hplanned⟩
  obtain ⟨-, rfl⟩ := plan_eq_ok_iff.mp hplan
  obtain ⟨rfl, hheld⟩ := copyAll_eq_ok (fun s hs => isZero_of_mem_storedIn hs) hcopy
  refine ⟨hplan, rfl, fun x => ?_⟩
  rw [(Copying.scan_eq_ok hreport).2, Sink.flush_eq_ok (Copying.writing_eq_ok hflush).1, hheld,
    (Copying.scan_eq_ok hplanned).2, (Copying.scan_eq_ok htell).2]

section Account

variable {sections : List Section} {origin : UInt64} {a : Summary}

theorem isGreatest_extent_of_ne_nil (hne : sections ≠ []) (ha : a.extent = 0) :
    IsGreatest {n | ∃ s ∈ sections, n = s.stopFrom origin} (a.addAll origin sections).extent := by
  have hall : IsGreatest _ (a.addAll origin sections).extent := Summary.isGreatest_extent_addAll
  obtain ⟨hmem, hbound⟩ := hall
  refine ⟨?_, fun n hn => hbound (.inr hn)⟩
  rcases hmem with hzero | hreached
  -- If nothing was reached, the first section is at the start and empty, and still its end is.
  · obtain ⟨s, rest, rfl⟩ := List.exists_cons_of_ne_nil hne
    have hfirst : s.stopFrom origin ≤ (a.addAll origin (s :: rest)).extent :=
      hbound (.inr ⟨s, List.mem_cons_self, rfl⟩)
    exact ⟨s, List.mem_cons_self, by omega⟩
  · exact hreached

theorem extent_pos {n : Nat} (hpos : ∀ s ∈ sections, 0 < s.size.toNat)
    (h : IsGreatest {n | ∃ s ∈ sections, n = s.stopFrom origin} n) : 0 < n := by
  obtain ⟨s, hs, rfl⟩ := h.1
  exact Nat.add_pos_right _ (hpos s hs)

theorem extent_addAll_eq_zero_iff (hpos : ∀ s ∈ sections, 0 < s.size.toNat) (ha : a.extent = 0) :
    (a.addAll origin sections).extent = 0 ↔ sections = [] := by
  constructor
  · intro hzero
    rcases Decidable.em (sections = []) with hnil | hne
    · exact hnil
    · have hpositive : 0 < (a.addAll origin sections).extent :=
        extent_pos hpos (isGreatest_extent_of_ne_nil hne ha)
      exact absurd hzero (Nat.ne_of_gt hpositive)
  · rintro rfl
    exact ha

theorem isGreatest_covered {n : Nat} (hpos : ∀ s ∈ sections, 0 < s.size.toNat)
    (h : IsGreatest {n | ∃ s ∈ sections, n = s.stopFrom origin} n) :
    IsGreatest {x | ∃ s ∈ sections, s.covers origin x = true} (n - 1) := by
  obtain ⟨⟨s, hs, rfl⟩, hbound⟩ := h
  have hsize := hpos s hs
  simp only [Section.covers, Bool.and_eq_true, decide_eq_true_eq]
  constructor
  · rw [Section.stopFrom]
    exact ⟨s, hs, by omega, by omega⟩
  · rintro x ⟨y, hy, -, hx⟩
    have hle : y.stopFrom origin ≤ s.stopFrom origin := hbound ⟨y, hy, rfl⟩
    rw [Section.stopFrom] at hle
    exact Nat.le_sub_one_of_lt (Nat.lt_of_lt_of_le hx hle)

theorem isLeast_covered (hne : sections ≠ []) (hpos : ∀ s ∈ sections, 0 < s.size.toNat) :
    IsLeast {x | ∃ s ∈ sections, s.covers (originOf sections) x = true} 0 := by
  obtain ⟨s, rest, rfl⟩ := List.exists_cons_of_ne_nil hne
  have hsize := hpos s List.mem_cons_self
  refine ⟨⟨s, List.mem_cons_self, ?_⟩, fun x _ => Nat.zero_le x⟩
  have hstart : s.offsetFrom (originOf (s :: rest)) = 0 := Nat.sub_self _
  simp only [Section.covers, hstart, Bool.and_eq_true, decide_eq_true_eq]
  omega

theorem eq_empty_iff_of_covered {image : Image} (hascending : Image.Ascending 0 image.runs)
    (hpos : ∀ s ∈ sections, 0 < s.size.toNat)
    (hcovered : ∀ x, (image.get? x).isSome ↔
      ∃ s ∈ sections, s.covers (originOf sections) x = true) :
    image = .empty ↔ sections = [] := by
  rw [Image.eq_empty_iff hascending]
  constructor
  · intro hnone
    rcases Decidable.em (sections = []) with hnil | hne
    · exact hnil
    · exact absurd ((hcovered 0).mpr (isLeast_covered hne hpos).1) (hnone 0)
  · intro hnil x hx
    obtain ⟨s, hs, -⟩ := (hcovered x).mp hx
    rw [hnil] at hs
    cases hs

end Account

theorem ascending_extract (r : Reader) (k : Sink) (commands : List Command)
    (selection : Selection) {t : Transfer} (h : t.output.image = .empty) :
    Image.Ascending 0 (stateAfter (extract r k commands selection) t).output.image.runs := by
  apply Image.ascending_writeAll
  rw [extract_earlier, Image.eq_empty_of_writeAll h]
  trivial

theorem Selection.length_storedIn_add (selection : Selection) (commands : List Command) :
    (selection.storedIn commands).length + (selection.sectionsIn commands).countP (·.isZero) =
      (selection.sectionsIn commands).length := by
  have hsplit := List.length_eq_countP_add_countP (·.isZero) (l := selection.sectionsIn commands)
  have hstored : (selection.storedIn commands).length =
      (selection.sectionsIn commands).countP (!·.isZero) := List.countP_eq_length_filter.symm
  simp only [Bool.not_eq_true, Bool.decide_eq_false] at hsplit
  omega

/-- The account of an extraction tells the truth about an output that was empty before, whatever
source and sink may refuse. -/
theorem summary_true_of_output (r : Reader) (k : Sink) (commands : List Command)
    (selection : Selection) {t t' : Transfer} {summary : Summary}
    (hempty : t.output.image = .empty)
    (h : extract r k commands selection t = .ok summary t') :
    let sections := selection.storedIn commands
    let origin := originOf sections
    let image := t'.output.image
    t'.output.seen Call.target = t.output.seen Call.target ++ sections.map (·.offsetFrom origin) ∧
    summary.written = sections.length ∧
    summary.written + summary.skipped = (selection.sectionsIn commands).length ∧
    summary.origin = sections.head?.map (·.address) ∧
    (∀ s ∈ sections, origin ≤ s.address) ∧
    (∀ x, (image.get? x).isSome ↔ ∃ s ∈ sections, s.covers origin x = true) ∧
    List.TFAE [summary.origin = none, summary.written = 0, summary.extent = 0, image = .empty] ∧
    (0 < summary.written →
      (∃ first last, image.runs.head? = some first ∧ first.start = 0 ∧
        image.runs.getLast? = some last ∧ last.stop = summary.extent) ∧
      IsGreatest {n | ∃ s ∈ sections, n = s.address.toNat - origin.toNat + s.size.toNat}
        summary.extent) := by
  intro sections origin image
  obtain ⟨hplan, hsummary, hheld⟩ := extract_eq_ok h
  have hpos : ∀ s ∈ sections, 0 < s.size.toNat := fun s hs =>
    Section.size_pos (isZero_of_mem_storedIn hs)
  have hcovered : ∀ x, (image.get? x).isSome ↔ ∃ s ∈ sections, s.covers origin x = true := by
    intro x
    have hnone : ¬ (t.output.image.get? x).isSome := by
      rw [hempty]
      exact Bool.false_ne_true
    exact (hheld x).trans (or_iff_left hnone)
  have hascending : Image.Ascending 0 image.runs := by
    have hruns := ascending_extract r k commands selection hempty
    rwa [stateAfter_of_ok h] at hruns
  have hwritten : summary.written = sections.length := by
    rw [hsummary, Summary.addAll_written]
    exact Nat.zero_add _
  have horigin : summary.origin = sections.head?.map (·.address) := by
    rw [hsummary, Summary.addAll_kept.1]
    exact (congrArg _ List.head?_map).trans (Option.map_map _ _ _)
  refine ⟨?_, hwritten, ?_, horigin, (plan_eq_ok_iff.mp hplan).1, hcovered, ?_, ?_⟩
  · obtain ⟨issued, hseen, -, hall⟩ := extract_issues hplan t
    rw [stateAfter_of_ok h, hall summary t' h] at hseen
    rw [hseen, List.map_map]
    rfl
  · rw [hwritten, hsummary, Summary.addAll_kept.2]
    exact selection.length_storedIn_add commands
  · apply List.tfae_of_forall (sections = [])
    simp only [List.mem_cons, List.not_mem_nil, or_false]
    rintro P (rfl | rfl | rfl | rfl)
    · rw [horigin, Option.map_eq_none_iff, List.head?_eq_none_iff]
    · rw [hwritten, List.length_eq_zero_iff]
    · rw [hsummary]
      exact extent_addAll_eq_zero_iff hpos rfl
    · exact eq_empty_iff_of_covered hascending hpos hcovered
  · intro hwrote
    have hne : sections ≠ [] := by
      rw [hwritten] at hwrote
      exact List.ne_nil_of_length_pos hwrote
    have hextent : IsGreatest {n | ∃ s ∈ sections, n = s.stopFrom origin} summary.extent := by
      rw [hsummary]
      exact isGreatest_extent_of_ne_nil hne rfl
    have hheldSet : {x | (image.get? x).isSome} =
        {x | ∃ s ∈ sections, s.covers origin x = true} := Set.ext hcovered
    obtain ⟨first, last, hfirst, hstart, hlast, hstop⟩ := Image.exists_bounds hascending
      (hheldSet ▸ isLeast_covered hne hpos) (hheldSet ▸ isGreatest_covered hpos hextent)
    have hend := extent_pos hpos hextent
    exact ⟨⟨first, last, hfirst, hstart, hlast, by omega⟩, hextent⟩

theorem summary_true_overlapping :
    let r := Reader.ofSource { bytes := #[10, 11, 12, 13, 14, 15, 16, 17, 18, 19], chunk := some 2 }
    let k : Sink := { chunk := some 3, limit := 6, seekLimit := some 2 }
    ∃ summary t', extract r k overlapping (Selection.empty.withSegment "S") ⟨.start, .empty⟩ =
        .ok summary t' ∧
      summary.written = 2 ∧ summary.written + summary.skipped = 3 ∧ summary.origin = some 100 ∧
      ∃ first last, t'.output.image.runs.head? = some first ∧ first.start = 0 ∧
        t'.output.image.runs.getLast? = some last ∧ last.stop = summary.extent := by
  intro r k
  have hextract : result? (extract r k overlapping (Selection.empty.withSegment "S"))
      ⟨.start, .empty⟩ = some ⟨some 100, 2, 1, 6⟩ := by decide +kernel
  obtain ⟨t', hok⟩ := exists_of_result? hextract
  obtain ⟨-, hwritten, hselected, horigin, -, -, -, hreach⟩ :=
    summary_true_of_output r k overlapping _ rfl hok
  exact ⟨_, t', hok, hwritten, hselected, horigin, (hreach (by decide)).1⟩

end MachO
