import Mathlib.Logic.Relation
import MachO.Proofs.ExtractionOverlay

namespace MachO

/-- The section has no part in what is placed: it is not selected, or has no bytes in the file. -/
def Selection.passesOver (selection : Selection) (s : Section) : Bool :=
  !selection.selects s || s.isZero

/-- One pass over sections, with the origin if it is known. -/
def Placement.pass (selection : Selection) :
    Option UInt64 → List Section → Except Error (List Placement)
  | _, [] => .ok []
  | origin, s :: rest =>
      if selection.passesOver s then pass selection origin rest
      else do
        let origin := origin.getD s.address
        let placed ← ofOrigin origin s
        let others ← pass selection (some origin) rest
        return placed :: others

/-- A change of load commands that leaves alone what is placed. -/
inductive Selection.Spares (selection : Selection) : List Command → List Command → Prop
  /-- A command is put in, the sections of which are passed over if it has any. -/
  | command (before after : List Command) (c : Command)
      (passed : ∀ s ∈ sectionsOf [c], selection.passesOver s = true) :
      Spares selection (before ++ after) (before ++ c :: after)
  /-- A section that is passed over is put into a segment. -/
  | inside (before after : List Command) (w : Width) (g : Segment) (size : Nat)
      (first last : List Section) {s : Section} (passed : selection.passesOver s = true) :
      Spares selection
        (before ++ ⟨.segment w { g with sections := first ++ last }, size⟩ :: after)
        (before ++ ⟨.segment w { g with sections := first ++ s :: last }, size⟩ :: after)
  /-- The sections of a segment go under another name, into other fields or another layout. -/
  | around (before after : List Command) (w w' : Width) {g g' : Segment} (size size' : Nat)
      (sections : g'.sections = g.sections) :
      Spares selection (before ++ ⟨.segment w g, size⟩ :: after)
        (before ++ ⟨.segment w' g', size'⟩ :: after)

section Sections

variable {selection : Selection} {commands commands' : List Command}

theorem sectionsOf_append (before after : List Command) :
    sectionsOf (before ++ after) = sectionsOf before ++ sectionsOf after := by
  rw [sectionsOf, segmentsOf, List.filterMap_append, List.flatMap_append]
  rfl

theorem sectionsOf_cons (c : Command) (rest : List Command) :
    sectionsOf (c :: rest) = sectionsOf [c] ++ sectionsOf rest :=
  sectionsOf_append [c] rest

theorem sectionsOf_segment (w : Width) (g : Segment) (size : Nat) :
    sectionsOf [⟨.segment w g, size⟩] = g.sections :=
  List.append_nil g.sections

namespace Selection

theorem storedIn_eq (selection : Selection) (commands : List Command) :
    selection.storedIn commands = (sectionsOf commands).filter (!selection.passesOver ·) := by
  rw [storedIn, sectionsIn, List.filter_filter]
  apply List.filter_congr
  intro s _
  rw [passesOver, Bool.not_or, Bool.not_not, Bool.and_comm]

theorem Spares.storedIn_eq (h : selection.Spares commands commands') :
    selection.storedIn commands' = selection.storedIn commands := by
  rw [selection.storedIn_eq, selection.storedIn_eq]
  cases h with
  | command before after c passed =>
      have hnone : (sectionsOf [c]).filter (!selection.passesOver ·) = [] :=
        List.filter_eq_nil_iff.mpr fun s hs => by simp [passed s hs]
      rw [sectionsOf_append, sectionsOf_append, sectionsOf_cons, List.filter_append,
        List.filter_append, List.filter_append, hnone, List.nil_append]
  | inside before after w g size first last passed =>
      simp only [sectionsOf_append, sectionsOf_cons _ after, sectionsOf_segment,
        List.filter_append, List.filter_cons, passed, Bool.not_true, Bool.false_eq_true, if_false]
  | around before after w w' size size' sections =>
      simp only [sectionsOf_append, sectionsOf_cons _ after, sectionsOf_segment, sections]

theorem storedIn_of_eqvGen (h : Relation.EqvGen selection.Spares commands commands') :
    selection.storedIn commands' = selection.storedIn commands := by
  induction h with
  | rel _ _ hspares => exact hspares.storedIn_eq
  | refl => rfl
  | symm _ _ _ ih => exact ih.symm
  | trans _ _ _ _ _ ih ih' => exact ih'.trans ih

end Selection

end Sections

namespace Placement

variable {selection : Selection} {origin : UInt64}

theorem pass_some (sections : List Section) :
    pass selection (some origin) sections =
      (sections.filter (!selection.passesOver ·)).mapM (ofOrigin origin) := by
  induction sections with
  | nil => rfl
  | cons s rest ih =>
      rw [pass, List.filter_cons]
      cases selection.passesOver s with
      | true => exact ih
      | false =>
          simp only [Bool.not_false, if_true, Bool.false_eq_true, if_false, Option.getD_some,
            List.mapM_cons, ih]

theorem pass_none (sections : List Section) :
    pass selection none sections = ofSections (sections.filter (!selection.passesOver ·)) := by
  induction sections with
  | nil => rfl
  | cons s rest ih =>
      rw [pass, List.filter_cons]
      cases selection.passesOver s with
      | true => exact ih
      | false =>
          simp only [Bool.not_false, if_true, Bool.false_eq_true, if_false, Option.getD_none,
            pass_some, ofSections_eq, originOf, List.mapM_cons]

end Placement

theorem plan_eq_pass (commands : List Command) (selection : Selection) :
    plan commands selection = Placement.pass selection none (sectionsOf commands) := by
  rw [Placement.pass_none, ← selection.storedIn_eq]
  rfl

/-- A plan is exact. One pass over the sections places those that are selected and have bytes in the
file, in their order, each as far behind the start as its address lies above that of the first one;
or it tells of the first of them that lies below. Commands and sections that are passed over can be
put in, changed and taken out, and the name and the fields of a segment can be changed, without
another result. -/
theorem plan_exact (commands : List Command) (selection : Selection) :
    let sections := selection.storedIn commands
    let origin := originOf sections
    plan commands selection = Placement.pass selection none (sectionsOf commands) ∧
    (plan commands selection =
      match sections.find? (·.address < origin) with
      | some s => .error (.belowOrigin s.name s.address origin)
      | none => .ok (sections.map fun s => ⟨s.address.toNat - origin.toNat, s⟩)) ∧
    (∀ placements, plan commands selection = .ok placements →
      ∀ p ∈ placements, p.offset + origin.toNat = p.target.address.toNat) ∧
    ∀ commands', Relation.EqvGen selection.Spares commands commands' →
      plan commands' selection = plan commands selection := by
  intro sections origin
  refine ⟨plan_eq_pass commands selection, plan_eq commands selection, ?_, ?_⟩
  · intro placements hplan p hp
    obtain ⟨hall, rfl⟩ := plan_eq_ok_iff.mp hplan
    obtain ⟨s, hs, rfl⟩ := List.mem_map.mp hp
    exact Nat.sub_add_cancel (UInt64.le_iff_toNat_le.mp (hall s hs))
  · intro commands' h
    exact congrArg Placement.ofSections (Selection.storedIn_of_eqvGen h)

theorem plan_exact_overlapping :
    let selection := Selection.empty.withSegment "S"
    let first : Section := ⟨"a", "S", 100, 4, 0, 0, 0, 0, ⟨0⟩, 0, 0, 0⟩
    let zeros : Section := ⟨"z", "S", 7, 9, 3, 0, 0, 0, ⟨1⟩, 0, 0, 0⟩
    let second : Section := ⟨"b", "S", 102, 4, 5, 0, 0, 0, ⟨0⟩, 0, 0, 0⟩
    let stray : Section := ⟨"b", "T", 1, 4, 5, 0, 0, 0, ⟨0⟩, 0, 0, 0⟩
    let g (name : String) (sections : List Section) : Segment :=
      ⟨name, 0, 0, 0, 0, 0, 0, 3, ⟨0⟩, sections⟩
    let commands (sections : List Section) : List Command :=
      [⟨.other 2 8, 8⟩, ⟨.segment .bits64 (g "S" sections), 312⟩]
    plan [⟨.segment .bits32 (g "T" [first, stray, second]), 9⟩] selection =
        .ok [⟨0, first⟩, ⟨2, second⟩] ∧
      plan (commands [second, zeros, first]) selection = .error (.belowOrigin "a" 100 102) := by
  intro selection first zeros second stray g commands
  have hstray : selection.Spares [⟨.segment .bits64 (g "S" [first, second]), 312⟩]
      [⟨.segment .bits64 (g "S" [first, stray, second]), 312⟩] :=
    .inside [] [] .bits64 (g "S" []) 312 [first] [second] (by decide)
  have hzeros : selection.Spares [⟨.segment .bits64 (g "S" [first, second]), 312⟩]
      [⟨.segment .bits64 (g "S" [first, zeros, second]), 312⟩] :=
    .inside [] [] .bits64 (g "S" []) 312 [first] [second] (by decide)
  have hother : selection.Spares [⟨.segment .bits64 (g "S" [first, zeros, second]), 312⟩]
      (commands [first, zeros, second]) :=
    .command [] _ ⟨.other 2 8, 8⟩ (by decide)
  have hname : selection.Spares [⟨.segment .bits64 (g "S" [first, stray, second]), 312⟩]
      [⟨.segment .bits32 (g "T" [first, stray, second]), 9⟩] :=
    .around [] [] .bits64 .bits32 312 9 rfl
  have hstored : selection.storedIn (commands [first, zeros, second]) = [first, second] := by decide
  have hswapped : selection.storedIn (commands [second, zeros, first]) = [second, first] := by
    decide
  obtain ⟨-, hplan, -, hspares⟩ := plan_exact (commands [first, zeros, second]) selection
  obtain ⟨-, hbelow, -⟩ := plan_exact (commands [second, zeros, first]) selection
  rw [hstored] at hplan
  rw [hswapped] at hbelow
  refine ⟨?_, hbelow⟩
  rw [hspares _ (.trans _ _ _ (.symm _ _ (.trans _ _ _ (.rel _ _ hzeros) (.rel _ _ hother)))
    (.trans _ _ _ (.rel _ _ hstray) (.rel _ _ hname))), hplan]
  rfl

end MachO
