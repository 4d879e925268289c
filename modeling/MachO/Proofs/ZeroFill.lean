import MachO.Proofs.ExactRegions
import MachO.Proofs.FileDecoding
import MachO.Proofs.Placing
import MachO.Proofs.RunComparison

namespace MachO

namespace SectionFlags

/-- The type is called one of zero fill. -/
def namedZeroFill (f : SectionFlags) : Bool :=
  (typeName? f.type).any fun name => "ZEROFILL".toList.isSuffixOf name.toList

theorem namedZeroFill_iff (f : SectionFlags) :
    f.namedZeroFill = true ↔ f.type = 0x1 ∨ f.type = 0xC ∨ f.type = 0x12 := by
  have hnames : ∀ n < typeNames.length,
      (typeNames[n]?.any fun name => "ZEROFILL".toList.isSuffixOf name.toList) = true ↔
        n = 0x1 ∨ n = 0xC ∨ n = 0x12 := by
    decide +kernel
  have hvalue : ∀ m : UInt32, f.type = m ↔ f.type.toNat = m.toNat := fun m =>
    UInt32.toNat_inj.symm
  rw [namedZeroFill, typeName?, hvalue, hvalue, hvalue]
  rcases Nat.lt_or_ge f.type.toNat typeNames.length with hlt | hge
  · exact hnames _ hlt
  · have hlength : typeNames.length = 22 := rfl
    rw [List.getElem?_eq_none hge]
    refine iff_of_false Bool.false_ne_true ?_
    have h₁ : (0x1 : UInt32).toNat = 1 := rfl
    have h₂ : (0xC : UInt32).toNat = 12 := rfl
    have h₃ : (0x12 : UInt32).toNat = 18 := rfl
    omega

/-- The attributes alone, as flags of a regular section. -/
def regular (f : SectionFlags) : SectionFlags := ⟨f.attributes⟩

theorem isZeroFill_regular (f : SectionFlags) : f.regular.isZeroFill = false := by
  have htype : f.regular.type = 0 := by
    rw [type, regular, attributes, UInt32.and_assoc]
    exact UInt32.and_zero
  rw [isZeroFill, htype]
  rfl

/-- No more of the flags than whether the section is filled with zeros. -/
def plain (f : SectionFlags) : SectionFlags := if f.isZeroFill then ⟨zeroFill⟩ else ⟨0⟩

theorem isZeroFill_plain (f : SectionFlags) : f.plain.isZeroFill = f.isZeroFill := by
  rw [plain]
  cases f.isZeroFill <;> decide

theorem plain_regular {f : SectionFlags} (h : f.isZeroFill = false) :
    f.regular.plain = f.plain := by
  rw [plain, plain, isZeroFill_regular, h]

end SectionFlags

namespace Section

theorem isZero_iff (s : Section) :
    s.isZero = true ↔ s.size = 0 ∨ s.flags.type = 0x1 := by
  rw [isZero, Bool.or_eq_true, beq_iff_eq, SectionFlags.isZeroFill, beq_iff_eq]
  rfl

def plain (s : Section) : Section := { s with flags := s.flags.plain }

theorem isZero_plain (s : Section) : s.plain.isZero = s.isZero :=
  congrArg (s.size == 0 || ·) s.flags.isZeroFill_plain

theorem read_plain (r : Reader) (s : Section) : s.plain.read r = s.read r := by
  rw [read, read, isZero_plain]
  rfl

end Section

namespace Placement

def plain (p : Placement) : Placement := ⟨p.offset, p.target.plain⟩

theorem copy_plain (r : Reader) (k : Sink) (p : Placement) : p.plain.copy r k = p.copy r k := by
  rw [copy, copy, plain, Section.read_plain]
  rfl

theorem copyAll_plain (r : Reader) (k : Sink) (placements : List Placement) (summary : Summary) :
    copyAll r k (placements.map plain) summary = copyAll r k placements summary := by
  induction placements generalizing summary with
  | nil => rfl
  | cons p rest ih =>
      rw [List.map_cons, copyAll_cons, copyAll_cons, copy_plain]
      exact congrArg (p.copy r k >>= ·) (funext fun length => ih (summary.add p.offset length))

theorem eventsOf_plain (origin : Option UInt64) (sections : List Section) :
    eventsOf origin (sections.map (·.plain)) = eventsOf origin sections := by
  induction sections generalizing origin with
  | nil => rfl
  | cons s rest ih =>
      unfold eventsOf
      simp only [List.map_cons, s.isZero_plain, ih]
      rfl

theorem begin_plain (placements : List Placement) (skipped : Nat) :
    Summary.begin (placements.map plain) skipped = Summary.begin placements skipped := by
  rw [Summary.begin, Summary.begin, List.head?_map, Option.map_map]
  rfl

theorem ofSections_plain (sections : List Section) :
    ofSections (sections.map (·.plain)) = (ofSections sections).map (·.map plain) := by
  have horigin : originOf (sections.map (·.plain)) = originOf sections := by
    cases sections <;> rfl
  have hfind : (sections.map (·.plain)).find? (·.address < originOf sections) =
      (sections.find? (·.address < originOf sections)).map (·.plain) := by
    rw [List.find?_map]
    rfl
  rw [ofSections_eq, ofSections_eq, mapM_ofOrigin_eq, mapM_ofOrigin_eq, horigin, hfind]
  cases sections.find? (·.address < originOf sections) with
  | some s => rfl
  | none =>
      simp only [Option.map_none, Except.map, List.map_map]
      rfl

end Placement

section Flags

variable {commands commands' : List Command}

theorem sectionsIn_plain (selection : Selection) (commands : List Command) :
    (selection.sectionsIn commands).map (·.plain) =
      ((sectionsOf commands).map (·.plain)).filter selection.selects := by
  rw [Selection.sectionsIn, List.filter_map]
  rfl

theorem countP_plain (sections : List Section) :
    (sections.map (·.plain)).countP (·.isZero) = sections.countP (·.isZero) := by
  rw [List.countP_map]
  exact congrArg (sections.countP ·) (funext Section.isZero_plain)

theorem storedIn_plain (selection : Selection) (commands : List Command) :
    (selection.storedIn commands).map (·.plain) =
      ((selection.sectionsIn commands).map (·.plain)).filter (!·.isZero) := by
  rw [List.filter_map]
  have hsame : ((fun s : Section => !s.isZero) ∘ Section.plain) = fun s => !s.isZero :=
    funext fun s => congrArg (!·) s.isZero_plain
  exact congrArg (List.map _ <| List.filter · _) hsame.symm

variable (h : (sectionsOf commands).map (·.plain) = (sectionsOf commands').map (·.plain))
include h

theorem plan_of_plain (selection : Selection) :
    (∃ e, plan commands selection = .error e ∧ plan commands' selection = .error e) ∨
      ∃ placements placements', plan commands selection = .ok placements ∧
        plan commands' selection = .ok placements' ∧
        placements.map (·.plain) = placements'.map (·.plain) := by
  have hplan : (plan commands selection).map (·.map Placement.plain) =
      (plan commands' selection).map (·.map Placement.plain) := by
    have hstored := storedIn_plain selection commands
    rw [sectionsIn_plain, h, ← sectionsIn_plain, ← storedIn_plain] at hstored
    exact (Placement.ofSections_plain _).symm.trans
      ((congrArg Placement.ofSections hstored).trans (Placement.ofSections_plain _))
  cases hp : plan commands selection with
  | error e =>
      cases hp' : plan commands' selection with
      | error e' =>
          rw [hp, hp'] at hplan
          cases hplan
          exact .inl ⟨e, rfl, rfl⟩
      | ok placements' =>
          rw [hp, hp'] at hplan
          cases hplan
  | ok placements =>
      cases hp' : plan commands' selection with
      | error e' =>
          rw [hp, hp'] at hplan
          cases hplan
      | ok placements' =>
          rw [hp, hp'] at hplan
          exact .inr ⟨placements, placements', rfl, rfl, Except.ok.inj hplan⟩

/-- Of the flags of a section an extraction sees only whether it is filled with zeros. -/
theorem extract_of_plain (r : Reader) (k : Sink) (selection : Selection) :
    extract r k commands selection = extract r k commands' selection := by
  have hin : (selection.sectionsIn commands).map (·.plain) =
      (selection.sectionsIn commands').map (·.plain) := by
    rw [sectionsIn_plain, sectionsIn_plain, h]
  have hskipped : (selection.sectionsIn commands).countP (·.isZero) =
      (selection.sectionsIn commands').countP (·.isZero) := by
    rw [← countP_plain, hin, countP_plain]
  have hevents : Placement.eventsOf none (selection.sectionsIn commands) =
      Placement.eventsOf none (selection.sectionsIn commands') := by
    rw [← Placement.eventsOf_plain, hin, Placement.eventsOf_plain]
  rw [extract_eq_bind, extract_eq_bind]
  refine congrArg (· >>= finish k) ?_
  obtain ⟨e, hp, hp'⟩ | ⟨placements, placements', hp, hp', hplaced⟩ :=
    plan_of_plain h selection
  · -- The counts of sections passed over are not reached.
    rw [copySelected, copySelected, planEvents, planEvents, hp, hp', hevents]
    rfl
  · have hlength : placements.length = placements'.length := by
      rw [← List.length_map, hplaced, List.length_map]
    have hcopy : ∀ skipped, copyAll r k placements (.begin placements skipped) =
        copyAll r k placements' (.begin placements' skipped) := by
      intro skipped
      rw [← Placement.copyAll_plain, ← Placement.begin_plain, hplaced, Placement.copyAll_plain,
        Placement.begin_plain]
    have hplanned : ∀ placements : List Placement,
        Copying.scan (Scan.ofExcept (.ok placements)) = pure placements := fun _ => rfl
    rw [copySelected, copySelected, planEvents, planEvents, hp, hp', hevents, hskipped]
    simp only [hplanned, pure_bind, hlength, hcopy]

end Flags

/-- The account with more sections that were passed over. -/
def Summary.skip (count : Nat) (s : Summary) : Summary := { s with skipped := s.skipped + count }

section PassedOver

variable {commands without : List Command} {selection : Selection} {ahead behind : List Section}
  {x : Section}

theorem copyAll_skip (r : Reader) (k : Sink) (count : Nat) (placements : List Placement)
    (summary : Summary) :
    copyAll r k placements (summary.skip count) =
      Summary.skip count <$> copyAll r k placements summary := by
  induction placements generalizing summary with
  | nil => rfl
  | cons p rest ih =>
      rw [copyAll_cons, copyAll_cons, map_bind]
      exact congrArg (p.copy r k >>= ·) (funext fun length => ih (summary.add p.offset length))

theorem finish_skip (k : Sink) (count : Nat) (summary : Summary) :
    Tracks (fun _ => False) (Transfer.Related Cursor.Level Eq) (finish k (summary.skip count))
      (Summary.skip count <$> finish k summary) := by
  have hflush : Tracks (fun _ => False) (Transfer.Related Cursor.Level Eq)
      (Copying.writing k.flush) (Copying.writing k.flush) := Tracks.writing (.of_eq rfl)
  rw [finish, finish, map_bind]
  apply hflush.bind
  -- The accounts that are told differ, which leaves the cursors level.
  rintro _ t u ⟨hcursor, houtput⟩
  exact .inl ⟨rfl, hcursor, houtput⟩

/-- Two extractions of the same sections with bytes in the file do the same but for what they tell,
and count as many more sections that were passed over as there are. -/
theorem extract_skip (hstored : selection.storedIn commands = selection.storedIn without)
    {count : Nat} (hcount : (selection.sectionsIn commands).countP (·.isZero) =
      (selection.sectionsIn without).countP (·.isZero) + count) (r : Reader) (k : Sink) :
    Tracks (fun _ => False) (Transfer.Related Cursor.Level Eq) (extract r k commands selection)
      (Summary.skip count <$> extract r k without selection) := by
  have hplan : plan commands selection = plan without selection :=
    congrArg Placement.ofSections hstored
  have htell : Tracks (fun _ => False) (Transfer.Related Cursor.Level Eq)
      (Copying.scan (Scan.tellAll (planEvents commands selection)))
      (Copying.scan (Scan.tellAll (planEvents without selection))) := by
    rintro t u ⟨hcursor, houtput⟩
    exact .inl ⟨rfl, hcursor, houtput⟩
  have hbegin : ∀ placements skipped, Summary.begin placements (skipped + count) =
      (Summary.begin placements skipped).skip count := fun _ _ => rfl
  rw [extract_eq_bind, extract_eq_bind, copySelected, copySelected, hplan, hcount]
  split
  · intro t u h
    exact .inl ⟨rfl, h⟩
  simp only [bind_assoc, map_bind]
  apply htell.bind
  intro _
  apply (Tracks.ofExcept _).scan.bind
  intro placements
  rw [hbegin, copyAll_skip, bind_map_left]
  apply ((Comparison.level r k).copyAll placements _).bind
  intro summary
  exact finish_skip k count summary

theorem Selection.passesOver_of_isZero (selection : Selection) (hx : x.isZero = true) :
    selection.passesOver x = true := by
  rw [passesOver, hx, Bool.or_true]

theorem storedIn_of_passesOver (hwith : sectionsOf commands = ahead ++ x :: behind)
    (hx : selection.passesOver x = true) (hwithout : sectionsOf without = ahead ++ behind) :
    selection.storedIn commands = selection.storedIn without := by
  rw [selection.storedIn_eq, selection.storedIn_eq, hwith, hwithout, List.filter_append,
    List.filter_append, List.filter_cons_of_neg (by simp [hx])]

theorem countP_of_isZero (hwith : sectionsOf commands = ahead ++ x :: behind)
    (hx : x.isZero = true) (hwithout : sectionsOf without = ahead ++ behind) :
    (selection.sectionsIn commands).countP (·.isZero) =
      (selection.sectionsIn without).countP (·.isZero) + if selection.selects x then 1 else 0 := by
  rw [Selection.sectionsIn, Selection.sectionsIn, hwith, hwithout, List.filter_append,
    List.filter_append, List.countP_append, List.countP_append, List.filter_cons]
  have hone : ∀ rest : List Section, (x :: rest).countP (·.isZero) = rest.countP (·.isZero) + 1 :=
    fun rest => List.countP_cons_of_pos hx
  cases selection.selects x with
  | true => rw [if_pos rfl, if_pos rfl, hone, Nat.add_assoc]
  | false => rfl

theorem target_ne_of_isZero (hx : x.isZero = true) {placements : List Placement}
    (hplan : plan commands selection = .ok placements) : ∀ p ∈ placements, p.target ≠ x := by
  rintro p hp rfl
  obtain ⟨-, rfl⟩ := plan_eq_ok_iff.mp hplan
  obtain ⟨s, hs, rfl⟩ := List.mem_map.mp hp
  exact Bool.false_ne_true ((isZero_of_mem_storedIn hs).symm.trans hx)

theorem extract_of_isZero (hwith : sectionsOf commands = ahead ++ x :: behind)
    (hx : x.isZero = true) (hwithout : sectionsOf without = ahead ++ behind) (r : Reader)
    (k : Sink) (t : Transfer) :
    (stateAfter (extract r k commands selection) t).output =
        (stateAfter (extract r k without selection) t).output ∧
      outcome (extract r k commands selection) t =
        (outcome (extract r k without selection) t).map
          (Summary.skip (if selection.selects x then 1 else 0)) := by
  have hstored := storedIn_of_passesOver hwith (selection.passesOver_of_isZero hx) hwithout
  have hskips := extract_skip hstored (countP_of_isZero hwith hx hwithout) r k
  obtain ⟨hsame, -, houtput⟩ := hskips.same (s := t) (t := t) ⟨rfl, rfl⟩
  rw [stateAfter_map] at houtput
  rw [outcome_map] at hsame
  exact ⟨houtput, hsame⟩

end PassedOver

section Stored

variable {commands : List Command} {selection : Selection} {ahead behind : List Section}
  {x : Section} (hwith : sectionsOf commands = ahead ++ x :: behind)
include hwith

theorem storedIn_of_not_passesOver (hx : selection.passesOver x = false) :
    selection.storedIn commands = ahead.filter (!selection.passesOver ·) ++
      x :: behind.filter (!selection.passesOver ·) := by
  rw [selection.storedIn_eq, hwith, List.filter_append, List.filter_cons_of_pos (by simp [hx])]

theorem exists_target_eq (hx : selection.passesOver x = false) {placements : List Placement}
    (hplan : plan commands selection = .ok placements) : ∃ p ∈ placements, p.target = x := by
  obtain ⟨-, rfl⟩ := plan_eq_ok_iff.mp hplan
  refine ⟨_, List.mem_map_of_mem ?_, rfl⟩
  rw [storedIn_of_not_passesOver hwith hx]
  exact List.mem_append_right _ List.mem_cons_self

theorem originOf_eq_address (hx : selection.passesOver x = false)
    (hahead : ∀ s ∈ ahead, selection.passesOver s = true) :
    originOf (selection.storedIn commands) = x.address := by
  have hnone : ahead.filter (!selection.passesOver ·) = [] :=
    List.filter_eq_nil_iff.mpr fun s hs => by simp [hahead s hs]
  rw [storedIn_of_not_passesOver hwith hx, hnone]
  rfl

/-- A section of a type that is not looked for is as good as a regular one. -/
theorem extract_regular (hx : x.flags.isZeroFill = false) {regular : List Command}
    (hregular : sectionsOf regular = ahead ++ { x with flags := x.flags.regular } :: behind)
    (r : Reader) (k : Sink) : extract r k commands selection = extract r k regular selection := by
  apply extract_of_plain
  rw [hwith, hregular, List.map_append, List.map_append, List.map_cons, List.map_cons,
    Section.plain, Section.plain, SectionFlags.plain_regular hx]

end Stored

/-- Three types of sections are called zero fill, and the first of them is the one that is looked
for. A section of that type, or an empty one, reads as zeros from any source; a plan and the output
of an extraction are as if it were not there, and so is the account, but for the sections passed
over. A section of the other two types is taken for one with bytes in the file: the region at its
offset is read, it is placed if it is selected, it is the origin if no section is placed before it,
and an extraction does the same as with a regular section in its place. -/
theorem zero_fill_of_one_type {commands : List Command} {ahead behind : List Section} {x : Section}
    (hwith : sectionsOf commands = ahead ++ x :: behind) (selection : Selection) :
    (x.flags.namedZeroFill = true ↔
      x.flags.type = 0x1 ∨ x.flags.type = 0xC ∨ x.flags.type = 0x12) ∧
    (x.size = 0 ∨ x.flags.type = 0x1 →
      (∀ r c, x.read r c =
        if x.size.toNat ≤ Section.zeroLimit then .ok (List.replicate x.size.toNat 0) c
        else .error (.outOfRange x.name x.offset.toNat x.size.toNat r.length) c) ∧
      (∀ placements, plan commands selection = .ok placements → ∀ p ∈ placements, p.target ≠ x) ∧
      ∀ without, sectionsOf without = ahead ++ behind →
        plan commands selection = plan without selection ∧
        ∀ r k t,
          (stateAfter (extract r k commands selection) t).output =
            (stateAfter (extract r k without selection) t).output ∧
          outcome (extract r k commands selection) t =
            (outcome (extract r k without selection) t).map
              (Summary.skip (if selection.selects x then 1 else 0))) ∧
    (x.size ≠ 0 → x.flags.type = 0xC ∨ x.flags.type = 0x12 →
      (∀ r, x.read r = r.region x.name x.offset.toNat x.size.toNat) ∧
      (selection.selects x = true →
        (∀ placements, plan commands selection = .ok placements →
          ∃ p ∈ placements, p.target = x) ∧
        ((∀ s ∈ ahead, selection.passesOver s = true) →
          originOf (selection.storedIn commands) = x.address)) ∧
      ∀ regular, sectionsOf regular = ahead ++ { x with flags := x.flags.regular } :: behind →
        ∀ r k, extract r k commands selection = extract r k regular selection) := by
  refine ⟨x.flags.namedZeroFill_iff, ?_, ?_⟩
  · intro hx
    have hzero : x.isZero = true := x.isZero_iff.mpr hx
    refine ⟨Section.read_of_isZero hzero, fun _ hplan => target_ne_of_isZero hzero hplan, ?_⟩
    intro without hwithout
    exact ⟨congrArg Placement.ofSections
        (storedIn_of_passesOver hwith (selection.passesOver_of_isZero hzero) hwithout),
      extract_of_isZero hwith hzero hwithout⟩
  · intro hsize htype
    have hne : x.flags.type ≠ 0x1 := by
      rcases htype with h | h
      · rw [h]
        decide
      · rw [h]
        decide
    have hstored : x.isZero = false :=
      Bool.eq_false_iff.mpr (mt x.isZero_iff.mp (not_or_intro hsize hne))
    refine ⟨Section.read_eq_region hstored, ?_, ?_⟩
    · intro hselected
      have hplaced : selection.passesOver x = false := by
        rw [Selection.passesOver, hselected, hstored]
        rfl
      exact ⟨fun _ hplan => exists_target_eq hwith hplaced hplan,
        originOf_eq_address hwith hplaced⟩
    · intro regular hregular
      exact extract_regular hwith (beq_eq_false_iff_ne.mpr hne) hregular

namespace ZeroFilled

def small : Section := ⟨"__bss", "__DATA", 80, 16, 0, 0, 0, 0, ⟨0x1⟩, 0, 0, 0⟩

def large : Section := ⟨"__huge", "__DATA", 100, 4, 0, 0, 0, 0, ⟨0xC⟩, 0, 0, 0⟩

def stored : Section := ⟨"__data", "__DATA", 108, 2, 344, 0, 0, 0, ⟨0⟩, 0, 0, 0⟩

def segmentOf (sections : List Section) : List Command :=
  [⟨.segment .bits64 ⟨"__DATA", 80, 32, 0, 347, 3, 3, 3, ⟨0⟩, sections⟩, 312⟩]

def file : File where
  header := ⟨0xFEEDFACF, 0x01000007, 3, 2, 1, 312, 0⟩
  format := ⟨.bits64, .little⟩
  commands := segmentOf [small, large, stored]

def bytes : List UInt8 := file.layout.fill ++ [7, 9, 0]

def selection : Selection := .ofNames ["__DATA"] []

end ZeroFilled

section Mixed

open ZeroFilled

theorem zero_fill_of_one_type_midway :
    (∀ r c, small.read r c = .ok (List.replicate 16 0) c) ∧
      plan file.commands selection = plan (segmentOf [large, stored]) selection ∧
      (∀ r, large.read r = r.region "__huge" 0 4) ∧
      originOf (selection.storedIn file.commands) = 100 := by
  have hsmall : sectionsOf file.commands = [] ++ small :: [large, stored] := rfl
  have hlarge : sectionsOf file.commands = [small] ++ large :: [stored] := rfl
  obtain ⟨-, hzero, -⟩ := zero_fill_of_one_type hsmall selection
  obtain ⟨-, -, hregion⟩ := zero_fill_of_one_type hlarge selection
  obtain ⟨hzeros, -, hwithout⟩ := hzero (.inr (by decide))
  obtain ⟨hread, hplaced, -⟩ := hregion (by decide) (.inl (by decide))
  refine ⟨hzeros, (hwithout _ rfl).1, hread, ?_⟩
  exact (hplaced (by decide)).2 (by decide)

/-- The bytes of the header are taken for those of the large section: it reads as them and not as
zeros, it is placed and is the origin, and they go into the output, before the bytes of the one
section that has some. -/
theorem large_zero_fill_from_header :
    let r := Reader.ofBytes bytes
    let start : Transfer := ⟨.start, .empty⟩
    let image commands := (stateAfter (extract r {} commands selection) start).output.image.runs
    let without := segmentOf [small, stored]
    large.flags.namedZeroFill = true ∧
    (∃ c, File.decode r .start = .ok file c) ∧
    result? (large.read r) .start = some [0xCF, 0xFA, 0xED, 0xFE] ∧
    (¬ ∃ c, large.read r .start = .ok (List.replicate 4 0) c) ∧
    plan file.commands selection = .ok [⟨0, large⟩, ⟨8, stored⟩] ∧
    plan file.commands selection ≠ plan without selection ∧
    image file.commands = [⟨0, [0xCF, 0xFA, 0xED, 0xFE]⟩, ⟨8, [7, 9]⟩] ∧
    image file.commands ≠ image without := by
  intro r start image without
  have hfits : file.Fits := by decide
  have hstands : file.layout.StandsAt bytes 0 := by decide +kernel
  have hread : result? (large.read r) .start = some [0xCF, 0xFA, 0xED, 0xFE] := by decide +kernel
  have hplan : plan file.commands selection = .ok [⟨0, large⟩, ⟨8, stored⟩] := rfl
  have hplan' : plan without selection = .ok [⟨0, stored⟩] := rfl
  have himage : image file.commands = [⟨0, [0xCF, 0xFA, 0xED, 0xFE]⟩, ⟨8, [7, 9]⟩] := by
    decide +kernel
  have himage' : image without = [⟨0, [7, 9]⟩] := by decide +kernel
  refine ⟨by decide, ⟨_, File.decode_eq_ok_iff.mpr ⟨hfits, hstands, rfl⟩⟩, hread, ?_, hplan, ?_,
    himage, ?_⟩
  · rintro ⟨c, hzeros⟩
    rw [result?, hzeros] at hread
    exact absurd (Option.some.inj hread) (by decide)
  · rw [hplan, hplan']
    intro hsame
    exact absurd (congrArg List.length (Except.ok.inj hsame)) (by decide)
  · rw [himage, himage']
    decide

end Mixed

end MachO
