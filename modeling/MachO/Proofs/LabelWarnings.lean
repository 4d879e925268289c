import MachO.Proofs.DecodingTrace
import MachO.Selection

namespace MachO

section Labelled

variable {segments : List Segment}

theorem filter_label (h : ∀ g ∈ segments, ∀ s ∈ g.sections, s.label = g.name) (name : String) :
    (segments.flatMap (·.sections)).filter (·.label == name) =
      (segments.filter (·.name == name)).flatMap (·.sections) := by
  induction segments with
  | nil => rfl
  | cons g rest ih =>
      obtain ⟨hg, hrest⟩ := List.forall_mem_cons.mp h
      have hlabels : g.sections.filter (·.label == name) =
          g.sections.filter fun _ => g.name == name :=
        List.filter_congr fun s hs => by rw [hg s hs]
      rw [List.flatMap_cons, List.filter_append, ih hrest, hlabels, List.filter_cons]
      cases g.name == name with
      | true =>
          rw [List.filter_eq_self.mpr fun _ _ => rfl]
          rfl
      | false =>
          rw [List.filter_eq_nil_iff.mpr fun _ _ => Bool.false_ne_true]
          rfl

theorem label_of_warnings (h : segments.flatMap (·.warnings) = []) :
    ∀ g ∈ segments, ∀ s ∈ g.sections, s.label = g.name := by
  intro g hg s hs
  have hnone := List.flatMap_eq_nil_iff.mp h g hg
  rw [Segment.warnings, List.map_eq_nil_iff, List.filter_eq_nil_iff] at hnone
  simpa using hnone s hs

end Labelled

namespace Selection

theorem selects_withSegment (name : String) :
    (empty.withSegment name).selects = fun s => s.label == name := by
  funext s
  show [name].contains s.label = _
  rw [List.contains_cons]
  exact Bool.or_false _

theorem selects_withSection (name : String) :
    (empty.withSection name).selects = fun s => s.name == name := by
  funext s
  show ([name].contains s.name || false) = _
  rw [Bool.or_false, List.contains_cons]
  exact Bool.or_false _

end Selection

/-- For any bytes, one warning is told for each section that is labelled with another segment than
its own, for the load commands that are read before reading ends or fails, and no others. Where a
file is read without any, the sections that are selected by a segment name are those of the segments
of that name, and looking up a section under an owner gives the first one that is selected by
both. -/
theorem File.warnings_complete (D : List UInt8) :
    (stateAfter (File.decode (.ofBytes D)) .start).warnings =
      (segmentsOf (leading (.ofBytes D) .start)).flatMap (fun g =>
        (g.sections.filter (·.label != g.name)).map fun s =>
          .mislabelled s.name s.label g.name) ∧
    ∀ f c, File.decode (.ofBytes D) .start = .ok f c →
      leading (.ofBytes D) .start = f.commands ∧
      (c.warnings = [] →
        (∀ owner, (Selection.empty.withSegment owner).sectionsIn f.commands =
          (f.segments.filter (·.name == owner)).flatMap (·.sections)) ∧
        ∀ owner name, f.findSection? (some owner) name =
          f.sections.find? fun s => (Selection.empty.withSegment owner).selects s &&
            (Selection.empty.withSection name).selects s) := by
  have hwarnings := (stopped_decode (.ofBytes D)).warnings rfl
  refine ⟨hwarnings, fun f c hok => ?_⟩
  have hleading := leading_of_decode hok
  refine ⟨hleading, fun hnone => ?_⟩
  rw [stateAfter_of_ok hok, hnone, hleading] at hwarnings
  have hlabels := label_of_warnings hwarnings.symm
  have hselected : ∀ owner, (f.sections.filter (·.label == owner)) =
      (f.segments.filter (·.name == owner)).flatMap (·.sections) := filter_label hlabels
  constructor
  · intro owner
    rw [Selection.sectionsIn, Selection.selects_withSegment]
    exact hselected owner
  · intro owner name
    rw [findSection?, Selection.selects_withSegment, Selection.selects_withSection]
    show ((f.segments.filter (·.name == owner)).flatMap (·.sections)).find? _ = _
    rw [← hselected, List.find?_filter]
    simp only [Bool.decide_and, Bool.decide_eq_true]

theorem File.warnings_complete_strayed :
    let stray : Section := ⟨"b", "__DATA", 4, 4, 128, 2, 0, 0, ⟨0⟩, 0, 0, 0⟩
    let text : Segment := ⟨"__TEXT", 0, 16, 0, 16, 5, 5, 1, ⟨0⟩, [stray]⟩
    let other : Segment := ⟨"__LAST", 0, 16, 0, 16, 5, 5, 1, ⟨0⟩, [stray]⟩
    let f : File := ⟨⟨0xFEEDFACE, 7, 3, 2, 2, 248, 0⟩, ⟨.bits32, .little⟩,
      [⟨.segment .bits32 text, 124⟩, ⟨.segment .bits32 other, 124⟩]⟩
    let r : Reader := .ofBytes (f.layout.fill.set 224 0xFF)
    ((failure? (File.decode r) .start).isSome = true ∧
      (stateAfter (File.decode r) .start).warnings = [.mislabelled "b" "__DATA" "__TEXT"]) ∧
    narrowInWide.findSection? (some "__TEXT") "__text" =
      narrowInWide.sections.find? fun s => (Selection.empty.withSegment "__TEXT").selects s &&
        (Selection.empty.withSection "__text").selects s := by
  intro stray text other f r
  have hleading : leading r .start = [⟨.segment .bits32 text, 124⟩] := by decide +kernel
  obtain ⟨hwarnings, -⟩ := warnings_complete (f.layout.fill.set 224 0xFF)
  rw [hleading] at hwarnings
  obtain ⟨c, hok, -⟩ := decode_narrowInWide
  obtain ⟨hstate, hread⟩ := warnings_complete narrowInWideBytes
  obtain ⟨hcommands, hsearch⟩ := hread narrowInWide c hok
  rw [stateAfter_of_ok hok, hcommands] at hstate
  exact ⟨⟨by decide +kernel, hwarnings⟩, (hsearch hstate).2 "__TEXT" "__text"⟩

end MachO
