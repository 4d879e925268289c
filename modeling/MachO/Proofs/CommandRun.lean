import MachO.CommandLine.Directory
import MachO.Proofs.FileDecoding
import MachO.Proofs.ImageRuns
import MachO.Proofs.RunComparison

namespace MachO

namespace CommandLine

section Runs

variable {q : Request} {s : Surroundings} {D : List UInt8} {k : Sink} {output : String}

theorem Request.selection_isEmpty (h : q.segments ≠ [] ∨ q.sections ≠ []) :
    q.selection.isEmpty = false := by
  rw [selection, Selection.isEmpty, Bool.and_eq_false_iff]
  rcases h with h | h
  · exact .inl (List.isEmpty_eq_false_iff.mpr h)
  · exact .inr (List.isEmpty_eq_false_iff.mpr h)

theorem Request.perform_eq_process (hselection : q.selection.isEmpty = false)
    (hcontents : s.contents q.input = .ok D) (hD : D ≠ []) : q.perform s = q.process s D := by
  rw [perform, if_neg (by simp [hselection]), hcontents]
  cases D with
  | nil => exact absurd rfl hD
  | cons b bs => rfl

theorem Request.process_of_decode_error {e : Error} {c : Cursor}
    (hdecode : File.decode (.ofBytes D) .start = .error e c) :
    (q.process s D).failure.isSome ∧ (q.process s D).written = none := by
  rw [process, hdecode]
  exact ⟨rfl, rfl⟩

theorem Request.process_of_decode_ok (htask : q.task = .extract output)
    (hcreation : s.creation output = .ok k) {file : File} {c : Cursor}
    (hdecode : File.decode (.ofBytes D) .start = .ok file c) :
    q.process s D = q.extract output k (.ofBytes D) c file := by
  rw [process, hdecode, htask]
  simp only [hcreation]

theorem Request.extract_report (q : Request) (output : String) (k : Sink) (r : Reader) (c : Cursor)
    (file : File) :
    let x := MachO.extract r k file.commands q.selection
    ((q.extract output k r c file).failure = none ↔ ∃ summary t, x ⟨c, .empty⟩ = .ok summary t) ∧
      (q.extract output k r c file).written =
        some (output, (stateAfter x ⟨c, .empty⟩).output.image) := by
  intro x
  rw [extract]
  cases h : MachO.extract r k file.commands q.selection ⟨c, .empty⟩ with
  | ok summary t =>
      rw [stateAfter_of_ok h]
      exact ⟨⟨fun _ => ⟨summary, t, h⟩, fun _ => rfl⟩, rfl⟩
  | error e t =>
      rw [stateAfter_of_error h]
      refine ⟨⟨nofun, ?_⟩, rfl⟩
      rintro ⟨summary, u, hok⟩
      cases h.symm.trans hok

theorem Report.code_eq_zero_iff (report : Report) (level : Level) :
    (report.outcome level).code = 0 ↔ report.failure = none := by
  rw [outcome]
  cases report.failure <;> simp

end Runs

/-- Files are opened as in the directory, the bytes are those of its input file, and the output file
takes what the sink takes. -/
structure Directory.Offers (d : Directory) (s : Surroundings) (D : List UInt8) (k : Sink) :
    Prop where
  contents : s.contents = d.surroundings.contents
  input : d.find? "in.bin" = some D
  creation : s.creation "out.bin" = .ok k

namespace Directory

variable {d : Directory} {s : Surroundings} {D : List UInt8} {k : Sink}

theorem resolve_input (d : Directory) (purpose : Purpose) :
    d.resolve purpose "in.bin" = .ok (.name "in.bin") :=
  d.resolve_eq_name purpose (by decide) (by decide) (by decide) (by decide) (by decide)

theorem resolve_output (d : Directory) (purpose : Purpose) :
    d.resolve purpose "out.bin" = .ok (.name "out.bin") :=
  d.resolve_eq_name purpose (by decide) (by decide) (by decide) (by decide) (by decide)

theorem Offers.contents_input (h : d.Offers s D k) : s.contents "in.bin" = .ok D := by
  rw [h.contents]
  simp only [surroundings, resolve_input, h.input]

theorem findAfter?_of_unwritten {o : Outcome} (h : o.written = none) (name : String) :
    d.findAfter? o name = d.find? name := by
  rw [findAfter?, h]

theorem findAfter?_of_written {o : Outcome} {image : Image}
    (h : o.written = some ("out.bin", image)) :
    d.findAfter? o "out.bin" = some image.flatten := by
  rw [findAfter?, h]
  simp only [resolve_output, if_true]

end Directory

/-- Arguments that ask for the extraction of at least one name, from one file to another. -/
structure Request.Extracts (arguments : List String) (q : Request) : Prop where
  parsed : Request.ofArguments arguments = .ok q
  input : q.input = "in.bin"
  task : q.task = .extract "out.bin"
  names : q.segments ≠ [] ∨ q.sections ≠ []

section Extraction

variable {arguments : List String} {q : Request} {d : Directory} {s : Surroundings}
  {D : List UInt8} {k : Sink}

theorem run_eq_process (hq : q.Extracts arguments) (hD : D ≠ []) (h : d.Offers s D k) :
    run arguments s = (q.process s D).outcome (levelOf q.verbosity) := by
  have hcontents : s.contents q.input = .ok D := by rw [hq.input, h.contents_input]
  have hnames := Request.selection_isEmpty hq.names
  rw [run, hq.parsed, ← Request.perform_eq_process hnames hcontents hD]
  rfl

end Extraction

/-- A run of the command does what an extraction of the library does with the same bytes, names and
output, and succeeds when that does. Once the file is read, the output file holds what the library
has written, with zeros where it has written nothing, up to its last byte: also when the run fails,
and whatever the file held before. When the file cannot be read, it is left as it was. -/
theorem run_refines_extraction {arguments : List String} {q : Request}
    (hq : q.Extracts arguments) {D : List UInt8} (hD : D ≠ []) (k : Sink) :
    let library := extractFile (.ofBytes D) k q.selection ⟨.start, .empty⟩
    let written := (stateAfter (extractFile (.ofBytes D) k q.selection) ⟨.start, .empty⟩).output
    (∀ (d : Directory) s, d.Offers s D k →
      ((run arguments s).code = 0 ↔ ∃ summary t, library = .ok summary t)) ∧
    (∀ file c, File.decode (.ofBytes D) .start = .ok file c →
      ∃ bytes, Image.Spells written.image.get? 0 bytes ∧
        ∀ (d : Directory) s, d.Offers s D k →
          d.findAfter? (run arguments s) "out.bin" = some bytes) ∧
    ∀ e c, File.decode (.ofBytes D) .start = .error e c →
      ∀ (d : Directory) s, d.Offers s D k →
        (run arguments s).code = 1 ∧
          d.findAfter? (run arguments s) "out.bin" = d.find? "out.bin" := by
  intro library written
  have hselection := Request.selection_isEmpty hq.names
  cases hdecode : File.decode (.ofBytes D) .start with
  | ok file c =>
      have hlibrary : library = extract (.ofBytes D) k file.commands q.selection ⟨c, .empty⟩ :=
        extractFile_of_decode_ok hselection hdecode
      have hwritten : written =
          (stateAfter (extract (.ofBytes D) k file.commands q.selection) ⟨c, .empty⟩).output :=
        congrArg Transfer.output (stateAfter_congr hlibrary)
      have hprocess : ∀ (d : Directory) s, d.Offers s D k →
          q.process s D = q.extract "out.bin" k (.ofBytes D) c file :=
        fun d s h => Request.process_of_decode_ok hq.task h.creation hdecode
      obtain ⟨hsuccess, himage⟩ := q.extract_report "out.bin" k (.ofBytes D) c file
      refine ⟨?_, ?_, nofun⟩
      · intro d s h
        rw [run_eq_process hq hD h, Report.code_eq_zero_iff, hprocess d s h, hsuccess, hlibrary]
      · intro file' c' hok
        cases hok
        refine ⟨written.image.flatten, Output.spells_image ?_, ?_⟩
        · rw [hwritten]
          exact extract_earlier _ k _ _ ⟨c, .empty⟩
        · intro d s h
          rw [run_eq_process hq hD h, hprocess d s h, hwritten]
          exact Directory.findAfter?_of_written himage
  | error e c =>
      have hlibrary : library = .error e ⟨c, .empty⟩ :=
        extractFile_of_decode_error hselection hdecode
      have hrefused : ∀ s : Surroundings,
          (q.process s D).failure.isSome ∧ (q.process s D).written = none :=
        fun s => Request.process_of_decode_error hdecode
      refine ⟨?_, nofun, ?_⟩
      · intro d s h
        rw [run_eq_process hq hD h, Report.code_eq_zero_iff, hlibrary]
        constructor
        · intro hnone
          have hsome := (hrefused s).1
          rw [hnone] at hsome
          cases hsome
        · rintro ⟨summary, t, hok⟩
          cases hok
      · intro _ _ _ d s h
        rw [run_eq_process hq hD h]
        exact ⟨if_pos (hrefused s).1, Directory.findAfter?_of_unwritten (hrefused s).2 _⟩

theorem run_refines_extraction_narrowInWide :
    let arguments := ["-s", "__TEXT", "in.bin", "out.bin"]
    let opening (d : Directory) (k : Sink) : Surroundings :=
      { d.surroundings with creation := fun _ => .ok k }
    let seekable : Sink := { seekLimit := some (2 ^ 63 - 1), seekFault := .filePosition }
    let d : Directory := ⟨[("in.bin", File.narrowInWideBytes), ("out.bin", List.replicate 6 9)]⟩
    let other : Directory := ⟨[("in.bin", [1, 2, 3, 4]), ("out.bin", List.replicate 6 9)]⟩
    ((run arguments (opening d seekable)).code = 0 ∧
      d.findAfter? (run arguments (opening d seekable)) "out.bin" = some [128, 0, 0, 0]) ∧
    d.findAfter? (run arguments (opening d { seekable with limit := 2 })) "out.bin" =
      some [128, 0] ∧
    (run arguments (opening other seekable)).code = 1 ∧
    other.findAfter? (run arguments (opening other seekable)) "out.bin" =
      some (List.replicate 6 9) := by
  intro arguments opening seekable d other
  let q : Request := ⟨0, .extract "out.bin", ["__TEXT"], [], "in.bin"⟩
  let written (k : Sink) : Output :=
    (stateAfter (extractFile (.ofBytes File.narrowInWideBytes) k q.selection)
      ⟨.start, .empty⟩).output
  have htaken : arguments.foldlM Taken.take {} = .ok
      { criteria := [.segmentName], segments := ["__TEXT"],
        positionals := ["in.bin", "out.bin"] } := by rfl
  have hparsed : Request.ofArguments arguments = .ok q := by
    rw [Request.ofArguments, htaken]
    rfl
  have hq : q.Extracts arguments := ⟨hparsed, rfl, rfl, .inl (List.cons_ne_nil _ _)⟩
  have hD : File.narrowInWideBytes ≠ [] := by decide +kernel
  have hd : ∀ k, d.Offers (opening d k) File.narrowInWideBytes k := fun k => ⟨rfl, rfl, rfl⟩
  have hother : other.Offers (opening other seekable) [1, 2, 3, 4] seekable := ⟨rfl, rfl, rfl⟩
  obtain ⟨c, hdecode, -⟩ := File.decode_narrowInWide
  have hresult : result? (extractFile (.ofBytes File.narrowInWideBytes) seekable q.selection)
      ⟨.start, .empty⟩ = some ⟨some 0x1000, 1, 0, 4⟩ := by decide +kernel
  obtain ⟨t, hok⟩ := exists_of_result? hresult
  have hrefused : failure? (File.decode (.ofBytes [1, 2, 3, 4])) .start =
      some (.unknownMagic [1, 2, 3, 4]) := by decide +kernel
  obtain ⟨c', herror⟩ := exists_of_failure? hrefused
  have hfour : Image.Spells (written seekable).image.get? 0 [128, 0, 0, 0] := by
    have hflat : (written seekable).image.flatten = [128, 0, 0, 0] := by decide +kernel
    rw [← hflat]
    exact Output.spells_image (by decide +kernel)
  have htwo : Image.Spells (written { seekable with limit := 2 }).image.get? 0 [128, 0] := by
    have hflat : (written { seekable with limit := 2 }).image.flatten = [128, 0] := by
      decide +kernel
    rw [← hflat]
    exact Output.spells_image (by decide +kernel)
  refine ⟨⟨?_, ?_⟩, ?_, ?_⟩
  · obtain ⟨hcode, -, -⟩ := run_refines_extraction hq hD seekable
    exact (hcode d _ (hd seekable)).mpr ⟨_, t, hok⟩
  · obtain ⟨-, hfound, -⟩ := run_refines_extraction hq hD seekable
    obtain ⟨bytes, hbytes, hafter⟩ := hfound _ c hdecode
    rw [hafter d _ (hd seekable), hbytes.unique hfour]
  · obtain ⟨-, hfound, -⟩ := run_refines_extraction hq hD { seekable with limit := 2 }
    obtain ⟨bytes, hbytes, hafter⟩ := hfound _ c hdecode
    rw [hafter d _ (hd _), hbytes.unique htwo]
  · obtain ⟨-, -, hkept⟩ := run_refines_extraction hq (List.cons_ne_nil 1 [2, 3, 4]) seekable
    exact hkept _ c' herror other _ hother

end CommandLine

end MachO
