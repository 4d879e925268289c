import MachO.Proofs.CommandRun
import MachO.Proofs.ListOption
import MachO.Proofs.OutputCalls

namespace MachO

theorem File.exists_decode_nil : ∃ e c, File.decode (.ofBytes []) .start = .error e c := by
  have hshort : failure? (File.decode (.ofBytes [])) .start = some (.shortHeader 4 0) := by
    decide +kernel
  obtain ⟨c, h⟩ := exists_of_failure? hshort
  exact ⟨_, c, h⟩

theorem exists_misplaced {commands : List Command} {selection : Selection}
    (hbelow : ∃ s ∈ selection.storedIn commands,
      s.address < originOf (selection.storedIn commands)) :
    ∃ s ∈ selection.storedIn commands, s.address < originOf (selection.storedIn commands) ∧
      plan commands selection =
        .error (.belowOrigin s.name s.address (originOf (selection.storedIn commands))) := by
  obtain ⟨x, hx, hlt⟩ := hbelow
  have hplan := plan_eq commands selection
  cases hfind : (selection.storedIn commands).find?
      (·.address < originOf (selection.storedIn commands)) with
  | none => exact absurd (decide_eq_true hlt) (List.find?_eq_none.mp hfind x hx)
  | some s =>
      rw [hfind] at hplan
      exact ⟨s, List.mem_of_find?_eq_some hfind, by simpa using List.find?_some hfind, hplan⟩

namespace CommandLine

section Writing

variable {q : Request} {s : Surroundings} {D : List UInt8}

theorem Request.written_list (q : Request) (events : List Event) (file : File) :
    (q.list events file).written = none := by
  rw [list]
  split
  · rfl
  · dsimp only
    split <;> rfl

theorem Request.written_process_isSome_iff :
    (q.process s D).written.isSome ↔
      ∃ output k file c, q.task = .extract output ∧
        File.decode (.ofBytes D) .start = .ok file c ∧ s.creation output = .ok k := by
  cases hdecode : File.decode (.ofBytes D) .start with
  | error e c => simp [process_of_decode_error hdecode]
  | ok file c =>
      cases htask : q.task with
      | list => simp [process, hdecode, htask, written_list]
      | extract output =>
          cases hcreation : s.creation output with
          | error e => simp [process, hdecode, htask, hcreation, Report.failed]
          | ok k =>
              rw [process_of_decode_ok htask hcreation hdecode,
                (q.extract_report output k (.ofBytes D) c file).2]
              simp [hcreation]

theorem Request.written_perform_of_isEmpty (hselection : q.selection.isEmpty = true) :
    (q.perform s).written = none := by
  rw [perform]
  split
  · rfl
  · rename_i hlist
    have htask : q.task = .list := by simpa [hselection] using hlist
    dsimp only
    split
    · rfl
    · rfl
    · rfl
    · rw [← Option.not_isSome_iff_eq_none, written_process_isSome_iff, htask]
      simp

theorem Request.written_perform_isSome_iff :
    (q.perform s).written.isSome ↔
      q.selection.isEmpty = false ∧
        ∃ D, s.contents q.input = .ok D ∧ (q.process s D).written.isSome := by
  cases hselection : q.selection.isEmpty with
  | true => simp [written_perform_of_isEmpty hselection]
  | false =>
      cases hcontents : s.contents q.input with
      | error e => cases e <;> simp [perform, hselection, hcontents, Report.failed]
      | ok D =>
          by_cases hD : D = []
          · subst hD
            obtain ⟨e, c, hdecode⟩ := File.exists_decode_nil
            simp [perform, hselection, hcontents, Report.failed, process_of_decode_error hdecode]
          · simp [perform_eq_process hselection hcontents hD]

theorem Request.selection_isEmpty_iff (q : Request) :
    q.selection.isEmpty = true ↔ q.segments = [] ∧ q.sections = [] := by
  rw [selection, Selection.isEmpty, Bool.and_eq_true]
  exact and_congr List.isEmpty_iff List.isEmpty_iff

theorem Reply.written_outcome (reply : Reply) : reply.outcome.written = none := by
  cases reply <;> rfl

theorem run_written_isSome_iff (arguments : List String) (s : Surroundings) :
    (run arguments s).written.isSome ↔
      ∃ q output k D file c, Request.ofArguments arguments = .ok q ∧
        (q.segments ≠ [] ∨ q.sections ≠ []) ∧ q.task = .extract output ∧
        s.contents q.input = .ok D ∧ File.decode (.ofBytes D) .start = .ok file c ∧
        s.creation output = .ok k := by
  rw [run]
  cases hparsed : Request.ofArguments arguments with
  | error reply => simp [Reply.written_outcome]
  | ok q =>
      change (q.perform s).written.isSome ↔ _
      rw [Request.written_perform_isSome_iff, ← Bool.not_eq_true, Request.selection_isEmpty_iff,
        Classical.not_and_iff_not_or_not]
      simp only [Request.written_process_isSome_iff]
      constructor
      · rintro ⟨hnames, D, hcontents, output, k, file, c, htask, hdecode, hcreation⟩
        exact ⟨q, output, k, D, file, c, rfl, hnames, htask, hcontents, hdecode, hcreation⟩
      · rintro ⟨q', output, k, D, file, c, heq, hnames, htask, hcontents, hdecode, hcreation⟩
        cases heq
        exact ⟨hnames, D, hcontents, output, k, file, c, htask, hdecode, hcreation⟩

end Writing

/-- A run leaves all files as they were when its arguments are refused or ask for a fixed text, when
a listing is asked for, when no name is given, and when the input cannot be read. Without a name, an
extraction is refused alike whatever the files are. -/
theorem run_keeps_files (arguments : List String) (d : Directory) :
    let after := run arguments d.surroundings
    let Kept : Prop := ∀ name, d.findAfter? after name = d.find? name
    (∀ reply, Request.ofArguments arguments = .error reply → Kept) ∧
    (AsksForList arguments → Kept) ∧
    ∀ q, Request.ofArguments arguments = .ok q →
      (q.task = .list ↔ AsksForList arguments) ∧
      (q.segments = [] → q.sections = [] → Kept) ∧
      ((∀ D file c, d.surroundings.contents q.input = .ok D →
        File.decode (.ofBytes D) .start ≠ .ok file c) → Kept) ∧
      (¬ AsksForList arguments → q.segments = [] → q.sections = [] → ∀ s, run arguments s =
        ⟨1, "", "error: at least one segment or section must be specified\n", none⟩) := by
  intro after Kept
  have hkept : ¬ after.written.isSome → Kept := fun h name =>
    Directory.findAfter?_of_unwritten (Option.not_isSome_iff_eq_none.mp h) name
  -- Each condition rules out one of those under which an output is written.
  have hwritten := run_written_isSome_iff arguments d.surroundings
  refine ⟨?_, ?_, ?_⟩
  · intro reply hreply
    refine hkept fun h => ?_
    obtain ⟨q, _, _, _, _, _, hparsed, -⟩ := hwritten.mp h
    cases hreply.symm.trans hparsed
  · intro hlist
    refine hkept fun h => ?_
    obtain ⟨q, output, _, _, _, _, hparsed, -, htask, -⟩ := hwritten.mp h
    rw [(Request.task_eq_list_iff hparsed).mpr hlist] at htask
    cases htask
  · intro q hq
    have htask := Request.task_eq_list_iff hq
    refine ⟨htask, ?_, ?_, ?_⟩
    · intro hsegments hsections
      refine hkept fun h => ?_
      obtain ⟨q', _, _, _, _, _, hparsed, hnames, -⟩ := hwritten.mp h
      cases hq.symm.trans hparsed
      rcases hnames with hnames | hnames
      · exact hnames hsegments
      · exact hnames hsections
    · intro hunread
      refine hkept fun h => ?_
      obtain ⟨q', _, _, D, file, c, hparsed, -, -, hcontents, hdecode, -⟩ := hwritten.mp h
      cases hq.symm.trans hparsed
      exact hunread D file c hcontents hdecode
    · intro hlist hsegments hsections s
      have hselection : q.selection.isEmpty = true :=
        q.selection_isEmpty_iff.mpr ⟨hsegments, hsections⟩
      have hperform : q.perform s =
          .failed [] ["at least one segment or section must be specified"] :=
        if_pos ⟨fun h => hlist (htask.mp h), hselection⟩
      rw [run, hq]
      dsimp only [Request.outcome]
      rw [hperform]
      rfl

theorem run_keeps_files_narrowInWide :
    let listing := ["in.bin", "-s__DATA", "-vl", "-S", "__text", "out.bin"]
    let unknown := ["-s", "__TEXT", "in.bin", "--bogus", "out.bin"]
    let nameless := ["--", "in.bin", "out.bin"]
    let extracting := ["-s", "__TEXT", "in.bin", "out.bin"]
    let d : Directory := ⟨[("in.bin", File.narrowInWideBytes), ("out.bin", [9, 9])]⟩
    let bare : Directory := ⟨[("out.bin", [9, 9])]⟩
    let other : Directory := ⟨[("in.bin", [1, 2, 3, 4]), ("out.bin", [9, 9])]⟩
    d.findAfter? (run listing d.surroundings) "out.bin" = some [9, 9] ∧
    d.findAfter? (run unknown d.surroundings) "out.bin" = some [9, 9] ∧
    d.findAfter? (run nameless d.surroundings) "out.bin" = some [9, 9] ∧
    run nameless d.surroundings = run nameless bare.surroundings ∧
    bare.findAfter? (run extracting bare.surroundings) "out.bin" = some [9, 9] ∧
    other.findAfter? (run extracting other.surroundings) "out.bin" = some [9, 9] := by
  intro listing unknown nameless extracting d bare other
  have hnamelessTaken : nameless.foldlM Taken.take {} = .ok
      { positionals := ["in.bin", "out.bin"], optionsEnded := true } := by rfl
  have hnameless : Request.ofArguments nameless =
      .ok ⟨0, .extract "out.bin", [], [], "in.bin"⟩ := by
    rw [Request.ofArguments, hnamelessTaken]
    rfl
  have hextractingTaken : extracting.foldlM Taken.take {} = .ok
      { criteria := [.segmentName], segments := ["__TEXT"],
        positionals := ["in.bin", "out.bin"] } := by rfl
  have hextracting : Request.ofArguments extracting =
      .ok ⟨0, .extract "out.bin", ["__TEXT"], [], "in.bin"⟩ := by
    rw [Request.ofArguments, hextractingTaken]
    rfl
  have hunknown : Request.ofArguments unknown = .error (.refused (.unexpected "--bogus")) := by
    rfl
  have hlisting : AsksForList listing := by decide
  have hmissing : ∀ D file c, bare.surroundings.contents "in.bin" = .ok D →
      File.decode (.ofBytes D) .start ≠ .ok file c := by
    rintro _ _ _ ⟨⟩
  have hunread : ∀ D file c, other.surroundings.contents "in.bin" = .ok D →
      File.decode (.ofBytes D) .start ≠ .ok file c := by
    rintro _ file c ⟨⟩ hok
    have hrefused : failure? (File.decode (.ofBytes [1, 2, 3, 4])) .start =
        some (.unknownMagic [1, 2, 3, 4]) := by decide +kernel
    obtain ⟨c', herror⟩ := exists_of_failure? hrefused
    cases herror.symm.trans hok
  obtain ⟨-, -, hread⟩ := run_keeps_files nameless d
  obtain ⟨-, hkept, -, hsame⟩ := hread _ hnameless
  obtain ⟨-, -, hbare⟩ := run_keeps_files extracting bare
  obtain ⟨-, -, hother⟩ := run_keeps_files extracting other
  have hnolist : ¬ AsksForList nameless := by decide
  refine ⟨?_, ?_, ?_, ?_, ?_, ?_⟩
  · exact (run_keeps_files listing d).2.1 hlisting "out.bin"
  · exact (run_keeps_files unknown d).1 _ hunknown "out.bin"
  · exact hkept rfl rfl "out.bin"
  · rw [hsame hnolist rfl rfl d.surroundings, hsame hnolist rfl rfl bare.surroundings]
  · exact (hbare _ hextracting).2.2.1 hmissing "out.bin"
  · exact (hother _ hextracting).2.2.1 hunread "out.bin"

section Misplacement

variable {arguments : List String} {q : Request} {d : Directory} {D : List UInt8} {file : File}
  {c : Cursor}

theorem Report.errors_of_failure {r : Report} {chain : List String} (h : r.failure = some chain)
    (level : Level) :
    ∃ told, (r.outcome level).errors = told ++ ("error: " ++ ": ".intercalate chain ++ "\n") := by
  rw [outcome, h]
  simp only [lines, Option.toList_some, List.map_append, List.map_cons, List.map_nil,
    String.join_append]
  exact ⟨_, congrArg _ (by simp)⟩

theorem Directory.offers_surroundings (hin : d.find? "in.bin" = some D) :
    d.Offers d.surroundings D .file :=
  ⟨rfl, hin, by simp only [surroundings, resolve_output]⟩

theorem Directory.findAfter?_of_ne {o : Outcome} {image : Image} {name : String}
    (h : o.written = some ("out.bin", image)) (hname : name ≠ "out.bin") :
    d.findAfter? o name = d.find? name := by
  rw [findAfter?, h]
  simp only [resolve_output, if_neg hname.symm]

theorem run_of_misplaced (hq : q.Extracts arguments) (hin : d.find? "in.bin" = some D)
    (hdecode : File.decode (.ofBytes D) .start = .ok file c) {name : String}
    {address origin : UInt64}
    (hplan : plan file.commands q.selection = .error (.belowOrigin name address origin)) :
    let after := run arguments d.surroundings
    after.code = 1 ∧ after.written = some ("out.bin", .empty) ∧
      ∃ told, after.errors = told ++ ("error: extract from \"in.bin\": " ++
        (Error.belowOrigin name address origin).message ++ "\n") := by
  have hD : D ≠ [] := by
    rintro rfl
    obtain ⟨e, c', hnil⟩ := File.exists_decode_nil
    cases hnil.symm.trans hdecode
  have hoffers := Directory.offers_surroundings hin
  have hrun := run_eq_process hq hD hoffers
  rw [Request.process_of_decode_ok hq.task hoffers.creation hdecode, Request.extract,
    extract_of_plan_error hplan] at hrun
  have hchain : "error: " ++ ": ".intercalate (("extract from " ++ Text.Quoted.quoted q.input) ::
        (Error.belowOrigin name address origin).chain) =
      "error: extract from \"in.bin\": " ++ (Error.belowOrigin name address origin).message := by
    have hquoted : Text.Quoted.quoted "in.bin" = "\"in.bin\"" := by decide +kernel
    have hcause : (Error.belowOrigin name address origin).chain =
        [(Error.belowOrigin name address origin).message] := rfl
    rw [hq.input, hquoted, hcause]
    simp [← String.append_assoc]
  dsimp only at hrun ⊢
  rw [hrun, ← hchain]
  exact ⟨rfl, rfl, Report.errors_of_failure rfl _⟩

/-- A wide file of a section and one that lies below it. -/
def descendingFile : File where
  header := ⟨0xFEEDFACF, 7, 3, 2, 1, 232, 0⟩
  format := ⟨.bits64, .little⟩
  commands := descending

theorem decode_descendingFile :
    ∃ c, File.decode (.ofBytes descendingFile.layout.fill) .start = .ok descendingFile c := by
  have hfits : descendingFile.Fits := by decide
  have hstands : descendingFile.layout.StandsAt descendingFile.layout.fill 0 := by decide +kernel
  exact ⟨_, File.decode_eq_ok_iff.mpr ⟨hfits, hstands, rfl⟩⟩

theorem descendingFile_below :
    ∃ s ∈ (Selection.ofNames ["S"] []).storedIn descendingFile.commands,
      s.address < originOf ((Selection.ofNames ["S"] []).storedIn descendingFile.commands) := by
  decide +kernel

theorem extracts_segment :
    Request.Extracts ["-s", "S", "in.bin", "out.bin"]
      ⟨0, .extract "out.bin", ["S"], [], "in.bin"⟩ := by
  have htaken : ["-s", "S", "in.bin", "out.bin"].foldlM Taken.take {} = .ok
      { criteria := [.segmentName], segments := ["S"], positionals := ["in.bin", "out.bin"] } := by
    rfl
  have hparsed : Request.ofArguments ["-s", "S", "in.bin", "out.bin"] =
      .ok ⟨0, .extract "out.bin", ["S"], [], "in.bin"⟩ := by
    rw [Request.ofArguments, htaken]
    rfl
  exact ⟨hparsed, rfl, rfl, .inl (List.cons_ne_nil _ _)⟩

/-- A section that lies below the origin is found before anything is written, but by then the output
has been made empty: what it held is lost. -/
theorem misplacement_empties_output (hq : q.Extracts arguments)
    (hin : d.find? "in.bin" = some D) (hdecode : File.decode (.ofBytes D) .start = .ok file c)
    (hbelow : ∃ s ∈ q.selection.storedIn file.commands,
      s.address < originOf (q.selection.storedIn file.commands)) :
    let after := run arguments d.surroundings
    let origin := originOf (q.selection.storedIn file.commands)
    (∃ s ∈ q.selection.storedIn file.commands, s.address < origin ∧
      (∀ k t, ∃ c', extract (.ofBytes D) k file.commands q.selection t =
        .error (.belowOrigin s.name s.address origin) ⟨c', t.output⟩) ∧
      ∃ told, after.errors = told ++ ("error: extract from \"in.bin\": " ++
        (Error.belowOrigin s.name s.address origin).message ++ "\n")) ∧
    after.code = 1 ∧
    d.findAfter? after "out.bin" = some [] ∧
    (d.findAfter? after "out.bin" = d.find? "out.bin" ↔ d.find? "out.bin" = some []) ∧
    ∀ name, name ≠ "out.bin" → d.findAfter? after name = d.find? name := by
  intro after origin
  obtain ⟨s, hs, hlt, hplan⟩ := exists_misplaced hbelow
  obtain ⟨hcode, hwritten, herrors⟩ := run_of_misplaced hq hin hdecode hplan
  have hempty : d.findAfter? after "out.bin" = some [] := Directory.findAfter?_of_written hwritten
  have huntouched : ∀ k t, ∃ c', extract (.ofBytes D) k file.commands q.selection t =
      .error (.belowOrigin s.name s.address origin) ⟨c', t.output⟩ :=
    fun k t => ⟨_, extract_of_plan_error hplan⟩
  refine ⟨⟨s, hs, hlt, huntouched, herrors⟩, hcode, hempty, ?_, ?_⟩
  · rw [hempty, eq_comm]
  · exact fun name hname => Directory.findAfter?_of_ne hwritten hname

theorem misplacement_empties_output_descending :
    let arguments := ["-s", "S", "in.bin", "out.bin"]
    let d : Directory :=
      ⟨[("in.bin", descendingFile.layout.fill), ("out.bin", [1, 2, 3])]⟩
    (run arguments d.surroundings).code = 1 ∧
    d.find? "out.bin" = some [1, 2, 3] ∧
    d.findAfter? (run arguments d.surroundings) "out.bin" = some [] := by
  intro arguments d
  obtain ⟨c, hdecode⟩ := decode_descendingFile
  have hin : d.find? "in.bin" = some descendingFile.layout.fill := rfl
  obtain ⟨-, hcode, hafter, -⟩ :=
    misplacement_empties_output extracts_segment hin hdecode descendingFile_below
  exact ⟨hcode, rfl, hafter⟩

/-- Not every run that cannot place a section leaves its output as it was. -/
theorem output_lost_to_misplacement :
    ¬ ∀ (arguments : List String) (q : Request) (d : Directory) (D : List UInt8) (file : File)
      (c : Cursor), q.Extracts arguments → d.find? "in.bin" = some D →
      File.decode (.ofBytes D) .start = .ok file c →
      (∃ s ∈ q.selection.storedIn file.commands,
        s.address < originOf (q.selection.storedIn file.commands)) →
      (run arguments d.surroundings).code = 1 →
      d.findAfter? (run arguments d.surroundings) "out.bin" = d.find? "out.bin" := by
  intro hkept
  let d : Directory := ⟨[("in.bin", descendingFile.layout.fill), ("out.bin", [1, 2, 3])]⟩
  have hin : d.find? "in.bin" = some descendingFile.layout.fill := rfl
  obtain ⟨c, hdecode⟩ := decode_descendingFile
  obtain ⟨s, -, -, hplan⟩ := exists_misplaced descendingFile_below
  obtain ⟨hcode, hwritten, -⟩ := run_of_misplaced extracts_segment hin hdecode hplan
  have hafter := hkept _ _ d _ _ c extracts_segment hin hdecode descendingFile_below hcode
  rw [Directory.findAfter?_of_written hwritten] at hafter
  cases hafter

end Misplacement

end CommandLine

end MachO
