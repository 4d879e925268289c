import MachO.Proofs.ExtractionOverlay

namespace MachO

variable {β : Type}

namespace Output

/-- The calls of the output, seen through a view of single calls. -/
def seen (view : Call → List β) (o : Output) : List β := o.calls.toList.flatMap view

theorem seen_record (view : Call → List β) (o : Output) (call : Call) :
    (o.record call).seen view = o.seen view ++ view call := by
  simp [seen, record]

theorem seen_accept (view : Call → List β) (o : Output) (bytes : List UInt8) :
    (o.accept bytes).seen view = o.seen view ++ view (.write o.position bytes) :=
  seen_record view o _

end Output

def Call.target : Call → List Nat
  | .seek position => [position]
  | _ => []

def Call.flushes : Call → List Unit
  | .flush => [()]
  | _ => []

theorem Output.seen_flushes_eq_nil_iff {o : Output} :
    o.seen Call.flushes = [] ↔ .flush ∉ o.calls := by
  rw [seen, List.flatMap_eq_nil_iff, ← Array.mem_toList_iff]
  constructor
  · intro h hflush
    exact absurd (h _ hflush) (List.cons_ne_nil _ _)
  · intro h call hcall
    cases call with
    | flush => exact absurd hcall h
    | seek position => rfl
    | write position bytes => rfl
    | full => rfl

theorem Sink.seen_seekTo (view : Call → List β) (k : Sink) (position : Nat) (o : Output) :
    (stateAfter (k.seekTo position) o).seen view = o.seen view ++ view (.seek position) := by
  rw [← Output.seen_record, stateAfter, seekTo_eq]
  cases k.allowsSeek position <;> rfl

theorem Sink.seen_flush (view : Call → List β) (k : Sink) (o : Output) :
    (stateAfter k.flush o).seen view = o.seen view ++ view .flush := by
  rw [← Output.seen_record, stateAfter, flush_eq]
  cases k.failsFlush <;> rfl

theorem Copying.output_scan {α : Type} (x : Scan α) (t : Transfer) :
    (stateAfter (scan x) t).output = t.output := by
  cases h : x t.cursor with
  | ok a c => rw [stateAfter_of_ok (scan_of_ok h)]
  | error e c => rw [stateAfter_of_error (scan_of_error h)]

theorem Copying.output_writing {α : Type} (x : Writing α) (t : Transfer) :
    (stateAfter (writing x) t).output = stateAfter x t.output := by
  cases h : x t.output with
  | ok a o => rw [stateAfter_of_ok (writing_of_ok h), stateAfter_of_ok h]
  | error f o => rw [stateAfter_of_error (writing_of_error h), stateAfter_of_error h]

theorem Copying.eq_of_scan_ofExcept {α : Type} {x : Except Error α} {a : α}
    (h : ∃ t u, scan (Scan.ofExcept x) t = .ok a u) : x = .ok a := by
  obtain ⟨t, u, h⟩ := h
  cases x with
  | ok b =>
      cases h
      rfl
  | error e => cases h

/-- The run adds a beginning of what is expected to the calls of the output, and all of it when it
succeeds. -/
def Copying.Issues {α : Type} (view : Call → List β) (x : Copying α) (expected : List β) :
    Prop :=
  ∀ t, ∃ issued, (stateAfter x t).output.seen view = t.output.seen view ++ issued ∧
    issued <+: expected ∧ ∀ a u, x t = .ok a u → issued = expected

namespace Copying.Issues

variable {α α' : Type} {view : Call → List β}

theorem of_output {x : Copying α} (h : ∀ t, (stateAfter x t).output = t.output) :
    Issues view x [] := by
  intro t
  refine ⟨[], ?_, List.nil_prefix, fun _ _ _ => rfl⟩
  rw [h t, List.append_nil]

theorem pure (a : α) : Issues view (Pure.pure a : Copying α) [] := of_output fun _ => rfl

theorem throw (e : Error) {expected : List β} :
    Issues view (MonadExcept.throw e : Copying α) expected := by
  intro t
  refine ⟨[], (List.append_nil _).symm, List.nil_prefix, ?_⟩
  intro a u h
  cases h

theorem scan (x : Scan α) : Issues view (Copying.scan x) [] := of_output (output_scan x)

theorem writing {x : Writing α} {expected : List β}
    (h : ∀ o, (stateAfter x o).seen view = o.seen view ++ expected) :
    Issues view (Copying.writing x) expected := by
  intro t
  refine ⟨expected, ?_, List.prefix_rfl, fun _ _ _ => rfl⟩
  rw [output_writing, h]

theorem bind {x : Copying α} {f : α → Copying α'} {es fs : List β} (hx : Issues view x es)
    (hf : ∀ a, (∃ t u, x t = .ok a u) → Issues view (f a) fs) :
    Issues view (x >>= f) (es ++ fs) := by
  intro t
  obtain ⟨issued, hseen, hprefix, hall⟩ := hx t
  cases h : x t with
  | ok a u =>
      obtain ⟨issued', hseen', hprefix', hall'⟩ := hf a ⟨t, u, h⟩ u
      rw [stateAfter_of_ok h, hall a u h] at hseen
      rw [stateAfter_bind_of_ok h, bind_eq_of_ok h, hseen', hseen, List.append_assoc]
      refine ⟨es ++ issued', rfl, (List.prefix_append_right_inj es).mpr hprefix', ?_⟩
      intro b v hok
      rw [hall' b v hok]
  | error e u =>
      rw [stateAfter_of_error h] at hseen
      rw [stateAfter_bind_of_error h, bind_eq_of_error h]
      refine ⟨issued, hseen, hprefix.trans (List.prefix_append es fs), ?_⟩
      intro b v hok
      cases hok

theorem seekTo (k : Sink) (position : Nat) :
    Issues view (Copying.writing (k.seekTo position)) (view (.seek position)) :=
  writing (k.seen_seekTo view position)

theorem flush (k : Sink) : Issues view (Copying.writing k.flush) (view .flush) :=
  writing (k.seen_flush view)

end Copying.Issues

/-- The part of an extraction that comes before the output is flushed. -/
def copySelected (r : Reader) (k : Sink) (commands : List Command) (selection : Selection) :
    Copying Summary := do
  if selection.isEmpty then throw .emptySelection
  Copying.scan (Scan.tellAll (planEvents commands selection))
  let placements ← Copying.scan (Scan.ofExcept (plan commands selection))
  copyAll r k placements (.begin placements ((selection.sectionsIn commands).countP (·.isZero)))

def finish (k : Sink) (summary : Summary) : Copying Summary := do
  Copying.writing k.flush
  Copying.scan (Scan.tell (.extracted summary))
  return summary

theorem extract_eq_bind (r : Reader) (k : Sink) (commands : List Command)
    (selection : Selection) :
    extract r k commands selection = copySelected r k commands selection >>= finish k := by
  unfold extract extractBy copySelected finish
  split
  · rfl
  · simp only [bind_assoc]
    rfl

section Runs

variable {view : Call → List β}

theorem Sink.seen_writeAll (hwrite : ∀ p bs, view (.write p bs) = []) (hfull : view .full = [])
    (k : Sink) (bytes : List UInt8) (o : Output) :
    (stateAfter (k.writeAll bytes) o).seen view = o.seen view := by
  have haccept : ∀ (o : Output) taken, (o.accept taken).seen view = o.seen view := by
    intro o taken
    rw [Output.seen_accept, hwrite, List.append_nil]
  induction bytes using Sink.writeAll.induct k generalizing o with
  | case1 => rw [stateAfter, writeAll]
  | case2 b bs ih =>
      have hstep := writeAll_cons k b bs o
      split at hstep
      · rw [stateAfter_of_error hstep, Output.seen_record, hfull, List.append_nil]
      split at hstep
      · rw [stateAfter_of_error hstep, haccept]
      · rename_i hcount
        rw [stateAfter, hstep]
        exact (ih o hcount _).trans (haccept o _)

theorem finish_issues (k : Sink) (summary : Summary) :
    Copying.Issues view (finish k summary) (view .flush) := by
  rw [← List.append_nil (view .flush)]
  apply (Copying.Issues.flush k).bind
  intro _ _
  apply (Copying.Issues.scan _).bind
  intro _ _
  exact .pure _

variable (hwrite : ∀ p bs, view (.write p bs) = []) (hfull : view .full = [])
include hwrite hfull

theorem Copying.Issues.writeAll (k : Sink) (bytes : List UInt8) :
    Issues view (Copying.writing (k.writeAll bytes)) [] := by
  apply writing
  intro o
  rw [List.append_nil, k.seen_writeAll hwrite hfull]

theorem Placement.copy_issues (r : Reader) (k : Sink) (p : Placement) :
    Copying.Issues view (p.copy r k) (view (.seek p.offset)) := by
  rw [← List.append_nil (view (.seek p.offset))]
  apply (Copying.Issues.scan _).bind
  intro bytes _
  apply (Copying.Issues.scan _).bind
  intro _ _
  apply (Copying.Issues.seekTo k p.offset).bind
  intro _ _
  apply (Copying.Issues.writeAll hwrite hfull k bytes).bind
  intro _ _
  exact .pure _

theorem copyAll_issues (r : Reader) (k : Sink) (placements : List Placement) (summary : Summary) :
    Copying.Issues view (copyAll r k placements summary)
      (placements.flatMap fun p => view (.seek p.offset)) := by
  induction placements generalizing summary with
  | nil => exact .pure _
  | cons p rest ih =>
      rw [List.flatMap_cons]
      apply (p.copy_issues hwrite hfull r k).bind
      intro length _
      exact ih _

theorem copySelected_issues (r : Reader) (k : Sink) {commands : List Command}
    {selection : Selection} {expected : List β}
    (hplan : ∀ placements, plan commands selection = .ok placements →
      (placements.flatMap fun p => view (.seek p.offset)) = expected) :
    Copying.Issues view (copySelected r k commands selection) expected := by
  rw [copySelected]
  split
  · exact .throw _
  apply (Copying.Issues.scan _).bind
  intro _ _
  apply (Copying.Issues.scan _).bind
  intro placements hplaced
  rw [← hplan placements (Copying.eq_of_scan_ofExcept hplaced)]
  exact copyAll_issues hwrite hfull r k placements _

end Runs

theorem extractFile_of_isEmpty {selection : Selection} (h : selection.isEmpty = true) (r : Reader)
    (k : Sink) (t : Transfer) : extractFile r k selection t = .error .emptySelection t := by
  rw [extractFile, if_pos h]
  rfl

section Checks

variable {r : Reader} {k : Sink} {commands : List Command} {selection : Selection}
  {placements : List Placement} {t : Transfer}

theorem extractFile_of_decode_error (h : selection.isEmpty = false) {e : Error} {c : Cursor}
    (hdecode : File.decode r t.cursor = .error e c) :
    extractFile r k selection t = .error e ⟨c, t.output⟩ := by
  rw [extractFile, if_neg (by simp [h])]
  exact bind_eq_of_error (Copying.scan_of_error hdecode)

theorem extractFile_of_decode_ok (h : selection.isEmpty = false) {file : File} {c : Cursor}
    (hdecode : File.decode r t.cursor = .ok file c) :
    extractFile r k selection t = extract r k file.commands selection ⟨c, t.output⟩ := by
  rw [extractFile, if_neg (by simp [h])]
  exact bind_eq_of_ok (Copying.scan_of_ok hdecode)

theorem plan_of_isEmpty (h : selection.isEmpty = true) (commands : List Command) :
    plan commands selection = .ok [] := by
  rw [Selection.isEmpty, NameSet.isEmpty, NameSet.isEmpty, Bool.and_eq_true, List.isEmpty_iff,
    List.isEmpty_iff] at h
  have hnone : selection.sectionsIn commands = [] := by
    rw [Selection.sectionsIn, List.filter_eq_nil_iff]
    intro s _
    rw [Selection.selects, NameSet.contains, NameSet.contains, h.1, h.2]
    exact Bool.false_ne_true
  rw [plan, planBy, hnone]
  rfl

theorem extract_of_plan_error {e : Error} (hplan : plan commands selection = .error e) :
    extract r k commands selection t =
      .error e ⟨t.cursor.after 0 (planEvents commands selection), t.output⟩ := by
  have hselection : selection.isEmpty = false := by
    cases h : selection.isEmpty with
    | true =>
        rw [plan_of_isEmpty h] at hplan
        cases hplan
    | false => rfl
  rw [extract_eq hselection, hplan]
  exact bind_eq_of_error (Copying.scan_of_error rfl)

theorem Placement.regionBegun_notMem_eventsOf (origin : Option UInt64) (sections : List Section)
    (name : String) (offset size : Nat) :
    .regionBegun name offset size ∉ eventsOf origin sections := by
  induction sections generalizing origin with
  | nil => exact List.not_mem_nil
  | cons s rest ih =>
      unfold eventsOf
      split
      · simpa using ih origin
      · cases origin with
        | none => simpa using ih (some s.address)
        | some o =>
            simp only
            split
            · exact List.not_mem_nil
            · exact ih (some o)

theorem regionBegun_notMem_planEvents (commands : List Command) (selection : Selection)
    (name : String) (offset size : Nat) :
    .regionBegun name offset size ∉ planEvents commands selection := by
  rw [planEvents, List.mem_append, not_or]
  refine ⟨Placement.regionBegun_notMem_eventsOf none _ name offset size, ?_⟩
  cases plan commands selection <;> simp

theorem extract_issues (hplan : plan commands selection = .ok placements) :
    Copying.Issues Call.target (extract r k commands selection) (placements.map (·.offset)) := by
  rw [extract_eq_bind, ← List.append_nil (placements.map _)]
  apply (copySelected_issues (fun _ _ => rfl) rfl r k ?_).bind
  · intro summary _
    exact finish_issues k summary
  · intro placed hplaced
    rw [hplan] at hplaced
    cases hplaced
    exact List.map_eq_flatMap.symm

end Checks

/-- All checks that need no output come before the output is touched. Without a selection nothing is
read or written; a file that cannot be read, or sections that cannot be placed, end the run with the
output as it was, and no bytes of a section have been read. From then on the positions that the
output is sent to are those of the plan, in its order, and all of them when the run succeeds. -/
theorem output_sought_as_planned (r : Reader) (k : Sink) (selection : Selection) (t : Transfer) :
    (selection.isEmpty = true →
      extractFile r k selection t = .error .emptySelection t) ∧
    (selection.isEmpty = false → ∀ e c, File.decode r t.cursor = .error e c →
      extractFile r k selection t = .error e ⟨c, t.output⟩) ∧
    ∀ commands : List Command,
      (∀ e, plan commands selection = .error e →
        extract r k commands selection t =
          .error e ⟨t.cursor.after 0 (planEvents commands selection), t.output⟩ ∧
        ∀ name offset size, .regionBegun name offset size ∉ planEvents commands selection) ∧
      ∀ placements, plan commands selection = .ok placements →
        ∃ issued,
          (stateAfter (extract r k commands selection) t).output.seen Call.target =
            t.output.seen Call.target ++ issued ∧
          issued <+: placements.map (·.offset) ∧
          ∀ summary u, extract r k commands selection t = .ok summary u →
            issued = placements.map (·.offset) := by
  refine ⟨?_, ?_, ?_⟩
  · intro h
    exact extractFile_of_isEmpty h r k t
  · intro h e c hdecode
    exact extractFile_of_decode_error h hdecode
  · intro commands
    refine ⟨?_, ?_⟩
    · intro e hplan
      exact ⟨extract_of_plan_error hplan, regionBegun_notMem_planEvents commands selection⟩
    · intro placements hplan
      exact extract_issues hplan t

/-- A section that does not end in a short file, and one that lies below it. -/
def descending : List Command :=
  let high : Section := ⟨"a", "S", 100, 400, 0, 0, 0, 0, ⟨0⟩, 0, 0, 0⟩
  let low : Section := ⟨"b", "S", 50, 4, 0, 0, 0, 0, ⟨0⟩, 0, 0, 0⟩
  [⟨.segment .bits64 ⟨"S", 0, 0, 0, 0, 0, 0, 2, ⟨0⟩, [high, low]⟩, 232⟩]

theorem output_sought_overlapping :
    let r := Reader.ofBytes [10, 11, 12, 13, 14, 15, 16, 17, 18, 19]
    let selection := Selection.empty.withSegment "S"
    let t : Transfer := ⟨.start, .empty⟩
    extractFile r {} .empty t = .error .emptySelection t ∧
    (∃ c, extractFile r {} selection t = .error (.unknownMagic [10, 11, 12, 13]) ⟨c, .empty⟩) ∧
    (∃ c, extract r {} descending selection t = .error (.belowOrigin "b" 50 100) ⟨c, .empty⟩) ∧
    (stateAfter (extract r {} overlapping selection) t).output.seen Call.target = [0, 2] ∧
    (stateAfter (extract r { limit := 2 } overlapping selection) t).output.seen Call.target <+:
      [0, 2] := by
  intro r selection t
  have hselection : selection.isEmpty = false := by decide
  have hrefused : failure? (File.decode r) .start = some (.unknownMagic [10, 11, 12, 13]) := by
    decide +kernel
  obtain ⟨c, hdecode⟩ := exists_of_failure? hrefused
  obtain ⟨-, hfile, hcommands⟩ := output_sought_as_planned r {} selection t
  have hextract : result? (extract r {} overlapping selection) t = some ⟨some 100, 2, 1, 6⟩ := by
    decide +kernel
  obtain ⟨u, hok⟩ := exists_of_result? hextract
  refine ⟨?_, ⟨c, hfile hselection _ c hdecode⟩, ⟨_, ((hcommands descending).1 _ rfl).1⟩, ?_, ?_⟩
  · exact (output_sought_as_planned r {} .empty t).1 (by decide)
  · obtain ⟨issued, hseen, -, hall⟩ := (hcommands overlapping).2 _ rfl
    rw [hseen, hall _ u hok]
    rfl
  · obtain ⟨-, -, hcommands⟩ := output_sought_as_planned r { limit := 2 } selection t
    obtain ⟨issued, hseen, hprefix, -⟩ := (hcommands overlapping).2 _ rfl
    rw [hseen]
    exact hprefix

end MachO
