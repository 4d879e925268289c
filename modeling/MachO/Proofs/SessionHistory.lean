import MachO.Proofs.ExactArithmetic
import MachO.Proofs.FileDecoding
import MachO.Proofs.SessionComparison

/-!
Sessions without memory. Where the source refuses no seek, every region is read where it stands and
the reader is put back, whatever happened in between; and what an output took before has no part in
whether it takes more. So steps that ask and extract give the same answers in any order, each of
them the one that it gives alone, up to one in which the program breaks off. No step is like that
unless more bytes are asked for than an object has.
-/

namespace MachO

/-- The step leaves the file as it is, and the reader in its place. -/
def Step.keeps : Step → Bool
  | .replace _ => false
  | step => step.rests

theorem Step.rests_of_keeps {step : Step} (h : step.keeps = true) : step.rests = true := by
  cases step with
  | replace commands => cases h
  | probe p => exact h
  | _ => rfl

theorem Session.fileAfter_of_keeps {step : Step} (h : step.keeps = true) (file : File) :
    fileAfter file step = file := by
  cases step with
  | replace commands => cases h
  | _ => rfl

def Cursor.BothAt (p : Nat) (c d : Cursor) : Prop := c.position = p ∧ d.position = p

/-- Outputs of which nothing is asked. -/
def Output.Any (_ _ : Output) : Prop := True

namespace Sink

variable (k : Sink) {o o' : Output}

theorem outcome_writeAll_congr (bytes : List UInt8) (h : o.position = o'.position) :
    outcome (k.writeAll bytes) o = outcome (k.writeAll bytes) o' := by
  have hposition : Output.Compatible fun o o' => o.position = o'.position :=
    ⟨fun _ _ h => h, fun _ _ _ h => h, fun _ _ _ _ => rfl⟩
  exact ((hposition.writeAll k bytes).same h).1

theorem outcome_store_congr (position : Nat) (bytes : List UInt8) (o o' : Output) :
    outcome (k.store position bytes) o = outcome (k.store position bytes) o' := by
  have hseek := seekTo_eq k position o
  have hseek' := seekTo_eq k position o'
  rw [store]
  cases h : k.allowsSeek position with
  | true =>
      rw [h, if_pos rfl] at hseek hseek'
      rw [outcome_bind_of_ok hseek, outcome_bind_of_ok hseek']
      exact outcome_writeAll_congr k bytes rfl
  | false =>
      rw [h, if_neg Bool.false_ne_true] at hseek hseek'
      rw [outcome_bind_of_error hseek, outcome_bind_of_error hseek']

theorem outcome_flush_congr (o o' : Output) : outcome k.flush o = outcome k.flush o' := by
  rw [outcome, outcome, flush_eq, flush_eq]
  cases k.failsFlush <;> rfl

end Sink

theorem Tracks.of_outcome {α : Type} {excused : Fault → Prop} {x : Writing α}
    (h : ∀ o o', outcome x o = outcome x o') : Tracks excused Output.Any x x :=
  fun o o' _ => .inl ⟨h o o', trivial⟩

theorem Comparison.abreast (r : Reader) (k : Sink) :
    Comparison (fun _ => False) Cursor.Level Output.Any r r k k :=
  { Comparison.level r k with
    store := fun position bytes => .of_outcome (k.outcome_store_congr position bytes)
    flush := .of_outcome k.outcome_flush_congr }

/-- A reader at its place comes back to it, unless the program breaks off. -/
theorem Comparison.atPlace {r : Reader} (hr : r.source.seekLimit = none) (k : Sink) (p : Nat) :
    Comparison (·.isPanic = true) (Cursor.BothAt p) Output.Any r r k k := by
  refine ⟨rfl, ?_, fun _ _ h => h, fun _ _ _ h => h, ?_, ?_, .of_outcome k.outcome_flush_congr⟩
  · rintro c d ⟨hc, hd⟩
    rw [hc, hd]
  · intro name offset size c d h
    have hc := Reader.region_of_seekLimit hr name offset size c
    have hd := Reader.region_of_seekLimit hr name offset size d
    split at hc
    · rename_i hle
      rw [if_pos hle] at hd
      exact .inl (Tracks.same_of_error hc hd h)
    rename_i hlt
    rw [if_neg hlt] at hd
    split at hc
    · exact .inr ⟨_, outcome_of_error hc, rfl⟩
    rename_i hroom
    rw [if_neg hroom] at hd
    left
    -- The reader is put back, whether or not bytes of the region are missing.
    cases hfault : (r.source.readExact offset size).2 with
    | none =>
        rw [hfault] at hc hd
        exact Tracks.same_of_ok hc hd h
    | some f =>
        rw [hfault] at hc hd
        exact Tracks.same_of_error hc hd h
  · intro position bytes
    exact .of_outcome (k.outcome_store_congr position bytes)

/-- From no state does the run end in a panic. -/
def NeverPanics {σ α : Type} (x : EStateM Error σ α) : Prop :=
  ∀ s e, outcome x s = .error e → e.isPanic = false

namespace NeverPanics

variable {σ α β : Type} {x : EStateM Error σ α}

theorem pure (a : α) : NeverPanics (Pure.pure a : EStateM Error σ α) := by
  intro s e h
  cases h

theorem throw {e : Error} (he : e.isPanic = false) :
    NeverPanics (MonadExcept.throw e : EStateM Error σ α) := by
  intro s e' h
  cases h
  exact he

theorem bind {f : α → EStateM Error σ β} (hx : NeverPanics x) (hf : ∀ a, NeverPanics (f a)) :
    NeverPanics (x >>= f) := by
  intro s e h
  cases hs : x s with
  | ok a t =>
      rw [outcome_bind_of_ok hs] at h
      exact hf a t e h
  | error e' t =>
      rw [outcome_bind_of_error hs, Except.error.injEq] at h
      exact hx s e (h ▸ outcome_of_error hs)

theorem scan {x : Scan α} (hx : NeverPanics x) : NeverPanics (Copying.scan x) := by
  intro t e h
  rw [Copying.outcome_scan] at h
  exact hx t.cursor e h

theorem tell (e : Event) : NeverPanics (Copying.scan (Scan.tell e)) := by
  intro t e' h
  cases h

theorem tellAll (es : List Event) : NeverPanics (Copying.scan (Scan.tellAll es)) := by
  intro t e' h
  cases h

theorem position : NeverPanics Scan.position := by
  intro c e h
  cases h

theorem writing (x : Writing α) : NeverPanics (Copying.writing x) := by
  intro t e h
  rw [Copying.outcome_writing] at h
  cases hx : outcome x t.output with
  | ok a =>
      rw [hx] at h
      cases h
  | error f =>
      rw [hx] at h
      cases h
      rfl

theorem attempt {x : Scan α} (hx : NeverPanics x) : NeverPanics x.attempt := by
  intro c e h
  have hattempt := x.attempt_eq c
  cases hc : x c with
  | ok a c' =>
      rw [hc] at hattempt
      rw [outcome_of_ok hattempt] at h
      cases h
  | error e' c' =>
      have he := hx c e' (outcome_of_error hc)
      simp only [hc, he, Bool.false_eq_true, if_false] at hattempt
      rw [outcome_of_ok hattempt] at h
      cases h

end NeverPanics

section Small

variable {r : Reader} (hr : r.source.seekLimit = none) (hlength : r.length ≤ 2 ^ 63)

include hr hlength in
theorem Reader.region_neverPanics (name : String) (offset size : Nat) :
    NeverPanics (r.region name offset size) := by
  intro c e h
  have hregion := region_of_seekLimit hr name offset size c
  split at hregion
  · rw [outcome_of_error hregion] at h
    cases h
    rfl
  rename_i hinside
  have hroom : size ≤ r.capacity := le_capacity_of_lt (by omega)
  rw [if_neg (Nat.not_lt.mpr hroom)] at hregion
  cases hfault : (r.source.readExact offset size).2 with
  | none =>
      rw [hfault] at hregion
      rw [outcome_of_ok hregion] at h
      cases h
  | some f =>
      rw [hfault] at hregion
      rw [outcome_of_error hregion] at h
      cases h
      rfl

include hr hlength in
theorem Section.read_neverPanics (s : Section) : NeverPanics (s.read r) := by
  rw [read]
  split
  · split
    · exact .pure _
    · exact .throw rfl
  · exact Reader.region_neverPanics hr hlength _ _ _

theorem plan_neverPanics (commands : List Command) (selection : Selection) :
    NeverPanics (Scan.ofExcept (plan commands selection)) := by
  rw [plan_eq]
  split
  · exact .throw rfl
  · exact .pure _

include hr hlength in
theorem extract_neverPanics (k : Sink) (commands : List Command) (selection : Selection) :
    NeverPanics (extract r k commands selection) := by
  have hcopy : ∀ placements summary, NeverPanics (copyAll r k placements summary) := by
    intro placements
    induction placements with
    | nil => exact fun _ => .pure _
    | cons p rest ih =>
        intro summary
        rw [copyAll_cons, Placement.copy_eq_store]
        refine .bind (.bind (p.target.read_neverPanics hr hlength).scan fun bytes => ?_)
          fun length => ih _
        exact .bind (.tell _) fun _ => .bind (.writing _) fun _ => .pure _
  rw [extract_eq_bind, copySelected]
  refine .bind ?_ fun summary => .bind (.writing _) fun _ => .bind (.tell _) fun _ => .pure _
  split
  · exact .throw rfl
  · exact .bind (.tellAll _) fun _ =>
      .bind (plan_neverPanics commands selection).scan fun placements => hcopy placements _

include hr hlength in
theorem Session.readSections_neverPanics (sections : List Section) :
    NeverPanics (readSections r sections) := by
  induction sections with
  | nil => exact .pure _
  | cons s rest ih =>
      exact .bind (s.read_neverPanics hr hlength).attempt fun bytes =>
        .bind ih fun others => .pure _

include hr hlength in
theorem Probe.ask_neverPanics {p : Probe} (hp : p.rests = true)
    (hensure : ∀ n ofCommand, p ≠ .ensure n ofCommand) : NeverPanics (p.ask r) := by
  cases p with
  | length => exact .pure _
  | isEmpty => exact .pure _
  | position => exact .bind .position fun _ => .pure _
  | remaining => exact .bind (.bind .position fun _ => .pure _) fun _ => .pure _
  | ensure n ofCommand => exact absurd rfl (hensure n ofCommand)
  | region name offset size =>
      exact .bind (Reader.region_neverPanics hr hlength _ _ _) fun _ => .pure _
  | sectionBytes s => exact .bind (s.read_neverPanics hr hlength) fun _ => .pure _
  | segmentBytes g => exact .bind (Reader.region_neverPanics hr hlength _ _ _) fun _ => .pure _
  | _ => cases hp

theorem Probe.ask_ensure_ne_panic {c : Cursor} {n : UInt64} (h : c.position + n.toNat < 2 ^ 64)
    (ofCommand : Bool) {e : Error} (he : outcome (ask r (.ensure n ofCommand)) c = .error e) :
    e.isPanic = false := by
  have hensure := Reader.ensure_eq (r := r) h (if ofCommand then .shortCommand else .shortHeader)
  rcases Nat.lt_or_ge r.length (c.position + n.toNat) with hlt | hge
  · rw [if_pos hlt] at hensure
    have hask := outcome_bind_of_error hensure (fun _ => (pure .done : Scan Answer))
    cases hask.symm.trans he
    cases ofCommand <;> rfl
  · rw [if_neg (Nat.not_lt.mpr hge)] at hensure
    have hask := outcome_bind_of_ok hensure (fun _ => (pure .done : Scan Answer))
    cases hask.symm.trans he

include hr hlength in
theorem Session.work_neverPanics (k : Sink) (file : File) {step : Step} (hstep : step.rests = true)
    (hensure : ∀ n ofCommand, step ≠ .probe (.ensure n ofCommand)) :
    NeverPanics (work r k file step) := by
  cases step with
  | describe => exact .bind (.scan .position) fun _ => .pure _
  | list => exact .pure _
  | findSegment name => exact .pure _
  | findSection owner name => exact .pure _
  | readSegment name =>
      simp only [work]
      cases file.findSegment? name with
      | some g =>
          exact .bind (.scan (Reader.region_neverPanics hr hlength _ _ _)) fun _ => .pure _
      | none => exact .pure _
  | readSection owner name =>
      simp only [work]
      cases file.findSection? owner name with
      | some s => exact .bind (.scan (s.read_neverPanics hr hlength)) fun _ => .pure _
      | none => exact .pure _
  | readSections =>
      exact .bind (.scan (readSections_neverPanics hr hlength _)) fun _ => .pure _
  | plan selection =>
      exact .bind (.tellAll _) fun _ => .bind (.scan (plan_neverPanics _ _)) fun _ => .pure _
  | extract selection => exact .bind (extract_neverPanics hr hlength k _ _) fun _ => .pure _
  | replace commands => exact .pure _
  | probe p =>
      exact .scan (Probe.ask_neverPanics hr hlength hstep fun n ofCommand hp =>
        hensure n ofCommand (congrArg _ hp))

end Small

namespace Session

variable {r : Reader} {s fresh : Session} {step : Step}

/-- The outcomes up to the first one in which the program broke off. -/
def untilPanic : List Outcome → List Outcome
  | [] => []
  | o :: rest => if o.isPanic then [o] else o :: untilPanic rest

theorem untilPanic_eq_self {outcomes : List Outcome} (h : ∀ o ∈ outcomes, o.isPanic = false) :
    untilPanic outcomes = outcomes := by
  induction outcomes with
  | nil => rfl
  | cons o rest ih =>
      obtain ⟨ho, hrest⟩ := List.forall_mem_cons.mp h
      rw [untilPanic, ho, ih hrest]
      rfl

theorem isPanic_performOne {k : Sink} {e : Error}
    (h : outcome (work r k s.file step) s.transfer = .error e) :
    (s.performOne r k step).1.isPanic = e.isPanic := by
  rw [performOne_eq, Outcome.isPanic, h]

theorem position_of_keeps (hr : r.source.seekLimit = none) (k : Sink) (hstep : step.keeps = true)
    (h : (s.performOne r k step).1.isPanic = false) :
    (s.performOne r k step).1.position = s.transfer.cursor.position := by
  have hwork := (Comparison.atPlace hr k s.transfer.cursor.position).work (fun _ he => he) s.file
    (Step.rests_of_keeps hstep)
  rcases hwork s.transfer s.transfer ⟨⟨rfl, rfl⟩, trivial⟩ with
    ⟨-, ⟨hplace, -⟩, -⟩ | ⟨e, herror, he⟩
  · rw [performOne_eq]
    exact hplace
  · rw [isPanic_performOne herror, he] at h
    cases h

theorem performOne_of_keeps (hr : r.source.seekLimit = none) (k : Sink)
    (hs : s.Related Cursor.Level Output.Any fresh) (hstep : step.keeps = true) :
    (s.performOne r k step).1 = (fresh.performOne r k step).1 ∧
      ((fresh.performOne r k step).1.isPanic = false →
        (s.performOne r k step).2.Related Cursor.Level Output.Any fresh) := by
  have hcomparison := Comparison.abreast r k
  obtain ⟨hsame, hnext⟩ := hs.performOne hcomparison.position fun file =>
    hcomparison.work (fun _ => False.elim) file (Step.rests_of_keeps hstep)
  refine ⟨hsame, fun h => ⟨?_, ?_, trivial⟩⟩
  · rw [performOne_eq]
    exact (fileAfter_of_keeps hstep s.file).trans hs.file
  · exact hnext.transfer.1.trans (position_of_keeps hr k hstep h)

/-- On a source that reports no more bytes than an object has, no step breaks off but to make sure
of bytes that no position is behind. -/
theorem isPanic_of_keeps (hr : r.source.seekLimit = none) (hlength : r.length ≤ 2 ^ 63) (k : Sink)
    (hstep : step.keeps = true)
    (hsum : ∀ n ofCommand, step = .probe (.ensure n ofCommand) →
      s.transfer.cursor.position + n.toNat < 2 ^ 64) :
    (s.performOne r k step).1.isPanic = false := by
  cases hwork : outcome (work r k s.file step) s.transfer with
  | ok answer =>
      rw [performOne_eq, Outcome.isPanic, hwork]
  | error e =>
      rw [isPanic_performOne hwork]
      rcases Classical.em (∃ n ofCommand, step = .probe (.ensure n ofCommand)) with
        ⟨n, ofCommand, rfl⟩ | hother
      · refine Probe.ask_ensure_ne_panic (r := r) (hsum n ofCommand rfl) ofCommand ?_
        exact (Copying.outcome_scan _ _).symm.trans hwork
      · exact work_neverPanics hr hlength k s.file (Step.rests_of_keeps hstep)
          (fun n ofCommand h => hother ⟨n, ofCommand, h⟩) _ _ hwork

/-- Steps that read and extract leave the reader where it was, and each gives what it gives alone on
a fresh file and an empty output: whatever was done before it, and whatever of that has failed. Only
a step in which the program breaks off ends this; alone it breaks off as well, and none is like that
if the source reports no more bytes than an object has and every sum stays in its word. -/
theorem performAll_eq_untilPanic (hr : r.source.seekLimit = none) (k : Sink) (file : File)
    (c : Cursor) (o : Output) {steps : List Step} (hsteps : ∀ step ∈ steps, step.keeps = true) :
    let fresh : Session := ⟨file, ⟨c, .empty⟩⟩
    let outcomes := ((⟨file, ⟨c, o⟩⟩ : Session).performAll r k steps).1
    outcomes = untilPanic (steps.map fun step => (fresh.performOne r k step).1) ∧
    (∀ step ∈ steps, (fresh.performOne r k step).1.isPanic = false →
      (fresh.performOne r k step).1.position = c.position) ∧
    (r.length ≤ 2 ^ 63 →
      (∀ n ofCommand, .probe (.ensure n ofCommand) ∈ steps → c.position + n.toNat < 2 ^ 64) →
      outcomes = steps.map fun step => ⟨(fresh.perform r k step).1, c.position⟩) := by
  intro fresh outcomes
  have hrun : ∀ s : Session, s.Related Cursor.Level Output.Any fresh →
      (s.performAll r k steps).1 =
        untilPanic (steps.map fun step => (fresh.performOne r k step).1) := by
    clear outcomes
    induction steps with
    | nil => exact fun _ _ => rfl
    | cons step rest ih =>
        obtain ⟨hfirst, hrest⟩ := List.forall_mem_cons.mp hsteps
        intro s hs
        obtain ⟨hsame, hnext⟩ := performOne_of_keeps hr k hs hfirst
        rw [performAll, List.map_cons, untilPanic]
        simp only [hsame]
        cases hpanic : (fresh.performOne r k step).1.isPanic with
        | true => rfl
        | false => exact congrArg (_ :: ·) (ih hrest _ (hnext hpanic))
  have houtcomes := hrun ⟨file, ⟨c, o⟩⟩ ⟨rfl, rfl, trivial⟩
  have hplace : ∀ step ∈ steps, (fresh.performOne r k step).1.isPanic = false →
      (fresh.performOne r k step).1.position = c.position :=
    fun step hstep => position_of_keeps hr k (hsteps step hstep)
  refine ⟨houtcomes, hplace, fun hlength hsums => houtcomes.trans ?_⟩
  have hgoesOn : ∀ step ∈ steps, (fresh.performOne r k step).1.isPanic = false := by
    intro step hstep
    refine isPanic_of_keeps hr hlength k (hsteps step hstep) ?_
    rintro n ofCommand rfl
    exact hsums n ofCommand hstep
  have hall : ∀ o ∈ steps.map fun step => (fresh.performOne r k step).1, o.isPanic = false := by
    intro o ho
    obtain ⟨step, hstep, rfl⟩ := List.mem_map.mp ho
    exact hgoesOn step hstep
  rw [untilPanic_eq_self hall]
  refine List.map_congr_left fun step hstep => ?_
  exact congrArg (Outcome.mk _) (hplace step hstep (hgoesOn step hstep))

theorem performAll_narrowInWide :
    let r := Reader.ofSource
      { bytes := File.narrowInWideBytes.toArray, chunk := some 5, failAt := some 172,
        claim := some 400 }
    let selection := Selection.empty.withSegment "__TEXT"
    let steps : List Step :=
      [.extract selection, .probe (.region "end" 170 10), .readSection none "__text",
        .probe (.ensure 229 false), .extract selection, .probe .remaining]
    result? (File.decode r) .start = some File.narrowInWide ∧
    (∀ step ∈ steps, step.keeps = true) ∧
    ((⟨File.narrowInWide, ⟨⟨172, #[], #[]⟩, .empty⟩⟩ : Session).performAll r { limit := 2 }
        steps).1 =
      [⟨.error (.io .outputFull), 172⟩, ⟨.error (.io .sourceRead), 172⟩,
        ⟨.ok (.bytes [128, 0, 0, 0]), 172⟩, ⟨.error (.shortHeader 229 172), 172⟩,
        ⟨.error (.io .outputFull), 172⟩, ⟨.ok (.wide 228), 172⟩] := by
  intro r selection steps
  have hsteps : ∀ step ∈ steps, step.keeps = true := by decide
  have hsums : ∀ n ofCommand, .probe (.ensure n ofCommand) ∈ steps →
      172 + n.toNat < 2 ^ 64 := by
    intro n ofCommand h
    simp [steps] at h
    obtain ⟨rfl, rfl⟩ := h
    decide
  refine ⟨by decide +kernel, hsteps, ?_⟩
  obtain ⟨-, -, hall⟩ := performAll_eq_untilPanic (r := r) rfl { limit := 2 } File.narrowInWide
    ⟨172, #[], #[]⟩ .empty hsteps
  rw [hall (by decide) hsums]
  decide +kernel

/-- A file without load commands in a source that reports more bytes than it could have. A region of
more bytes than an object has is inside that length, so the program breaks off where the region
starts, and the step behind it is not done. -/
theorem performAll_breaks_off :
    let r := Reader.ofSource
      { bytes := #[0xCF, 0xFA, 0xED, 0xFE, 7, 0, 0, 1, 3, 0, 0, 0, 2, 0, 0, 0,
          0, 0, 0, 0, 0, 0, 0, 0, 0, 0, 0, 0, 0, 0, 0, 0], claim := some (2 ^ 64 - 1) }
    let file : File := ⟨⟨0xFEEDFACF, 0x1000007, 3, 2, 0, 0, 0⟩, ⟨.bits64, .little⟩, []⟩
    let fresh : Session := ⟨file, ⟨stateAfter (File.decode r) .start, .empty⟩⟩
    let steps : List Step := [.probe (.region "x" 0 0x8000000000000000), .probe .remaining]
    result? (File.decode r) .start = some file ∧ fresh.transfer.cursor.position = 32 ∧
    r.source.seekLimit = none ∧ (∀ step ∈ steps, step.keeps = true) ∧
    (fresh.performAll r {} steps).1 = [⟨.error (.panic .capacity), 0⟩] ∧
    (fresh.performAll r {} steps).1 ≠
      steps.map fun step => ⟨(fresh.perform r {} step).1, 32⟩ := by
  decide +kernel

end Session

end MachO
