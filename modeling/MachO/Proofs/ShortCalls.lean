import MachO.Proofs.FileDecoding
import MachO.Proofs.MergedCalls
import MachO.Proofs.SessionComparison

namespace MachO

theorem Scan.Follows.eq {α : Type} {x y : Scan α} (h : x.Follows (fun _ => False) y) : x = y :=
  (Tracks.of_follows h).eq

/-- The source with read calls that give as much as there is before its faults. -/
def Source.unchunked (s : Source) : Source := { s with chunk := none }

section Reading

variable {s : Source}

/-- An exact read gives the same in short read calls and in long ones, also where it fails. -/
theorem Source.readExact_unchunked (hs : s.chunk ≠ some 0) (position n : Nat) :
    s.readExact position n = s.unchunked.readExact position n := by
  rw [readExact_eq hs, readExact_eq (s := s.unchunked) nofun]
  rfl

namespace Reader

theorem bytes_unchunked (hs : s.chunk ≠ some 0) (n : Nat) :
    (ofSource s).bytes n = (ofSource s.unchunked).bytes n := by
  funext c
  have hread : (ofSource s).source.readExact c.position n =
      (ofSource s.unchunked).source.readExact c.position n := Source.readExact_unchunked hs _ n
  have hcapacity : (ofSource s.unchunked).capacity = (ofSource s).capacity := rfl
  rcases Nat.lt_or_ge (ofSource s).capacity n with hnone | hroom
  · rw [bytes_of_capacity_lt hnone, bytes_of_capacity_lt (hcapacity ▸ hnone)]
  · rw [bytes_eq hroom, bytes_eq (hcapacity ▸ hroom), hread]

theorem unchunked_follows (hs : s.chunk ≠ some 0) :
    (ofSource s).Follows (fun _ => False) (ofSource s.unchunked) := by
  refine ⟨?_, fun p => .refl _, Nat.le_refl _, fun hne => absurd rfl hne⟩
  intro n _
  rw [bytes_unchunked hs]
  exact .refl _

theorem region_unchunked (hs : s.chunk ≠ some 0) (name : String) (offset size : Nat) :
    (ofSource s).region name offset size = (ofSource s.unchunked).region name offset size := by
  rw [region, region, bytes_unchunked hs]
  rfl

end Reader

theorem Comparison.unchunked (hs : s.chunk ≠ some 0) {k : Sink} (hk : k.chunk ≠ some 0) :
    Comparison (fun _ => False) Eq Output.Alike (.ofSource s) (.ofSource s.unchunked) k
      k.unchunked := by
  refine .ofFollows rfl ?_ ?_ ?_
  · intro name offset size
    rw [Reader.region_unchunked hs]
    exact .refl _
  · intro position bytes
    have hseek : k.unchunked.seekTo position = k.seekTo position := rfl
    rw [Sink.store, Sink.store, hseek]
    apply (Output.Alike.compatible.seekTo k position).bind
    intro _ o o' h
    exact .inl (Sink.writeAll_unchunked hk h)
  · exact Output.Alike.compatible.flush k

theorem File.decode_unchunked (hs : s.chunk ≠ some 0) :
    File.decode (.ofSource s) = File.decode (.ofSource s.unchunked) :=
  (File.decode_follows (Reader.unchunked_follows hs)).eq

theorem Probe.ask_unchunked (hs : s.chunk ≠ some 0) (p : Probe) :
    p.ask (.ofSource s) = p.ask (.ofSource s.unchunked) := by
  have hfollows := Reader.unchunked_follows hs
  apply Scan.Follows.eq
  cases p with
  | text size =>
      rw [ask, ask, Reader.name, Reader.name, Reader.bytes_unchunked hs]
      exact .refl _
  | bytes n =>
      rw [ask, ask, Reader.bytes_unchunked hs]
      exact .refl _
  | u32 o => exact (hfollows.u32 o).bind fun _ => .refl _
  | i32 o => exact (hfollows.i32 o).bind fun _ => .refl _
  | u64 o => exact ((hfollows.bytes 8 (by decide)).bind fun _ => .refl _).bind fun _ => .refl _
  | command o => exact (Command.decodeBy_follows hfollows .checked o).bind fun _ => .refl _
  | header o w magic =>
      exact (Header.decodeBy_follows hfollows .checked o w magic).bind fun _ => .refl _
  | region name offset size =>
      rw [Probe.ask, Probe.ask, Reader.region_unchunked hs]
      exact .refl _
  | sectionBytes x =>
      rw [Probe.ask, Probe.ask, Section.read, Section.read, Reader.region_unchunked hs]
      exact .refl _
  | segmentBytes g =>
      rw [Probe.ask, Probe.ask, Segment.read, Segment.read, Reader.region_unchunked hs]
      exact .refl _
  | _ => exact .refl _

theorem Probe.askOne_unchunked (hs : s.chunk ≠ some 0) (c : Cursor) (p : Probe) :
    p.askOne (.ofSource s) c = p.askOne (.ofSource s.unchunked) c := by
  rw [askOne, askOne, ask_unchunked hs]

theorem Probe.askAll_unchunked (hs : s.chunk ≠ some 0) (c : Cursor) (probes : List Probe) :
    askAll (.ofSource s) c probes = askAll (.ofSource s.unchunked) c probes := by
  induction probes generalizing c with
  | nil => rfl
  | cons p rest ih => simp only [askAll, askOne_unchunked hs, ih]

theorem Session.work_unchunked (hs : s.chunk ≠ some 0) {k : Sink} (hk : k.chunk ≠ some 0)
    (file : File) (step : Step) :
    Tracks (fun _ => False) (Transfer.Related Eq Output.Alike) (work (.ofSource s) k file step)
      (work (.ofSource s.unchunked) k.unchunked file step) := by
  cases step with
  | probe p => exact (Tracks.of_eq (Probe.ask_unchunked hs p)).scan
  | _ => exact (Comparison.unchunked hs hk).work (fun _ => False.elim) file rfl

end Reading

/-- The readers stand alike, and the outputs hold the same and have seen the same calls, those that
write in a row being merged. -/
structure Transfer.Matches (t u : Transfer) : Prop where
  cursor : t.cursor = u.cursor
  image : t.output.image = u.output.image
  calls : t.output.mergedCalls = u.output.mergedCalls

theorem Transfer.Related.matches {t u : Transfer} (h : t.Related Eq Output.Alike u) :
    t.Matches u :=
  ⟨h.1, h.2.image, h.2.mergedCalls⟩

/-- Short read calls and short write calls make no difference, whatever other faults the source and
the output have. A file is read alike, and so are the questions of a reader answered, with the same
position after each of them; an extraction and every session end alike, with readers that stand
alike, the same image, and calls that are the same once those that write in a row are merged. -/
theorem short_calls_unseen {s : Source} (hs : s.chunk ≠ some 0) {k : Sink}
    (hk : k.chunk ≠ some 0) :
    let r := Reader.ofSource s
    let whole := Reader.ofSource s.unchunked
    File.decode r = File.decode whole ∧
    (∀ c probes, Probe.askAll r c probes = Probe.askAll whole c probes) ∧
    (∀ selection t,
      outcome (extractFile r k selection) t =
          outcome (extractFile whole k.unchunked selection) t ∧
        (stateAfter (extractFile r k selection) t).Matches
          (stateAfter (extractFile whole k.unchunked selection) t)) ∧
    ∀ (session : Session) steps,
      (session.performAll r k steps).1 = (session.performAll whole k.unchunked steps).1 ∧
        (session.performAll r k steps).2.transfer.Matches
          (session.performAll whole k.unchunked steps).2.transfer := by
  intro r whole
  have hdecode : File.decode r = File.decode whole := File.decode_unchunked hs
  have hcomparison := Comparison.unchunked hs hk
  refine ⟨hdecode, Probe.askAll_unchunked hs, ?_, ?_⟩
  · intro selection t
    have hextract := hcomparison.extractFile (.of_eq hdecode) selection
    obtain ⟨hsame, hrelated⟩ := hextract.same (s := t) (t := t) ⟨rfl, .refl _⟩
    exact ⟨hsame, hrelated.matches⟩
  · intro session steps
    have hstart : session.Related Eq Output.Alike session := ⟨rfl, rfl, .refl _⟩
    obtain ⟨hsame, hrelated⟩ := hstart.performAll hcomparison.position
      fun step (_ : step ∈ steps) file => Session.work_unchunked hs hk file step
    exact ⟨hsame, hrelated.transfer.matches⟩

theorem short_calls_unseen_narrowInWide :
    let s : Source :=
      { bytes := File.narrowInWideBytes.toArray, chunk := some 3, failAt := some 172 }
    let k : Sink := { chunk := some 1, limit := 3 }
    let selection := Selection.empty.withSegment "__TEXT"
    let start : Transfer := ⟨.start, .empty⟩
    let last := (stateAfter (extractFile (.ofSource s) k selection) start).output
    s.chunk ≠ some 0 ∧ k.chunk ≠ some 0 ∧
    last.calls.toList.map Call.line = ["seek 0", "write 1", "write 1", "write 1", "write full"] ∧
    last.mergedCalls = [.seek 0, .write 0 [128, 0, 0], .full] ∧
    (Probe.askAll (.ofSource s) .start [.seekTo 170, .bytes 10, .position]).1 =
      [⟨.ok .done, 170⟩, ⟨.error (.io .sourceRead), 172⟩, ⟨.ok (.wide 172), 172⟩] := by
  intro s k selection start last
  have hs : s.chunk ≠ some 0 := by decide
  have hk : k.chunk ≠ some 0 := by decide
  obtain ⟨-, hasked, hextracted, -⟩ := short_calls_unseen hs hk
  refine ⟨hs, hk, by decide +kernel, ?_, ?_⟩
  · rw [(hextracted selection start).2.calls]
    decide +kernel
  · rw [hasked]
    decide +kernel

end MachO
