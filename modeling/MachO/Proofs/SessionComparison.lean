import MachO.Proofs.RunComparison
import MachO.Session
import Mathlib.Control.Monad.Basic

namespace MachO

/-- The question is answered without moving the reader. -/
def Probe.rests : Probe → Bool
  | .length | .isEmpty | .position | .remaining | .ensure .. => true
  | .region .. | .sectionBytes _ | .segmentBytes _ => true
  | _ => false

def Step.rests : Step → Bool
  | .probe p => p.rests
  | _ => true

namespace Comparison

variable {excused : Error → Prop} {C : Cursor → Cursor → Prop} {O : Output → Output → Prop}
  {r r' : Reader} {k k' : Sink} (h : Comparison excused C O r r' k k')
include h

theorem standing : Tracks excused C Scan.position Scan.position := by
  intro c d hcd
  have hc : Scan.position c = .ok d.position c.asked :=
    Scan.position_eq_ok_iff.mpr ⟨(h.position c d hcd).symm, rfl⟩
  exact .inl (Tracks.same_of_ok hc (Scan.position_eq d) (h.asked c d hcd))

theorem remaining : Tracks excused C r.remaining r'.remaining := by
  have hremaining : ∀ r : Reader,
      r.remaining = Scan.position >>= fun position => pure (r.length - position) := fun _ => rfl
  rw [hremaining, hremaining, h.length]
  exact h.standing.bind fun _ => .pure _

theorem ensure (n : Nat) (short : Nat → Nat → Error) :
    Tracks excused C (r.ensure n short) (r'.ensure n short) := by
  rw [Reader.ensure, Reader.ensure, Reader.ensureBy, Reader.ensureBy, h.length]
  apply h.standing.bind
  intro position
  apply (Tracks.ofExcept _).bind
  intro stop
  split
  · exact .throw _
  · exact .pure _

theorem readSections (hpanic : ∀ e, excused e → e.isPanic = true) (sections : List Section) :
    Tracks excused C (Session.readSections r sections)
      (Session.readSections r' sections) := by
  induction sections with
  | nil => exact .pure _
  | cons s rest ih =>
      apply ((h.sectionRead s).attempt hpanic).bind
      intro bytes
      apply ih.bind
      intro others
      exact .pure _

theorem ask {p : Probe} (hp : p.rests = true) :
    Tracks excused C (p.ask r) (p.ask r') := by
  cases p with
  | length =>
      rw [Probe.ask, Probe.ask, h.length]
      exact .pure _
  | isEmpty =>
      rw [Probe.ask, Probe.ask, h.length]
      exact .pure _
  | position => exact h.standing.bind fun _ => .pure _
  | remaining => exact h.remaining.bind fun _ => .pure _
  | ensure n ofCommand => exact (h.ensure n.toNat _).bind fun _ => .pure _
  | region name offset size => exact (h.region name offset.toNat size.toNat).bind fun _ => .pure _
  | sectionBytes s => exact (h.sectionRead s).bind fun _ => .pure _
  | segmentBytes g => exact (h.segmentRead g).bind fun _ => .pure _
  | _ => cases hp

theorem work (hpanic : ∀ e, excused e → e.isPanic = true) (file : File) {step : Step}
    (hstep : step.rests = true) :
    Tracks excused (Transfer.Related C O) (Session.work r k file step)
      (Session.work r' k' file step) := by
  cases step with
  | describe => exact h.standing.scan.bind fun _ => .pure _
  | list => exact .pure _
  | findSegment name => exact .pure _
  | findSection owner name => exact .pure _
  | readSegment name =>
      simp only [Session.work]
      cases file.findSegment? name with
      | some g => exact (h.segmentRead g).scan.bind fun _ => .pure _
      | none => exact .pure _
  | readSection owner name =>
      simp only [Session.work]
      cases file.findSection? owner name with
      | some s => exact (h.sectionRead s).scan.bind fun _ => .pure _
      | none => exact .pure _
  | readSections => exact (h.readSections hpanic file.sections).scan.bind fun _ => .pure _
  | plan selection =>
      apply (Tracks.tellAll h.told _).scan.bind
      intro _
      exact (Tracks.ofExcept _).scan.bind fun _ => .pure _
  | extract selection => exact (h.extract file.commands selection).bind fun _ => .pure _
  | replace commands => exact .pure _
  | probe p => exact (h.ask hstep).scan

end Comparison

namespace Session

variable {r r' : Reader} {k k' : Sink}

theorem perform_eq (r : Reader) (k : Sink) (s : Session) (step : Step) :
    s.perform r k step =
      (outcome (work r k s.file step) s.transfer,
        ⟨fileAfter s.file step, stateAfter (work r k s.file step) s.transfer⟩) := by
  rw [perform, outcome, stateAfter]
  cases work r k s.file step s.transfer <;> rfl

theorem performOne_eq (r : Reader) (k : Sink) (s : Session) (step : Step) :
    s.performOne r k step =
      (⟨outcome (work r k s.file step) s.transfer,
          (stateAfter (work r k s.file step) s.transfer).cursor.position⟩,
        ⟨fileAfter s.file step, stateAfter (work r k s.file step) s.transfer⟩) := by
  rw [performOne, perform_eq]

structure Related (C : Cursor → Cursor → Prop) (O : Output → Output → Prop) (s s' : Session) :
    Prop where
  file : s.file = s'.file
  transfer : s.transfer.Related C O s'.transfer

theorem Related.eq {s s' : Session} (h : s.Related Eq Eq s') : s = s' := by
  rw [Session.mk.injEq]
  exact ⟨h.file, h.transfer.eq⟩

variable {C : Cursor → Cursor → Prop} {O : Output → Output → Prop} {s s' : Session} {step : Step}

theorem Related.perform (hs : s.Related C O s')
    (hstep : ∀ file, Tracks (fun _ => False) (Transfer.Related C O) (work r k file step)
      (work r' k' file step)) :
    (s.perform r k step).1 = (s'.perform r' k' step).1 ∧
      (s.perform r k step).2.Related C O (s'.perform r' k' step).2 := by
  rw [perform_eq, perform_eq, hs.file]
  obtain ⟨hsame, hrelated⟩ := (hstep s'.file).same hs.transfer
  exact ⟨hsame, rfl, hrelated⟩

theorem Related.performOne (hposition : ∀ c d, C c d → c.position = d.position)
    (hs : s.Related C O s')
    (hstep : ∀ file, Tracks (fun _ => False) (Transfer.Related C O) (work r k file step)
      (work r' k' file step)) :
    (s.performOne r k step).1 = (s'.performOne r' k' step).1 ∧
      (s.performOne r k step).2.Related C O (s'.performOne r' k' step).2 := by
  obtain ⟨hsame, hnext⟩ := hs.perform hstep
  exact ⟨congrArg₂ Outcome.mk hsame (hposition _ _ hnext.transfer.1), hnext⟩

theorem Related.performAll (hposition : ∀ c d, C c d → c.position = d.position)
    {steps : List Step} (hs : s.Related C O s')
    (hsteps : ∀ step ∈ steps, ∀ file, Tracks (fun _ => False) (Transfer.Related C O)
      (work r k file step) (work r' k' file step)) :
    (s.performAll r k steps).1 = (s'.performAll r' k' steps).1 ∧
      (s.performAll r k steps).2.Related C O (s'.performAll r' k' steps).2 := by
  induction steps generalizing s s' with
  | nil => exact ⟨rfl, hs⟩
  | cons step rest ih =>
      obtain ⟨hfirst, hrest⟩ := List.forall_mem_cons.mp hsteps
      obtain ⟨hsame, hnext⟩ := hs.performOne hposition hfirst
      obtain ⟨hothers, hlast⟩ := ih hnext hrest
      rw [Session.performAll, Session.performAll]
      simp only [hsame]
      split
      · exact ⟨rfl, hnext⟩
      · exact ⟨congrArg (_ :: ·) hothers, hlast⟩

end Session

end MachO
