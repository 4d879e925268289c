import MachO.Proofs.OutputCalls
import MachO.Proofs.ScanComparison

/-!
Runs compared. Two runs from related states end alike, and in related states again, unless the first
one ends in an error that is excused. The relation is carried through runs in a row, so that it is
enough to compare how regions are read and how sections are written: extractions, and the steps of a
session that leave the reader in its place, are then compared as a whole.
-/

namespace MachO

def Transfer.Related (C : Cursor → Cursor → Prop) (O : Output → Output → Prop)
    (t u : Transfer) : Prop :=
  C t.cursor u.cursor ∧ O t.output u.output

theorem Transfer.Related.eq {t u : Transfer} (h : t.Related Eq Eq u) : t = u := by
  rw [Transfer.mk.injEq]
  exact h

def asError {α : Type} : Except Fault α → Except Error α
  | .ok a => .ok a
  | .error f => .error (.io f)

namespace Copying

variable {α β : Type}

theorem outcome_scan (x : Scan α) (t : Transfer) : outcome (scan x) t = outcome x t.cursor := by
  rw [outcome, outcome, scan]
  cases x t.cursor <;> rfl

theorem stateAfter_scan (x : Scan α) (t : Transfer) :
    stateAfter (scan x) t = ⟨stateAfter x t.cursor, t.output⟩ := by
  rw [stateAfter, stateAfter, scan]
  cases x t.cursor <;> rfl

theorem outcome_writing (x : Writing α) (t : Transfer) :
    outcome (writing x) t = asError (outcome x t.output) := by
  rw [outcome, outcome, writing]
  cases x t.output <;> rfl

theorem stateAfter_writing (x : Writing α) (t : Transfer) :
    stateAfter (writing x) t = ⟨t.cursor, stateAfter x t.output⟩ := by
  rw [stateAfter, stateAfter, writing]
  cases x t.output <;> rfl

theorem writing_bind (x : Writing α) (f : α → Writing β) :
    writing (x >>= f) = writing x >>= fun a => writing (f a) := by
  funext t
  cases h : x t.output with
  | ok a o =>
      rw [bind_eq_of_ok (writing_of_ok h), writing, writing, bind_eq_of_ok h]
  | error e o =>
      rw [bind_eq_of_error (writing_of_error h), writing_of_error (bind_eq_of_error h)]

end Copying

namespace Tracks

variable {α : Type} {excused : Error → Prop} {C : Cursor → Cursor → Prop}
  {O : Output → Output → Prop}

theorem scan {x y : Scan α} (h : Tracks excused C x y) :
    Tracks excused (Transfer.Related C O) (Copying.scan x) (Copying.scan y) := by
  rintro t u ⟨hcursor, houtput⟩
  rw [Copying.outcome_scan, Copying.outcome_scan, Copying.stateAfter_scan,
    Copying.stateAfter_scan]
  rcases h _ _ hcursor with ⟨hsame, hrelated⟩ | hexcused
  · exact .inl ⟨hsame, hrelated, houtput⟩
  · exact .inr hexcused

theorem writing {x y : Writing α} (h : Tracks (fun f => excused (.io f)) O x y) :
    Tracks excused (Transfer.Related C O) (Copying.writing x) (Copying.writing y) := by
  rintro t u ⟨hcursor, houtput⟩
  rw [Copying.outcome_writing, Copying.outcome_writing, Copying.stateAfter_writing,
    Copying.stateAfter_writing]
  rcases h _ _ houtput with ⟨hsame, hrelated⟩ | ⟨f, herror, hf⟩
  · exact .inl ⟨congrArg asError hsame, hcursor, hrelated⟩
  · exact .inr ⟨.io f, congrArg asError herror, hf⟩

end Tracks

def Sink.store (k : Sink) (position : Nat) (bytes : List UInt8) : Writing Unit := do
  k.seekTo position
  k.writeAll bytes

/-- Related outputs stand at the same position, and calls lead from them to related ones. -/
structure Output.Compatible (O : Output → Output → Prop) : Prop where
  position : ∀ o o', O o o' → o.position = o'.position
  record : ∀ o o' call, O o o' → O (o.record call) (o'.record call)
  move : ∀ o o' p, O o o' → O { o with position := p } { o' with position := p }

namespace Output.Compatible

variable {excused : Fault → Prop} {O : Output → Output → Prop} (hO : Compatible O)
include hO

theorem accept {o o' : Output} (h : O o o') (bytes : List UInt8) :
    O (o.accept bytes) (o'.accept bytes) := by
  have hrecord := hO.record o o' (.write o.position bytes) h
  rw [Output.accept, Output.accept, ← hO.position o o' h]
  exact hO.move _ _ _ hrecord

theorem seekTo (k : Sink) (position : Nat) :
    Tracks excused O (k.seekTo position) (k.seekTo position) := by
  intro o o' h
  left
  have hrecord := hO.record o o' (.seek position) h
  have hseek := k.seekTo_eq position o
  have hseek' := k.seekTo_eq position o'
  split at hseek
  · exact Tracks.same_of_ok hseek (hseek'.trans (if_pos ‹_›)) (hO.move _ _ position hrecord)
  · exact Tracks.same_of_error hseek (hseek'.trans (if_neg ‹_›)) hrecord

theorem writeAll (k : Sink) (bytes : List UInt8) :
    Tracks excused O (k.writeAll bytes) (k.writeAll bytes) := by
  intro o o' h
  left
  induction bytes using Sink.writeAll.induct k generalizing o o' with
  | case1 =>
      have hdone : ∀ o, k.writeAll [] o = .ok () o := fun o => by rw [Sink.writeAll]
      exact Tracks.same_of_ok (hdone o) (hdone o') h
  | case2 b bs ih =>
      have hstep := k.writeAll_cons b bs o
      have hstep' := k.writeAll_cons b bs o'
      rw [← hO.position o o' h] at hstep'
      split at hstep
      · rename_i hfull
        rw [if_pos hfull] at hstep'
        exact Tracks.same_of_error hstep hstep' (hO.record o o' .full h)
      rename_i hbelow
      rw [if_neg hbelow] at hstep'
      split at hstep
      · rename_i hzero
        rw [if_pos hzero] at hstep'
        exact Tracks.same_of_error hstep hstep' (hO.accept h _)
      · rename_i hcount
        rw [if_neg hcount] at hstep'
        rw [outcome, outcome, stateAfter, stateAfter, hstep, hstep']
        exact ih o hcount _ _ (hO.accept h _)

theorem store (k : Sink) (position : Nat) (bytes : List UInt8) :
    Tracks excused O (k.store position bytes) (k.store position bytes) :=
  (hO.seekTo k position).bind fun _ => hO.writeAll k bytes

theorem flush (k : Sink) : Tracks excused O k.flush k.flush := by
  intro o o' h
  left
  have hrecord := hO.record o o' .flush h
  have hflush := k.flush_eq o
  have hflush' := k.flush_eq o'
  split at hflush
  · exact Tracks.same_of_error hflush (hflush'.trans (if_pos ‹_›)) hrecord
  · exact Tracks.same_of_ok hflush (hflush'.trans (if_neg ‹_›)) hrecord

end Output.Compatible

/-- From related cursors and outputs the readers give the same regions and the sinks take the same
bytes, unless the first one of them ends in an error that is excused. -/
structure Comparison (excused : Error → Prop) (C : Cursor → Cursor → Prop)
    (O : Output → Output → Prop) (r r' : Reader) (k k' : Sink) : Prop where
  length : r.length = r'.length
  position : ∀ c d, C c d → c.position = d.position
  asked : ∀ c d, C c d → C c.asked d.asked
  told : ∀ c d events, C c d → C (c.after 0 events) (d.after 0 events)
  region : ∀ name offset size,
    Tracks excused C (r.region name offset size) (r'.region name offset size)
  store : ∀ position bytes,
    Tracks (fun f => excused (.io f)) O (k.store position bytes) (k'.store position bytes)
  flush : Tracks (fun f => excused (.io f)) O k.flush k'.flush

theorem Comparison.ofFollows {excused : Error → Prop} {O : Output → Output → Prop}
    {r r' : Reader} {k k' : Sink} (hlength : r.length = r'.length)
    (hregion : ∀ name offset size,
      (r.region name offset size).Follows excused (r'.region name offset size))
    (hstore : ∀ position bytes,
      Tracks (fun f => excused (.io f)) O (k.store position bytes) (k'.store position bytes))
    (hflush : Tracks (fun f => excused (.io f)) O k.flush k'.flush) :
    Comparison excused Eq O r r' k k' :=
  ⟨hlength, fun _ _ h => congrArg _ h, fun _ _ h => congrArg _ h,
    fun _ _ events h => congrArg (·.after 0 events) h,
    fun name offset size => .of_follows (hregion name offset size), hstore, hflush⟩

theorem Placement.copy_eq_store (r : Reader) (k : Sink) (p : Placement) :
    p.copy r k = do
      let bytes ← Copying.scan (p.target.read r)
      Copying.scan (Scan.tell (.writeBegun p.target.label p.target.name bytes.length p.offset))
      Copying.writing (k.store p.offset bytes)
      return bytes.length := by
  simp only [copy, Sink.store, Copying.writing_bind, bind_assoc]

namespace Comparison

variable {excused : Error → Prop} {C : Cursor → Cursor → Prop} {O : Output → Output → Prop}
  {r r' : Reader} {k k' : Sink}

theorem sectionRead (h : Comparison excused C O r r' k k') (s : Section) :
    Tracks excused C (s.read r) (s.read r') := by
  rw [Section.read, Section.read, h.length]
  split
  · split
    · exact .pure _
    · exact .throw _
  · exact h.region _ _ _

theorem segmentRead (h : Comparison excused C O r r' k k') (g : Segment) :
    Tracks excused C (g.read r) (g.read r') :=
  h.region _ _ _

theorem copy (h : Comparison excused C O r r' k k') (p : Placement) :
    Tracks excused (Transfer.Related C O) (p.copy r k) (p.copy r' k') := by
  rw [Placement.copy_eq_store, Placement.copy_eq_store]
  apply (h.sectionRead p.target).scan.bind
  intro bytes
  apply (Tracks.tell h.told _).scan.bind
  intro _
  apply (h.store p.offset bytes).writing.bind
  intro _
  exact .pure _

theorem copyAll (h : Comparison excused C O r r' k k') (placements : List Placement)
    (summary : Summary) :
    Tracks excused (Transfer.Related C O) (copyAll r k placements summary)
      (copyAll r' k' placements summary) := by
  induction placements generalizing summary with
  | nil => exact .pure _
  | cons p rest ih =>
      apply (h.copy p).bind
      intro length
      exact ih _

theorem extract (h : Comparison excused C O r r' k k') (commands : List Command)
    (selection : Selection) :
    Tracks excused (Transfer.Related C O) (extract r k commands selection)
      (extract r' k' commands selection) := by
  unfold MachO.extract extractBy
  split
  · exact .throw _
  apply (Tracks.tellAll h.told _).scan.bind
  intro _
  apply (Tracks.ofExcept _).scan.bind
  intro placements
  apply (h.copyAll placements _).bind
  intro summary
  apply h.flush.writing.bind
  intro _
  apply (Tracks.tell h.told _).scan.bind
  intro _
  exact .pure _

theorem extractFile (h : Comparison excused C O r r' k k')
    (hdecode : Tracks excused C (File.decode r) (File.decode r')) (selection : Selection) :
    Tracks excused (Transfer.Related C O) (extractFile r k selection)
      (extractFile r' k' selection) := by
  rw [MachO.extractFile, MachO.extractFile]
  split
  · exact .throw _
  apply hdecode.scan.bind
  intro file
  exact h.extract file.commands selection

end Comparison

/-- The outputs stand at the same position, and the first one began with the image. -/
def Output.Began (image : Image) (o o' : Output) : Prop :=
  o.position = o'.position ∧ o.earlier = image

theorem Output.Began.compatible (image : Image) : Compatible (Began image) :=
  ⟨fun _ _ h => h.1, fun _ _ _ h => h, fun _ _ _ h => ⟨rfl, h.2⟩⟩

theorem extract_earlier (r : Reader) (k : Sink) (commands : List Command) (selection : Selection)
    (t : Transfer) :
    (stateAfter (extract r k commands selection) t).output.earlier = t.output.earlier := by
  have hbegan := Output.Began.compatible t.output.earlier
  have hself : Comparison (fun _ => False) Eq (Output.Began t.output.earlier) r r k k :=
    .ofFollows rfl (fun _ _ _ => .refl _) (hbegan.store k) (hbegan.flush k)
  have hextract := (hself.extract commands selection).same (s := t) (t := t) ⟨rfl, rfl, rfl⟩
  exact hextract.2.2.2

/-- The cursors stand at the same position, whatever was told. -/
def Cursor.Level (c d : Cursor) : Prop := c.position = d.position

namespace Tracks

variable {α : Type} {excused : Error → Prop} {C : Cursor → Cursor → Prop} {x y : Scan α}
  {last last' : Scan Unit}

/-- Where nothing but panics is excused, the outcomes of both runs are gone on with alike. -/
theorem attempt (hpanic : ∀ e, excused e → e.isPanic = true) (hx : Tracks excused C x y) :
    Tracks excused C x.attempt y.attempt := by
  intro c d hcd
  have hxc := x.attempt_eq c
  have hyd := y.attempt_eq d
  rcases hx c d hcd with ⟨hsame, hrelated⟩ | ⟨e, herror, he⟩
  · left
    cases hy : y d with
    | ok a d' =>
        rw [outcome_of_ok hy] at hsame
        obtain ⟨c', hx'⟩ := exists_of_outcome_ok hsame
        rw [stateAfter_of_ok hx', stateAfter_of_ok hy] at hrelated
        rw [hx'] at hxc
        rw [hy] at hyd
        exact same_of_ok hxc hyd hrelated
    | error e d' =>
        rw [outcome_of_error hy] at hsame
        obtain ⟨c', hx'⟩ := exists_of_outcome_error hsame
        rw [stateAfter_of_error hx', stateAfter_of_error hy] at hrelated
        simp only [hx'] at hxc
        simp only [hy] at hyd
        split at hxc
        · exact same_of_error hxc (hyd.trans (if_pos ‹_›)) hrelated
        · exact same_of_ok hxc (hyd.trans (if_neg ‹_›)) hrelated
  · right
    obtain ⟨c', hx'⟩ := exists_of_outcome_error herror
    simp only [hx', hpanic e he, if_true] at hxc
    exact ⟨e, outcome_of_error hxc, he⟩

theorem followedBy (hx : Tracks (fun _ => False) C x y)
    (hlast : Tracks (fun _ => False) C last last') :
    Tracks (fun _ => False) C (x.followedBy last) (y.followedBy last') := by
  apply (hx.attempt fun _ => False.elim).bind
  intro result
  apply hlast.bind
  intro _
  exact .ofExcept result

end Tracks

section Level

variable (r : Reader)

theorem Reader.seekTo_level (p : Nat) :
    Tracks (fun _ => False) Cursor.Level (r.seekTo p) (r.seekTo p) := by
  intro c d hcd
  left
  have hc := r.seekTo_eq p c
  have hd := r.seekTo_eq p d
  split at hc
  · exact Tracks.same_of_ok hc (hd.trans (if_pos ‹_›)) rfl
  · exact Tracks.same_of_error hc (hd.trans (if_neg ‹_›)) hcd

theorem Reader.bytes_level (n : Nat) :
    Tracks (fun _ => False) Cursor.Level (r.bytes n) (r.bytes n) := by
  intro c d hcd
  left
  rcases Nat.lt_or_ge r.capacity n with hnone | hroom
  · exact Tracks.same_of_error (bytes_of_capacity_lt hnone c) (bytes_of_capacity_lt hnone d) hcd
  have hc := bytes_eq hroom c
  have hd := bytes_eq hroom d
  rw [← show c.position = d.position from hcd] at hd
  have hafter : ∀ a m, ((c.calling a).after m []).Level ((d.calling a).after m []) :=
    fun _ m => congrArg (· + m) hcd
  cases hfault : (r.source.readExact c.position n).2 with
  | none =>
      rw [hfault] at hc hd
      exact Tracks.same_of_ok hc hd (hafter _ _)
  | some f =>
      rw [hfault] at hc hd
      exact Tracks.same_of_error hc hd (hafter _ _)

theorem Reader.region_level (name : String) (offset size : Nat) :
    Tracks (fun _ => False) Cursor.Level (r.region name offset size)
      (r.region name offset size) := by
  have hposition : Tracks (fun _ => False) Cursor.Level Scan.position Scan.position :=
    fun c d hcd => .inl ⟨congrArg Except.ok hcd, hcd⟩
  apply Tracks.guard
  apply hposition.bind
  intro home
  apply (Tracks.tell (fun _ _ _ hcd => hcd) _).bind
  intro _
  apply (r.seekTo_level offset).bind
  intro _
  exact (r.bytes_level size).followedBy (r.seekTo_level home)

theorem Comparison.level (k : Sink) :
    Comparison (fun _ => False) Cursor.Level Eq r r k k :=
  ⟨rfl, fun _ _ hcd => hcd, fun _ _ hcd => hcd, fun _ _ _ hcd => hcd, r.region_level,
    fun _ _ => .of_eq rfl, .of_eq rfl⟩

end Level

end MachO
