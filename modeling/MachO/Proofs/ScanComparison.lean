import MachO.File
import MachO.Proofs.RegionReading
import MachO.Proofs.Tracking

/-!
Scans compared. A scan follows another one when both do the same, unless the first ends in an error
that is excused. What a scan does one step after the other follows step by step, so that decoding
from one reader follows decoding from another as soon as their reads, seeks and lengths do. A
source with faults is compared in this way with one that has none, and the beginning of some bytes
with all of them.
-/

namespace MachO

/-- Both scans do the same, unless the first one ends in an error that is excused. -/
def Scan.Follows {α : Type} (excused : Error → Prop) (x y : Scan α) : Prop :=
  ∀ c, x c = y c ∨ ∃ e c', x c = .error e c' ∧ excused e

namespace Scan.Follows

variable {α β : Type} {excused : Error → Prop} {x y : Scan α}

theorem refl (x : Scan α) : Follows excused x x := fun _ => .inl rfl

theorem bind {f g : α → Scan β} (hx : Follows excused x y)
    (hf : ∀ a, Follows excused (f a) (g a)) : Follows excused (x >>= f) (y >>= g) := by
  intro c
  rcases hx c with h | ⟨e, c', h, he⟩
  · cases hy : y c with
    | ok a c' =>
        rw [hy] at h
        rw [bind_eq_of_ok h, bind_eq_of_ok hy]
        exact hf a c'
    | error e c' =>
        rw [hy] at h
        rw [bind_eq_of_error h, bind_eq_of_error hy]
        exact .inl rfl
  · exact .inr ⟨e, c', bind_eq_of_error h, he⟩

theorem replicate (hx : Follows excused x y) (n : Nat) :
    Follows excused (x.replicate n) (y.replicate n) := by
  induction n with
  | zero => exact refl _
  | succ n ih => exact hx.bind fun _ => ih.bind fun _ => refl _

/-- A check that the second scan makes may be made more strictly by the first one, if its error is
excused. -/
theorem guard {p q : Prop} [Decidable p] [Decidable q] {e : Error} {f g : Unit → Scan α}
    (hqp : q → p) (he : ¬ q → p → excused e) (hxy : Follows excused x y) :
    Follows excused (if p then throw e >>= f else x) (if q then throw e >>= g else y) := by
  intro c
  rcases Decidable.em q with hq | hq
  · rw [if_pos hq, if_pos (hqp hq)]
    exact .inl rfl
  rcases Decidable.em p with hp | hp
  · rw [if_pos hp]
    exact .inr ⟨e, c, rfl, he hq hp⟩
  · rw [if_neg hp, if_neg hq]
    exact hxy c

theorem sameGuard {p : Prop} [Decidable p] {e : Error} {f g : Unit → Scan α}
    (hxy : Follows excused x y) :
    Follows excused (if p then throw e >>= f else x) (if p then throw e >>= g else y) :=
  guard (fun hp => hp) (fun hnot hp => absurd hp hnot) hxy

theorem followedBy {last last' : Scan Unit} (hx : Follows excused x y)
    (hlast : Follows excused last last')
    (hexcused : ∀ c e c', last c = .error e c' → excused e) :
    Follows excused (x.followedBy last) (y.followedBy last') := by
  intro c
  rcases hx c with h | ⟨e, c', h, he⟩
  · have hattempt : x.attempt c = y.attempt c := by rw [attempt_eq, attempt_eq, h]
    rw [Scan.followedBy, Scan.followedBy]
    cases hy : y.attempt c with
    | ok result c' =>
        rw [bind_eq_of_ok (hattempt.trans hy), bind_eq_of_ok hy]
        exact hlast.bind (fun _ => refl (ofExcept result)) c'
    | error e c' =>
        rw [bind_eq_of_error (hattempt.trans hy), bind_eq_of_error hy]
        exact .inl rfl
  · have hfirst := x.followedBy_eq last c
    simp only [h] at hfirst
    right
    split at hfirst
    · exact ⟨e, c', hfirst, he⟩
    -- An error of the last scan hides the one before it, and is excused as well.
    · cases hl : last c' with
      | ok a c'' => exact ⟨e, c'', hfirst.trans (bind_eq_of_ok hl), he⟩
      | error e' c'' =>
          exact ⟨e', c'', hfirst.trans (bind_eq_of_error hl), hexcused c' e' c'' hl⟩

theorem of_tracks (h : Tracks excused Eq x y) : Follows excused x y := by
  intro c
  rcases h c c rfl with ⟨hsame, hrelated⟩ | ⟨e, herror, he⟩
  · exact .inl (eq_of_outcome hsame hrelated)
  · obtain ⟨c', hx⟩ := exists_of_outcome_error herror
    exact .inr ⟨e, c', hx, he⟩

end Scan.Follows

theorem Tracks.of_follows {α : Type} {excused : Error → Prop} {x y : Scan α}
    (h : x.Follows excused y) : Tracks excused Eq x y := by
  rintro c d rfl
  rcases h c with hsame | ⟨e, c', herror, he⟩
  · exact .inl (by rw [outcome, stateAfter, hsame]; exact ⟨rfl, rfl⟩)
  · exact .inr ⟨e, outcome_of_error herror, he⟩

/-- From related cursors the readers give the same bytes, unless the first one ends in an error that
is excused. What is told does not matter. -/
structure Reader.ReadsAlike (excused : Error → Prop) (C : Cursor → Cursor → Prop) (r r' : Reader) :
    Prop where
  bytes : ∀ n ≤ objectLimit, Tracks excused C (r.bytes n) (r'.bytes n)
  told : ∀ c d events, C c d → C (c.after 0 events) (d.after 0 events)

section Bodies

variable {excused : Error → Prop} {C : Cursor → Cursor → Prop} {r r' : Reader} {o : ByteOrder}
  {w : Width}

namespace Reader.ReadsAlike

theorem u32 (h : r.ReadsAlike excused C r') (o : ByteOrder) :
    Tracks excused C (r.u32 o) (r'.u32 o) :=
  (h.bytes 4 (by decide)).bind fun _ => .pure _

theorem i32 (h : r.ReadsAlike excused C r') (o : ByteOrder) :
    Tracks excused C (r.i32 o) (r'.i32 o) :=
  (h.u32 o).bind fun _ => .pure _

theorem address (h : r.ReadsAlike excused C r') (o : ByteOrder) (w : Width) :
    Tracks excused C (r.address o w) (r'.address o w) := by
  cases w with
  | bits32 => exact (h.u32 o).bind fun _ => .pure _
  | bits64 => exact (h.bytes 8 (by decide)).bind fun _ => .pure _

theorem name (h : r.ReadsAlike excused C r') :
    Tracks excused C (r.name nameSize) (r'.name nameSize) := by
  apply (h.bytes nameSize (by decide)).bind
  intro bytes
  exact .ofExcept _

end Reader.ReadsAlike

theorem Section.decode_alike (h : r.ReadsAlike excused C r') (o : ByteOrder) (w : Width) :
    Tracks excused C (Section.decode r o w) (Section.decode r' o w) := by
  apply h.name.bind
  intro name
  apply h.name.bind
  intro label
  apply (h.address o w).bind
  intro address
  apply (h.address o w).bind
  intro size
  apply (h.u32 o).bind
  intro offset
  apply (h.u32 o).bind
  intro alignment
  apply (h.u32 o).bind
  intro relocationOffset
  apply (h.u32 o).bind
  intro relocationCount
  apply (h.u32 o).bind
  intro flags
  apply (h.u32 o).bind
  intro reserved1
  apply (h.u32 o).bind
  intro reserved2
  have hlast : ∀ s : Section, Tracks excused C
      (do Scan.tell (.sectionRead label name address); return s : Scan Section)
      (do Scan.tell (.sectionRead label name address); return s : Scan Section) :=
    fun s => (Tracks.tell h.told _).bind fun _ => .pure s
  cases w with
  | bits32 => exact hlast _
  | bits64 => exact (h.u32 o).bind fun _ => hlast _

theorem Segment.decodeSections_alike (h : r.ReadsAlike excused C r') (o : ByteOrder) (w : Width)
    (count left : Nat) :
    Tracks excused C (decodeSections r o w count left) (decodeSections r' o w count left) := by
  induction count generalizing left with
  | zero => exact .pure _
  | succ count ih =>
      apply Tracks.guard
      exact (Section.decode_alike h o w).bind fun _ => (ih _).bind fun _ => .pure _

theorem Segment.decode_alike (h : r.ReadsAlike excused C r') (o : ByteOrder) (w : Width)
    (left : Nat) :
    Tracks excused C (Segment.decode r o w left) (Segment.decode r' o w left) := by
  apply Tracks.guard
  apply h.name.bind
  intro name
  apply (h.address o w).bind
  intro address
  apply (h.address o w).bind
  intro memorySize
  apply (h.address o w).bind
  intro fileOffset
  apply (h.address o w).bind
  intro fileSize
  apply (h.i32 o).bind
  intro maxProtection
  apply (h.i32 o).bind
  intro initialProtection
  apply (h.u32 o).bind
  intro sectionCount
  apply (h.u32 o).bind
  intro flags
  apply (decodeSections_alike h o w _ _).bind
  intro sections
  exact (Tracks.tellAll h.told _).bind fun _ => .pure _

theorem Command.decodeBody_alike (h : r.ReadsAlike excused C r') (o : ByteOrder)
    (id size : UInt32) : Tracks excused C (decodeBody r o id size) (decodeBody r' o id size) := by
  unfold decodeBody
  cases LoadCommand.segmentWidth? id with
  | some w => exact (Segment.decode_alike h o w _).bind fun _ => .pure _
  | none => exact .pure _

end Bodies

/-- Reads and seeks of one reader follow those of another. Where the first is shorter, to find that
bytes are missing is excused. -/
structure Reader.Follows (excused : Error → Prop) (r r' : Reader) : Prop where
  bytes : ∀ n ≤ objectLimit, (r.bytes n).Follows excused (r'.bytes n)
  seekTo : ∀ p, (r.seekTo p).Follows excused (r'.seekTo p)
  length_le : r.length ≤ r'.length
  short : r.length ≠ r'.length →
    ∀ n p, excused (.shortHeader n p) ∧ excused (.shortCommand n p)

namespace Reader.Follows

variable {excused : Error → Prop} {r r' : Reader} {o : ByteOrder} {w : Width}

theorem alike (h : r.Follows excused r') : r.ReadsAlike excused Eq r' :=
  ⟨fun n hn => .of_follows (h.bytes n hn), fun _ _ events hcd => congrArg (·.after 0 events) hcd⟩

theorem u32 (h : r.Follows excused r') (o : ByteOrder) :
    (r.u32 o).Follows excused (r'.u32 o) :=
  .of_tracks (h.alike.u32 o)

theorem i32 (h : r.Follows excused r') (o : ByteOrder) :
    (r.i32 o).Follows excused (r'.i32 o) :=
  .of_tracks (h.alike.i32 o)

theorem lengthCheck {α : Type} (h : r.Follows excused r') {n : Nat} {e : Error}
    (he : r.length ≠ r'.length → excused e) {f g : Unit → Scan α} {x y : Scan α}
    (hxy : x.Follows excused y) :
    (if r.length < n then throw e >>= f else x : Scan α).Follows excused
      (if r'.length < n then throw e >>= g else y) := by
  have hle := h.length_le
  apply Scan.Follows.guard
  · intro hq
    omega
  · intro hq hp
    exact he (by omega)
  · exact hxy

theorem ensureBy (h : r.Follows excused r') (a : Arithmetic) (n : Nat) {short : Nat → Nat → Error}
    (hshort : r.length ≠ r'.length → ∀ p, excused (short n p)) :
    (r.ensureBy a n short).Follows excused (r'.ensureBy a n short) := by
  apply (Scan.Follows.refl Scan.position).bind
  intro p
  apply (Scan.Follows.refl _).bind
  intro stop
  exact h.lengthCheck (fun hne => hshort hne p) (f := pure) (g := pure) (.refl _)

end Reader.Follows

/-- The readers have the same length, reads of any size follow, and refused seeks are excused. -/
structure Reader.FollowsWholly (excused : Error → Prop) (r r' : Reader) : Prop
    extends r.Follows excused r' where
  length : r.length = r'.length
  allBytes : ∀ n, (r.bytes n).Follows excused (r'.bytes n)
  refused : ∀ p, r.source.allowsSeek p = false → excused (.io .sourceSeek)

theorem Reader.FollowsWholly.region {excused : Error → Prop} {r r' : Reader}
    (h : r.FollowsWholly excused r') (name : String) (offset size : Nat) :
    (r.region name offset size).Follows excused (r'.region name offset size) := by
  rw [Reader.region, Reader.region, h.length]
  apply Scan.Follows.sameGuard
  apply (Scan.Follows.refl Scan.position).bind
  intro home
  apply (Scan.Follows.refl _).bind
  intro _
  apply (h.seekTo offset).bind
  intro _
  apply (h.allBytes size).followedBy (h.seekTo home)
  intro c e c' herror
  rw [seekTo_eq] at herror
  cases hallows : r.source.allowsSeek home with
  | true =>
      rw [if_pos hallows] at herror
      cases herror
  | false =>
      rw [if_neg (by simp [hallows])] at herror
      cases herror
      exact h.refused home hallows

section Decoding

variable {excused : Error → Prop} {r r' : Reader}

theorem Section.read_follows (h : r.FollowsWholly excused r') (s : Section) :
    (s.read r).Follows excused (s.read r') := by
  rw [Section.read, Section.read, h.length]
  split
  · exact .refl _
  · exact h.region _ _ _

theorem Command.decodeBy_follows (h : r.Follows excused r') (a : Arithmetic) (o : ByteOrder) :
    (Command.decodeBy a r o).Follows excused (Command.decodeBy a r' o) := by
  apply (h.ensureBy a headSize fun hne p => (h.short hne headSize p).2).bind
  intro _
  apply (Scan.Follows.refl Scan.position).bind
  intro start
  apply (h.u32 o).bind
  intro id
  apply (h.u32 o).bind
  intro size
  apply (Scan.Follows.refl _).bind
  intro stop
  apply h.lengthCheck fun hne => (h.short hne _ _).2
  apply Scan.Follows.sameGuard
  apply (Scan.Follows.refl _).bind
  intro _
  apply (Scan.Follows.of_tracks (decodeBody_alike h.alike o id size)).bind
  intro content
  apply (Scan.Follows.refl _).bind
  intro next
  exact (h.seekTo _).bind fun _ => .refl _

theorem Header.decodeFields_follows (h : r.Follows excused r') (o : ByteOrder) (w : Width)
    (magic : UInt32) :
    (Header.decodeFields r o w magic).Follows excused (Header.decodeFields r' o w magic) := by
  apply (h.i32 o).bind
  intro cpuType
  apply (h.i32 o).bind
  intro cpuSubtype
  apply (h.u32 o).bind
  intro fileType
  apply (h.u32 o).bind
  intro commandCount
  apply (h.u32 o).bind
  intro commandsSize
  apply (h.u32 o).bind
  intro flags
  cases w with
  | bits32 => exact .refl _
  | bits64 =>
      refine Scan.Follows.bind ?_ fun _ => .refl _
      exact (h.u32 o).bind fun _ => .refl _

theorem Header.decodeBy_follows (h : r.Follows excused r') (a : Arithmetic) (o : ByteOrder)
    (w : Width) (magic : UInt32) :
    (Header.decodeBy a r o w magic).Follows excused (Header.decodeBy a r' o w magic) :=
  (h.ensureBy a w.headerSize fun hne p => (h.short hne w.headerSize p).1).bind
    fun _ => decodeFields_follows h o w magic

theorem File.decode_follows (h : r.Follows excused r') :
    (File.decode r).Follows excused (File.decode r') := by
  apply (h.ensureBy .exact magicSize fun hne p => (h.short hne magicSize p).1).bind
  intro _
  apply (h.bytes magicSize (by decide)).bind
  intro magic
  apply (Scan.Follows.refl _).bind
  intro format
  apply (Header.decodeBy_follows h .exact format.order format.width format.magic).bind
  intro header
  apply (Scan.Follows.refl _).bind
  intro _
  exact ((Command.decodeBy_follows h .exact format.order).replicate _).bind fun _ => .refl _

end Decoding

def Error.IsFault (e : Error) : Prop := ∃ fault, e = .io fault

theorem Source.readExact_of_chunk {s : Source} (hs : s.chunk = some 0) (position : Nat) {n : Nat}
    (hn : 0 < n) : ∃ fault, s.readExact position n = ([], some fault) := by
  have hnone : s.allowance position n = 0 := by
    rw [allowance_eq, hs]
    exact Nat.zero_min _
  rw [readExact, if_neg (by omega), readSome]
  cases s.failsAt position with
  | true => exact ⟨_, rfl⟩
  | false =>
      refine ⟨.endOfSource, ?_⟩
      simp [hnone, slice_eq]

/-- What an exact read gives when it does not fail are the bytes that stand there, whatever the
faults of the source. -/
theorem Source.readExact_of_none {s : Source} {position n : Nat}
    (h : (s.readExact position n).2 = none) :
    s.readExact position n = (window s.bytes.toList position n, none) ∧
      (window s.bytes.toList position n).length = n := by
  rcases Nat.eq_zero_or_pos n with rfl | hn
  · rw [readExact_zero]
    exact ⟨rfl, rfl⟩
  rcases Decidable.em (s.chunk = some 0) with hchunk | hchunk
  · obtain ⟨fault, hfault⟩ := readExact_of_chunk hchunk position hn
    rw [hfault] at h
    cases h
  · have hread := readExact_eq hchunk position n
    simp only at hread
    rw [hread] at h ⊢
    have hlen : (window s.bytes.toList position (s.reach position n)).length = n := by
      simp only [ite_eq_left_iff, reduceCtorEq, imp_false, Decidable.not_not] at h
      exact h
    have hle := s.reach_le position n
    rw [length_window] at hlen
    have hreach : s.reach position n = n := by omega
    rw [hreach, length_window, if_pos (by omega)]
    exact ⟨rfl, by omega⟩

theorem Reader.bytes_of_got {r : Reader} {n : Nat} {c : Cursor} {got : List UInt8}
    (hroom : n ≤ r.capacity) (h : r.source.readExact c.position n = (got, none))
    (hlen : got.length = n) : r.bytes n c = .ok got (c.read n) := by
  subst hlen
  rw [bytes_eq hroom, h]
  rfl

theorem Reader.bytes_of_fault {r : Reader} {n : Nat} {c : Cursor} {got : List UInt8}
    {fault : Fault} (hroom : n ≤ r.capacity)
    (h : r.source.readExact c.position n = (got, some fault)) :
    r.bytes n c =
      .error (.io fault) ((c.calling (.read c.position n)).after got.length []) := by
  rw [bytes_eq hroom, h]

theorem Reader.bytes_follows_ofBytes {r : Reader} {n : Nat}
    (hroom : n ≤ (ofBytes r.source.bytes.toList).capacity → n ≤ r.capacity) :
    (r.bytes n).Follows Error.IsFault ((ofBytes r.source.bytes.toList).bytes n) := by
  intro c
  rcases Nat.lt_or_ge r.capacity n with hnone | hsome
  · have hnone' := Nat.lt_of_not_le (mt hroom (Nat.not_le.mpr hnone))
    rw [bytes_of_capacity_lt hnone, bytes_of_capacity_lt hnone']
    exact .inl rfl
  cases h : (r.source.readExact c.position n).2 with
  | none =>
      obtain ⟨hread, hlen⟩ := Source.readExact_of_none h
      rw [bytes_ofBytes_eq_ok_iff.mpr ⟨rfl, hlen, rfl⟩, bytes_of_got hsome hread hlen]
      exact .inl rfl
  | some fault => exact .inr ⟨_, _, bytes_of_fault hsome (Prod.ext rfl h), fault, rfl⟩

theorem Reader.length_ofSource {s : Source} (hs : s.claim = none) :
    (ofSource s).length = (ofBytes s.bytes.toList).length := by
  rw [length_ofBytes, ofSource, Source.reportedLength, hs]
  exact Array.length_toList.symm

section Truthful

variable {s : Source}
  (hlength : (Reader.ofSource s).length = (Reader.ofBytes s.bytes.toList).length)
include hlength

theorem Reader.bytes_follows_of_length (n : Nat) :
    ((ofSource s).bytes n).Follows Error.IsFault ((ofBytes s.bytes.toList).bytes n) := by
  have hcapacity : (ofBytes s.bytes.toList).capacity = (ofSource s).capacity := by
    rw [capacity, capacity, hlength]
    rfl
  exact bytes_follows_ofBytes (r := ofSource s) fun h => hcapacity ▸ h

/-- A source of the bytes that does not lie about their number: whatever its faults are, it is
followed by one without faults up to the first of them. -/
theorem Reader.follows_of_length :
    (ofSource s).FollowsWholly Error.IsFault (ofBytes s.bytes.toList) where
  bytes n _ := bytes_follows_of_length hlength n
  seekTo p c := by
    have hback : (ofBytes s.bytes.toList).source.allowsSeek p = true := rfl
    rw [seekTo_eq, seekTo_eq, if_pos hback]
    cases hallows : (ofSource s).source.allowsSeek p with
    | true => exact .inl rfl
    | false => exact .inr ⟨_, _, rfl, .sourceSeek, rfl⟩
  length_le := Nat.le_of_eq hlength
  short hne := absurd hlength hne
  length := hlength
  allBytes := bytes_follows_of_length hlength
  refused _ _ := ⟨_, rfl⟩

end Truthful

theorem Reader.ofSource_follows {s : Source} (hs : s.claim = none) :
    (ofSource s).FollowsWholly Error.IsFault (ofBytes s.bytes.toList) :=
  follows_of_length (length_ofSource hs)

/-- A source that starts with the bytes and reads them without fault. Behind them it may hold
anything, or fail. -/
structure Source.Shows (D : List UInt8) (s : Source) : Prop where
  bytes : D <+: s.bytes.toList
  chunk : s.chunk ≠ some 0
  failAt : ∀ f, s.failAt = some f → D.length ≤ f
  seekLimit : s.seekLimit = none

theorem Source.Shows.readExact {D : List UInt8} {s : Source} (hs : s.Shows D) {position n : Nat}
    (h : position + n ≤ D.length) :
    s.readExact position n = (window D position n, none) := by
  obtain ⟨rest, hbytes⟩ := hs.bytes
  have hwindow : window s.bytes.toList position n = window D position n := by
    rw [← hbytes, window, window, List.drop_append_of_le_length (by omega),
      List.take_append_of_le_length (by rw [List.length_drop]; omega)]
  have hreach : s.reach position n = n := by
    cases hf : s.failAt with
    | none => simp only [reach, hf, Option.map_none, atMost]
    | some f =>
        have hle := hs.failAt f hf
        simp only [reach, hf, Option.map_some, atMost]
        omega
  rw [readExact_eq hs.chunk, hreach, hwindow]
  simp only [length_window]
  rw [if_pos (by omega)]

theorem Reader.bytes_of_shows {D : List UInt8} {r : Reader} {n : Nat} {c : Cursor}
    (hs : r.source.Shows D) (hroom : n ≤ r.capacity) (h : c.position + n ≤ D.length) :
    r.bytes n c = .ok (window D c.position n) (c.read n) := by
  refine bytes_of_got hroom (hs.readExact h) ?_
  rw [length_window]
  omega

theorem Reader.ofBytes_follows {D : List UInt8} {s : Source} (hs : s.Shows D)
    (excused : Error → Prop) (hend : excused (.io .endOfSource)) {length : Nat}
    (hle : D.length ≤ length)
    (hshort : D.length ≠ length → ∀ n p, excused (.shortHeader n p) ∧ excused (.shortCommand n p)) :
    (ofBytes D).Follows excused ⟨s, length⟩ := by
  have hlength := length_ofBytes D
  refine ⟨?_, ?_, by rwa [hlength], by rwa [hlength]⟩
  · intro n hsmall c
    have hroom : ∀ r : Reader, n ≤ r.capacity := fun _ => le_capacity_of_le_objectLimit hsmall
    rcases Nat.eq_zero_or_pos n with rfl | hn
    · rw [bytes_of_got (hroom _) (Source.readExact_zero ..) rfl,
        bytes_of_got (hroom _) (Source.readExact_zero ..) rfl]
      exact .inl rfl
    rcases Nat.lt_or_ge D.length (c.position + n) with hlt | hge
    · have hread := Source.readExact_ofBytes D c.position n
      rw [if_neg (mt (length_window_eq_iff hn).mp (Nat.not_le.mpr hlt))] at hread
      exact .inr ⟨_, _, bytes_of_fault (hroom _) hread, hend⟩
    · rw [bytes_ofBytes hge, bytes_of_shows (r := ⟨s, length⟩) hs (hroom _) hge]
      exact .inl rfl
  · intro p c
    refine .inl ?_
    have hallows : s.allowsSeek p = true := by rw [Source.allowsSeek, hs.seekLimit]
    have hfaultless : (ofBytes D).source.allowsSeek p = true := rfl
    rw [seekTo_eq, seekTo_eq, if_pos hallows, if_pos hfaultless]

end MachO
