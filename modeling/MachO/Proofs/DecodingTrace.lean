import Mathlib.Algebra.GroupWithZero.Nat
import MachO.Proofs.ExactRegions
import MachO.Proofs.FileDecoding

/-!
What reading a file leaves behind, whether it succeeds or fails. Every exact read ends inside the
length of the reader. What is told of load commands and sections is paid for by bytes that were read
before, eight for a command and for a section those of its header; as the reader never goes back,
all that is told is paid for by different bytes. And there is one warning for each section that is
labelled with another segment, for all segments that are read.
-/

namespace MachO

/-- The bytes that were read for what is told. -/
def Event.price : Event → Nat
  | .commandBegun .. => Command.headSize
  | .sectionRead .. => Width.bits32.sectionSize
  | _ => 0

/-- One warning for each section that is labelled with another segment, in their order. -/
def Segment.warnings (g : Segment) : List Event :=
  (g.sections.filter (·.label != g.name)).map fun s => .mislabelled s.name s.label g.name

def LoadCommand.warnings : LoadCommand → List Event
  | .segment _ g => g.warnings
  | .other .. => []

/-- The load commands that are read in a row before one fails, at most so many. -/
def Command.leading (r : Reader) (o : ByteOrder) : Nat → Cursor → List Command
  | 0, _ => []
  | n + 1, c =>
      match Command.decode r o c with
      | .ok command c' => command :: leading r o n c'
      | .error .. => []

namespace File

def decodeHead (r : Reader) : Scan (Format × Header) := do
  r.ensureBy .exact magicSize .shortHeader
  let magic ← r.bytes magicSize
  let format ← Scan.ofExcept (formatOf magic)
  let header ← Header.decode r format.order format.width format.magic
  Scan.tell (.headerRead format header)
  return (format, header)

/-- The load commands that are read of a file before one fails. -/
def leading (r : Reader) (c : Cursor) : List Command :=
  match decodeHead r c with
  | .ok (format, header) c' =>
      Command.leading r format.order header.commandCount.toNat c'
  | .error .. => []

end File

theorem Segment.level_of_mem_warnings {g : Segment} {e : Event} (h : e ∈ g.warnings) :
    e.level = .warn ∧ e.price = 0 := by
  obtain ⟨s, -, rfl⟩ := List.mem_map.mp h
  exact ⟨rfl, rfl⟩

theorem segmentsOf_cons_warnings (command : Command) (rest : List Command) :
    (segmentsOf (command :: rest)).flatMap (·.warnings) =
      command.content.warnings ++ (segmentsOf rest).flatMap (·.warnings) := by
  obtain ⟨content, size⟩ := command
  cases content <;> rfl

namespace Cursor

/-- The bytes that were read for all that was told. -/
def spent (c : Cursor) : Nat := (c.events.toList.map Event.price).sum

def warnings (c : Cursor) : List Event := c.events.toList.filter (·.level == .warn)

/-- Every exact read ended within a length. -/
def ReadsWithin (length : Nat) (c : Cursor) : Prop :=
  ∀ p n, .read p n ∈ c.calls → p + n ≤ length

theorem spent_after (c : Cursor) (n : Nat) (events : List Event) :
    (c.after n events).spent = c.spent + (events.map Event.price).sum := by
  simp [spent, after]

theorem warnings_after (c : Cursor) (n : Nat) (events : List Event) :
    (c.after n events).warnings = c.warnings ++ events.filter (·.level == .warn) := by
  simp [warnings, after]

theorem ReadsWithin.calling {c : Cursor} {length : Nat} (h : c.ReadsWithin length) {a : Access}
    (ha : ∀ p n, a = .read p n → p + n ≤ length) : (c.calling a).ReadsWithin length := by
  intro p n hmem
  rcases Array.mem_push.mp hmem with hmem | hlast
  · exact h p n hmem
  · exact ha p n hlast.symm

end Cursor

/-- From cursors with the one property the scan ends with the other one, of its result as well, or
in an error with the third. -/
def Scan.Meets {α : Type} (P : Cursor → Prop) (x : Scan α) (Q : α → Cursor → Prop)
    (E : Cursor → Prop) : Prop :=
  ∀ c, P c → (∀ a c', x c = .ok a c' → Q a c') ∧ ∀ e c', x c = .error e c' → E c'

namespace Scan.Meets

variable {α β : Type} {P P' : Cursor → Prop} {Q Q' : α → Cursor → Prop} {R : β → Cursor → Prop}
  {E : Cursor → Prop} {x : Scan α}

theorem pure {a : α} (h : ∀ c, P c → Q a c) : Meets P (Pure.pure a) Q E := by
  intro c hc
  refine ⟨?_, nofun⟩
  intro b c' hok
  obtain ⟨rfl, rfl⟩ := pure_eq_ok_iff.mp hok
  exact h _ hc

theorem throw {e : Error} (h : ∀ c, P c → E c) : Meets P (MonadExcept.throw e) Q E := by
  intro c hc
  refine ⟨nofun, ?_⟩
  intro e' c' herror
  cases herror
  exact h _ hc

theorem bind {f : α → Scan β} (hx : Meets P x Q E) (hf : ∀ a, Meets (Q a) (f a) R E) :
    Meets P (x >>= f) R E := by
  intro c hc
  obtain ⟨hok, herror⟩ := hx c hc
  constructor
  · intro b c' h
    obtain ⟨a, c₁, ha, hb⟩ := bind_eq_ok_iff.mp h
    exact (hf a c₁ (hok a c₁ ha)).1 b c' hb
  · intro e c' h
    rcases bind_eq_error_iff.mp h with hfirst | ⟨a, c₁, ha, hrest⟩
    · exact herror e c' hfirst
    · exact (hf a c₁ (hok a c₁ ha)).2 e c' hrest

theorem imp (hx : Meets P x Q E) (hP : ∀ c, P' c → P c) (hQ : ∀ a c, Q a c → Q' a c) :
    Meets P' x Q' E := by
  intro c hc
  obtain ⟨hok, herror⟩ := hx c (hP c hc)
  exact ⟨fun a c' h => hQ a c' (hok a c' h), herror⟩

theorem guard {p : Prop} [Decidable p] {e : Error} {f : Unit → Scan α} (hE : ∀ c, P c → E c)
    (hx : ¬ p → Meets P x Q E) : Meets P (if p then MonadExcept.throw e >>= f else x) Q E := by
  split
  · intro c hc
    refine ⟨nofun, ?_⟩
    intro e' c' herror
    cases herror
    exact hE c hc
  · exact hx ‹_›

theorem ofExcept {a : Except Error α} (h : ∀ c, P c → E c) :
    Meets P (Scan.ofExcept a) (fun _ => P) E := by
  cases a with
  | ok a => exact .pure fun _ => id
  | error e => exact .throw h

theorem assuming {p : Prop} (hx : p → Meets P x Q E) : Meets (fun c => p ∧ P c) x Q E :=
  fun c hc => hx hc.1 c hc.2

end Scan.Meets

namespace Reader

/-- The reader stands at a position with so many bytes before the end of its length. What was told,
and a credit besides, is paid for by bytes that were passed, and by bytes that there are. -/
structure Standing (r : Reader) (p credit left : Nat) (warned : List Event) (c : Cursor) :
    Prop where
  position : c.position = p
  passed : c.spent + credit ≤ p
  there : c.spent + credit ≤ r.source.bytes.size
  room : p + left ≤ r.length
  inside : c.ReadsWithin r.length
  warnings : c.warnings = warned

/-- The reader stands somewhere before a position. -/
def StandingBefore (r : Reader) (stop credit : Nat) (warned : List Event) (c : Cursor) : Prop :=
  ∃ p ≤ stop, r.Standing p credit 0 warned c

/-- The reader has read something, or has failed to. A warning may have been told of a load command
that fails after all, but only when the source refuses to go on behind it. -/
structure Stopped (r : Reader) (warned : List Event) (c : Cursor) : Prop where
  paid : c.spent ≤ r.source.bytes.size
  inside : c.ReadsWithin r.length
  warnings : r.source.seekLimit = none → c.warnings = warned

namespace Standing

variable {r : Reader} {p l m j k : Nat} {warned : List Event} {c : Cursor}

theorem stopped (h : r.Standing p m k warned c) : r.Stopped warned c :=
  ⟨Nat.le_trans (Nat.le_add_right _ m) h.there, h.inside, fun _ => h.warnings⟩

theorem mono (h : r.Standing p l k warned c) (hcredit : m ≤ l) (hroom : j ≤ k) :
    r.Standing p m j warned c :=
  ⟨h.position, Nat.le_trans (Nat.add_le_add_left hcredit _) h.passed,
    Nat.le_trans (Nat.add_le_add_left hcredit _) h.there,
    Nat.le_trans (Nat.add_le_add_left hroom _) h.room, h.inside, h.warnings⟩

theorem withRoom (h : r.Standing p m k warned c) (hroom : p + j ≤ r.length) :
    r.Standing p m j warned c :=
  ⟨h.position, h.passed, h.there, hroom, h.inside, h.warnings⟩

theorem start (r : Reader) : r.Standing 0 0 0 [] .start := by
  refine ⟨rfl, Nat.le_refl 0, Nat.zero_le _, Nat.zero_le _, ?_, rfl⟩
  intro p n hmem
  cases Array.not_mem_empty _ hmem

end Standing

end Reader

/-- The scan reads `n` bytes that there are, or ends in an error. -/
def Scan.Reads {α : Type} (r : Reader) (n : Nat) (x : Scan α) : Prop :=
  ∀ p m k warned, Meets (r.Standing p m (n + k) warned) x
    (fun _ => r.Standing (p + n) (m + n) k warned) (r.Stopped warned)

namespace Scan

variable {α β : Type} {r : Reader} {x : Scan α} {p m k n : Nat} {warned : List Event}

theorem Reads.map (hx : x.Reads r n) (f : α → β) : (x >>= fun a => Pure.pure (f a)).Reads r n :=
  fun p m k warned => (hx p m k warned).bind fun _ => .pure fun _ => id

theorem position_meets {P E : Cursor → Prop} (hP : ∀ c, P c → P c.asked) :
    Scan.position.Meets P (fun p c => c.position = p ∧ P c) E := by
  intro c hc
  refine ⟨?_, nofun⟩
  intro p c' hok
  obtain ⟨rfl, rfl⟩ := Scan.position_eq_ok_iff.mp hok
  exact ⟨rfl, hP c hc⟩

theorem asked_standing (c : Cursor) (h : r.Standing p m k warned c) :
    r.Standing p m k warned c.asked :=
  ⟨h.position, h.passed, h.there, h.room, h.inside.calling nofun, h.warnings⟩

theorem position_standing :
    Scan.position.Meets (r.Standing p m k warned)
      (fun start c => start = p ∧ r.Standing p m k warned c) (r.Stopped warned) := by
  refine (position_meets asked_standing).imp (fun _ => id) ?_
  rintro start c ⟨rfl, h⟩
  exact ⟨h.position, h⟩

theorem tellAll_standing (p m k : Nat) (warned events : List Event) :
    (Scan.tellAll events).Meets
      (r.Standing p (m + (events.map Event.price).sum) k warned)
      (fun _ => r.Standing p m k (warned ++ events.filter (·.level == .warn)))
      (r.Stopped warned) := by
  intro c h
  refine ⟨?_, nofun⟩
  intro u c' hok
  obtain rfl := Scan.tellAll_eq_ok_iff.mp hok
  have hpassed := h.passed
  have hthere := h.there
  refine ⟨h.position, ?_, ?_, h.room, h.inside, ?_⟩
  · rw [Cursor.spent_after]
    omega
  · rw [Cursor.spent_after]
    omega
  · rw [Cursor.warnings_after, h.warnings]

theorem tell_standing (p m k : Nat) (warned : List Event) {e : Event}
    (he : (e.level == .warn) = false) :
    (Scan.tell e).Meets (r.Standing p (m + e.price) k warned)
      (fun _ => r.Standing p m k warned) (r.Stopped warned) := by
  have hone : Scan.tell e = Scan.tellAll [e] := by
    funext c
    exact Scan.tell_eq_ok_iff.mpr (Scan.tellAll_eq_ok_iff.mp rfl)
  have hquiet : [e].filter (·.level == .warn) = [] := by simp [he]
  have htold := tellAll_standing (r := r) p m k warned [e]
  rw [hquiet, List.append_nil] at htold
  rw [hone]
  exact htold

end Scan

namespace Reader

variable {r : Reader} {p q m k : Nat} {warned told : List Event}

theorem ensureBy_standing (n : Nat) (short : Nat → Nat → Error) :
    (r.ensureBy .exact n short).Meets (r.Standing p m k warned)
      (fun _ => r.Standing p m n warned) (r.Stopped warned) := by
  intro c h
  have hstanding := Scan.asked_standing c h
  rw [ensureBy_exact_eq]
  split
  · refine ⟨nofun, ?_⟩
    rintro e _ ⟨⟩
    exact hstanding.stopped
  · rename_i hroom
    refine ⟨?_, nofun⟩
    rintro u _ ⟨⟩
    rw [h.position] at hroom
    exact hstanding.withRoom (Nat.not_lt.mp hroom)

theorem seekTo_standing (hq : q ≤ r.length) :
    (r.seekTo q).Meets (r.StandingBefore q m told) (fun _ => r.Standing q m 0 told)
      (r.Stopped warned) := by
  rintro c ⟨p, hle, h⟩
  rw [seekTo_eq]
  split
  · refine ⟨?_, nofun⟩
    rintro u _ ⟨⟩
    exact ⟨rfl, Nat.le_trans h.passed hle, h.there, hq, h.inside.calling nofun, h.warnings⟩
  · rename_i hrefused
    refine ⟨nofun, ?_⟩
    rintro e _ ⟨⟩
    refine ⟨Nat.le_trans (Nat.le_add_right _ m) h.there, h.inside.calling nofun, fun hnone => ?_⟩
    rw [Source.allowsSeek, hnone] at hrefused
    exact absurd rfl hrefused

variable (r)

theorem bytes_reads (n : Nat) : (r.bytes n).Reads r n := by
  intro p m k warned c h
  have hposition := h.position
  have hpassed := h.passed
  have hthere := h.there
  have hroom := h.room
  have hinside : (c.calling (.read c.position n)).ReadsWithin r.length := by
    apply h.inside.calling
    rintro p' n' ⟨⟩
    omega
  constructor
  · intro bs c' hok
    obtain ⟨rfl, hlen, rfl⟩ := bytes_eq_ok hok
    rw [length_window, Array.length_toList] at hlen
    have hspent : (c.read n).spent = c.spent := Cursor.spent_after ..
    have hwarnings : (c.read n).warnings = c.warnings :=
      (Cursor.warnings_after ..).trans (List.append_nil _)
    refine ⟨congrArg (· + n) hposition, ?_, ?_, ?_, hinside, hwarnings.trans h.warnings⟩ <;> omega
  · intro e c' herror
    rcases bytes_eq_error herror with rfl | ⟨got, rfl⟩
    · exact h.stopped
    · refine ⟨?_, hinside, fun _ => ?_⟩
      · rw [Cursor.spent_after]
        exact Nat.le_trans (Nat.le_add_right _ m) hthere
      · rw [Cursor.warnings_after]
        exact (List.append_nil _).trans h.warnings

theorem u32_reads (o : ByteOrder) : (r.u32 o).Reads r 4 := (r.bytes_reads 4).map _

theorem i32_reads (o : ByteOrder) : (r.i32 o).Reads r 4 := (r.u32_reads o).map _

theorem address_reads (o : ByteOrder) (w : Width) : (r.address o w).Reads r w.addressSize := by
  cases w with
  | bits32 => exact (r.u32_reads o).map _
  | bits64 => exact (r.bytes_reads 8).map _

theorem name_reads (n : Nat) : (r.name n).Reads r n :=
  fun p m k warned => (r.bytes_reads n p m k warned).bind fun _ =>
    Scan.Meets.ofExcept fun _ h => h.stopped

end Reader

section Decoding

variable (r : Reader) (o : ByteOrder) (w : Width) (p m k : Nat) (warned : List Event)

theorem Section.decode_standing :
    (Section.decode r o w).Meets (r.Standing p m (w.sectionSize + k) warned)
      (fun _ => r.Standing (p + w.sectionSize) m k warned) (r.Stopped warned) := by
  -- The room as the fields use it up, one after the other.
  have hroom : w.sectionSize + k = nameSize + (nameSize + (w.addressSize + (w.addressSize +
      (4 + (4 + (4 + (4 + (4 + (4 + (4 + ((lastSizes w).sum + k))))))))))) := by
    cases w <;> simp only [Width.sectionSize, nameSize, Width.addressSize, lastSizes,
      List.sum_cons, List.sum_nil] <;> omega
  rw [hroom]
  apply (r.name_reads nameSize p m _ warned).bind
  intro name
  apply (r.name_reads nameSize _ _ _ warned).bind
  intro label
  apply (r.address_reads o w _ _ _ warned).bind
  intro address
  apply (r.address_reads o w _ _ _ warned).bind
  intro size
  apply (r.u32_reads o _ _ _ warned).bind
  intro offset
  apply (r.u32_reads o _ _ _ warned).bind
  intro alignment
  apply (r.u32_reads o _ _ _ warned).bind
  intro relocationOffset
  apply (r.u32_reads o _ _ _ warned).bind
  intro relocationCount
  apply (r.u32_reads o _ _ _ warned).bind
  intro flags
  apply (r.u32_reads o _ _ _ warned).bind
  intro reserved1
  apply (r.u32_reads o _ _ _ warned).bind
  intro reserved2
  have htold : ∀ q l, q = p + w.sectionSize → m + Width.bits32.sectionSize ≤ l → ∀ s : Section,
      (do Scan.tell (.sectionRead label name address); return s : Scan Section).Meets
        (r.Standing q l k warned) (fun _ => r.Standing (p + w.sectionSize) m k warned)
        (r.Stopped warned) := by
    rintro q l rfl hl s
    exact ((Scan.tell_standing _ m k warned rfl).imp (fun _ h => h.mono hl (Nat.le_refl k))
      fun _ _ h => h).bind fun _ => .pure fun _ => id
  cases w with
  | bits32 =>
      rw [lastSizes, List.sum_nil, Nat.zero_add]
      exact htold _ _ (by simp only [Width.sectionSize, nameSize, Width.addressSize])
        (by simp only [Width.sectionSize, nameSize, Width.addressSize]; omega) _
  | bits64 =>
      apply (r.u32_reads o _ _ k warned).bind
      intro reserved3
      exact htold _ _ (by simp only [Width.sectionSize, nameSize, Width.addressSize])
        (by simp only [Width.sectionSize, nameSize, Width.addressSize]; omega) _

theorem Segment.decodeSections_standing (count left : Nat) :
    (decodeSections r o w count left).Meets (r.Standing p m left warned)
      (fun _ => r.StandingBefore (p + left) m warned) (r.Stopped warned) := by
  induction count generalizing p left with
  | zero =>
      apply Scan.Meets.pure
      intro c h
      exact ⟨p, Nat.le_add_right p left, h.mono (Nat.le_refl m) (Nat.zero_le left)⟩
  | succ count ih =>
      apply Scan.Meets.guard fun _ h => h.stopped
      intro hsection
      obtain ⟨rest, rfl⟩ := Nat.exists_eq_add_of_le (Nat.not_lt.mp hsection)
      apply (Section.decode_standing r o w p m rest warned).bind
      intro s
      rw [Nat.add_sub_cancel_left, ← Nat.add_assoc]
      exact (ih (p + w.sectionSize) rest).bind fun _ => .pure fun _ => id

theorem Segment.told_standing (g : Segment) :
    (do Scan.tellAll g.warnings; return g : Scan Segment).Meets (r.StandingBefore p m warned)
      (fun g => r.StandingBefore p m (warned ++ g.warnings)) (r.Stopped warned) := by
  have hfree : (g.warnings.map Event.price).sum = 0 := by
    rw [List.sum_eq_zero_iff_forall_eq_nat]
    intro n hn
    obtain ⟨e, he, rfl⟩ := List.mem_map.mp hn
    exact (level_of_mem_warnings he).2
  have hall : g.warnings.filter (·.level == .warn) = g.warnings := by
    rw [List.filter_eq_self]
    intro e he
    rw [(level_of_mem_warnings he).1]
    rfl
  rintro c ⟨q, hq, h⟩
  have htold := Scan.tellAll_standing (r := r) q m 0 warned g.warnings
  rw [hfree, hall] at htold
  refine ⟨?_, nofun⟩
  rintro _ _ ⟨⟩
  exact ⟨q, hq, (htold c h).1 () _ rfl⟩

theorem Segment.decode_standing (left : Nat) :
    (Segment.decode r o w left).Meets (r.Standing p m left warned)
      (fun g => r.StandingBefore (p + left) m (warned ++ g.warnings)) (r.Stopped warned) := by
  apply Scan.Meets.guard fun _ h => h.stopped
  intro hsegment
  obtain ⟨rest, rfl⟩ := Nat.exists_eq_add_of_le (Nat.not_lt.mp hsegment)
  have hroom : w.segmentSize + rest = nameSize + (w.addressSize + (w.addressSize +
      (w.addressSize + (w.addressSize + (4 + (4 + (4 + (4 + rest)))))))) := by
    rw [← segmentSize_eq]
    omega
  rw [Nat.add_sub_cancel_left, hroom]
  apply (r.name_reads nameSize p m _ warned).bind
  intro name
  apply (r.address_reads o w _ _ _ warned).bind
  intro address
  apply (r.address_reads o w _ _ _ warned).bind
  intro memorySize
  apply (r.address_reads o w _ _ _ warned).bind
  intro fileOffset
  apply (r.address_reads o w _ _ _ warned).bind
  intro fileSize
  apply (r.i32_reads o _ _ _ warned).bind
  intro maxProtection
  apply (r.i32_reads o _ _ _ warned).bind
  intro initialProtection
  apply (r.u32_reads o _ _ _ warned).bind
  intro sectionCount
  apply (r.u32_reads o _ _ _ warned).bind
  intro flags
  apply (decodeSections_standing r o w _ _ warned _ rest).bind
  intro sections
  -- All of the segment is read by now, so that nothing is told of one that cannot be read.
  have hstop : p + nameSize + w.addressSize + w.addressSize + w.addressSize + w.addressSize
      + 4 + 4 + 4 + 4 + rest = p + (nameSize + (w.addressSize + (w.addressSize +
      (w.addressSize + (w.addressSize + (4 + (4 + (4 + (4 + rest))))))))) := by omega
  rw [hstop]
  exact (told_standing r _ _ _ ⟨name, address, memorySize, fileOffset, fileSize, maxProtection,
    initialProtection, sectionCount, .ofWord flags, sections⟩).imp
      (fun c ⟨q, hq, h⟩ => ⟨q, hq, h.mono (by omega) (Nat.le_refl 0)⟩) fun _ _ h => h

theorem Command.decodeBody_standing (id size : UInt32) :
    (decodeBody r o id size).Meets (r.Standing p m (size.toNat - headSize) warned)
      (fun content => r.StandingBefore (p + (size.toNat - headSize)) m
        (warned ++ content.warnings)) (r.Stopped warned) := by
  unfold decodeBody
  cases LoadCommand.segmentWidth? id with
  | some w => exact (Segment.decode_standing r o w p m warned _).bind fun _ => .pure fun _ h => h
  | none =>
      apply Scan.Meets.pure
      intro c h
      rw [LoadCommand.warnings, List.append_nil]
      exact ⟨p, Nat.le_add_right p _, h.mono (Nat.le_refl m) (Nat.zero_le _)⟩

/-- A load command is passed over as a whole, and what is told of it is paid from its bytes. -/
theorem Command.decode_standing :
    (Command.decode r o).Meets (r.Standing p m 0 warned)
      (fun command => r.Standing (p + command.size) m 0 (warned ++ command.content.warnings))
      (r.Stopped warned) := by
  rw [decode_eq]
  apply (Reader.ensureBy_standing headSize .shortCommand).bind
  intro _
  apply Scan.position_standing.bind
  intro start
  apply Scan.Meets.assuming
  rintro rfl
  apply (r.u32_reads o start m 4 warned).bind
  intro id
  apply (r.u32_reads o (start + 4) (m + 4) 0 warned).bind
  intro size
  apply Scan.Meets.guard fun _ h => h.stopped
  intro hinside
  apply Scan.Meets.guard fun _ h => h.stopped
  intro hsize
  have hstop : start + 4 + 4 + (size.toNat - headSize) = start + size.toNat := by
    rw [headSize] at hsize ⊢
    omega
  have htold := Scan.tell_standing (r := r) (e := .commandBegun id size start) (start + 4 + 4) m
    (size.toNat - headSize) warned rfl
  apply (htold.imp (fun _ h => h.withRoom (by omega)) fun _ _ h => h).bind
  intro _
  apply (decodeBody_standing r o _ m warned id size).bind
  intro content
  rw [hstop]
  exact (Reader.seekTo_standing (Nat.not_lt.mp hinside)).bind fun _ => .pure fun _ h => h

theorem Header.decodeFields_standing (magic : UInt32) :
    (decodeFields r o w magic).Meets (r.Standing p m w.headerSize warned)
      (fun _ => r.Standing (p + w.headerSize) m 0 warned) (r.Stopped warned) := by
  have hend : ∀ q l, q = p + w.headerSize → m ≤ l → ∀ h : Header,
      (pure h : Scan Header).Meets (r.Standing q l 0 warned)
        (fun _ => r.Standing (p + w.headerSize) m 0 warned) (r.Stopped warned) := by
    rintro q l rfl hl h
    exact .pure fun _ h => h.mono hl (Nat.le_refl 0)
  have hroom : w.headerSize = 4 + (4 + (4 + (4 + (4 + (4 + (w.headerSize - 24)))))) := by
    cases w <;> rfl
  rw [hroom]
  apply (r.i32_reads o p m _ warned).bind
  intro cpuType
  apply (r.i32_reads o _ _ _ warned).bind
  intro cpuSubtype
  apply (r.u32_reads o _ _ _ warned).bind
  intro fileType
  apply (r.u32_reads o _ _ _ warned).bind
  intro commandCount
  apply (r.u32_reads o _ _ _ warned).bind
  intro commandsSize
  apply (r.u32_reads o _ _ _ warned).bind
  intro flags
  cases w with
  | bits32 => exact hend _ _ (Nat.add_assoc ..) (by omega) _
  | bits64 =>
      have hreserved : (discard (r.u32 o)).Reads r 4 := (r.u32_reads o).map _
      apply (hreserved _ _ 0 warned).bind
      intro _
      exact hend _ _ rfl (by omega) _

theorem Header.decode_standing (magic : UInt32) :
    (Header.decode r o w magic).Meets (r.Standing p m k warned)
      (fun _ => r.Standing (p + w.headerSize) m 0 warned) (r.Stopped warned) :=
  (Reader.ensureBy_standing w.headerSize .shortHeader).bind fun _ =>
    decodeFields_standing r o w p m warned magic

theorem File.decodeHead_standing :
    (decodeHead r).Meets (r.Standing 0 0 0 [])
      (fun head => r.Standing (headSize head.1.width) 0 0 []) (r.Stopped []) := by
  apply (Reader.ensureBy_standing magicSize .shortHeader).bind
  intro _
  apply (r.bytes_reads magicSize 0 0 0 []).bind
  intro magic
  apply (Scan.Meets.ofExcept fun _ h => h.stopped).bind
  intro format
  apply (Header.decode_standing r format.order format.width _ _ _ [] format.magic).bind
  intro header
  apply (Scan.tell_standing (e := .headerRead format header) _ _ 0 [] rfl).bind
  intro _
  apply Scan.Meets.pure
  intro c h
  have hhead : 0 + magicSize + format.width.headerSize = headSize format.width := by
    rw [Nat.zero_add, headSize]
  rw [hhead] at h
  exact h.mono (Nat.zero_le _) (Nat.le_refl 0)

end Decoding

section Leading

variable {r : Reader} {o : ByteOrder} {p m n : Nat} {warned : List Event} {c c' : Cursor}

theorem Command.stopped_replicate (h : r.Standing p m 0 warned c) (n : Nat) :
    r.Stopped (warned ++ (segmentsOf (leading r o n c)).flatMap (·.warnings))
      (stateAfter ((Command.decode r o).replicate n) c) := by
  induction n generalizing p warned c with
  | zero =>
      rw [leading, segmentsOf, List.filterMap_nil, List.flatMap_nil, List.append_nil]
      exact h.stopped
  | succ n ih =>
      obtain ⟨hok, herror⟩ := decode_standing r o p m warned c h
      rw [Scan.replicate, leading]
      cases hfirst : Command.decode r o c with
      | ok command c' =>
          have hrest := ih (hok command c' hfirst)
          rw [List.append_assoc, ← segmentsOf_cons_warnings] at hrest
          rw [stateAfter_bind_of_ok hfirst, stateAfter_bind_pure]
          exact hrest
      | error e c' =>
          rw [stateAfter_bind_of_error hfirst, segmentsOf, List.filterMap_nil, List.flatMap_nil,
            List.append_nil]
          exact herror e c' hfirst

theorem Command.leading_of_replicate {commands : List Command}
    (h : (Command.decode r o).replicate n c = .ok commands c') :
    leading r o n c = commands := by
  induction n generalizing c c' commands with
  | zero => exact (pure_eq_ok_iff.mp h).1.symm
  | succ n ih =>
      obtain ⟨command, c₁, hfirst, hrest⟩ := bind_eq_ok_iff.mp h
      obtain ⟨rest, c₂, hothers, hall⟩ := bind_eq_ok_iff.mp hrest
      rw [leading, hfirst, (pure_eq_ok_iff.mp hall).1]
      exact congrArg (command :: ·) (ih hothers)

namespace File

theorem decode_eq_bind (r : Reader) :
    File.decode r = (do
      let (format, header) ← decodeHead r
      let commands ← (Command.decode r format.order).replicate header.commandCount.toNat
      Scan.tell (.commandsRead commands.length)
      return { header, format, commands } : Scan File) := by
  simp only [decode_eq, decodeHead, bind_assoc, pure_bind]

theorem leading_of_decode {f : File} (h : File.decode r c = .ok f c') :
    leading r c = f.commands := by
  rw [decode_eq_bind] at h
  obtain ⟨⟨format, header⟩, c₁, hhead, hrest⟩ := bind_eq_ok_iff.mp h
  obtain ⟨commands, c₂, hall, htold⟩ := bind_eq_ok_iff.mp hrest
  obtain ⟨_, c₃, -, hfile⟩ := bind_eq_ok_iff.mp htold
  rw [leading, hhead, (pure_eq_ok_iff.mp hfile).1]
  exact Command.leading_of_replicate hall

/-- Whether a file is read or not, all that was told is paid for by bytes that there are, no read
went past the length of the reader, and the load commands that are read have been warned of. -/
theorem stopped_decode (r : Reader) :
    r.Stopped ((segmentsOf (leading r .start)).flatMap (·.warnings))
      (stateAfter (File.decode r) .start) := by
  obtain ⟨hok, herror⟩ := decodeHead_standing r .start (.start r)
  rw [decode_eq_bind, leading]
  cases h : decodeHead r .start with
  | error e c' =>
      rw [stateAfter_bind_of_error h]
      exact herror e c' h
  | ok head c' =>
      obtain ⟨format, header⟩ := head
      have hstopped := Command.stopped_replicate (o := format.order) (hok _ c' h)
        header.commandCount.toNat
      rw [List.nil_append] at hstopped
      rw [stateAfter_bind_of_ok h]
      cases hall : (Command.decode r format.order).replicate header.commandCount.toNat c' with
      | error e c₁ =>
          rw [stateAfter_of_error hall] at hstopped
          rw [stateAfter_bind_of_error hall]
          exact hstopped
      | ok commands c₁ =>
          rw [stateAfter_of_ok hall] at hstopped
          rw [stateAfter_bind_of_ok hall]
          show r.Stopped _ (c₁.after 0 [.commandsRead commands.length])
          refine ⟨?_, hstopped.inside, fun hnone => ?_⟩
          · rw [Cursor.spent_after]
            exact hstopped.paid
          · rw [Cursor.warnings_after]
            exact (List.append_nil _).trans (hstopped.warnings hnone)

end File

end Leading

end MachO
