import MachO.Proofs.DecodingTrace
import MachO.Proofs.FileGrammar

/-!
Flaws. What keeps bytes from being read as a file is said by positions and numbers alone, as the
grammar is. A file without faults in its source is refused for a flaw that its bytes have, and for
no other reason: each structure is made sure of before it is read, so that no read reaches behind
the last byte.
-/

namespace MachO

/-- What is wrong with the name in the field at `q`. -/
inductive NameFlaw (D : List UInt8) (q : Nat) : Error → Prop
  | notText {defect : Text.Utf8.Defect}
      (text : Text.Utf8.decode (untilZero (window D q nameSize)) = .error defect) :
      NameFlaw D q (.badName defect)

/-- What is wrong with `count` sections that start at `p` and have `left` bytes. -/
inductive SectionsFlaw (w : Width) (D : List UInt8) (p count left : Nat) : Error → Prop
  | short {k : Nat} (announced : k < count) (before : k * w.sectionSize ≤ left)
      (short : left - k * w.sectionSize < w.sectionSize) :
      SectionsFlaw w D p count left (.shortSection w.sectionSize (left - k * w.sectionSize))
  | name {k : Nat} {e : Error} (announced : k < count) (room : (k + 1) * w.sectionSize ≤ left)
      (name : NameFlaw D (p + k * w.sectionSize) e) : SectionsFlaw w D p count left e
  | label {k : Nat} {e : Error} (announced : k < count) (room : (k + 1) * w.sectionSize ≤ left)
      (label : NameFlaw D (p + k * w.sectionSize + nameSize) e) : SectionsFlaw w D p count left e

inductive SegmentFlaw (o : ByteOrder) (w : Width) (D : List UInt8) (p left : Nat) : Error → Prop
  | short (short : left < w.segmentSize) :
      SegmentFlaw o w D p left (.shortSegment w.segmentSize left)
  | name {e : Error} (room : w.segmentSize ≤ left) (name : NameFlaw D p e) :
      SegmentFlaw o w D p left e
  | sections {e : Error} (room : w.segmentSize ≤ left)
      (sections : SectionsFlaw w D (p + w.segmentSize) (sectionCountAt o w D p)
        (left - w.segmentSize) e) :
      SegmentFlaw o w D p left e

inductive CommandFlaw (o : ByteOrder) (D : List UInt8) (p : Nat) : Error → Prop
  | head (short : D.length < p + Command.headSize) :
      CommandFlaw o D p (.shortCommand Command.headSize p)
  | inside (head : p + Command.headSize ≤ D.length) (short : D.length < p + commandSizeAt o D p) :
      CommandFlaw o D p (.shortCommand (commandSizeAt o D p) p)
  | size {size : UInt32} (head : p + Command.headSize ≤ D.length)
      (declared : size.toNat = commandSizeAt o D p) (small : size.toNat < Command.headSize) :
      CommandFlaw o D p (.commandSize size)
  | segment {w : Width} {e : Error} (id : commandIdAt o D p = (LoadCommand.segmentId w).toNat)
      (size_ge : Command.headSize ≤ commandSizeAt o D p)
      (inside : p + commandSizeAt o D p ≤ D.length)
      (segment : SegmentFlaw o w D (p + Command.headSize)
        (commandSizeAt o D p - Command.headSize) e) :
      CommandFlaw o D p e

/-- What is wrong with the bytes of a file. -/
inductive FileFlaw (D : List UInt8) : Error → Prop
  | magic (short : D.length < File.magicSize) : FileFlaw D (.shortHeader File.magicSize 0)
  | container {magic : UInt32} (room : File.magicSize ≤ D.length)
      (value : magic.toNat = numberAt .little D 0) (several : isContainerMagic magic = true) :
      FileFlaw D (.container magic)
  | unknown (room : File.magicSize ≤ D.length)
      (single : ∀ format : Format, numberAt .little D 0 ≠ format.magic.toNat)
      (several : ∀ magic : UInt32, magic.toNat = numberAt .little D 0 →
        isContainerMagic magic = false) :
      FileFlaw D (.unknownMagic (D.take File.magicSize))
  | header {format : Format} (magic : numberAt .little D 0 = format.magic.toNat)
      (room : File.magicSize ≤ D.length) (short : D.length < File.headSize format.width) :
      FileFlaw D (.shortHeader format.width.headerSize File.magicSize)
  /-- The load commands `before` can be read, the one behind them cannot. -/
  | command {format : Format} {before : List Command} {c c' : Cursor} {e : Error}
      (magic : numberAt .little D 0 = format.magic.toNat)
      (header : File.headSize format.width ≤ D.length)
      (announced : before.length < numberAt format.order D 16)
      (start : c.position = File.headSize format.width)
      (read : (Command.decode (.ofBytes D) format.order).replicate before.length c =
        .ok before c')
      (inside : File.headSize format.width + Command.totalSize before ≤ D.length)
      (command : CommandFlaw format.order D
        (File.headSize format.width + Command.totalSize before) e) :
      FileFlaw D e

namespace Reader

variable {D : List UInt8} {o : ByteOrder} {c c' : Cursor} {e : Error}

theorem nameFlaw_of_name (hroom : c.position + nameSize ≤ D.length)
    (h : (ofBytes D).name nameSize c = .error e c') : NameFlaw D c.position e := by
  rw [name, bind_eq_of_ok (bytes_ofBytes hroom), nameOfField] at h
  cases hd : Text.Utf8.decode (untilZero (window D c.position nameSize)) with
  | ok s =>
      rw [hd] at h
      cases h
  | error defect =>
      rw [hd] at h
      cases h
      exact .notText hd

section Fields

variable {α β : Type}

theorem field_bind_eq_error_iff {x : Scan α} {P : α → Nat → Prop} {n : Nat}
    (hx : ∀ a c c', x c = .ok a c' ↔ P a c.position ∧ c' = c.read n)
    (hexists : ∃ a, P a c.position) {f : α → Scan β} :
    (x >>= f) c = .error e c' ↔ ∃ a, P a c.position ∧ f a (c.read n) = .error e c' := by
  obtain ⟨b, hb⟩ := hexists
  have hread := (hx b c _).mpr ⟨hb, rfl⟩
  rw [bind_eq_of_ok hread]
  constructor
  · intro h
    exact ⟨b, hb, h⟩
  · rintro ⟨a, ha, h⟩
    have hsame := (hx a c _).mpr ⟨ha, rfl⟩
    rw [hread] at hsame
    cases hsame
    exact h

theorem u32_bind_eq_error_iff (hroom : c.position + 4 ≤ D.length) {f : UInt32 → Scan β} :
    ((ofBytes D).u32 o >>= f) c = .error e c' ↔
      ∃ n, (Layout.u32 o n).StandsAt D c.position ∧ f n (c.read 4) = .error e c' :=
  field_bind_eq_error_iff (fun _ _ _ => u32_eq_ok_iff) (Layout.exists_standsAt_u32 D o _ hroom)

theorem i32_bind_eq_error_iff (hroom : c.position + 4 ≤ D.length) {f : Int32 → Scan β} :
    ((ofBytes D).i32 o >>= f) c = .error e c' ↔
      ∃ n, (Layout.i32 o n).StandsAt D c.position ∧ f n (c.read 4) = .error e c' :=
  field_bind_eq_error_iff (fun _ _ _ => i32_eq_ok_iff) (Layout.exists_standsAt_i32 D o _ hroom)

theorem address_bind_eq_error_iff {w : Width} (hroom : c.position + w.addressSize ≤ D.length)
    {f : UInt64 → Scan β} :
    ((ofBytes D).address o w >>= f) c = .error e c' ↔
      ∃ n, (w.Holds n ∧ (Layout.address o w n).StandsAt D c.position) ∧
        f n (c.read w.addressSize) = .error e c' := by
  apply field_bind_eq_error_iff (P := fun n p => w.Holds n ∧ (Layout.address o w n).StandsAt D p)
  · intro n c c'
    rw [address_eq_ok_iff, and_assoc]
  · exact Layout.exists_standsAt_address D o w _ hroom

end Fields

theorem ensureBy_ofBytes_eq_error_iff {n : Nat} {short : Nat → Nat → Error} :
    (ofBytes D).ensureBy .exact n short c = .error e c' ↔
      D.length < c.position + n ∧ e = short n c.position ∧ c' = c.asked := by
  rw [ensureBy_exact_eq, length_ofBytes]
  split
  · rename_i h
    simp [h, eq_comm]
  · rename_i h
    simp [h]

end Reader

section Flaws

variable {D : List UInt8} {o : ByteOrder} {w : Width} {c c' : Cursor} {e : Error}

theorem Section.flaw_of_decode (hroom : c.position + w.sectionSize ≤ D.length)
    (h : Section.decode (.ofBytes D) o w c = .error e c') :
    NameFlaw D c.position e ∨ NameFlaw D (c.position + nameSize) e := by
  have hsize := sectionSize_eq o 0 w
  have hfail := h
  rw [Section.decode, bind_eq_error_iff] at h
  rcases h with h | ⟨name, c₁, hname, h⟩
  · exact .inl (Reader.nameFlaw_of_name (by omega) h)
  obtain ⟨hfits, lname, rfl⟩ := Reader.name_eq_ok_iff.mp hname
  rw [bind_eq_error_iff] at h
  rcases h with h | ⟨label, c₂, hlabel, -⟩
  · refine .inr (Reader.nameFlaw_of_name ?_ h)
    rw [Cursor.position_read]
    omega
  obtain ⟨hfitsLabel, llabel, -⟩ := Reader.name_eq_ok_iff.mp hlabel
  have hnames := (Layout.exists_standsAt_name_iff (D := D) (by omega)).mp ⟨name, hfits, lname⟩
  have hroomLabel : (c.read nameSize).position + nameSize ≤ D.length := by
    rw [Cursor.position_read]
    omega
  have hlabels := (Layout.exists_standsAt_name_iff hroomLabel).mp ⟨label, hfitsLabel, llabel⟩
  obtain ⟨s, hs, hstands⟩ := (Section.exists_standsAt_iff (o := o) hroom).mpr ⟨hnames, hlabels⟩
  rw [Section.decode_eq_ok_iff.mpr ⟨hs, hstands, rfl⟩] at hfail
  cases hfail

theorem Segment.flaw_of_decodeSections {count left : Nat} (hroom : c.position + left ≤ D.length)
    (h : decodeSections (.ofBytes D) o w count left c = .error e c') :
    SectionsFlaw w D c.position count left e := by
  induction count generalizing c left with
  | zero => cases h
  | succ count ih =>
      rw [decodeSections, ite_throw_eq_error_iff] at h
      rcases h with ⟨hshort, rfl, -⟩ | ⟨hlong, h⟩
      · simpa using SectionsFlaw.short (w := w) (D := D) (p := c.position)
          (Nat.succ_pos count) (by omega) (by omega)
      rw [bind_eq_error_iff] at h
      rcases h with h | ⟨s, c₁, hs, h⟩
      -- The first section is wrong, or one of the others, which is one further back.
      · have hone : (0 + 1) * w.sectionSize ≤ left := by omega
        rcases Section.flaw_of_decode (by omega) h with hname | hlabel
        · exact .name (Nat.succ_pos count) hone (by rwa [Nat.zero_mul])
        · exact .label (Nat.succ_pos count) hone (by rwa [Nat.zero_mul])
      obtain ⟨-, -, rfl⟩ := Section.decode_eq_ok_iff.mp hs
      rw [bind_eq_error_iff] at h
      rcases h with h | ⟨rest, c₂, -, hpure⟩
      · have hnext : ∀ k, c.position + w.sectionSize + k * w.sectionSize =
            c.position + (k + 1) * w.sectionSize := by
          intro k
          rw [Nat.succ_mul]
          omega
        have hleft : ∀ k, left - w.sectionSize - k * w.sectionSize =
            left - (k + 1) * w.sectionSize := by
          intro k
          rw [Nat.succ_mul]
          omega
        have hmul : ∀ k, (k + 1) * w.sectionSize = k * w.sectionSize + w.sectionSize := by
          intro k
          exact Nat.succ_mul k _
        have hflaw := ih (by rw [Section.position_past]; omega) h
        rw [Section.position_past] at hflaw
        cases hflaw with
        | short hk before hshort =>
            rw [hleft] at hshort ⊢
            exact .short (Nat.succ_lt_succ hk) (by rw [hmul]; omega) hshort
        | name hk room hname =>
            rw [hnext] at hname
            exact .name (Nat.succ_lt_succ hk) (by rw [hmul]; omega) hname
        | label hk room hlabel =>
            rw [hnext] at hlabel
            exact .label (Nat.succ_lt_succ hk) (by rw [hmul]; omega) hlabel
      · cases hpure

theorem Segment.flaw_of_decode {left : Nat} (hroom : c.position + left ≤ D.length)
    (h : Segment.decode (.ofBytes D) o w left c = .error e c') :
    SegmentFlaw o w D c.position left e := by
  have hsize := segmentSize_eq w
  rw [Segment.decode, ite_throw_eq_error_iff] at h
  rcases h with ⟨hshort, rfl, -⟩ | ⟨hlong, h⟩
  · exact .short hshort
  rw [bind_eq_error_iff] at h
  rcases h with h | ⟨name, c₁, hname, h⟩
  · exact .name (by omega) (Reader.nameFlaw_of_name (by omega) h)
  obtain ⟨-, -, rfl⟩ := Reader.name_eq_ok_iff.mp hname
  rw [Reader.address_bind_eq_error_iff (by simp only [Cursor.position_read]; omega)] at h
  obtain ⟨address, -, h⟩ := h
  rw [Reader.address_bind_eq_error_iff (by simp only [Cursor.position_read]; omega)] at h
  obtain ⟨memorySize, -, h⟩ := h
  rw [Reader.address_bind_eq_error_iff (by simp only [Cursor.position_read]; omega)] at h
  obtain ⟨fileOffset, -, h⟩ := h
  rw [Reader.address_bind_eq_error_iff (by simp only [Cursor.position_read]; omega)] at h
  obtain ⟨fileSize, -, h⟩ := h
  rw [Reader.i32_bind_eq_error_iff (by simp only [Cursor.position_read]; omega)] at h
  obtain ⟨maxProtection, -, h⟩ := h
  rw [Reader.i32_bind_eq_error_iff (by simp only [Cursor.position_read]; omega)] at h
  obtain ⟨initialProtection, -, h⟩ := h
  rw [Reader.u32_bind_eq_error_iff (by simp only [Cursor.position_read]; omega)] at h
  obtain ⟨sectionCount, lcount, h⟩ := h
  rw [Reader.u32_bind_eq_error_iff (by simp only [Cursor.position_read]; omega)] at h
  obtain ⟨flags, -, h⟩ := h
  rw [bind_eq_error_iff] at h
  rcases h with h | ⟨sections, c₂, -, htell⟩
  · have hcount := Layout.numberAt_of_standsAt lcount
    have hflaw := flaw_of_decodeSections (by simp only [Cursor.position_read]; omega) h
    simp only [Cursor.position_read] at hcount hflaw
    have hcountAt : c.position + nameSize + w.addressSize + w.addressSize + w.addressSize
        + w.addressSize + 4 + 4 = c.position + w.segmentSize - 8 := by omega
    have hstart : c.position + nameSize + w.addressSize + w.addressSize + w.addressSize
        + w.addressSize + 4 + 4 + 4 + 4 = c.position + w.segmentSize := by omega
    rw [hcountAt] at hcount
    rw [hstart, ← hcount] at hflaw
    exact .sections (by omega) hflaw
  · cases htell

/-- What is left to do for a command whose identifier and size were read. -/
def Command.decodeRest (r : Reader) (o : ByteOrder) (start : Nat) (id size : UInt32) :
    Scan Command := do
  Scan.tell (.commandBegun id size start)
  let content ← decodeBody r o id size
  r.seekTo (start + size.toNat)
  return ⟨content, size.toNat⟩

def Command.headRead (c : Cursor) : Cursor := c.asked.asked.readAll [4, 4]

@[simp] theorem Command.position_headRead (c : Cursor) :
    (headRead c).position = c.position + headSize := rfl

theorem Command.decode_of_head (hhead : c.position + headSize ≤ D.length) :
    ∃ id size : UInt32, id.toNat = commandIdAt o D c.position ∧
      size.toNat = commandSizeAt o D c.position ∧
      Command.decode (.ofBytes D) o c =
        if D.length < c.position + size.toNat then
          .error (.shortCommand size.toNat c.position) (headRead c)
        else if size.toNat < headSize then .error (.commandSize size) (headRead c)
        else decodeRest (.ofBytes D) o c.position id size (headRead c) := by
  have hroom : c.position + 8 ≤ D.length := hhead
  obtain ⟨id, lid⟩ := Layout.exists_standsAt_u32 D o c.position (by omega)
  obtain ⟨size, lsize⟩ := Layout.exists_standsAt_u32 D o (c.position + 4) (by omega)
  refine ⟨id, size, (Layout.numberAt_of_standsAt lid).symm,
    (Layout.numberAt_of_standsAt lsize).symm, ?_⟩
  have hid : (Reader.ofBytes D).u32 o c.asked.asked = .ok id (c.asked.asked.read 4) :=
    Reader.u32_eq_ok_iff.mpr ⟨lid, rfl⟩
  have hsize : (Reader.ofBytes D).u32 o (c.asked.asked.read 4) = .ok size (headRead c) :=
    Reader.u32_eq_ok_iff.mpr ⟨lsize, rfl⟩
  rw [Command.decode_eq,
    bind_eq_of_ok (Reader.ensureBy_ofBytes_eq_ok_iff (u := ()).mpr ⟨hhead, rfl⟩),
    bind_eq_of_ok (Scan.position_eq _), bind_eq_of_ok hid, bind_eq_of_ok hsize,
    Reader.length_ofBytes, Cursor.position_asked]
  split
  · rfl
  split
  · rfl
  · rfl

theorem Command.decode_of_short (h : D.length < c.position + headSize) :
    Command.decode (.ofBytes D) o c = .error (.shortCommand headSize c.position) c.asked := by
  rw [Command.decode_eq]
  exact bind_eq_of_error (Reader.ensureBy_ofBytes_eq_error_iff.mpr ⟨h, rfl, rfl⟩)

theorem Command.flaw_of_decode (h : Command.decode (.ofBytes D) o c = .error e c') :
    CommandFlaw o D c.position e := by
  rcases Nat.lt_or_ge D.length (c.position + headSize) with hshort | hhead
  · rw [decode_of_short hshort] at h
    cases h
    exact .head hshort
  obtain ⟨id, size, hid, hsize, hdecode⟩ := decode_of_head (o := o) hhead
  rw [hdecode] at h
  split at h
  · rename_i hshort
    cases h
    rw [hsize] at hshort ⊢
    exact .inside hhead hshort
  rename_i hinside
  split at h
  · rename_i hsmall
    cases h
    exact .size hhead hsize hsmall
  rename_i hge
  rw [decodeRest, bind_eq_of_ok (Scan.tell_eq_ok_iff (u := ()).mpr rfl), bind_eq_error_iff] at h
  rcases h with h | ⟨content, c₂, -, hseek⟩
  · unfold decodeBody at h
    cases hw : LoadCommand.segmentWidth? id with
    | some w =>
        rw [hw] at h
        rw [LoadCommand.segmentWidth?_eq_some_iff.mp hw] at hid
        rcases bind_eq_error_iff.mp h with h | ⟨g, c₃, -, hpure⟩
        · have hbody : c.position + headSize + (size.toNat - headSize) ≤ D.length := by omega
          have hflaw := Segment.flaw_of_decode hbody h
          simp only [Cursor.position_after, position_headRead, Nat.add_zero] at hflaw
          rw [hsize] at hflaw hge hinside
          exact .segment hid.symm (by omega) (by omega) hflaw
        · cases hpure
    | none =>
        rw [hw] at h
        cases h
  · cases hseek

theorem Command.flaw_of_replicate {n : Nat}
    (h : (Command.decode (.ofBytes D) o).replicate n c = .error e c') :
    ∃ before c₁, before.length < n ∧
      (Command.decode (.ofBytes D) o).replicate before.length c = .ok before c₁ ∧
      c₁.position = c.position + totalSize before ∧
      CommandFlaw o D (c.position + totalSize before) e := by
  induction n generalizing c with
  | zero => cases h
  | succ n ih =>
      rw [Scan.replicate, bind_eq_error_iff] at h
      rcases h with h | ⟨command, c₁, hcommand, h⟩
      · exact ⟨[], c, Nat.succ_pos n, rfl, rfl, flaw_of_decode h⟩
      rw [bind_eq_error_iff] at h
      rcases h with h | ⟨rest, c₂, -, hpure⟩
      · obtain ⟨-, -, rfl⟩ := decode_eq_ok_iff.mp hcommand
        obtain ⟨before, c₂, hlen, hread, hposition, hflaw⟩ := ih h
        rw [position_past, Nat.add_assoc] at hposition hflaw
        refine ⟨command :: before, c₂, Nat.succ_lt_succ hlen, ?_, hposition, hflaw⟩
        rw [List.length_cons, Scan.replicate, bind_eq_of_ok hcommand, bind_eq_of_ok hread]
        rfl
      · cases hpure

theorem Header.flaw_of_decode {magic : UInt32}
    (h : Header.decode (.ofBytes D) o w magic c = .error e c') :
    D.length < c.position + w.headerSize ∧ e = .shortHeader w.headerSize c.position := by
  have hfail := h
  rw [Header.decode, decodeBy, bind_eq_error_iff] at h
  rcases h with h | ⟨_, c₁, hensure, -⟩
  · obtain ⟨hshort, rfl, -⟩ := Reader.ensureBy_ofBytes_eq_error_iff.mp h
    exact ⟨hshort, rfl⟩
  · obtain ⟨hroom, -⟩ := Reader.ensureBy_ofBytes_eq_ok_iff.mp hensure
    obtain ⟨header, rfl, lheader⟩ := File.exists_header (o := o) hroom magic
    rw [Header.decode_eq_ok_iff.mpr ⟨rfl, lheader, rfl⟩] at hfail
    cases hfail

namespace File

theorem flaw_of_formatOf (hroom : magicSize ≤ D.length)
    (h : formatOf (window D 0 magicSize) = .error e) : FileFlaw D e := by
  have hlen : (window D 0 magicSize).length = magicSize := by
    rw [length_window_eq_iff (by decide)]
    omega
  have hlt := ByteOrder.little.decode_lt (window D 0 magicSize)
  rw [hlen] at hlt
  have hvalue : (ByteOrder.little.decode (window D 0 magicSize)).toUInt32.toNat =
      numberAt .little D 0 := Nat.mod_eq_of_lt hlt
  rw [formatOf] at h
  cases hformat : Format.ofMagic? (ByteOrder.little.decode (window D 0 magicSize)).toUInt32 with
  | some format =>
      rw [hformat] at h
      cases h
  | none =>
      simp only [hformat] at h
      split at h
      · rename_i hcontainer
        cases h
        exact .container hroom hvalue hcontainer
      · rename_i hcontainer
        cases h
        refine .unknown hroom ?_ ?_
        · intro format hmagic
          rw [← hvalue, UInt32.toNat_inj] at hmagic
          rw [Format.ofMagic?_eq_some_iff.mpr hmagic.symm] at hformat
          cases hformat
        · intro magic hmagic
          rw [← hvalue, UInt32.toNat_inj] at hmagic
          rw [hmagic]
          exact Bool.eq_false_iff.mpr hcontainer

theorem flaw_of_decode (h : File.decode (.ofBytes D) .start = .error e c') : FileFlaw D e := by
  rw [decode_eq, bind_eq_error_iff] at h
  rcases h with h | ⟨_, c₁, hensure, h⟩
  · obtain ⟨hshort, rfl, -⟩ := Reader.ensureBy_ofBytes_eq_error_iff.mp h
    exact .magic (by simpa [Cursor.start] using hshort)
  obtain ⟨hroom, rfl⟩ := Reader.ensureBy_ofBytes_eq_ok_iff.mp hensure
  have hbytes : (Reader.ofBytes D).bytes magicSize Cursor.start.asked =
      .ok (window D 0 magicSize) (Cursor.start.asked.read magicSize) := Reader.bytes_ofBytes hroom
  rw [bind_eq_of_ok hbytes, bind_eq_error_iff] at h
  replace hroom : magicSize ≤ D.length := by simpa [Cursor.start] using hroom
  have hwindow : (window D 0 magicSize).length = magicSize := by
    rw [length_window_eq_iff (by decide)]
    omega
  rcases h with h | ⟨format, c₂, hread, h⟩
  · refine flaw_of_formatOf hroom ?_
    cases hformat : formatOf (window D 0 magicSize) with
    | ok format =>
        rw [hformat] at h
        cases h
    | error e' =>
        rw [hformat] at h
        cases h
        rfl
  obtain ⟨hformat, rfl⟩ := Scan.ofExcept_eq_ok_iff.mp hread
  have hmagic : numberAt .little D 0 = format.magic.toNat :=
    Layout.numberAt_of_standsAt ((formatOf_eq_ok_iff hwindow).mp hformat)
  have hposition : (Cursor.start.asked.read magicSize).position = magicSize := Nat.zero_add _
  rw [bind_eq_error_iff] at h
  rcases h with h | ⟨header, c₃, hheader, h⟩
  · obtain ⟨hshort, rfl⟩ := Header.flaw_of_decode h
    rw [hposition] at hshort ⊢
    exact .header hmagic hroom hshort
  obtain ⟨-, lheader, rfl⟩ := Header.decode_eq_ok_iff.mp hheader
  rw [hposition] at lheader
  have hpos : 0 < format.width.headerSize := by cases format.width <;> decide
  have hheaderRoom := Layout.le_of_standsAt (by rwa [Header.length_layout]) lheader
  rw [Header.length_layout] at hheaderRoom
  have hcount : numberAt format.order D 16 = header.commandCount.toNat :=
    Layout.numberAt_of_standsAt (Header.standsAt_layout_iff.mp lheader).2.2.2.1
  rw [bind_eq_of_ok (Scan.tell_eq_ok_iff (u := ()).mpr rfl), bind_eq_error_iff] at h
  rcases h with h | ⟨commands, c₄, -, htell⟩
  · obtain ⟨before, c₄, hlen, hread, hend, hflaw⟩ := Command.flaw_of_replicate h
    have hstart : ((Header.past format.width (Cursor.start.asked.read magicSize)).after 0
        [.headerRead format header]).position = headSize format.width := by
      rw [Cursor.position_after, Header.position_past, hposition]
      rfl
    have hinside : headSize format.width + Command.totalSize before ≤ D.length := by
      obtain ⟨-, hfits, lbefore, -⟩ := Command.replicate_eq_ok_iff.mp hread
      rw [hstart] at lbefore
      rcases Nat.eq_zero_or_pos (Command.totalSize before) with hzero | hpos
      · rw [hzero]
        exact hheaderRoom
      · have hlayouts := Command.length_layouts (o := format.order) hfits
        have hle := Layout.le_of_standsAt (by rwa [hlayouts]) lbefore
        rwa [hlayouts] at hle
    rw [hstart] at hflaw
    exact .command hmagic hheaderRoom (hcount ▸ hlen) hstart hread hinside hflaw
  · cases htell

end File

theorem NameFlaw.not_isFault {q : Nat} (h : NameFlaw D q e) : ¬ e.IsFault := by
  rintro ⟨fault, rfl⟩
  cases h

theorem SegmentFlaw.not_isFault {p left : Nat} (h : SegmentFlaw o w D p left e) : ¬ e.IsFault := by
  rintro ⟨fault, rfl⟩
  cases h with
  | name _ hname => exact hname.not_isFault ⟨fault, rfl⟩
  | sections _ hsections =>
      cases hsections with
      | name _ _ hname => exact hname.not_isFault ⟨fault, rfl⟩
      | label _ _ hlabel => exact hlabel.not_isFault ⟨fault, rfl⟩

theorem FileFlaw.not_isFault (h : FileFlaw D e) : ¬ e.IsFault := by
  rintro ⟨fault, rfl⟩
  cases h with
  | command _ _ _ _ _ _ hcommand =>
      cases hcommand with
      | segment _ _ _ hsegment => exact hsegment.not_isFault ⟨fault, rfl⟩

/-- A source that starts with the bytes, and whose length is taken for theirs, is read as the bytes
alone are. -/
theorem File.decode_of_shows {s : Source} (hs : s.Shows D) :
    File.decode ⟨s, D.length⟩ .start = File.decode (.ofBytes D) .start := by
  have hfollows := File.decode_follows (Reader.ofBytes_follows hs Error.IsFault ⟨_, rfl⟩
    (Nat.le_refl D.length) (fun hne => absurd rfl hne))
  rcases hfollows .start with h | ⟨e, c, h, hfault⟩
  · exact h.symm
  · exact absurd hfault (File.flaw_of_decode h).not_isFault

end Flaws

namespace File

/-- Bytes are refused as a file only for a flaw that they have, and never because the source failed.
No read reaches behind the last byte, whether the bytes are refused or not: a source that fails from
there on, or goes on with other bytes, gives the same result. -/
theorem refused_for_flaw (D : List UInt8) :
    (∀ e c, File.decode (.ofBytes D) .start = .error e c → FileFlaw D e ∧ ¬ e.IsFault) ∧
    (∀ p n, .read p n ∈ (stateAfter (File.decode (.ofBytes D)) .start).calls →
      p + n ≤ D.length) ∧
    ∀ s : Source, s.Shows D →
      File.decode ⟨s, D.length⟩ .start = File.decode (.ofBytes D) .start := by
  refine ⟨?_, ?_, fun s hs => decode_of_shows hs⟩
  · intro e c h
    have hflaw := flaw_of_decode h
    exact ⟨hflaw, hflaw.not_isFault⟩
  · have hinside := (stopped_decode (.ofBytes D)).inside
    rwa [Reader.length_ofBytes] at hinside

theorem refused_secondSection :
    let D := narrowInWideBytes.set 80 2
    let s : Source :=
      { bytes := (D ++ [1, 2, 3]).toArray, chunk := some 5, failAt := some D.length }
    FileFlaw D (.shortSection 68 4) ∧
      ∃ c, File.decode ⟨s, D.length⟩ .start = .error (.shortSection 68 4) c := by
  intro D s
  obtain ⟨hflaw, -, hshows⟩ := refused_for_flaw D
  have hrefused : failure? (File.decode (.ofBytes D)) .start = some (.shortSection 68 4) := by
    decide +kernel
  obtain ⟨c, hdecode⟩ := exists_of_failure? hrefused
  refine ⟨(hflaw _ c hdecode).1, c, ?_⟩
  rw [← hdecode]
  refine hshows s ⟨⟨[1, 2, 3], rfl⟩, by decide, ?_, rfl⟩
  intro f hf
  cases hf
  exact Nat.le_refl _

end File

end MachO
