import MachO.Proofs.Filler

/-!
The grammar. What has to stand in the bytes of a file for it to be read is said by positions and
numbers alone, without the values that are read. The bytes are read exactly when they keep to it:
where they do, every field has a value whose layout stands there, and these values are the file.
-/

namespace MachO

def numberAt (o : ByteOrder) (D : List UInt8) (p : Nat) : Nat := o.decode (window D p 4)

/-- The bytes before the first zero byte in the field for a name at `p` encode a text. -/
def NameStandsAt (D : List UInt8) (p : Nat) : Prop :=
  ∃ s, Text.Utf8.encode s = untilZero (window D p nameSize)

/-- How many sections the segment that starts at `p` announces: the last number but one before the
first section. -/
def sectionCountAt (o : ByteOrder) (w : Width) (D : List UInt8) (p : Nat) : Nat :=
  numberAt o D (p + w.segmentSize - 8)

/-- A segment with its sections stands at `p`, in a load command of the given size. -/
structure SegmentStandsAt (o : ByteOrder) (w : Width) (D : List UInt8) (p size : Nat) :
    Prop where
  room : Command.headSize + w.segmentSize + sectionCountAt o w D p * w.sectionSize ≤ size
  name : NameStandsAt D p
  sections : ∀ i < sectionCountAt o w D p, NameStandsAt D (Segment.sectionStart w p i) ∧
    NameStandsAt D (Segment.sectionStart w p i + nameSize)

def commandIdAt (o : ByteOrder) (D : List UInt8) (p : Nat) : Nat := numberAt o D p

def commandSizeAt (o : ByteOrder) (D : List UInt8) (p : Nat) : Nat := numberAt o D (p + 4)

/-- A load command stands at `p`. -/
structure CommandStandsAt (o : ByteOrder) (D : List UInt8) (p : Nat) : Prop where
  head : p + Command.headSize ≤ D.length
  size_ge : Command.headSize ≤ commandSizeAt o D p
  inside : p + commandSizeAt o D p ≤ D.length
  segment : ∀ w, commandIdAt o D p = (LoadCommand.segmentId w).toNat →
    SegmentStandsAt o w D (p + Command.headSize) (commandSizeAt o D p)

def CommandsStandAt (o : ByteOrder) (D : List UInt8) : Nat → Nat → Prop
  | 0, _ => True
  | n + 1, p => CommandStandsAt o D p ∧ CommandsStandAt o D n (p + commandSizeAt o D p)

/-- The bytes are a file of the format. -/
structure FileStands (format : Format) (D : List UInt8) : Prop where
  magic : numberAt .little D 0 = format.magic.toNat
  header : File.headSize format.width ≤ D.length
  commands : CommandsStandAt format.order D (numberAt format.order D 16)
    (File.headSize format.width)

namespace Layout

variable {D : List UInt8} {o : ByteOrder} {w : Width} {p : Nat}

theorem numberAt_of_standsAt {n : UInt32} (h : (u32 o n).StandsAt D p) :
    numberAt o D p = n.toNat :=
  (standsAt_u32_iff.mp h).2

theorem exists_standsAt_i32 (D : List UInt8) (o : ByteOrder) (p : Nat) (h : p + 4 ≤ D.length) :
    ∃ n, (i32 o n).StandsAt D p := by
  obtain ⟨n, hn⟩ := exists_standsAt_u32 D o p h
  exact ⟨n.toInt32, hn⟩

theorem exists_standsAt_address (D : List UInt8) (o : ByteOrder) (w : Width) (p : Nat)
    (h : p + w.addressSize ≤ D.length) :
    ∃ n, w.Holds n ∧ (address o w n).StandsAt D p := by
  have hlen : (window D p w.addressSize).length = w.addressSize :=
    (length_window_eq_iff (by cases w <;> decide)).mpr h
  have hlt := o.decode_lt (window D p w.addressSize)
  rw [hlen] at hlt
  have hbound : 256 ^ w.addressSize ≤ 2 ^ 64 := by cases w <;> decide
  have hnat : (o.decode (window D p w.addressSize)).toUInt64.toNat =
      o.decode (window D p w.addressSize) := Nat.mod_eq_of_lt (Nat.lt_of_lt_of_le hlt hbound)
  have hholds : w.Holds (o.decode (window D p w.addressSize)).toUInt64 := by
    rwa [Width.Holds, hnat]
  exact ⟨_, hholds, (standsAt_address_iff hholds).mpr ⟨hlen, hnat.symm⟩⟩

theorem exists_standsAt_segmentFlags (D : List UInt8) (o : ByteOrder) (p : Nat)
    (h : p + 4 ≤ D.length) :
    ∃ flags, (segmentFlags o flags).StandsAt D p := by
  obtain ⟨word, hword⟩ := exists_standsAt_u32 D o p h
  exact ⟨_, standsAt_segmentFlags_iff.mpr ⟨word, hword, rfl⟩⟩

theorem exists_standsAt_name_iff (hroom : p + nameSize ≤ D.length) :
    (∃ s, NameFits s ∧ (name s).StandsAt D p) ↔ NameStandsAt D p := by
  have hlen : (window D p nameSize).length = nameSize :=
    (length_window_eq_iff (by decide)).mpr hroom
  simp only [standsAt_name_iff, hlen, true_and]
  rfl

end Layout

namespace Section

variable {D : List UInt8} {o : ByteOrder} {w : Width} {p : Nat}

theorem exists_standsAt_iff (hroom : p + w.sectionSize ≤ D.length) :
    (∃ s : Section, s.Fits w ∧ (s.layout o w).StandsAt D p) ↔
      NameStandsAt D p ∧ NameStandsAt D (p + nameSize) := by
  have hsize := sectionSize_eq o 0 w
  have hname := Layout.exists_standsAt_name_iff (D := D) (p := p) (by omega)
  have hlabel := Layout.exists_standsAt_name_iff (D := D) (p := p + nameSize) (by omega)
  rw [← hname, ← hlabel]
  constructor
  · rintro ⟨s, hs, hstands⟩
    obtain ⟨lname, llabel, -⟩ := (standsAt_layout_iff hs).mp hstands
    exact ⟨⟨_, hs.name, lname⟩, _, hs.label, llabel⟩
  · rintro ⟨⟨name, hname, lname⟩, label, hlabel, llabel⟩
    have hlast : ∀ q, q + (lastLayout o 0 w).length ≤ D.length →
        ∃ n, (w = .bits32 → n = 0) ∧ (lastLayout o n w).StandsAt D q := by
      intro q hq
      cases w with
      | bits32 => exact ⟨0, fun _ => rfl, rfl⟩
      | bits64 =>
          rw [lastLayout, Layout.length_u32] at hq
          obtain ⟨n, hn⟩ := Layout.exists_standsAt_u32 D o q hq
          exact ⟨n, fun h => Width.noConfusion h, hn⟩
    obtain ⟨address, haddress', laddress⟩ :=
      Layout.exists_standsAt_address D o w (p + nameSize + nameSize) (by omega)
    obtain ⟨size, hsize', lsize⟩ :=
      Layout.exists_standsAt_address D o w (p + nameSize + nameSize + w.addressSize) (by omega)
    obtain ⟨offset, loffset⟩ := Layout.exists_standsAt_u32 D o
      (p + nameSize + nameSize + w.addressSize + w.addressSize) (by omega)
    obtain ⟨alignment, lalignment⟩ := Layout.exists_standsAt_u32 D o
      (p + nameSize + nameSize + w.addressSize + w.addressSize + 4) (by omega)
    obtain ⟨relocationOffset, lrelocationOffset⟩ := Layout.exists_standsAt_u32 D o
      (p + nameSize + nameSize + w.addressSize + w.addressSize + 4 + 4) (by omega)
    obtain ⟨relocationCount, lrelocationCount⟩ := Layout.exists_standsAt_u32 D o
      (p + nameSize + nameSize + w.addressSize + w.addressSize + 4 + 4 + 4) (by omega)
    obtain ⟨flags, lflags⟩ := Layout.exists_standsAt_u32 D o
      (p + nameSize + nameSize + w.addressSize + w.addressSize + 4 + 4 + 4 + 4) (by omega)
    obtain ⟨reserved1, lreserved1⟩ := Layout.exists_standsAt_u32 D o
      (p + nameSize + nameSize + w.addressSize + w.addressSize + 4 + 4 + 4 + 4 + 4) (by omega)
    obtain ⟨reserved2, lreserved2⟩ := Layout.exists_standsAt_u32 D o
      (p + nameSize + nameSize + w.addressSize + w.addressSize + 4 + 4 + 4 + 4 + 4 + 4) (by omega)
    obtain ⟨reserved3, hreserved3, lreserved3⟩ := hlast
      (p + nameSize + nameSize + w.addressSize + w.addressSize + 4 + 4 + 4 + 4 + 4 + 4 + 4)
      (by omega)
    have hs : Section.Fits w ⟨name, label, address, size, offset, alignment, relocationOffset,
        relocationCount, ⟨flags⟩, reserved1, reserved2, reserved3⟩ :=
      ⟨hname, hlabel, haddress', hsize', hreserved3⟩
    exact ⟨_, hs, (standsAt_layout_iff hs).mpr ⟨lname, llabel, laddress, lsize, loffset, lalignment,
      lrelocationOffset, lrelocationCount, lflags, lreserved1, lreserved2, lreserved3⟩⟩

end Section

namespace Segment

variable {D : List UInt8} {o : ByteOrder} {w : Width} {p : Nat}

theorem exists_sections_iff {n : Nat} (hroom : p + n * w.sectionSize ≤ D.length) :
    (∃ ss : List Section, ss.length = n ∧ (∀ s ∈ ss, s.Fits w) ∧
        Layout.StandsAt (ss.flatMap (·.layout o w)) D p) ↔
      ∀ i < n, NameStandsAt D (p + i * w.sectionSize) ∧
        NameStandsAt D (p + i * w.sectionSize + nameSize) := by
  induction n generalizing p with
  | zero => exact ⟨fun _ i hi => absurd hi (Nat.not_lt_zero i), fun _ => ⟨[], rfl, nofun, rfl⟩⟩
  | succ n ih =>
      have hcount : (n + 1) * w.sectionSize = n * w.sectionSize + w.sectionSize :=
        Nat.succ_mul n w.sectionSize
      have hfirst := Section.exists_standsAt_iff (o := o) (w := w) (D := D) (p := p) (by omega)
      have hrest := ih (p := p + w.sectionSize) (by omega)
      have hshift : ∀ i, p + w.sectionSize + i * w.sectionSize =
          p + (i + 1) * w.sectionSize := by
        intro i
        rw [Nat.succ_mul]
        omega
      simp only [hshift] at hrest
      constructor
      · rintro ⟨ss, hlen, hss, hstands⟩
        cases ss with
        | nil => cases hlen
        | cons s rest =>
            obtain ⟨hs, hss⟩ := List.forall_mem_cons.mp hss
            rw [List.flatMap_cons, Layout.standsAt_append_iff, Section.length_layout hs] at hstands
            intro i hi
            cases i with
            | zero =>
                rw [Nat.zero_mul, Nat.add_zero]
                exact hfirst.mp ⟨s, hs, hstands.1⟩
            | succ i =>
                have hsections := hrest.mp ⟨rest, Nat.succ.inj hlen, hss, hstands.2⟩
                exact hsections i (Nat.lt_of_succ_lt_succ hi)
      · intro h
        have hzero := h 0 (Nat.succ_pos n)
        rw [Nat.zero_mul, Nat.add_zero] at hzero
        obtain ⟨s, hs, hstands⟩ := hfirst.mpr hzero
        obtain ⟨rest, hlen, hss, hstandsRest⟩ :=
          hrest.mpr fun i hi => h (i + 1) (Nat.succ_lt_succ hi)
        refine ⟨s :: rest, congrArg (· + 1) hlen, List.forall_mem_cons.mpr ⟨hs, hss⟩, ?_⟩
        rw [List.flatMap_cons, Layout.standsAt_append_iff, Section.length_layout hs]
        exact ⟨hstands, hstandsRest⟩

theorem length_sections_of_standsAt {g : Segment} (hg : g.Fits w)
    (h : (g.layout o w).StandsAt D p) : g.sections.length = sectionCountAt o w D p := by
  obtain ⟨-, -, -, -, -, -, -, hcount, -⟩ := (standsAt_layout_iff hg).mp h
  have hsize := segmentSize_eq w
  have hstart : p + nameSize + w.addressSize + w.addressSize + w.addressSize + w.addressSize
      + 4 + 4 = p + w.segmentSize - 8 := by omega
  rw [hstart] at hcount
  rw [sectionCountAt, Layout.numberAt_of_standsAt hcount, hg.sectionCount]

theorem exists_standsAt_iff {size : Nat} (hroom : p + size ≤ D.length + Command.headSize) :
    (∃ g : Segment, g.Fits w ∧ Command.headSize + g.extent w ≤ size ∧
        (g.layout o w).StandsAt D p) ↔
      SegmentStandsAt o w D p size := by
  have hsize := segmentSize_eq w
  constructor
  · rintro ⟨g, hg, hextent, hstands⟩
    have hcount := length_sections_of_standsAt hg hstands
    rw [extent, hcount, ← Nat.add_assoc] at hextent
    obtain ⟨lname, -, -, -, -, -, -, -, -, lsections⟩ := (standsAt_layout_iff hg).mp hstands
    refine ⟨hextent, ?_, ?_⟩
    · exact (Layout.exists_standsAt_name_iff (by omega)).mp ⟨_, hg.name, lname⟩
    · exact (exists_sections_iff (by omega)).mp ⟨_, hcount, hg.sections, lsections⟩
  · intro hstands
    have hextent := hstands.room
    obtain ⟨name, hname, lname⟩ :=
      (Layout.exists_standsAt_name_iff (D := D) (p := p) (by omega)).mpr hstands.name
    obtain ⟨sections, hlen, hsections, lsections⟩ :=
      (exists_sections_iff (o := o) (by omega)).mpr hstands.sections
    obtain ⟨address, haddress', laddress⟩ :=
      Layout.exists_standsAt_address D o w (p + nameSize) (by omega)
    obtain ⟨memorySize, hmemorySize, lmemorySize⟩ :=
      Layout.exists_standsAt_address D o w (p + nameSize + w.addressSize) (by omega)
    obtain ⟨fileOffset, hfileOffset, lfileOffset⟩ :=
      Layout.exists_standsAt_address D o w (p + nameSize + w.addressSize + w.addressSize) (by omega)
    obtain ⟨fileSize, hfileSize, lfileSize⟩ :=
      Layout.exists_standsAt_address D o w
        (p + nameSize + w.addressSize + w.addressSize + w.addressSize) (by omega)
    obtain ⟨maxProtection, lmaxProtection⟩ := Layout.exists_standsAt_i32 D o
      (p + nameSize + w.addressSize + w.addressSize + w.addressSize + w.addressSize) (by omega)
    obtain ⟨initialProtection, linitialProtection⟩ := Layout.exists_standsAt_i32 D o
      (p + nameSize + w.addressSize + w.addressSize + w.addressSize + w.addressSize + 4) (by omega)
    obtain ⟨sectionCount, lsectionCount⟩ := Layout.exists_standsAt_u32 D o
      (p + nameSize + w.addressSize + w.addressSize + w.addressSize + w.addressSize + 4 + 4)
      (by omega)
    obtain ⟨flags, lflags⟩ := Layout.exists_standsAt_segmentFlags D o
      (p + nameSize + w.addressSize + w.addressSize + w.addressSize + w.addressSize + 4 + 4 + 4)
      (by omega)
    have hcount : sectionCount.toNat = sections.length := by
      have hstart : p + nameSize + w.addressSize + w.addressSize + w.addressSize + w.addressSize
          + 4 + 4 = p + w.segmentSize - 8 := by omega
      rw [hstart] at lsectionCount
      rw [hlen, sectionCountAt, Layout.numberAt_of_standsAt lsectionCount]
    have hg : Segment.Fits w ⟨name, address, memorySize, fileOffset, fileSize, maxProtection,
        initialProtection, sectionCount, flags, sections⟩ :=
      ⟨hname, haddress', hmemorySize, hfileOffset, hfileSize, hcount, hsections⟩
    -- The other fields may hold any bytes; only the count of the sections is tied to the rest.
    refine ⟨_, hg, ?_, (standsAt_layout_iff hg).mpr ⟨lname, laddress, lmemorySize, lfileOffset,
      lfileSize, lmaxProtection, linitialProtection, lsectionCount, lflags, lsections⟩⟩
    rw [extent, hlen, ← Nat.add_assoc]
    exact hextent

end Segment

namespace Command

variable {D : List UInt8} {o : ByteOrder} {p : Nat} {command : Command}

theorem numbers_of_standsAt (hc : command.Fits) (h : (command.layout o).StandsAt D p) :
    commandIdAt o D p = command.content.id.toNat ∧ commandSizeAt o D p = command.size := by
  obtain ⟨lid, lsize, -, -⟩ := (standsAt_layout_iff hc).mp h
  refine ⟨Layout.numberAt_of_standsAt lid, (Layout.numberAt_of_standsAt lsize).trans ?_⟩
  exact Nat.mod_eq_of_lt hc.size_lt

theorem exists_standsAt_iff :
    (∃ command : Command, command.Fits ∧ (command.layout o).StandsAt D p) ↔
      CommandStandsAt o D p := by
  constructor
  · rintro ⟨command, hc, hstands⟩
    obtain ⟨hid, hsize⟩ := numbers_of_standsAt hc hstands
    obtain ⟨-, -, lbody, hinside⟩ := (standsAt_layout_iff hc).mp hstands
    have hge := hc.size_ge
    refine ⟨by omega, by rwa [hsize], by rwa [hsize], ?_⟩
    intro w hw
    have hcontent := hc.content
    obtain ⟨g, hg⟩ := LoadCommand.exists_segment hcontent (UInt32.toNat_inj.mp (hid.symm.trans hw))
    rw [hg] at hcontent lbody
    rw [hsize]
    exact (Segment.exists_standsAt_iff (by omega)).mp ⟨g, hcontent.1, hcontent.2, lbody⟩
  · rintro ⟨hhead, hge, hinside, hsegment⟩
    rw [headSize] at hhead
    obtain ⟨id, lid⟩ := Layout.exists_standsAt_u32 D o p (by omega)
    obtain ⟨size, lsize⟩ := Layout.exists_standsAt_u32 D o (p + 4) (by omega)
    have hid : commandIdAt o D p = id.toNat := Layout.numberAt_of_standsAt lid
    have hsize : commandSizeAt o D p = size.toNat := Layout.numberAt_of_standsAt lsize
    rw [hsize] at hge hinside hsegment
    have hstands : ∀ content : LoadCommand, content.id = id → content.Fits size.toNat →
        (content.layout o).StandsAt D (p + headSize) →
        ∃ command : Command, command.Fits ∧ (command.layout o).StandsAt D p := by
      rintro content rfl hcontent lbody
      have hc : Command.Fits ⟨content, size.toNat⟩ := ⟨hge, size.toNat_lt, hcontent⟩
      refine ⟨_, hc, (standsAt_layout_iff hc).mpr ⟨lid, ?_, lbody, hinside⟩⟩
      rwa [show size.toNat.toUInt32 = size from UInt32.ofNat_toNat]
    cases hw : LoadCommand.segmentWidth? id with
    | some w =>
        obtain rfl := LoadCommand.segmentWidth?_eq_some_iff.mp hw
        obtain ⟨g, hg, hextent, lbody⟩ :=
          (Segment.exists_standsAt_iff (by omega)).mpr (hsegment w hid)
        exact hstands (.segment w g) rfl ⟨hg, hextent⟩ lbody
    | none => exact hstands (.other id size) rfl ⟨hw, rfl⟩ (Layout.standsAt_nil D _)

theorem totalSize_take_succ {commands : List Command} {k : Nat} (h : commands[k]? = some command) :
    totalSize (commands.take (k + 1)) = totalSize (commands.take k) + command.size := by
  induction commands generalizing k with
  | nil => cases h
  | cons first rest ih =>
      cases k with
      | zero =>
          cases h
          simp [totalSize]
      | succ k =>
          rw [List.take_succ_cons, List.take_succ_cons, totalSize, totalSize, ih h, Nat.add_assoc]

theorem exists_commands_iff {n : Nat} :
    (∃ commands : List Command, commands.length = n ∧ (∀ command ∈ commands, command.Fits) ∧
        Layout.StandsAt (commands.flatMap (·.layout o)) D p) ↔
      CommandsStandAt o D n p := by
  induction n generalizing p with
  | zero => exact ⟨fun _ => trivial, fun _ => ⟨[], rfl, nofun, rfl⟩⟩
  | succ n ih =>
      rw [CommandsStandAt, ← exists_standsAt_iff, ← ih]
      constructor
      · rintro ⟨commands, hlen, hcommands, hstands⟩
        cases commands with
        | nil => cases hlen
        | cons command rest =>
            obtain ⟨hc, hrest⟩ := List.forall_mem_cons.mp hcommands
            rw [List.flatMap_cons, Layout.standsAt_append_iff, length_layout hc] at hstands
            rw [(numbers_of_standsAt hc hstands.1).2]
            exact ⟨⟨command, hc, hstands.1⟩, rest, Nat.succ.inj hlen, hrest, hstands.2⟩
      · rintro ⟨⟨command, hc, hstands⟩, rest, hlen, hrest, hstandsRest⟩
        refine ⟨command :: rest, congrArg (· + 1) hlen, List.forall_mem_cons.mpr ⟨hc, hrest⟩, ?_⟩
        rw [(numbers_of_standsAt hc hstands).2] at hstandsRest
        rw [List.flatMap_cons, Layout.standsAt_append_iff, length_layout hc]
        exact ⟨hstands, hstandsRest⟩

end Command

namespace File

variable {D : List UInt8} {format : Format} {f : File} {c : Cursor}

theorem exists_header {o : ByteOrder} {w : Width} {p : Nat} (hroom : p + w.headerSize ≤ D.length)
    (magic : UInt32) : ∃ h : Header, h.magic = magic ∧ (h.layout o w).StandsAt D p := by
  have hsize := Header.headerSize_eq w
  have hlast : ∀ q, q + (Header.lastLayout w).length ≤ D.length →
      (Header.lastLayout w).StandsAt D q := by
    intro q hq
    cases w with
    | bits32 => rfl
    | bits64 =>
        apply Layout.standsAt_free_iff.mpr
        rwa [length_window_eq_iff (by decide)]
  obtain ⟨cpuType, lcpuType⟩ := Layout.exists_standsAt_i32 D o p (by omega)
  obtain ⟨cpuSubtype, lcpuSubtype⟩ := Layout.exists_standsAt_i32 D o (p + 4) (by omega)
  obtain ⟨fileType, lfileType⟩ := Layout.exists_standsAt_u32 D o (p + 4 + 4) (by omega)
  obtain ⟨commandCount, lcommandCount⟩ := Layout.exists_standsAt_u32 D o
    (p + 4 + 4 + 4) (by omega)
  obtain ⟨commandsSize, lcommandsSize⟩ := Layout.exists_standsAt_u32 D o
    (p + 4 + 4 + 4 + 4) (by omega)
  obtain ⟨flags, lflags⟩ := Layout.exists_standsAt_u32 D o
    (p + 4 + 4 + 4 + 4 + 4) (by omega)
  exact ⟨⟨magic, cpuType, cpuSubtype, fileType, commandCount, commandsSize, flags⟩, rfl,
    Header.standsAt_layout_iff.mpr ⟨lcpuType, lcpuSubtype, lfileType, lcommandCount,
      lcommandsSize, lflags, hlast _ (by omega)⟩⟩

theorem numberAt_of_standsAt (h : f.layout.StandsAt D 0) :
    numberAt f.format.order D 16 = f.header.commandCount.toNat := by
  have hheader := (standsAt_layout_iff.mp h).2.1
  exact Layout.numberAt_of_standsAt (Header.standsAt_layout_iff.mp hheader).2.2.2.1

theorem exists_standsAt_iff :
    (∃ f : File, f.format = format ∧ f.Fits ∧ f.layout.StandsAt D 0) ↔ FileStands format D := by
  constructor
  · rintro ⟨f, rfl, hf, hstands⟩
    obtain ⟨lmagic, lheader, lcommands⟩ := standsAt_layout_iff.mp hstands
    refine ⟨Layout.numberAt_of_standsAt lmagic, ?_, ?_⟩
    · have hpos : 0 < f.format.width.headerSize := by cases f.format.width <;> decide
      have hle := Layout.le_of_standsAt (by rwa [Header.length_layout]) lheader
      rwa [Header.length_layout, Nat.zero_add] at hle
    · rw [numberAt_of_standsAt hstands, hf.commandCount]
      exact Command.exists_commands_iff.mp ⟨f.commands, rfl, hf.commands, by
        rwa [Nat.zero_add] at lcommands⟩
  · rintro ⟨hmagic, hroom, hcommands⟩
    rw [headSize] at hroom
    obtain ⟨header, hheader, lheader⟩ :=
      exists_header (D := D) (o := format.order) (p := magicSize) hroom format.magic
    have hcount : numberAt format.order D 16 = header.commandCount.toNat :=
      Layout.numberAt_of_standsAt (Header.standsAt_layout_iff.mp lheader).2.2.2.1
    obtain ⟨commands, hlen, hfits, lcommands⟩ := Command.exists_commands_iff.mpr hcommands
    have lmagic : (Layout.u32 .little format.magic).StandsAt D 0 := by
      refine Layout.standsAt_u32_iff.mpr ⟨(length_window_eq_iff (by decide)).mpr ?_, hmagic⟩
      rw [magicSize] at hroom
      omega
    refine ⟨⟨header, format, commands⟩, rfl, ⟨hheader, hcount.symm.trans hlen.symm, hfits⟩, ?_⟩
    refine standsAt_layout_iff.mpr ⟨lmagic, ?_, ?_⟩
    · rwa [Nat.zero_add]
    · rwa [Nat.zero_add]

theorem decode_command (hf : f.Fits) (h : f.layout.StandsAt D 0) {k : Nat} {command : Command}
    (hk : f.commands[k]? = some command) (hc : c.position = f.commandStart k) :
    ∃ c', Command.decode (.ofBytes D) f.format.order c = .ok command c' ∧
      c'.position = f.commandStart (k + 1) := by
  have hstands := standsAt_command hf h hk
  rw [← hc] at hstands
  have hcommand := hf.commands command (List.mem_of_getElem? hk)
  refine ⟨_, Command.decode_eq_ok_iff.mpr ⟨hcommand, hstands, rfl⟩, ?_⟩
  rw [Command.position_past, hc, commandStart, commandStart, Command.totalSize_take_succ hk,
    Nat.add_assoc]

/-- A file is read exactly from the bytes that keep to the grammar of its format. It has as many
load commands as its header announces, and each segment has as many sections as it announces; each
load command stands where the sizes of those before it put it, and the reader is left at the end of
the last one. -/
theorem decode_iff_fileStands (D : List UInt8) :
    ((∃ f c, File.decode (.ofBytes D) .start = .ok f c) ↔ ∃ format, FileStands format D) ∧
    ∀ f c, File.decode (.ofBytes D) .start = .ok f c →
      FileStands f.format D ∧
      f.commands.length = numberAt f.format.order D 16 ∧
      f.header.commandCount.toNat = numberAt f.format.order D 16 ∧
      (∀ (k : Nat) (command : Command), f.commands[k]? = some command →
        commandIdAt f.format.order D (f.commandStart k) = command.content.id.toNat ∧
        commandSizeAt f.format.order D (f.commandStart k) = command.size ∧
        (∀ start : Cursor, start.position = f.commandStart k →
          ∃ c', Command.decode (.ofBytes D) f.format.order start = .ok command c' ∧
            c'.position = f.commandStart (k + 1)) ∧
        ∀ w g, command.content = .segment w g → g.sections.length = g.sectionCount.toNat ∧
          g.sections.length =
            sectionCountAt f.format.order w D (f.commandStart k + Command.headSize)) ∧
      c.position = f.commandStart f.commands.length := by
  constructor
  · constructor
    · rintro ⟨f, c, h⟩
      obtain ⟨hf, hstands, -⟩ := decode_eq_ok_iff.mp h
      exact ⟨f.format, exists_standsAt_iff.mp ⟨f, rfl, hf, hstands⟩⟩
    · rintro ⟨format, h⟩
      obtain ⟨f, -, hf, hstands⟩ := exists_standsAt_iff.mpr h
      exact ⟨f, _, decode_eq_ok_iff.mpr ⟨hf, hstands, rfl⟩⟩
  · intro f c h
    obtain ⟨hf, hstands, rfl⟩ := decode_eq_ok_iff.mp h
    have hcount := numberAt_of_standsAt hstands
    refine ⟨exists_standsAt_iff.mp ⟨f, rfl, hf, hstands⟩, ?_, hcount.symm, ?_, ?_⟩
    · rw [hcount, hf.commandCount]
    · intro k command hk
      have hcommand := hf.commands command (List.mem_of_getElem? hk)
      have lcommand := standsAt_command hf hstands hk
      obtain ⟨hid, hsize⟩ := Command.numbers_of_standsAt hcommand lcommand
      refine ⟨hid, hsize, fun start hstart => decode_command hf hstands hk hstart, ?_⟩
      intro w g hcontent
      have hcontentFits := hcommand.content
      have lbody := ((Command.standsAt_layout_iff hcommand).mp lcommand).2.2.1
      rw [hcontent] at hcontentFits lbody
      exact ⟨hcontentFits.1.sectionCount.symm,
        Segment.length_sections_of_standsAt hcontentFits.1 lbody⟩
    · rw [position_past, commandStart, List.take_length]
      exact Nat.zero_add _

theorem fileStands_narrowInWide :
    FileStands ⟨.bits64, .little⟩ narrowInWideBytes ∧
      narrowInWide.commands.length = numberAt .little narrowInWideBytes 16 := by
  obtain ⟨c, hread, -⟩ := decode_narrowInWide
  obtain ⟨hstands, hcount, -⟩ := (decode_iff_fileStands narrowInWideBytes).2 narrowInWide c hread
  exact ⟨hstands, hcount⟩

end File

end MachO
