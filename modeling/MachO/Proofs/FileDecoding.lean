import MachO.Proofs.SegmentDecoding

namespace MachO

/-- A load command of the given size can be written. -/
def LoadCommand.Fits (size : Nat) : LoadCommand → Prop
  | .segment w g => g.Fits w ∧ Command.headSize + g.extent w ≤ size
  | .other id declared => segmentWidth? id = none ∧ declared.toNat = size

instance (size : Nat) (content : LoadCommand) : Decidable (content.Fits size) :=
  match content with
  | .segment w g => inferInstanceAs (Decidable (g.Fits w ∧ Command.headSize + g.extent w ≤ size))
  | .other id declared =>
      inferInstanceAs (Decidable (LoadCommand.segmentWidth? id = none ∧ declared.toNat = size))

/-- A load command can be written. -/
structure Command.Fits (command : Command) : Prop where
  size_ge : headSize ≤ command.size
  size_lt : command.size < 2 ^ 32
  content : command.content.Fits command.size

instance (command : Command) : Decidable command.Fits :=
  decidable_of_iff (Command.headSize ≤ command.size ∧ command.size < 2 ^ 32 ∧
      command.content.Fits command.size)
    ⟨fun ⟨h₁, h₂, h₃⟩ => ⟨h₁, h₂, h₃⟩, fun ⟨h₁, h₂, h₃⟩ => ⟨h₁, h₂, h₃⟩⟩

/-- The cursor after the body of a load command. -/
def LoadCommand.past (c : Cursor) : LoadCommand → Cursor
  | .segment w g => g.past w c
  | .other .. => c

theorem LoadCommand.segmentWidth?_eq_some_iff {id : UInt32} {w : Width} :
    segmentWidth? id = some w ↔ id = segmentId w := by
  unfold segmentWidth?
  split
  · rename_i h
    rw [h]
    cases w <;> simp [segmentId]
  · rename_i h
    split
    · rename_i h'
      rw [h']
      cases w <;> simp [segmentId]
    · rename_i h'
      cases w <;> simp [h, h']

theorem LoadCommand.exists_segment {content : LoadCommand} {size : Nat} {w : Width}
    (h : content.Fits size) (hid : content.id = segmentId w) : ∃ g, content = .segment w g := by
  have hw := segmentWidth?_eq_some_iff.mpr hid
  cases content with
  | segment w' g =>
      rw [id, segmentWidth?_eq_some_iff.mpr rfl] at hw
      cases hw
      exact ⟨g, rfl⟩
  | other id declared =>
      rw [LoadCommand.id, h.1] at hw
      cases hw

namespace Command

variable {D : List UInt8} {o : ByteOrder} {c c' : Cursor} {command : Command}

def pastHead (id size : UInt32) (c : Cursor) : Cursor :=
  (c.asked.asked.readAll [4, 4]).after 0 [.commandBegun id size c.position]

/-- The cursor after a load command. -/
def past (command : Command) (c : Cursor) : Cursor :=
  (command.content.past (pastHead command.content.id command.size.toUInt32 c)).sought
    (c.position + command.size)

@[simp] theorem position_past (command : Command) (c : Cursor) :
    (command.past c).position = c.position + command.size := rfl

theorem length_layout_le {content : LoadCommand} {size : Nat} (hsize : headSize ≤ size)
    (h : content.Fits size) : headSize + (content.layout o).length ≤ size := by
  cases content with
  | segment w g => exact Segment.length_layout h.1 ▸ h.2
  | other id declared => exact hsize

theorem length_layout (h : command.Fits) : (command.layout o).length = command.size := by
  have hle := length_layout_le (o := o) h.size_ge h.content
  simp only [layout, List.length_append, Layout.length_u32, Layout.length_free]
  rw [headSize] at hle ⊢
  omega

theorem decodeBody_eq_ok_iff {id size : UInt32} {content : LoadCommand}
    (hsize : headSize ≤ size.toNat) :
    decodeBody (.ofBytes D) o id size c = .ok content c' ↔
      content.id = id ∧ content.Fits size.toNat ∧ (content.layout o).StandsAt D c.position ∧
        c' = content.past c := by
  unfold decodeBody
  cases hw : LoadCommand.segmentWidth? id with
  | some w =>
      simp only [bind_eq_ok_iff, Segment.decode_eq_ok_iff, pure_eq_ok_iff]
      constructor
      · rintro ⟨g, _, ⟨hg, hroom, hstands, rfl⟩, rfl, rfl⟩
        exact ⟨(LoadCommand.segmentWidth?_eq_some_iff.mp hw).symm, ⟨hg, by omega⟩, hstands, rfl⟩
      · rintro ⟨rfl, hfits, hstands, rfl⟩
        obtain ⟨g, rfl⟩ := LoadCommand.exists_segment hfits
          (LoadCommand.segmentWidth?_eq_some_iff.mp hw)
        refine ⟨g, _, ⟨hfits.1, ?_, hstands, rfl⟩, rfl, rfl⟩
        have := hfits.2
        omega
  | none =>
      simp only [pure_eq_ok_iff]
      constructor
      · rintro ⟨rfl, rfl⟩
        exact ⟨rfl, ⟨hw, rfl⟩, rfl, rfl⟩
      · rintro ⟨rfl, hfits, hstands, rfl⟩
        cases content with
        | segment w g =>
            -- A segment has the identifier of one, whatever the width of the file.
            rw [LoadCommand.id, LoadCommand.segmentWidth?_eq_some_iff.mpr rfl] at hw
            cases hw
        | other id declared =>
            rw [UInt32.toNat_inj.mp hfits.2]
            exact ⟨rfl, rfl⟩

theorem standsAt_layout_iff (h : command.Fits) {p : Nat} :
    (command.layout o).StandsAt D p ↔
      (Layout.u32 o command.content.id).StandsAt D p ∧
      (Layout.u32 o command.size.toUInt32).StandsAt D (p + 4) ∧
      (command.content.layout o).StandsAt D (p + headSize) ∧
      p + command.size ≤ D.length := by
  have hlayout := length_layout (o := o) h
  have hle := length_layout_le (o := o) h.size_ge h.content
  have hge := h.size_ge
  simp only [headSize] at hle hge ⊢
  constructor
  · intro hstands
    have hinside := Layout.le_of_standsAt (by omega) hstands
    rw [hlayout] at hinside
    simp only [layout, Layout.standsAt_append_iff, List.length_append, Layout.length_u32,
      and_assoc] at hstands
    exact ⟨hstands.1, hstands.2.1, hstands.2.2.1, hinside⟩
  · rintro ⟨lid, lsize, lbody, hinside⟩
    simp only [layout, Layout.standsAt_append_iff, List.length_append, Layout.length_u32,
      and_assoc]
    refine ⟨lid, lsize, lbody, Layout.standsAt_free_iff.mpr ?_⟩
    rw [length_window]
    simp only [headSize]
    omega

/-- With exact sums nothing is left of the arithmetic. -/
theorem decode_eq (r : Reader) (o : ByteOrder) :
    Command.decode r o = do
      r.ensureBy .exact headSize .shortCommand
      let start ← Scan.position
      let id ← r.u32 o
      let size ← r.u32 o
      if r.length < start + size.toNat then throw (.shortCommand size.toNat start)
      if size.toNat < headSize then throw (.commandSize size)
      Scan.tell (.commandBegun id size start)
      let content ← decodeBody r o id size
      r.seekTo (start + size.toNat)
      return ⟨content, size.toNat⟩ := by
  have hsum : ∀ m n, Arithmetic.exact.sum m n = .ok (m + n) := fun _ _ => rfl
  simp only [decode, decodeBy, hsum, Scan.ofExcept, pure_bind]

theorem decode_eq_ok_iff :
    Command.decode (.ofBytes D) o c = .ok command c' ↔
      command.Fits ∧ (command.layout o).StandsAt D c.position ∧ c' = command.past c := by
  rw [decode_eq]
  simp only [bind_eq_ok_iff, ite_throw_eq_ok_iff, Reader.ensureBy_ofBytes_eq_ok_iff,
    Scan.position_eq_ok_iff, Reader.u32_eq_ok_iff, Scan.tell_eq_ok_iff,
    Reader.seekTo_ofBytes_eq_ok_iff, pure_eq_ok_iff, Reader.length_ofBytes, Nat.not_lt]
  constructor
  · rintro ⟨_, _, ⟨hhead, rfl⟩, _, _, ⟨rfl, rfl⟩, id, _, ⟨lid, rfl⟩, size, _, ⟨lsize, rfl⟩,
      hinside, hsize, _, _, rfl, content, _, hbody, _, _, rfl, rfl, rfl⟩
    obtain ⟨rfl, hfits, lbody, rfl⟩ := (decodeBody_eq_ok_iff hsize).mp hbody
    have hc : Command.Fits ⟨content, size.toNat⟩ := ⟨hsize, size.toNat_lt, hfits⟩
    have hword : size.toNat.toUInt32 = size := UInt32.ofNat_toNat
    refine ⟨hc, (standsAt_layout_iff hc).mpr ⟨lid, ?_, lbody, hinside⟩, ?_⟩
    · rw [hword]
      exact lsize
    · rw [past, hword]
      rfl
  · rintro ⟨hc, hstands, rfl⟩
    obtain ⟨lid, lsize, lbody, hinside⟩ := (standsAt_layout_iff hc).mp hstands
    have hword : command.size.toUInt32.toNat = command.size := Nat.mod_eq_of_lt hc.size_lt
    have hge := hc.size_ge
    refine ⟨(), _, ⟨by omega, rfl⟩, _, _, ⟨rfl, rfl⟩, command.content.id, _, ⟨lid, rfl⟩,
      command.size.toUInt32, _, ⟨lsize, rfl⟩, by rwa [hword], by rwa [hword], (), _, rfl,
      command.content, _, (decodeBody_eq_ok_iff (by rwa [hword])).mpr ⟨rfl, ?_, lbody, rfl⟩,
      (), _, rfl, ?_, ?_⟩
    · rw [hword]
      exact hc.content
    · rw [hword]
    · rw [hword]
      rfl

end Command

namespace Header

variable {D : List UInt8} {o : ByteOrder} {w : Width} {c c' : Cursor} {h : Header}

def lastSizes : Width → List Nat
  | .bits32 => []
  | .bits64 => [4]

/-- The cursor after the header behind a magic. -/
def past (w : Width) (c : Cursor) : Cursor := c.asked.readAll ([4, 4, 4, 4, 4, 4] ++ lastSizes w)

@[simp] theorem position_past (w : Width) (c : Cursor) :
    (past w c).position = c.position + w.headerSize := by
  cases w <;> rfl

def lastLayout : Width → Layout
  | .bits32 => []
  | .bits64 => .free 4

theorem headerSize_eq (w : Width) :
    4 + 4 + 4 + 4 + 4 + 4 + (lastLayout w).length = w.headerSize := by
  cases w <;> rfl

theorem standsAt_layout_iff {p : Nat} :
    (h.layout o w).StandsAt D p ↔
      (Layout.i32 o h.cpuType).StandsAt D p ∧
      (Layout.i32 o h.cpuSubtype).StandsAt D (p + 4) ∧
      (Layout.u32 o h.fileType).StandsAt D (p + 4 + 4) ∧
      (Layout.u32 o h.commandCount).StandsAt D (p + 4 + 4 + 4) ∧
      (Layout.u32 o h.commandsSize).StandsAt D (p + 4 + 4 + 4 + 4) ∧
      (Layout.u32 o h.flags).StandsAt D (p + 4 + 4 + 4 + 4 + 4) ∧
      (lastLayout w).StandsAt D (p + 4 + 4 + 4 + 4 + 4 + 4) := by
  have hlayout : h.layout o w =
      .i32 o h.cpuType ++ .i32 o h.cpuSubtype ++ .u32 o h.fileType ++ .u32 o h.commandCount
        ++ .u32 o h.commandsSize ++ .u32 o h.flags ++ lastLayout w := by
    cases w <;> rfl
  simp only [hlayout, Layout.standsAt_append_iff, List.length_append, Layout.length_i32,
    Layout.length_u32, and_assoc, ← Nat.add_assoc]

theorem length_layout : (h.layout o w).length = w.headerSize := by
  cases w <;> simp [layout, Width.headerSize]

theorem last_eq_ok_iff {f : Scan Header} :
    (match w with
      | .bits32 => f
      | .bits64 => do discard ((Reader.ofBytes D).u32 o); f : Scan Header) c = .ok h c' ↔
      (lastLayout w).StandsAt D c.position ∧ f (c.readAll (lastSizes w)) = .ok h c' := by
  cases w with
  | bits32 =>
      exact ⟨fun hf => ⟨rfl, hf⟩, And.right⟩
  | bits64 =>
      simp only [bind_eq_ok_iff, discard_eq_ok_iff, Reader.u32_eq_ok_iff, lastLayout,
        Layout.standsAt_free_iff]
      constructor
      · rintro ⟨_, _, ⟨word, hword, rfl⟩, hf⟩
        exact ⟨(Layout.standsAt_u32_iff.mp hword).1, hf⟩
      · rintro ⟨hlen, hf⟩
        obtain ⟨word, hword⟩ :=
          Layout.exists_standsAt_u32 _ o _ ((length_window_eq_iff (by decide)).mp hlen)
        exact ⟨(), _, ⟨word, hword, rfl⟩, hf⟩

theorem decode_eq_ok_iff {magic : UInt32} :
    Header.decode (.ofBytes D) o w magic c = .ok h c' ↔
      h.magic = magic ∧ (h.layout o w).StandsAt D c.position ∧ c' = past w c := by
  rw [Header.decode, decodeBy, bind_eq_ok_iff]
  simp only [decodeFields, Reader.ensureBy_ofBytes_eq_ok_iff, Reader.i32_bind_eq_ok_iff,
    Reader.u32_bind_eq_ok_iff]
  constructor
  · rintro ⟨_, _, ⟨hroom, rfl⟩, cpuType, lcpuType, cpuSubtype, lcpuSubtype, fileType, lfileType,
      commandCount, lcommandCount, commandsSize, lcommandsSize, flags, lflags, hlast⟩
    obtain ⟨llast, hrest⟩ := last_eq_ok_iff.mp hlast
    obtain ⟨rfl, rfl⟩ := pure_eq_ok_iff.mp hrest
    refine ⟨rfl, standsAt_layout_iff.mpr ⟨lcpuType, lcpuSubtype, lfileType, lcommandCount,
      lcommandsSize, lflags, llast⟩, ?_⟩
    cases w <;> rfl
  · rintro ⟨rfl, hstands, rfl⟩
    have hroom := Layout.le_of_standsAt (by rw [length_layout]; cases w <;> decide) hstands
    rw [length_layout] at hroom
    obtain ⟨lcpuType, lcpuSubtype, lfileType, lcommandCount, lcommandsSize, lflags, llast⟩ :=
      standsAt_layout_iff.mp hstands
    refine ⟨(), _, ⟨hroom, rfl⟩, h.cpuType, lcpuType, h.cpuSubtype, lcpuSubtype,
      h.fileType, lfileType, h.commandCount, lcommandCount, h.commandsSize, lcommandsSize,
      h.flags, lflags, ?_⟩
    refine last_eq_ok_iff.mpr ⟨llast, pure_eq_ok_iff.mpr ⟨rfl, ?_⟩⟩
    cases w <;> rfl

end Header

theorem Format.ofMagic?_eq_some_iff {magic : UInt32} {f : Format} :
    ofMagic? magic = some f ↔ f.magic = magic := by
  constructor
  · intro h
    have hfound := List.find?_some (p := fun f : Format => f.magic == magic) h
    exact beq_iff_eq.mp hfound
  · rintro rfl
    exact ofMagic?_magic f

namespace Command

variable {D : List UInt8} {o : ByteOrder} {c c' : Cursor} {commands : List Command}

def totalSize : List Command → Nat
  | [] => 0
  | command :: rest => command.size + totalSize rest

def pastAll (commands : List Command) (c : Cursor) : Cursor :=
  commands.foldl (fun c command => command.past c) c

@[simp] theorem position_pastAll (commands : List Command) (c : Cursor) :
    (pastAll commands c).position = c.position + totalSize commands := by
  induction commands generalizing c with
  | nil => rfl
  | cons command rest ih =>
      have hrest := ih (command.past c)
      rw [position_past, Nat.add_assoc] at hrest
      exact hrest

theorem length_layouts (h : ∀ command ∈ commands, command.Fits) :
    (commands.flatMap (·.layout o)).length = totalSize commands := by
  induction commands with
  | nil => rfl
  | cons command rest ih =>
      obtain ⟨hcommand, hrest⟩ := List.forall_mem_cons.mp h
      rw [List.flatMap_cons, List.length_append, length_layout hcommand, ih hrest]
      rfl

theorem replicate_eq_ok_iff {n : Nat} :
    (Command.decode (.ofBytes D) o).replicate n c = .ok commands c' ↔
      commands.length = n ∧ (∀ command ∈ commands, command.Fits) ∧
        Layout.StandsAt (commands.flatMap (·.layout o)) D c.position ∧ c' = pastAll commands c := by
  induction n generalizing c c' commands with
  | zero =>
      rw [Scan.replicate, pure_eq_ok_iff]
      constructor
      · rintro ⟨rfl, rfl⟩
        exact ⟨rfl, nofun, rfl, rfl⟩
      · rintro ⟨hlen, -, -, rfl⟩
        rw [List.eq_nil_of_length_eq_zero hlen]
        exact ⟨rfl, rfl⟩
  | succ n ih =>
      rw [Scan.replicate]
      simp only [bind_eq_ok_iff, decode_eq_ok_iff, ih, pure_eq_ok_iff]
      constructor
      · rintro ⟨command, _, ⟨hcommand, hstands, rfl⟩, rest, _, ⟨hlen, hrest, hstandsRest, rfl⟩,
          rfl, rfl⟩
        refine ⟨congrArg (· + 1) hlen, List.forall_mem_cons.mpr ⟨hcommand, hrest⟩, ?_, rfl⟩
        rw [List.flatMap_cons, Layout.standsAt_append_iff, length_layout hcommand]
        exact ⟨hstands, hstandsRest⟩
      · rintro ⟨hlen, hcommands, hstands, rfl⟩
        cases commands with
        | nil => cases hlen
        | cons command rest =>
            obtain ⟨hcommand, hrest⟩ := List.forall_mem_cons.mp hcommands
            rw [List.flatMap_cons, Layout.standsAt_append_iff, length_layout hcommand] at hstands
            exact ⟨command, _, ⟨hcommand, hstands.1, rfl⟩, rest, _,
              ⟨Nat.succ.inj hlen, hrest, hstands.2, rfl⟩, rfl, rfl⟩

end Command

/-- A file can be written. -/
structure File.Fits (f : File) : Prop where
  magic : f.header.magic = f.format.magic
  commandCount : f.header.commandCount.toNat = f.commands.length
  commands : ∀ command ∈ f.commands, command.Fits

instance (f : File) : Decidable f.Fits :=
  decidable_of_iff (f.header.magic = f.format.magic ∧
      f.header.commandCount.toNat = f.commands.length ∧ ∀ command ∈ f.commands, command.Fits)
    ⟨fun ⟨h₁, h₂, h₃⟩ => ⟨h₁, h₂, h₃⟩, fun ⟨h₁, h₂, h₃⟩ => ⟨h₁, h₂, h₃⟩⟩

namespace File

variable {D : List UInt8} {c c' : Cursor} {f : File}

def headSize (w : Width) : Nat := magicSize + w.headerSize

def extent (f : File) : Nat := headSize f.format.width + Command.totalSize f.commands

def past (f : File) (c : Cursor) : Cursor :=
  let head := (Header.past f.format.width (c.asked.read magicSize)).after 0
    [.headerRead f.format f.header]
  (Command.pastAll f.commands head).after 0 [.commandsRead f.commands.length]

@[simp] theorem position_past (f : File) (c : Cursor) :
    (f.past c).position = c.position + f.extent := by
  simp only [past, Cursor.position_after, Command.position_pastAll, Header.position_past,
    Cursor.position_read, Cursor.position_asked, Nat.add_zero, extent, headSize, Nat.add_assoc]

theorem formatOf_eq_ok_iff {format : Format} {p : Nat}
    (hlen : (window D p magicSize).length = magicSize) :
    formatOf (window D p magicSize) = .ok format ↔
      (Layout.u32 .little format.magic).StandsAt D p := by
  have hlt := ByteOrder.little.decode_lt (window D p magicSize)
  rw [hlen] at hlt
  have hformat : formatOf (window D p magicSize) = .ok format ↔
      Format.ofMagic? (ByteOrder.little.decode (window D p magicSize)).toUInt32 =
        some format := by
    simp only [formatOf]
    split
    · rename_i h
      simp [h]
    · rename_i h
      split <;> simp [h]
  rw [hformat, Format.ofMagic?_eq_some_iff, Layout.standsAt_u32_iff]
  constructor
  · intro h
    refine ⟨hlen, ?_⟩
    rw [h]
    exact (Nat.mod_eq_of_lt hlt).symm
  · rintro ⟨-, h⟩
    apply UInt32.toNat_inj.mp
    rw [← h]
    exact (Nat.mod_eq_of_lt hlt).symm

theorem standsAt_layout_iff {p : Nat} :
    f.layout.StandsAt D p ↔
      (Layout.u32 .little f.format.magic).StandsAt D p ∧
      (f.header.layout f.format.order f.format.width).StandsAt D (p + magicSize) ∧
      Layout.StandsAt (f.commands.flatMap (·.layout f.format.order)) D
        (p + headSize f.format.width) := by
  simp only [layout, Layout.standsAt_append_iff, List.length_append, Layout.length_u32,
    Header.length_layout, and_assoc]
  rfl

theorem length_layout (hf : f.Fits) : f.layout.length = f.extent := by
  simp only [layout, List.length_append, Layout.length_u32, Header.length_layout,
    Command.length_layouts hf.commands]
  rfl

theorem decode_eq (r : Reader) :
    File.decode r = do
      r.ensureBy .exact magicSize .shortHeader
      let magic ← r.bytes magicSize
      let format ← Scan.ofExcept (formatOf magic)
      let header ← Header.decode r format.order format.width format.magic
      Scan.tell (.headerRead format header)
      let commands ← (Command.decode r format.order).replicate header.commandCount.toNat
      Scan.tell (.commandsRead commands.length)
      return { header, format, commands } := rfl

theorem decode_eq_ok_iff :
    File.decode (.ofBytes D) c = .ok f c' ↔
      f.Fits ∧ f.layout.StandsAt D c.position ∧ c' = f.past c := by
  rw [decode_eq]
  simp only [bind_eq_ok_iff, Reader.ensureBy_ofBytes_eq_ok_iff,
    Reader.bytes_ofBytes_eq_ok_iff, Scan.ofExcept_eq_ok_iff, Header.decode_eq_ok_iff,
    Scan.tell_eq_ok_iff, Command.replicate_eq_ok_iff, pure_eq_ok_iff]
  constructor
  · rintro ⟨_, _, ⟨hroom, rfl⟩, bytes, _, ⟨rfl, hlen, rfl⟩, format, _, ⟨hformat, rfl⟩,
      header, _, ⟨hmagic, lheader, rfl⟩, _, _, rfl, commands, _,
      ⟨hcount, hcommands, lcommands, rfl⟩, _, _, rfl, rfl, rfl⟩
    have hf : File.Fits ⟨header, format, commands⟩ := ⟨hmagic, hcount.symm, hcommands⟩
    refine ⟨hf, standsAt_layout_iff.mpr ⟨?_, lheader, ?_⟩, rfl⟩
    · exact (formatOf_eq_ok_iff hlen).mp hformat
    · simpa only [Cursor.position_after, Header.position_past, Cursor.position_read,
        Cursor.position_asked, headSize, Nat.add_zero, ← Nat.add_assoc] using lcommands
  · rintro ⟨hf, hstands, rfl⟩
    obtain ⟨lmagic, lheader, lcommands⟩ := standsAt_layout_iff.mp hstands
    refine ⟨(), _, ⟨?_, rfl⟩, _, _, ⟨rfl, ?_, rfl⟩, f.format, _, ⟨?_, rfl⟩,
      f.header, _, ⟨hf.magic, lheader, rfl⟩, (), _, rfl, f.commands, _,
      ⟨hf.commandCount.symm, hf.commands, ?_, rfl⟩, (), _, rfl, rfl, ?_⟩
    · exact Layout.le_of_standsAt (l := .u32 .little f.format.magic) (by simp) lmagic
    · exact (Layout.standsAt_u32_iff.mp lmagic).1
    · exact (formatOf_eq_ok_iff (Layout.standsAt_u32_iff.mp lmagic).1).mpr lmagic
    · simpa only [Cursor.position_after, Header.position_past, Cursor.position_read,
        Cursor.position_asked, headSize, Nat.add_zero, ← Nat.add_assoc] using lcommands
    · rfl

/-- A wide file with a narrow segment of one section and a command that is not looked into. -/
def narrowInWide : File where
  header := ⟨0xFEEDFACF, 7, 3, 2, 2, 140, 0⟩
  format := ⟨.bits64, .little⟩
  commands :=
    [⟨.segment .bits32 ⟨"__TEXT", 0x1000, 16, 0, 16, 5, 5, 1, ⟨1⟩,
        [⟨"__text", "__TEXT", 0x1000, 4, 128, 2, 0, 0, ⟨0⟩, 0, 0, 0⟩]⟩, 128⟩,
      ⟨.other 0x1B 12, 12⟩]

/-- Bytes of the file, with a reserved word, a command and unknown flags that are not zero. -/
def narrowInWideBytes : List UInt8 :=
  ((narrowInWide.layout.fill.set 28 0xAA).set 84 0xF1).set 168 0xBB ++ [9]

theorem decode_narrowInWide :
    ∃ c, File.decode (.ofBytes narrowInWideBytes) .start = .ok narrowInWide c ∧
      c.position = 172 := by
  have hfits : narrowInWide.Fits := by decide
  have hstands : narrowInWide.layout.StandsAt narrowInWideBytes 0 := by decide +kernel
  exact ⟨_, decode_eq_ok_iff.mpr ⟨hfits, hstands, rfl⟩, by decide⟩

end File

end MachO
