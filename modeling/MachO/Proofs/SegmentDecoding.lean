import MachO.Proofs.FieldReading

namespace MachO

/-- The header of a section can be written in the layout of a width. -/
structure Section.Fits (w : Width) (s : Section) : Prop where
  name : NameFits s.name
  label : NameFits s.label
  address : w.Holds s.address
  size : w.Holds s.size
  reserved3 : w = .bits32 → s.reserved3 = 0

instance (w : Width) (s : Section) : Decidable (s.Fits w) :=
  decidable_of_iff (NameFits s.name ∧ NameFits s.label ∧ w.Holds s.address ∧ w.Holds s.size ∧
      (w = .bits32 → s.reserved3 = 0))
    ⟨fun ⟨h₁, h₂, h₃, h₄, h₅⟩ => ⟨h₁, h₂, h₃, h₄, h₅⟩,
      fun ⟨h₁, h₂, h₃, h₄, h₅⟩ => ⟨h₁, h₂, h₃, h₄, h₅⟩⟩

namespace Section

variable {D : List UInt8} {o : ByteOrder} {w : Width} {c c' : Cursor} {s : Section}

def lastLayout (o : ByteOrder) (n : UInt32) : Width → Layout
  | .bits32 => []
  | .bits64 => .u32 o n

def lastSizes : Width → List Nat
  | .bits32 => []
  | .bits64 => [4]

def fieldSizes (w : Width) : List Nat :=
  [nameSize, nameSize, w.addressSize, w.addressSize, 4, 4, 4, 4, 4, 4, 4] ++ lastSizes w

/-- The cursor after the header of a section. -/
def past (w : Width) (s : Section) (c : Cursor) : Cursor :=
  (c.readAll (fieldSizes w)).after 0 [.sectionRead s.label s.name s.address]

@[simp] theorem position_past (w : Width) (s : Section) (c : Cursor) :
    (s.past w c).position = c.position + w.sectionSize := by
  cases w <;> rfl

theorem sectionSize_eq (o : ByteOrder) (n : UInt32) (w : Width) :
    nameSize + nameSize + w.addressSize + w.addressSize + 4 + 4 + 4 + 4 + 4 + 4 + 4
      + (lastLayout o n w).length = w.sectionSize := by
  cases w with
  | bits32 => rfl
  | bits64 =>
      rw [lastLayout, Layout.length_u32]
      rfl

theorem standsAt_layout_iff (hs : s.Fits w) {p : Nat} :
    (s.layout o w).StandsAt D p ↔
      (Layout.name s.name).StandsAt D p ∧
      (Layout.name s.label).StandsAt D (p + nameSize) ∧
      (Layout.address o w s.address).StandsAt D (p + nameSize + nameSize) ∧
      (Layout.address o w s.size).StandsAt D (p + nameSize + nameSize + w.addressSize) ∧
      (Layout.u32 o s.offset).StandsAt D
        (p + nameSize + nameSize + w.addressSize + w.addressSize) ∧
      (Layout.u32 o s.alignment).StandsAt D
        (p + nameSize + nameSize + w.addressSize + w.addressSize + 4) ∧
      (Layout.u32 o s.relocationOffset).StandsAt D
        (p + nameSize + nameSize + w.addressSize + w.addressSize + 4 + 4) ∧
      (Layout.u32 o s.relocationCount).StandsAt D
        (p + nameSize + nameSize + w.addressSize + w.addressSize + 4 + 4 + 4) ∧
      (Layout.u32 o s.flags.bits).StandsAt D
        (p + nameSize + nameSize + w.addressSize + w.addressSize + 4 + 4 + 4 + 4) ∧
      (Layout.u32 o s.reserved1).StandsAt D
        (p + nameSize + nameSize + w.addressSize + w.addressSize + 4 + 4 + 4 + 4 + 4) ∧
      (Layout.u32 o s.reserved2).StandsAt D
        (p + nameSize + nameSize + w.addressSize + w.addressSize + 4 + 4 + 4 + 4 + 4 + 4) ∧
      (lastLayout o s.reserved3 w).StandsAt D
        (p + nameSize + nameSize + w.addressSize + w.addressSize + 4 + 4 + 4 + 4 + 4 + 4 + 4) := by
  have hlayout : s.layout o w =
      .name s.name ++ .name s.label ++ .address o w s.address ++ .address o w s.size
        ++ .u32 o s.offset ++ .u32 o s.alignment ++ .u32 o s.relocationOffset
        ++ .u32 o s.relocationCount ++ .u32 o s.flags.bits ++ .u32 o s.reserved1
        ++ .u32 o s.reserved2 ++ lastLayout o s.reserved3 w := by
    cases w <;> rfl
  simp only [hlayout, Layout.standsAt_append_iff, List.length_append,
    Layout.length_name hs.name, Layout.length_name hs.label, Layout.length_address,
    Layout.length_u32, and_assoc, ← Nat.add_assoc]

theorem length_layout (hs : s.Fits w) : (s.layout o w).length = w.sectionSize := by
  cases w <;> simp [layout, Layout.length_name hs.name, Layout.length_name hs.label, nameSize,
    Width.addressSize, Width.sectionSize]

theorem last_eq_ok_iff {f : UInt32 → Scan Section} :
    (match w with
      | .bits32 => do let n ← pure 0; f n
      | .bits64 => do let n ← (Reader.ofBytes D).u32 o; f n : Scan Section) c = .ok s c' ↔
      ∃ n, (w = .bits32 → n = 0) ∧ (lastLayout o n w).StandsAt D c.position ∧
        f n (c.readAll (lastSizes w)) = .ok s c' := by
  cases w with
  | bits32 =>
      constructor
      · intro h
        exact ⟨0, fun _ => rfl, rfl, h⟩
      · rintro ⟨n, hn, -, h⟩
        rw [hn rfl] at h
        exact h
  | bits64 =>
      simp only [bind_eq_ok_iff, Reader.u32_eq_ok_iff]
      constructor
      · rintro ⟨n, u, ⟨hn, rfl⟩, h⟩
        exact ⟨n, nofun, hn, h⟩
      · rintro ⟨n, -, hn, h⟩
        exact ⟨n, _, ⟨hn, rfl⟩, h⟩

theorem decode_eq_ok_iff :
    Section.decode (.ofBytes D) o w c = .ok s c' ↔
      s.Fits w ∧ (s.layout o w).StandsAt D c.position ∧ c' = s.past w c := by
  simp only [Section.decode, Reader.name_bind_eq_ok_iff, Reader.address_bind_eq_ok_iff,
    Reader.u32_bind_eq_ok_iff]
  constructor
  · rintro ⟨name, ⟨hname, lname⟩, label, ⟨hlabel, llabel⟩, address, ⟨haddress, laddress⟩, size,
      ⟨hsize, lsize⟩, offset, loffset, alignment, lalignment, relocationOffset, lrelocationOffset,
      relocationCount, lrelocationCount, flags, lflags, reserved1, lreserved1,
      reserved2, lreserved2, hlast⟩
    obtain ⟨reserved3, hreserved3, lreserved3, hrest⟩ := last_eq_ok_iff.mp hlast
    simp only [bind_eq_ok_iff, Scan.tell_eq_ok_iff, pure_eq_ok_iff] at hrest
    obtain ⟨_, _, rfl, rfl, rfl⟩ := hrest
    have hs : Section.Fits w ⟨name, label, address, size, offset, alignment, relocationOffset,
        relocationCount, ⟨flags⟩, reserved1, reserved2, reserved3⟩ :=
      ⟨hname, hlabel, haddress, hsize, hreserved3⟩
    refine ⟨hs, (standsAt_layout_iff hs).mpr ⟨lname, llabel, laddress, lsize, loffset, lalignment,
      lrelocationOffset, lrelocationCount, lflags, lreserved1, lreserved2, lreserved3⟩, ?_⟩
    cases w <;> rfl
  · rintro ⟨hs, hlayout, rfl⟩
    obtain ⟨lname, llabel, laddress, lsize, loffset, lalignment, lrelocationOffset,
      lrelocationCount, lflags, lreserved1, lreserved2, lreserved3⟩ :=
      (standsAt_layout_iff hs).mp hlayout
    refine ⟨s.name, ⟨hs.name, lname⟩, s.label, ⟨hs.label, llabel⟩,
      s.address, ⟨hs.address, laddress⟩,
      s.size, ⟨hs.size, lsize⟩, s.offset, loffset, s.alignment, lalignment,
      s.relocationOffset, lrelocationOffset, s.relocationCount, lrelocationCount,
      s.flags.bits, lflags, s.reserved1, lreserved1, s.reserved2, lreserved2, ?_⟩
    refine last_eq_ok_iff.mpr ⟨s.reserved3, hs.reserved3, lreserved3, ?_⟩
    simp only [bind_eq_ok_iff, Scan.tell_eq_ok_iff, pure_eq_ok_iff]
    refine ⟨(), _, rfl, trivial, ?_⟩
    cases w <;> rfl

end Section

structure Segment.Fits (w : Width) (g : Segment) : Prop where
  name : NameFits g.name
  address : w.Holds g.address
  memorySize : w.Holds g.memorySize
  fileOffset : w.Holds g.fileOffset
  fileSize : w.Holds g.fileSize
  sectionCount : g.sectionCount.toNat = g.sections.length
  sections : ∀ s ∈ g.sections, s.Fits w

instance (w : Width) (g : Segment) : Decidable (g.Fits w) :=
  decidable_of_iff (NameFits g.name ∧ w.Holds g.address ∧ w.Holds g.memorySize ∧
      w.Holds g.fileOffset ∧ w.Holds g.fileSize ∧ g.sectionCount.toNat = g.sections.length ∧
      ∀ s ∈ g.sections, s.Fits w)
    ⟨fun ⟨h₁, h₂, h₃, h₄, h₅, h₆, h₇⟩ => ⟨h₁, h₂, h₃, h₄, h₅, h₆, h₇⟩,
      fun ⟨h₁, h₂, h₃, h₄, h₅, h₆, h₇⟩ => ⟨h₁, h₂, h₃, h₄, h₅, h₆, h₇⟩⟩

namespace Segment

variable {D : List UInt8} {o : ByteOrder} {w : Width} {c c' : Cursor} {g : Segment}
  {ss : List Section}

def extent (w : Width) (g : Segment) : Nat :=
  w.segmentSize + g.sections.length * w.sectionSize

def fieldSizes (w : Width) : List Nat :=
  [nameSize, w.addressSize, w.addressSize, w.addressSize, w.addressSize, 4, 4, 4, 4]

def pastSections (w : Width) (ss : List Section) (c : Cursor) : Cursor :=
  ss.foldl (fun c s => s.past w c) c

def past (w : Width) (g : Segment) (c : Cursor) : Cursor :=
  (pastSections w g.sections (c.readAll (fieldSizes w))).after 0
    (g.mislabelled.map fun s => .mislabelled s.name s.label g.name)

theorem segmentSize_eq (w : Width) :
    nameSize + w.addressSize + w.addressSize + w.addressSize + w.addressSize + 4 + 4 + 4 + 4 =
      w.segmentSize := by
  cases w <;> rfl

theorem length_sections (hss : ∀ s ∈ ss, s.Fits w) :
    (ss.flatMap (·.layout o w)).length = ss.length * w.sectionSize := by
  induction ss with
  | nil => simp
  | cons s ss ih =>
      have htail := ih fun x hx => hss x (List.mem_cons_of_mem s hx)
      rw [List.flatMap_cons, List.length_append, htail, List.length_cons, Nat.succ_mul,
        Section.length_layout (hss s List.mem_cons_self), Nat.add_comm]

theorem decodeSections_eq_ok_iff {n left : Nat} :
    decodeSections (.ofBytes D) o w n left c = .ok ss c' ↔
      ss.length = n ∧ n * w.sectionSize ≤ left ∧ (∀ s ∈ ss, s.Fits w) ∧
        Layout.StandsAt (ss.flatMap (·.layout o w)) D c.position ∧ c' = pastSections w ss c := by
  induction n generalizing left c c' ss with
  | zero =>
      rw [decodeSections, pure_eq_ok_iff]
      constructor
      · rintro ⟨rfl, rfl⟩
        simp [Layout.standsAt_nil, pastSections]
      · rintro ⟨hlen, -, -, -, rfl⟩
        rw [List.eq_nil_of_length_eq_zero hlen]
        exact ⟨rfl, rfl⟩
  | succ n ih =>
      rw [decodeSections, ite_throw_eq_ok_iff]
      simp only [bind_eq_ok_iff, Section.decode_eq_ok_iff, ih, pure_eq_ok_iff]
      constructor
      · rintro ⟨hroom, s, _, ⟨hs, hstands, rfl⟩, rest, _, ⟨hlen, hleft, hrest, hstandsRest, rfl⟩,
          rfl, rfl⟩
        have hcount : (n + 1) * w.sectionSize = n * w.sectionSize + w.sectionSize :=
          Nat.succ_mul n w.sectionSize
        refine ⟨congrArg (· + 1) hlen, by omega, List.forall_mem_cons.mpr ⟨hs, hrest⟩, ?_, rfl⟩
        rw [List.flatMap_cons, Layout.standsAt_append_iff, Section.length_layout hs]
        rw [Section.position_past] at hstandsRest
        exact ⟨hstands, hstandsRest⟩
      · rintro ⟨hlen, hleft, hss, hstands, rfl⟩
        have hcount : (n + 1) * w.sectionSize = n * w.sectionSize + w.sectionSize :=
          Nat.succ_mul n w.sectionSize
        cases ss with
        | nil => cases hlen
        | cons s rest =>
            obtain ⟨hs, hrest⟩ := List.forall_mem_cons.mp hss
            rw [List.flatMap_cons, Layout.standsAt_append_iff, Section.length_layout hs] at hstands
            rw [← Section.position_past w s c] at hstands
            exact ⟨by omega, s, _, ⟨hs, hstands.1, rfl⟩, rest, _,
              ⟨Nat.succ.inj hlen, by omega, hrest, hstands.2, rfl⟩, rfl, rfl⟩

theorem standsAt_layout_iff (hg : g.Fits w) {p : Nat} :
    (g.layout o w).StandsAt D p ↔
      (Layout.name g.name).StandsAt D p ∧
      (Layout.address o w g.address).StandsAt D (p + nameSize) ∧
      (Layout.address o w g.memorySize).StandsAt D (p + nameSize + w.addressSize) ∧
      (Layout.address o w g.fileOffset).StandsAt D
        (p + nameSize + w.addressSize + w.addressSize) ∧
      (Layout.address o w g.fileSize).StandsAt D
        (p + nameSize + w.addressSize + w.addressSize + w.addressSize) ∧
      (Layout.i32 o g.maxProtection).StandsAt D
        (p + nameSize + w.addressSize + w.addressSize + w.addressSize + w.addressSize) ∧
      (Layout.i32 o g.initialProtection).StandsAt D
        (p + nameSize + w.addressSize + w.addressSize + w.addressSize + w.addressSize + 4) ∧
      (Layout.u32 o g.sectionCount).StandsAt D
        (p + nameSize + w.addressSize + w.addressSize + w.addressSize + w.addressSize + 4 + 4) ∧
      (Layout.segmentFlags o g.flags).StandsAt D
        (p + nameSize + w.addressSize + w.addressSize + w.addressSize + w.addressSize
          + 4 + 4 + 4) ∧
      Layout.StandsAt (g.sections.flatMap (·.layout o w)) D (p + w.segmentSize) := by
  simp only [← segmentSize_eq, layout, Layout.standsAt_append_iff, List.length_append,
    Layout.length_name hg.name, Layout.length_address, Layout.length_i32, Layout.length_u32,
    Layout.length_segmentFlags, and_assoc, ← Nat.add_assoc]

theorem length_layout (hg : g.Fits w) : (g.layout o w).length = g.extent w := by
  have hsections := length_sections (o := o) hg.sections
  simp only [layout, List.length_append, Layout.length_name hg.name, Layout.length_address,
    Layout.length_i32, Layout.length_u32, Layout.length_segmentFlags, hsections,
    segmentSize_eq, extent]

theorem decode_eq_ok_iff {left : Nat} :
    Segment.decode (.ofBytes D) o w left c = .ok g c' ↔
      g.Fits w ∧ g.extent w ≤ left ∧ (g.layout o w).StandsAt D c.position ∧
        c' = g.past w c := by
  rw [Segment.decode, ite_throw_eq_ok_iff]
  simp only [Reader.name_bind_eq_ok_iff, Reader.address_bind_eq_ok_iff, Reader.i32_bind_eq_ok_iff,
    Reader.u32_bind_eq_ok_iff]
  simp only [bind_eq_ok_iff, decodeSections_eq_ok_iff, Scan.tellAll_eq_ok_iff, pure_eq_ok_iff]
  constructor
  · rintro ⟨hroom, name, ⟨hname, lname⟩, address, ⟨haddress, laddress⟩,
      memorySize, ⟨hmemorySize, lmemorySize⟩, fileOffset, ⟨hfileOffset, lfileOffset⟩,
      fileSize, ⟨hfileSize, lfileSize⟩, maxProtection, lmaxProtection,
      initialProtection, linitialProtection, sectionCount, lsectionCount, flags, lflags,
      sections, _, ⟨hcount, hleft, hsections, lsections, rfl⟩, _, _, rfl, rfl, rfl⟩
    have hg : Segment.Fits w ⟨name, address, memorySize, fileOffset, fileSize, maxProtection,
        initialProtection, sectionCount, .ofWord flags, sections⟩ :=
      ⟨hname, haddress, hmemorySize, hfileOffset, hfileSize, hcount.symm, hsections⟩
    refine ⟨hg, ?_, (standsAt_layout_iff hg).mpr ⟨lname, laddress, lmemorySize, lfileOffset,
      lfileSize, lmaxProtection, linitialProtection, lsectionCount,
      Layout.standsAt_segmentFlags_iff.mpr ⟨flags, lflags, rfl⟩, ?_⟩, rfl⟩
    · have hsum : w.segmentSize + sectionCount.toNat * w.sectionSize ≤ left := by omega
      rwa [← hcount] at hsum
    · simpa only [← segmentSize_eq, Cursor.position_read, ← Nat.add_assoc] using lsections
  · rintro ⟨hg, hleft, hstands, rfl⟩
    obtain ⟨lname, laddress, lmemorySize, lfileOffset, lfileSize, lmaxProtection,
      linitialProtection, lsectionCount, lflags, lsections⟩ :=
      (standsAt_layout_iff hg).mp hstands
    obtain ⟨word, lword, hword⟩ := Layout.standsAt_segmentFlags_iff.mp lflags
    rw [extent] at hleft
    refine ⟨by omega, g.name, ⟨hg.name, lname⟩, g.address, ⟨hg.address, laddress⟩,
      g.memorySize, ⟨hg.memorySize, lmemorySize⟩, g.fileOffset, ⟨hg.fileOffset, lfileOffset⟩,
      g.fileSize, ⟨hg.fileSize, lfileSize⟩, g.maxProtection, lmaxProtection,
      g.initialProtection, linitialProtection, g.sectionCount, lsectionCount, word, lword,
      g.sections, _, ⟨hg.sectionCount.symm, ?_, hg.sections, ?_, rfl⟩, (), _, rfl, ?_, ?_⟩
    · rw [← hg.sectionCount] at hleft
      omega
    · simpa only [← segmentSize_eq, Cursor.position_read, ← Nat.add_assoc] using lsections
    · rw [hword]
    · rfl

end Segment

end MachO
