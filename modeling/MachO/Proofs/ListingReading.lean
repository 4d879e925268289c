import MachO.Proofs.FileDecoding
import MachO.Proofs.LineReading

namespace MachO

open Text Listing

/-- What the listing of a section shows: all but its third reserved field. -/
def Section.listed (s : Section) : Section := { s with reserved3 := 0 }

def Segment.listed (g : Segment) : Segment := { g with sections := g.sections.map (·.listed) }

def Command.listed (command : Command) : Command :=
  match command.content with
  | .segment w g => ⟨.segment w g.listed, command.size⟩
  | .other .. => command

theorem eight_le_addressDigits (w : Width) : 8 ≤ addressDigits w := by
  cases w <;> decide

theorem Section.listing_append (w : Width) (owner : String) (s : Section) (r : String) :
    s.listing w owner ++ r = "Section\n" ++ (field "  sectname" s.name ++
      (field "   segname" (s.label ++ remark (owner != s.label) "does not match segment") ++
      (hexField "      addr" (addressDigits w) s.address.toNat ++
      (hexField "      size" (addressDigits w) s.size.toNat ++
      (decimalField "    offset" s.offset.toNat ++
      (field "     align" ("2^" ++ (decimal s.alignment.toNat ++
        (" (" ++ (decimal (powerOfTwo s.alignment) ++ ")")))) ++
      (decimalField "    reloff" s.relocationOffset.toNat ++
      (decimalField "    nreloc" s.relocationCount.toNat ++
      (hexField "     flags" 8 s.flags.bits.toNat ++
      (field " reserved1" (decimal s.reserved1.toNat ++
        remark s.flags.indexesSymbols "index into indirect symbol table") ++
      (field " reserved2" (decimal s.reserved2.toNat ++
        remark s.flags.holdsStubs "size of stubs") ++ r))))))))))) := by
  unfold Section.listing
  simp only [String.append_assoc]

theorem Section.legible (w : Width) (owner : String) :
    Legible (fun s => s.Fits w ∧ '\n' ∉ s.name.toList) (fun s => s.listing w owner)
      Section.listed := by
  intro s t hs ht r r' h
  dsimp only at h
  rw [Section.listing_append, Section.listing_append] at h
  have hlines := (String.append_right_inj _).mp h
  obtain ⟨hname, h⟩ := field_inj hs.2 ht.2 hlines
  obtain ⟨hlabel, haddress, h⟩ := labelField_inj (eight_le_addressDigits w) hs.1.label.length_le
    ht.1.label.length_le h
  obtain ⟨hsize, h⟩ := hexField_inj h
  obtain ⟨hoffset, h⟩ := decimalField_inj h
  obtain ⟨halignment, h⟩ := powerField_inj h
  obtain ⟨hrelocationOffset, h⟩ := decimalField_inj h
  obtain ⟨hrelocationCount, h⟩ := decimalField_inj h
  obtain ⟨hflags, h⟩ := hexField_inj h
  obtain ⟨hreserved1, h⟩ := remarkField_inj (by decide) h
  obtain ⟨hreserved2, h⟩ := remarkField_inj (by decide) h
  have hflags' : s.flags = t.flags := congrArg SectionFlags.mk (UInt32.toNat_inj.mp hflags)
  refine ⟨?_, h⟩
  rw [Section.listed, Section.listed, hname, hlabel, UInt64.toNat_inj.mp haddress,
    UInt64.toNat_inj.mp hsize, UInt32.toNat_inj.mp hoffset, UInt32.toNat_inj.mp halignment,
    UInt32.toNat_inj.mp hrelocationOffset, UInt32.toNat_inj.mp hrelocationCount, hflags',
    UInt32.toNat_inj.mp hreserved1, UInt32.toNat_inj.mp hreserved2]

theorem Segment.listing_append (w : Width) (g : Segment) (r : String) :
    g.listing w ++ r = field "  segname" g.name ++
      (hexField "   vmaddr" (addressDigits w) g.address.toNat ++
      (hexField "   vmsize" (addressDigits w) g.memorySize.toNat ++
      (decimalField "  fileoff" g.fileOffset.toNat ++
      (decimalField " filesize" g.fileSize.toNat ++
      (hexField "  maxprot" 8 g.maxProtection.toUInt32.toNat ++
      (hexField " initprot" 8 g.initialProtection.toUInt32.toNat ++
      (decimalField "   nsects" g.sections.length ++
      (hexField "    flags" 1 g.flags.toWord.toNat ++
      (String.join (g.sections.map fun s => s.listing w g.name) ++ r))))))))) := by
  unfold Segment.listing
  simp only [String.append_assoc]

structure Segment.NamesInLine (g : Segment) : Prop where
  name : '\n' ∉ g.name.toList
  sections : ∀ s ∈ g.sections, '\n' ∉ s.name.toList

instance (g : Segment) : Decidable g.NamesInLine :=
  decidable_of_iff ('\n' ∉ g.name.toList ∧ ∀ s ∈ g.sections, '\n' ∉ s.name.toList)
    ⟨fun ⟨h₁, h₂⟩ => ⟨h₁, h₂⟩, fun ⟨h₁, h₂⟩ => ⟨h₁, h₂⟩⟩

theorem Segment.legible (w : Width) :
    Legible (fun g => g.Fits w ∧ g.NamesInLine) (fun g => g.listing w) Segment.listed := by
  intro g k hg hk r r' h
  dsimp only at h
  rw [Segment.listing_append, Segment.listing_append] at h
  obtain ⟨hname, h⟩ := field_inj hg.2.name hk.2.name h
  obtain ⟨haddress, h⟩ := hexField_inj h
  obtain ⟨hmemorySize, h⟩ := hexField_inj h
  obtain ⟨hfileOffset, h⟩ := decimalField_inj h
  obtain ⟨hfileSize, h⟩ := decimalField_inj h
  obtain ⟨hmaxProtection, h⟩ := hexField_inj h
  obtain ⟨hinitialProtection, h⟩ := hexField_inj h
  obtain ⟨hlength, h⟩ := decimalField_inj h
  obtain ⟨hflags, h⟩ := hexField_inj h
  rw [← hname] at h
  obtain ⟨hsections, hr⟩ := (Section.legible w g.name).join
    (fun s hs => ⟨hg.1.sections s hs, hg.2.sections s hs⟩)
    (fun s hs => ⟨hk.1.sections s hs, hk.2.sections s hs⟩) hlength h
  -- The sections are counted in the listing, and the segment announces as many as it has.
  have hcount : g.sectionCount.toNat = k.sectionCount.toNat := by
    rw [hg.1.sectionCount, hlength, hk.1.sectionCount]
  have hmaxProtection' : g.maxProtection = k.maxProtection :=
    congrArg Int32.ofUInt32 (UInt32.toNat_inj.mp hmaxProtection)
  have hinitialProtection' : g.initialProtection = k.initialProtection :=
    congrArg Int32.ofUInt32 (UInt32.toNat_inj.mp hinitialProtection)
  have hflags' : g.flags = k.flags := by
    rw [← SegmentFlags.ofWord_toWord g.flags, UInt32.toNat_inj.mp hflags,
      SegmentFlags.ofWord_toWord]
  refine ⟨?_, hr⟩
  rw [Segment.listed, Segment.listed, hname, UInt64.toNat_inj.mp haddress,
    UInt64.toNat_inj.mp hmemorySize, UInt64.toNat_inj.mp hfileOffset,
    UInt64.toNat_inj.mp hfileSize, hmaxProtection', hinitialProtection',
    UInt32.toNat_inj.mp hcount, hflags', hsections]

def Command.NamesInLine (command : Command) : Prop :=
  ∀ g, command.content.segment? = some g → g.NamesInLine

/-- What the first line of a listing calls the load command. -/
def LoadCommand.heading : LoadCommand → String
  | .segment w g => (LoadCommand.segment w g).name
  | .other id _ => "0x" ++ hexPadded 8 id.toNat

def LoadCommand.body : LoadCommand → String
  | .segment w g => g.listing w
  | .other .. => ""

theorem LoadCommand.newline_notMem_heading (content : LoadCommand) :
    '\n' ∉ content.heading.toList := by
  cases content with
  | segment w g =>
      cases w with
      | bits32 => exact (by decide : '\n' ∉ "LC_SEGMENT".toList)
      | bits64 => exact (by decide : '\n' ∉ "LC_SEGMENT_64".toList)
  | other id declared =>
      exact newline_notMem_append (by decide) (isWord_hexPadded 8 id.toNat).newline_notMem

theorem LoadCommand.width_eq_of_heading {w w' : Width} {g g' : Segment}
    (h : (LoadCommand.segment w g).heading = (LoadCommand.segment w' g').heading) : w = w' := by
  have hne : "LC_SEGMENT" ≠ "LC_SEGMENT_64" := by decide
  cases w with
  | bits32 =>
      cases w' with
      | bits32 => rfl
      | bits64 => exact absurd h hne
  | bits64 =>
      cases w' with
      | bits32 => exact absurd h.symm hne
      | bits64 => rfl

theorem LoadCommand.heading_ne (w : Width) (g : Segment) (id declared : UInt32) :
    (LoadCommand.segment w g).heading ≠ (LoadCommand.other id declared).heading := by
  have hsegment : (LoadCommand.segment w g).heading.toList.head? = some 'L' := by
    cases w with
    | bits32 => exact (by decide : "LC_SEGMENT".toList.head? = some 'L')
    | bits64 => exact (by decide : "LC_SEGMENT_64".toList.head? = some 'L')
  have hother : (LoadCommand.other id declared).heading.toList.head? = some '0' := by
    rw [heading, String.toList_append]
    rfl
  intro h
  rw [h, hother] at hsegment
  cases hsegment

theorem Command.listing_append (command : Command) (r : String) :
    command.listing ++ r = field "      cmd" command.content.heading ++
      (decimalField "  cmdsize" command.size ++ (command.content.body ++ r)) := by
  obtain ⟨content, size⟩ := command
  cases content with
  | segment w g =>
      simp only [listing, LoadCommand.heading, LoadCommand.body, String.append_assoc]
  | other id declared =>
      simp only [listing, hexField, LoadCommand.heading, LoadCommand.body, String.append_assoc,
        String.empty_append]

theorem Command.legible :
    Legible (fun command => command.Fits ∧ command.NamesInLine) Command.listing
      Command.listed := by
  intro a b ha hb r r' h
  rw [listing_append, listing_append] at h
  obtain ⟨hheading, h⟩ := field_inj a.content.newline_notMem_heading
    b.content.newline_notMem_heading h
  obtain ⟨hsize, h⟩ := decimalField_inj h
  obtain ⟨content, size⟩ := a
  obtain ⟨content', size'⟩ := b
  cases hsize
  cases content with
  | segment w g =>
      cases content' with
      | segment w' g' =>
          obtain rfl := LoadCommand.width_eq_of_heading hheading
          obtain ⟨hlisted, hr⟩ :=
            Segment.legible w ⟨ha.1.content.1, ha.2 g rfl⟩ ⟨hb.1.content.1, hb.2 g' rfl⟩ h
          exact ⟨congrArg (fun g => (⟨.segment w g, size⟩ : Command)) hlisted, hr⟩
      | other id declared => exact absurd hheading (LoadCommand.heading_ne w g id declared)
  | other id declared =>
      cases content' with
      | segment w g => exact absurd hheading.symm (LoadCommand.heading_ne w g id declared)
      | other id' declared' =>
          have hid : id = id' := UInt32.toNat_inj.mp
            (hexPadded_inj.mp ((String.append_right_inj "0x").mp hheading))
          -- The size is listed once, and the command's own account of it is the same.
          have hdeclared : declared = declared' := UInt32.toNat_inj.mp
            (ha.1.content.2.trans hb.1.content.2.symm)
          rw [hid, hdeclared]
          exact ⟨rfl, (String.append_right_inj "").mp h⟩

theorem Header.listing_append (h : Header) (r : String) :
    h.listing ++ r = "Mach header\n" ++ (headerColumns ++ (" 0x" ++ (hexPadded 8 h.magic.toNat ++
      (" " ++ (padLeft ' ' 7 (signed h.cpuType.toInt) ++
      (" " ++ (padLeft ' ' 10 (signed h.subtypeNumber.toInt) ++
      ("  0x" ++ (hexPadded 2 h.capabilities.toUInt32.toNat ++
      ("  " ++ (padLeft ' ' 10 (decimal h.fileType.toNat) ++
      (" " ++ (padLeft ' ' 5 (decimal h.commandCount.toNat) ++
      (" " ++ (padLeft ' ' 10 (decimal h.commandsSize.toNat) ++
      (" 0x" ++ (hexPadded 8 h.flags.toNat ++ ("\n" ++ r)))))))))))))))))) := by
  unfold Header.listing
  simp only [String.append_assoc]

theorem int32_eq_of_parts {x y : Int32} (hlow : x &&& 0x00FFFFFF = y &&& 0x00FFFFFF)
    (hhigh : x >>> 24 = y >>> 24) : x = y := by
  have hlow' : x.toBitVec &&& 0x00FFFFFF#32 = y.toBitVec &&& 0x00FFFFFF#32 :=
    congrArg Int32.toBitVec hlow
  have hhigh' : x.toBitVec.sshiftRight 24 = y.toBitVec.sshiftRight 24 :=
    congrArg Int32.toBitVec hhigh
  apply Int32.toBitVec_inj.mp
  apply BitVec.eq_of_getLsbD_eq
  intro i hi
  rcases Nat.lt_or_ge i 24 with h | h
  · have hmask : ∀ i < 24, (0x00FFFFFF#32).getLsbD i = true := by decide
    have hbit := congrArg (BitVec.getLsbD · i) hlow'
    simpa [hmask i h] using hbit
  · have hbit := congrArg (BitVec.getLsbD · (i - 24)) hhigh'
    have hlt : i - 24 < 32 := by omega
    have hplace : 24 + (i - 24) = i := by omega
    simpa [BitVec.getLsbD_sshiftRight, hplace, hi, Nat.not_le.mpr hlt] using hbit

theorem Header.legible : Legible (fun _ => True) Header.listing id := by
  intro h k _ _ r r' htext
  rw [listing_append, listing_append] at htext
  simp only [String.append_right_inj] at htext
  obtain ⟨hmagic, htext⟩ := word_inj (by decide) (isWord_hexPadded 8 _) (isWord_hexPadded 8 _) htext
  obtain ⟨hcpuType, htext⟩ := column_inj (by decide) (isWord_signed _) (isWord_signed _) htext
  obtain ⟨hnumber, htext⟩ := column_inj (by decide) (isWord_signed _) (isWord_signed _) htext
  obtain ⟨hcapabilities, htext⟩ :=
    word_inj (by decide) (isWord_hexPadded 2 _) (isWord_hexPadded 2 _) htext
  obtain ⟨hfileType, htext⟩ := column_inj (by decide) (isWord_decimal _) (isWord_decimal _) htext
  obtain ⟨hcount, htext⟩ := column_inj (by decide) (isWord_decimal _) (isWord_decimal _) htext
  obtain ⟨hsize, htext⟩ := column_inj (by decide) (isWord_decimal _) (isWord_decimal _) htext
  obtain ⟨hflags, hr⟩ := word_inj (by decide) (isWord_hexPadded 8 _) (isWord_hexPadded 8 _) htext
  have hcpuSubtype : h.cpuSubtype = k.cpuSubtype := by
    apply int32_eq_of_parts
    · exact Int32.toInt_inj.mp (signed_inj.mp hnumber)
    · exact congrArg Int32.ofUInt32 (UInt32.toNat_inj.mp (hexPadded_inj.mp hcapabilities))
  refine ⟨?_, hr⟩
  cases h
  cases k
  rw [id, id, Header.mk.injEq]
  exact ⟨UInt32.toNat_inj.mp (hexPadded_inj.mp hmagic),
    Int32.toInt_inj.mp (signed_inj.mp hcpuType), hcpuSubtype,
    UInt32.toNat_inj.mp (decimal_inj.mp hfileType), UInt32.toNat_inj.mp (decimal_inj.mp hcount),
    UInt32.toNat_inj.mp (decimal_inj.mp hsize), UInt32.toNat_inj.mp (hexPadded_inj.mp hflags)⟩

/-- No segment of the file, and no section of it, has an end of line in its name. -/
def File.NamesInLine (f : File) : Prop := ∀ g ∈ f.segments, g.NamesInLine

instance (f : File) : Decidable f.NamesInLine :=
  inferInstanceAs (Decidable (∀ g ∈ f.segments, g.NamesInLine))

theorem Section.listing_listed (w : Width) (owner : String) (s : Section) :
    s.listed.listing w owner = s.listing w owner := by
  unfold Section.listing
  rfl

theorem Segment.listing_listed (w : Width) (g : Segment) : g.listed.listing w = g.listing w := by
  have hsections : (g.sections.map (·.listed)).map (·.listing w g.name) =
      g.sections.map (·.listing w g.name) := by
    rw [List.map_map]
    exact List.map_congr_left fun s _ => Section.listing_listed w g.name s
  unfold Segment.listing
  rw [listed, hsections, List.length_map]

theorem Command.listing_listed (command : Command) :
    command.listed.listing = command.listing := by
  obtain ⟨content, size⟩ := command
  cases content with
  | segment w g =>
      have hname : (LoadCommand.segment w g.listed).name = (LoadCommand.segment w g).name := by
        cases w <;> rfl
      simp only [listed, listing, Segment.listing_listed, hname]
  | other id declared => rfl

namespace File

variable {D D' : List UInt8} {f f' : File} {c c' : Cursor}

theorem command_namesInLine (h : f.NamesInLine) {command : Command} (hmem : command ∈ f.commands) :
    command.NamesInLine :=
  fun g hg => h g (List.mem_filterMap.mpr ⟨command, hmem, hg⟩)

/-- Files have the same listing exactly when they agree in all but the third reserved fields of
their sections, as long as no segment and no section has an end of line in its name. -/
theorem listing_eq_iff (h : File.decode (.ofBytes D) .start = .ok f c)
    (h' : File.decode (.ofBytes D') .start = .ok f' c') (hnames : f.NamesInLine)
    (hnames' : f'.NamesInLine) :
    String.join f.listing = String.join f'.listing ↔
      f.header = f'.header ∧ f.format = f'.format ∧
        f.commands.map (·.listed) = f'.commands.map (·.listed) := by
  obtain ⟨hf, -, -⟩ := decode_eq_ok_iff.mp h
  obtain ⟨hf', -, -⟩ := decode_eq_ok_iff.mp h'
  rw [listing, listing, String.join_cons, String.join_cons]
  constructor
  · intro htext
    obtain ⟨hheader, hcommands⟩ := Header.legible trivial trivial htext
    have hheader' : f.header = f'.header := hheader
    have hformat : f.format = f'.format := by
      have hmagic : f.format.magic = f'.format.magic := by
        rw [← hf.magic, hheader', hf'.magic]
      rw [← Option.some_inj, ← Format.ofMagic?_magic, hmagic, Format.ofMagic?_magic]
    have hlength : f.commands.length = f'.commands.length := by
      rw [← hf.commandCount, hheader', hf'.commandCount]
    obtain ⟨hlisted, -⟩ := Command.legible.join
      (fun command hmem => ⟨hf.commands command hmem, command_namesInLine hnames hmem⟩)
      (fun command hmem => ⟨hf'.commands command hmem, command_namesInLine hnames' hmem⟩)
      hlength (congrArg (· ++ "") hcommands)
    exact ⟨hheader', hformat, hlisted⟩
  · rintro ⟨hheader, -, hlisted⟩
    have hlistings : ∀ commands : List Command,
        commands.map (·.listing) = (commands.map (·.listed)).map (·.listing) := by
      intro commands
      rw [List.map_map]
      exact List.map_congr_left fun command _ => (Command.listing_listed command).symm
    rw [hheader, hlistings, hlisted, ← hlistings]

def labelled (label : String) (reserved3 : UInt32) : File where
  header := ⟨0xFEEDFACF, 7, -0x7FFFFFFD, 2, 1, 152, 0⟩
  format := ⟨.bits64, .little⟩
  commands :=
    [⟨.segment .bits64 ⟨"__TEXT", 0x1000, 16, 0, 16, 5, 5, 1, ⟨1⟩,
        [⟨"__text", label, 0x1000, 4, 128, 2, 0, 0, ⟨8⟩, 1, 6, reserved3⟩]⟩, 152⟩]

theorem listing_eq_iff_labelled :
    let long := labelled "DATA\n      addr" 7
    let other := labelled "DATA\n      addr" 9
    let short := labelled "DATA" 7
    (∃ c, File.decode (.ofBytes long.layout.fill) .start = .ok long c) ∧
    long.NamesInLine ∧ other.NamesInLine ∧ short.NamesInLine ∧
    String.join long.listing = String.join other.listing ∧
    String.join long.listing ≠ String.join short.listing := by
  intro long other short
  have hread : ∀ f ∈ [long, other, short],
      ∃ c, File.decode (.ofBytes f.layout.fill) .start = .ok f c := by
    intro f hf
    have hall : ∀ f ∈ [long, other, short], f.Fits ∧ f.layout.StandsAt f.layout.fill 0 := by
      decide +kernel
    exact ⟨_, decode_eq_ok_iff.mpr ⟨(hall f hf).1, (hall f hf).2, rfl⟩⟩
  have hlong : long.NamesInLine := by decide
  have hother : other.NamesInLine := by decide
  have hshort : short.NamesInLine := by decide
  obtain ⟨c, h⟩ := hread long (by decide)
  obtain ⟨c', h'⟩ := hread other (by decide)
  obtain ⟨c'', h''⟩ := hread short (by decide)
  refine ⟨⟨c, h⟩, hlong, hother, hshort, ?_, ?_⟩
  · exact (listing_eq_iff h h' hlong hother).mpr ⟨rfl, rfl, rfl⟩
  · intro htext
    have hcommands := ((listing_eq_iff h h'' hlong hshort).mp htext).2.2
    exact absurd hcommands (by decide)

end File

end MachO
