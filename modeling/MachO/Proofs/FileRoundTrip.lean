import MachO.Proofs.Filler

namespace MachO

namespace Layout

variable {l m : Layout} {bs : List UInt8}

theorem admits_iff :
    l.admits bs = true ↔ bs.length = l.length ∧
      ∀ (i : Nat) (cell : Cell) (b : UInt8),
        l[i]? = some cell → bs[i]? = some b → cell.admits b = true := by
  induction l generalizing bs with
  | nil => cases bs <;> simp [admits]
  | cons c l ih =>
      cases bs with
      | nil => simp [admits]
      | cons b bs =>
          rw [admits, Bool.and_eq_true, ih, List.length_cons, List.length_cons, Nat.succ_inj]
          constructor
          · rintro ⟨hb, hlen, h⟩
            refine ⟨hlen, ?_⟩
            intro i cell b' hcell hb'
            cases i with
            | zero =>
                cases hcell
                cases hb'
                exact hb
            | succ i => exact h i cell b' hcell hb'
          · rintro ⟨hlen, h⟩
            exact ⟨h 0 c b rfl rfl, hlen, fun i cell b' => h (i + 1) cell b'⟩

/-- Every cell admits the value that it fills in. -/
def Sound (l : Layout) : Prop := ∀ cell ∈ l, cell.admits cell.value = true

theorem sound_append_iff : (l ++ m).Sound ↔ l.Sound ∧ m.Sound := by
  simp only [Sound, List.mem_append, or_imp, forall_and]

theorem sound_flatMap {α : Type} {xs : List α} {f : α → Layout} (h : ∀ x ∈ xs, (f x).Sound) :
    Sound (xs.flatMap f) := by
  intro cell hcell
  obtain ⟨x, hx, hmem⟩ := List.mem_flatMap.mp hcell
  exact h x hx cell hmem

theorem sound_ofBytes (bs : List UInt8) : (ofBytes bs).Sound := by
  intro cell hcell
  obtain ⟨b, -, rfl⟩ := List.mem_map.mp hcell
  exact Cell.admits_exact_iff.mpr rfl

theorem sound_free (n : Nat) : (free n).Sound := by
  intro cell hcell
  rw [List.eq_of_mem_replicate hcell]
  rfl

theorem sound_name (s : String) : (name s).Sound := by
  simp only [name]
  split
  · exact sound_append_iff.mpr ⟨sound_ofBytes _, sound_free _⟩
  · exact sound_ofBytes _

theorem sound_segmentFlags (o : ByteOrder) (f : SegmentFlags) : (segmentFlags o f).Sound := by
  have hcell : Sound [flagCell f] := by
    intro cell hmem
    rw [List.mem_singleton.mp hmem, admits_flagCell_iff]
    have hlt := f.bits.isLt
    have hbyte : (flagCell f).value.toNat = f.bits.toNat :=
      Nat.mod_eq_of_lt (Nat.lt_trans hlt (by decide))
    omega
  cases o with
  | little =>
      rw [segmentFlags_little]
      exact sound_append_iff (l := [flagCell f]).mpr ⟨hcell, sound_free 3⟩
  | big =>
      rw [segmentFlags_big]
      exact sound_append_iff.mpr ⟨sound_free 3, hcell⟩

end Layout

theorem Section.sound_layout (o : ByteOrder) (w : Width) (s : Section) : (s.layout o w).Sound := by
  obtain ⟨bs, hlayout⟩ := s.layout_eq o w
  simp only [hlayout, Layout.sound_append_iff]
  exact ⟨Layout.sound_name _, Layout.sound_name _, Layout.sound_ofBytes bs⟩

theorem Segment.sound_layout (o : ByteOrder) (w : Width) (g : Segment) : (g.layout o w).Sound := by
  obtain ⟨bs, -, hlayout⟩ := g.layout_eq o w
  simp only [hlayout, Layout.sound_append_iff]
  exact ⟨Layout.sound_name _, Layout.sound_ofBytes bs, Layout.sound_segmentFlags o _,
    Layout.sound_flatMap fun s _ => s.sound_layout o w⟩

theorem Command.sound_layout (o : ByteOrder) (command : Command) : (command.layout o).Sound := by
  have hbody : (command.content.layout o).Sound := by
    cases command.content with
    | segment w g => exact g.sound_layout o w
    | other id size => exact nofun
  simp only [layout, Layout.sound_append_iff]
  exact ⟨⟨⟨Layout.sound_ofBytes _, Layout.sound_ofBytes _⟩, hbody⟩, Layout.sound_free _⟩

namespace File

variable {f : File} {bytes D : List UInt8} {c : Cursor}

theorem sound_layout (f : File) : f.layout.Sound := by
  obtain ⟨bs, -, hlayout⟩ := f.header.layout_eq f.format.order f.format.width
  have hlast : (Header.lastLayout f.format.width).Sound := by
    cases f.format.width with
    | bits32 => exact nofun
    | bits64 => exact Layout.sound_free 4
  simp only [layout, hlayout, Layout.sound_append_iff]
  exact ⟨⟨Layout.sound_ofBytes _, Layout.sound_ofBytes bs, hlast⟩,
    Layout.sound_flatMap fun command _ => command.sound_layout f.format.order⟩

/-- The bytes that a file is written as, filler and unknown flags being zero. -/
def encode (f : File) : List UInt8 := f.layout.fill

/-- The bytes are what the file is written as, with any filler. -/
def EncodedBy (f : File) (bytes : List UInt8) : Prop :=
  bytes.length = f.encode.length ∧ ∀ i, ¬ f.Filler i → bytes[i]? = f.encode[i]?

theorem length_encode (hf : f.Fits) : f.encode.length = f.extent := by
  rw [encode, Layout.fill, List.length_map, length_layout hf]

theorem admits_of_encodedBy (hf : f.Fits) (h : f.EncodedBy bytes) :
    f.layout.admits bytes = true := by
  obtain ⟨hlen, hsame⟩ := h
  rw [Layout.admits_iff]
  refine ⟨by rw [hlen, encode, Layout.fill, List.length_map], ?_⟩
  intro i cell b hcell hb
  rcases Classical.em (f.Filler i) with hfiller | hfiller
  · rw [getElem?_of_filler hf hfiller] at hcell
    cases hcell
    exact Cell.admits_free b
  · rw [hsame i hfiller, encode, Layout.fill, List.getElem?_map, hcell] at hb
    cases hb
    exact f.sound_layout cell (List.mem_of_getElem? hcell)

theorem admits_encode (hf : f.Fits) : f.layout.admits f.encode = true :=
  admits_of_encodedBy hf ⟨rfl, fun _ _ => rfl⟩

def ofParts (format : Format) (header : Header) (commands : List Command) : File :=
  ⟨{ header with magic := format.magic }, format, commands⟩

/-- Decoding undoes encoding: whatever the format, the filler and the bytes after the last load
command, the header and the load commands that were written are read. -/
theorem decode_encodedBy (header : Header) (commands : List Command)
    (hcount : header.commandCount.toNat = commands.length)
    (hcommands : ∀ command ∈ commands, command.Fits) :
    (∀ format bytes tail, (ofParts format header commands).EncodedBy bytes →
      ∃ c, File.decode (.ofBytes (bytes ++ tail)) .start =
          .ok (ofParts format header commands) c ∧ c.position = bytes.length) ∧
    ∀ (format format' : Format) (bytes bytes' tail tail' : List UInt8) (f f' : File)
      (c c' : Cursor), (ofParts format header commands).EncodedBy bytes →
      (ofParts format' header commands).EncodedBy bytes' →
      File.decode (.ofBytes (bytes ++ tail)) .start = .ok f c →
      File.decode (.ofBytes (bytes' ++ tail')) .start = .ok f' c' →
      f.format = format ∧ f'.format = format' ∧ f'.commands = f.commands ∧
        f'.header = { f.header with magic := f'.header.magic } := by
  have hdecode : ∀ format bytes tail, (ofParts format header commands).EncodedBy bytes →
      ∃ c, File.decode (.ofBytes (bytes ++ tail)) .start =
          .ok (ofParts format header commands) c ∧ c.position = bytes.length := by
    intro format bytes tail hbytes
    have hf : (ofParts format header commands).Fits := ⟨rfl, hcount, hcommands⟩
    have hstands := Layout.standsAt_of_admits (admits_of_encodedBy hf hbytes) tail
    refine ⟨_, decode_eq_ok_iff.mpr ⟨hf, hstands, rfl⟩, ?_⟩
    rw [position_past, hbytes.1, length_encode hf]
    exact Nat.zero_add _
  refine ⟨hdecode, ?_⟩
  intro format format' bytes bytes' tail tail' f f' c c' hbytes hbytes' h h'
  obtain ⟨_, hread, -⟩ := hdecode format bytes tail hbytes
  obtain ⟨_, hread', -⟩ := hdecode format' bytes' tail' hbytes'
  rw [h] at hread
  rw [h'] at hread'
  cases hread
  cases hread'
  exact ⟨rfl, rfl, rfl, rfl⟩

theorem decode_narrowInWide_big :
    narrowInWide.header.commandCount.toNat = narrowInWide.commands.length ∧
    (∀ command ∈ narrowInWide.commands, command.Fits) ∧
    let written := ofParts ⟨.bits64, .big⟩ narrowInWide.header narrowInWide.commands
    ∃ c, File.decode (.ofBytes (written.encode ++ [1, 2, 3])) .start = .ok written c ∧
      c.position = written.encode.length :=
  ⟨by decide, by decide,
    (decode_encodedBy narrowInWide.header narrowInWide.commands (by decide) (by decide)).1
      ⟨.bits64, .big⟩ _ [1, 2, 3] ⟨rfl, fun _ _ => rfl⟩⟩

theorem exists_flags (hf : f.Fits) {q : Nat} (h : f.FlagWord q) :
    ∃ flags : SegmentFlags, ∀ D, f.layout.StandsAt D 0 →
      q + 4 ≤ D.length ∧ f.format.order.decode (window D q 4) % 16 = flags.bits.toNat := by
  obtain ⟨k, command, hk, w, g, hcontent, hq⟩ := h
  have hcommand := hf.commands command (List.mem_of_getElem? hk)
  have hcontentFits := hcommand.content
  rw [hcontent] at hcontentFits
  refine ⟨g.flags, ?_⟩
  intro D hstands
  have hbody := ((Command.standsAt_layout_iff hcommand).mp (standsAt_command hf hstands hk)).2.2.1
  rw [hcontent] at hbody
  obtain ⟨-, -, -, -, -, -, -, -, hflags, -⟩ :=
    (Segment.standsAt_layout_iff hcontentFits.1).mp hbody
  have hsize := Segment.segmentSize_eq w
  have hstart : f.commandStart k + Command.headSize + nameSize + w.addressSize + w.addressSize
      + w.addressSize + w.addressSize + 4 + 4 + 4 = q := by omega
  rw [hstart] at hflags
  have hinside := Layout.le_of_standsAt (by simp) hflags
  rw [Layout.length_segmentFlags] at hinside
  rw [Layout.StandsAt, Layout.length_segmentFlags, Layout.admits_segmentFlags_iff] at hflags
  exact ⟨hinside, hflags.2⟩

theorem getElem?_eq_encode (hf : f.Fits) (h : f.layout.StandsAt D 0) {i : Nat}
    (hi : i < f.extent) (hfiller : ¬ f.Filler i) (hflag : ¬ f.FlagByte i) :
    D[i]? = f.encode[i]? := by
  have hlen : i < f.layout.length := by rwa [length_layout hf]
  obtain ⟨cell, hcell⟩ : ∃ cell, f.layout[i]? = some cell := ⟨_, List.getElem?_eq_getElem hlen⟩
  have hmask : cell.mask = 0xFF := by
    rcases filler_of_getElem? hf hcell with hmask | hmem | hmem
    · exact hmask
    · exact absurd hmem hfiller
    · exact absurd hmem hflag
  obtain ⟨hwindow, hadmits⟩ := Layout.admits_iff.mp h
  rw [window, List.drop_zero] at hwindow hadmits
  have hbyte : (D.take f.layout.length)[i]? = D[i]? := by
    rw [List.getElem?_take, if_pos hlen]
  have hsome : i < (D.take f.layout.length).length := by omega
  obtain ⟨b, hb⟩ : ∃ b, D[i]? = some b :=
    ⟨_, hbyte.symm.trans (List.getElem?_eq_getElem hsome)⟩
  rw [hb, encode, Layout.fill, List.getElem?_map, hcell,
    (Cell.admits_of_mask hmask).mp (hadmits i cell b hcell (hbyte.trans hb))]
  rfl

/-- Encoding undoes decoding: what a file was read from is what the file is written as, but for
filler and for the unknown flags of segments. -/
theorem encode_of_decode (h : File.decode (.ofBytes D) .start = .ok f c) :
    f.encode.length = c.position ∧ c.position ≤ D.length ∧
    (∀ i < c.position, ¬ f.Filler i → ¬ f.FlagByte i → D[i]? = f.encode[i]?) ∧
    (∀ q, f.FlagWord q → q + 4 ≤ c.position ∧
      f.format.order.decode (window D q 4) % 16 =
        f.format.order.decode (window f.encode q 4) % 16) ∧
    ∀ D' c', File.decode (.ofBytes D') .start = .ok f c' → c'.position = c.position ∧
      (∀ i < c.position, ¬ f.Filler i → ¬ f.FlagByte i → D'[i]? = D[i]?) ∧
      ∀ q, f.FlagWord q → f.format.order.decode (window D' q 4) % 16 =
        f.format.order.decode (window D q 4) % 16 := by
  obtain ⟨hf, hstands, rfl⟩ := decode_eq_ok_iff.mp h
  have hself : f.layout.StandsAt f.encode 0 := by
    have := Layout.standsAt_of_admits (admits_encode hf) []
    rwa [List.append_nil] at this
  have hposition : (f.past .start).position = f.extent :=
    (f.position_past .start).trans (Nat.zero_add _)
  have hinside : f.extent ≤ D.length := by
    have hpos : 0 < f.layout.length := by
      rw [length_layout hf, extent, headSize, magicSize]
      omega
    have hle := Layout.le_of_standsAt hpos hstands
    rw [length_layout hf] at hle
    exact Nat.le_trans (Nat.le_add_left _ _) hle
  refine ⟨(length_encode hf).trans hposition.symm, hposition.symm ▸ hinside, ?_, ?_, ?_⟩
  · rw [hposition]
    exact fun i hi => getElem?_eq_encode hf hstands hi
  · intro q hq
    obtain ⟨flags, hflags⟩ := exists_flags hf hq
    obtain ⟨hend, hencode⟩ := hflags f.encode hself
    rw [length_encode hf] at hend
    exact ⟨hposition.symm ▸ hend, (hflags D hstands).2.trans hencode.symm⟩
  · intro D' c' h'
    obtain ⟨-, hstands', rfl⟩ := decode_eq_ok_iff.mp h'
    refine ⟨rfl, ?_, ?_⟩
    · rw [hposition]
      intro i hi hfiller hflag
      rw [getElem?_eq_encode hf hstands hi hfiller hflag,
        getElem?_eq_encode hf hstands' hi hfiller hflag]
    · intro q hq
      obtain ⟨flags, hflags⟩ := exists_flags hf hq
      rw [(hflags D' hstands').2, (hflags D hstands).2]

theorem encode_narrowInWide :
    ∃ c, File.decode (.ofBytes narrowInWideBytes) .start = .ok narrowInWide c ∧
      narrowInWide.encode.length = c.position ∧
      narrowInWideBytes.take c.position ≠ narrowInWide.encode := by
  obtain ⟨c, hread, hposition⟩ := decode_narrowInWide
  refine ⟨c, hread, (encode_of_decode hread).1, ?_⟩
  rw [hposition]
  decide +kernel

end File

end MachO
