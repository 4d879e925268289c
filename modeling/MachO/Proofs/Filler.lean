import MachO.Proofs.FileDecoding

namespace MachO

/-- The byte at `i` follows the zero byte that ends the text of the field at `p`. -/
def NameTail (s : String) (p i : Nat) : Prop :=
  p + (Text.Utf8.encode s).length < i ∧ i < p + nameSize

/-- The byte at `i` is filler of the section whose header starts at `p`. -/
def Section.Filler (s : Section) (p i : Nat) : Prop :=
  NameTail s.name p i ∨ NameTail s.label (p + nameSize) i

def Segment.sectionStart (w : Width) (p k : Nat) : Nat :=
  p + w.segmentSize + k * w.sectionSize

def Segment.Filler (w : Width) (g : Segment) (p i : Nat) : Prop :=
  NameTail g.name p i ∨ ∃ (k : Nat) (s : Section), g.sections[k]? = some s ∧
    s.Filler (sectionStart w p k) i

def Command.Filler (command : Command) (p i : Nat) : Prop :=
  match command.content with
  | .segment w g =>
      g.Filler w (p + headSize) i ∨ p + headSize + g.extent w ≤ i ∧ i < p + command.size
  | .other .. => p + headSize ≤ i ∧ i < p + command.size

/-- The word of segment flags in the load command that starts at `p` starts at `q`. -/
def Command.FlagWord (command : Command) (p q : Nat) : Prop :=
  ∃ w g, command.content = .segment w g ∧ q + 4 = p + headSize + w.segmentSize

namespace File

def commandStart (f : File) (k : Nat) : Nat :=
  headSize f.format.width + Command.totalSize (f.commands.take k)

def Reserved (w : Width) (i : Nat) : Prop :=
  w = .bits64 ∧ headSize w ≤ i + 4 ∧ i < headSize w

def Filler (f : File) (i : Nat) : Prop :=
  Reserved f.format.width i ∨
    ∃ (k : Nat) (command : Command), f.commands[k]? = some command ∧
      command.Filler (f.commandStart k) i

def FlagWord (f : File) (q : Nat) : Prop :=
  ∃ (k : Nat) (command : Command), f.commands[k]? = some command ∧
    command.FlagWord (f.commandStart k) q

def FlagByte (f : File) (i : Nat) : Prop := ∃ q, f.FlagWord q ∧ q ≤ i ∧ i < q + 4

end File

theorem getElem?_flatMap_iff {α β : Type} {xs : List α} {f : α → List β} {i : Nat} {b : β} :
    (xs.flatMap f)[i]? = some b ↔
      ∃ k x, xs[k]? = some x ∧ ((xs.take k).flatMap f).length ≤ i ∧
        (f x)[i - ((xs.take k).flatMap f).length]? = some b := by
  induction xs generalizing i with
  | nil => simp
  | cons x xs ih =>
      rw [List.flatMap_cons, List.getElem?_append]
      constructor
      · intro h
        split at h
        · exact ⟨0, x, rfl, Nat.zero_le i, h⟩
        · rename_i hge
          obtain ⟨k, y, hy, hle, hb⟩ := ih.mp h
          refine ⟨k + 1, y, hy, ?_, ?_⟩
          · rw [List.take_succ_cons, List.flatMap_cons, List.length_append]
            omega
          · rwa [List.take_succ_cons, List.flatMap_cons, List.length_append, ← Nat.sub_sub]
      · rintro ⟨k, y, hy, hle, hb⟩
        cases k with
        | zero =>
            cases hy
            have hlt := (List.getElem?_eq_some_iff.mp hb).1
            simp only [List.take_zero, List.flatMap_nil, List.length_nil, Nat.sub_zero] at hb hlt
            rwa [if_pos hlt]
        | succ k =>
            rw [List.take_succ_cons, List.flatMap_cons, List.length_append] at hle hb
            rw [if_neg (by omega)]
            rw [← Nat.sub_sub] at hb
            exact ih.mpr ⟨k, y, hy, by omega, hb⟩

namespace Layout

/-- The layout, put at `p`, has the cell at `i`. -/
def CellAt (l : Layout) (p i : Nat) (cell : Cell) : Prop := p ≤ i ∧ l[i - p]? = some cell

variable {l m : Layout} {p i : Nat} {cell : Cell}

theorem cellAt_append_iff :
    (l ++ m).CellAt p i cell ↔ l.CellAt p i cell ∨ m.CellAt (p + l.length) i cell := by
  simp only [CellAt, List.getElem?_append]
  split
  · rename_i hlt
    constructor
    · exact .inl
    · rintro (h | h)
      · exact h
      · omega
  · rename_i hge
    rw [Nat.sub_sub]
    constructor
    · rintro ⟨hle, h⟩
      exact .inr ⟨by omega, h⟩
    · rintro (h | h)
      · exact absurd (List.getElem?_eq_some_iff.mp h.2).1 hge
      · exact ⟨by omega, h.2⟩

theorem cellAt_flatMap_iff {α : Type} {xs : List α} {f : α → Layout} :
    CellAt (xs.flatMap f) p i cell ↔
      ∃ k x, xs[k]? = some x ∧
        (f x).CellAt (p + ((xs.take k).flatMap f).length) i cell := by
  simp only [CellAt, getElem?_flatMap_iff]
  constructor
  · rintro ⟨hle, k, x, hx, hk, h⟩
    exact ⟨k, x, hx, by omega, by rwa [← Nat.sub_sub]⟩
  · rintro ⟨k, x, hx, hk, h⟩
    exact ⟨by omega, k, x, hx, by omega, by rwa [Nat.sub_sub]⟩

theorem mask_of_cellAt_ofBytes {bs : List UInt8} (h : (ofBytes bs).CellAt p i cell) :
    cell.mask = 0xFF := by
  obtain ⟨b, -, rfl⟩ := List.mem_map.mp (List.mem_of_getElem? h.2)
  rfl

theorem cellAt_free_iff {n : Nat} :
    (free n).CellAt p i cell ↔ cell = .free ∧ p ≤ i ∧ i < p + n := by
  simp only [CellAt, free, List.getElem?_replicate]
  split
  · rename_i hlt
    simp only [Option.some.injEq]
    constructor
    · rintro ⟨hle, rfl⟩
      exact ⟨rfl, hle, by omega⟩
    · rintro ⟨rfl, hle, -⟩
      exact ⟨hle, rfl⟩
  · rename_i hge
    simp only [reduceCtorEq, and_false, false_iff]
    omega

theorem nameTail_of_cellAt {s : String} (hs : NameFits s) (h : (name s).CellAt p i cell) :
    cell.mask = 0xFF ∨ NameTail s p i := by
  have hle := hs.1
  simp only [name] at h
  split at h
  · rename_i hlt
    rw [cellAt_append_iff, cellAt_free_iff] at h
    rcases h with h | ⟨-, hge, hi⟩
    · exact .inl (mask_of_cellAt_ofBytes h)
    · simp only [ofBytes, List.length_map, List.length_append, List.length_singleton] at hge hi
      exact .inr ⟨by omega, by omega⟩
  · exact .inl (mask_of_cellAt_ofBytes h)

theorem cellAt_of_nameTail {s : String} (h : NameTail s p i) : (name s).CellAt p i .free := by
  obtain ⟨hge, hi⟩ := h
  simp only [name]
  rw [if_pos (by omega), cellAt_append_iff, cellAt_free_iff]
  simp only [ofBytes, List.length_map, List.length_append, List.length_singleton]
  exact .inr ⟨trivial, by omega, by omega⟩

end Layout

namespace Section

variable {o : ByteOrder} {w : Width} {s : Section} {p i : Nat} {cell : Cell}

theorem layout_eq (o : ByteOrder) (w : Width) (s : Section) :
    ∃ bs, s.layout o w = .name s.name ++ (.name s.label ++ .ofBytes bs) := by
  let words (ns : List UInt32) := ns.flatMap fun n => o.encode 4 n.toNat
  let common := o.encode w.addressSize s.address.toNat ++ o.encode w.addressSize s.size.toNat
    ++ words [s.offset, s.alignment, s.relocationOffset, s.relocationCount, s.flags.bits,
      s.reserved1, s.reserved2]
  cases w with
  | bits32 =>
      refine ⟨common, ?_⟩
      simp [common, words, layout, Layout.address, Layout.u32, Layout.ofBytes]
  | bits64 =>
      refine ⟨common ++ words [s.reserved3], ?_⟩
      simp [common, words, layout, Layout.address, Layout.u32, Layout.ofBytes]

theorem filler_of_cellAt (hs : s.Fits w) (h : (s.layout o w).CellAt p i cell) :
    cell.mask = 0xFF ∨ s.Filler p i := by
  obtain ⟨bs, hlayout⟩ := layout_eq o w s
  rw [hlayout, Layout.cellAt_append_iff, Layout.cellAt_append_iff,
    Layout.length_name hs.name] at h
  rcases h with h | h | h
  · exact (Layout.nameTail_of_cellAt hs.name h).imp_right .inl
  · exact (Layout.nameTail_of_cellAt hs.label h).imp_right .inr
  · exact .inl (Layout.mask_of_cellAt_ofBytes h)

theorem cellAt_of_filler (hs : s.Fits w) (h : s.Filler p i) :
    (s.layout o w).CellAt p i .free := by
  obtain ⟨bs, hlayout⟩ := layout_eq o w s
  rw [hlayout, Layout.cellAt_append_iff, Layout.cellAt_append_iff, Layout.length_name hs.name]
  rcases h with h | h
  · exact .inl (Layout.cellAt_of_nameTail h)
  · exact .inr (.inl (Layout.cellAt_of_nameTail h))

end Section

namespace Segment

variable {o : ByteOrder} {w : Width} {g : Segment} {p i : Nat} {cell : Cell}

theorem layout_eq (o : ByteOrder) (w : Width) (g : Segment) :
    ∃ bs, nameSize + bs.length + 4 = w.segmentSize ∧
      g.layout o w = .name g.name ++ (.ofBytes bs ++
        (.segmentFlags o g.flags ++ g.sections.flatMap (·.layout o w))) := by
  refine ⟨o.encode w.addressSize g.address.toNat ++ o.encode w.addressSize g.memorySize.toNat
    ++ o.encode w.addressSize g.fileOffset.toNat ++ o.encode w.addressSize g.fileSize.toNat
    ++ o.encode 4 g.maxProtection.toUInt32.toNat ++ o.encode 4 g.initialProtection.toUInt32.toNat
    ++ o.encode 4 g.sectionCount.toNat, ?_, ?_⟩
  · simp only [List.length_append, ByteOrder.length_encode, ← Nat.add_assoc, segmentSize_eq]
  · simp [layout, Layout.address, Layout.i32, Layout.u32, Layout.ofBytes]

theorem length_take_sections (hg : g.Fits w) {k : Nat} {s : Section}
    (hs : g.sections[k]? = some s) :
    ((g.sections.take k).flatMap (·.layout o w)).length = k * w.sectionSize := by
  have hk := (List.getElem?_eq_some_iff.mp hs).1
  rw [length_sections fun x hx => hg.sections x (List.mem_of_mem_take hx),
    List.length_take_of_le (Nat.le_of_lt hk)]

theorem filler_of_cellAt (hg : g.Fits w) (h : (g.layout o w).CellAt p i cell) :
    cell.mask = 0xFF ∨ g.Filler w p i ∨
      (p + w.segmentSize ≤ i + 4 ∧ i < p + w.segmentSize) := by
  obtain ⟨bs, hsize, hlayout⟩ := layout_eq o w g
  have hbytes : (Layout.ofBytes bs).length = bs.length := List.length_map _
  simp only [hlayout, Layout.cellAt_append_iff, Layout.length_name hg.name, hbytes,
    Layout.length_segmentFlags, Layout.cellAt_flatMap_iff] at h
  rcases h with h | h | h | ⟨k, s, hs, h⟩
  · exact (Layout.nameTail_of_cellAt hg.name h).imp_right (.inl ∘ .inl)
  · exact .inl (Layout.mask_of_cellAt_ofBytes h)
  · have hi := (List.getElem?_eq_some_iff.mp h.2).1
    have hge := h.1
    rw [Layout.length_segmentFlags] at hi
    exact .inr (.inr (by omega))
  · have hstart : p + nameSize + bs.length + 4 + k * w.sectionSize = sectionStart w p k := by
      rw [sectionStart]
      omega
    rw [length_take_sections hg hs, hstart] at h
    have hfits := hg.sections s (List.mem_of_getElem? hs)
    exact (Section.filler_of_cellAt hfits h).imp_right fun hs' => .inl (.inr ⟨k, s, hs, hs'⟩)

theorem cellAt_of_filler (hg : g.Fits w) (h : g.Filler w p i) :
    (g.layout o w).CellAt p i .free := by
  obtain ⟨bs, hsize, hlayout⟩ := layout_eq o w g
  have hbytes : (Layout.ofBytes bs).length = bs.length := List.length_map _
  simp only [hlayout, Layout.cellAt_append_iff, Layout.length_name hg.name, hbytes,
    Layout.length_segmentFlags, Layout.cellAt_flatMap_iff]
  rcases h with h | ⟨k, s, hs, h⟩
  · exact .inl (Layout.cellAt_of_nameTail h)
  · have hstart : p + nameSize + bs.length + 4 + k * w.sectionSize = sectionStart w p k := by
      rw [sectionStart]
      omega
    have hfits := hg.sections s (List.mem_of_getElem? hs)
    refine .inr (.inr (.inr ⟨k, s, hs, ?_⟩))
    rw [length_take_sections hg hs, hstart]
    exact Section.cellAt_of_filler hfits h

end Segment

namespace Command

variable {o : ByteOrder} {command : Command} {p i : Nat} {cell : Cell}

theorem filler_of_cellAt (hc : command.Fits) (h : (command.layout o).CellAt p i cell) :
    cell.mask = 0xFF ∨ command.Filler p i ∨ ∃ q, command.FlagWord p q ∧ q ≤ i ∧ i < q + 4 := by
  have hle := length_layout_le (o := o) hc.size_ge hc.content
  obtain ⟨content, size⟩ := command
  simp only [layout, Layout.cellAt_append_iff, Layout.cellAt_free_iff, List.length_append,
    Layout.length_u32] at h hle
  rcases h with ((h | h) | h) | ⟨-, hge, hi⟩
  · exact .inl (Layout.mask_of_cellAt_ofBytes h)
  · exact .inl (Layout.mask_of_cellAt_ofBytes h)
  · cases content with
    | segment w g =>
        rcases Segment.filler_of_cellAt hc.content.1 h with hmask | hfiller | hflag
        · exact .inl hmask
        · exact .inr (.inl (.inl hfiller))
        · have hlarge : 4 ≤ w.segmentSize := by cases w <;> decide
          refine .inr (.inr ⟨p + headSize + w.segmentSize - 4, ⟨w, g, rfl, by omega⟩, ?_⟩)
          simp only [headSize] at hflag ⊢
          omega
    | other id declared =>
        rw [LoadCommand.layout, Layout.CellAt, List.getElem?_nil] at h
        cases h.2
  · cases content with
    | segment w g =>
        have hlength : (LoadCommand.layout o (.segment w g)).length = g.extent w :=
          Segment.length_layout hc.content.1
        simp only [hlength, headSize] at hge hi hle
        refine .inr (.inl (.inr ?_))
        simp only [headSize]
        omega
    | other id declared =>
        simp only [LoadCommand.layout, List.length_nil, headSize] at hge hi hle
        refine .inr (.inl ?_)
        simp only [Filler, headSize]
        omega

theorem cellAt_of_filler (hc : command.Fits) (h : command.Filler p i) :
    (command.layout o).CellAt p i .free := by
  have hle := length_layout_le (o := o) hc.size_ge hc.content
  obtain ⟨content, size⟩ := command
  simp only [layout, Layout.cellAt_append_iff, Layout.cellAt_free_iff, List.length_append,
    Layout.length_u32]
  cases content with
  | segment w g =>
      rcases h with h | h
      · exact .inl (.inr (Segment.cellAt_of_filler hc.content.1 h))
      · have hlength : (LoadCommand.layout o (.segment w g)).length = g.extent w :=
          Segment.length_layout hc.content.1
        simp only [hlength, headSize] at h hle ⊢
        exact .inr ⟨trivial, by omega⟩
  | other id declared =>
      simp only [Filler, headSize] at h
      simp only [LoadCommand.layout, List.length_nil, headSize] at hle ⊢
      exact .inr ⟨trivial, by omega⟩

end Command

theorem Header.layout_eq (o : ByteOrder) (w : Width) (h : Header) :
    ∃ bs, File.magicSize + bs.length + (lastLayout w).length = File.headSize w ∧
      h.layout o w = .ofBytes bs ++ lastLayout w := by
  refine ⟨o.encode 4 h.cpuType.toUInt32.toNat ++ o.encode 4 h.cpuSubtype.toUInt32.toNat
    ++ o.encode 4 h.fileType.toNat ++ o.encode 4 h.commandCount.toNat
    ++ o.encode 4 h.commandsSize.toNat ++ o.encode 4 h.flags.toNat, ?_, ?_⟩
  · simp only [List.length_append, ByteOrder.length_encode, File.headSize, ← headerSize_eq,
      Nat.add_assoc]
  · cases w <;> simp [layout, lastLayout, Layout.i32, Layout.u32, Layout.ofBytes]

namespace File

variable {f : File} {i : Nat} {cell : Cell} {D : List UInt8}

theorem cellAt_lastLayout_iff {w : Width} {p : Nat}
    (hp : p + (Header.lastLayout w).length = headSize w) (i : Nat) (cell : Cell) :
    (Header.lastLayout w).CellAt p i cell ↔ cell = .free ∧ Reserved w i := by
  cases w with
  | bits32 => simp [Layout.CellAt, Header.lastLayout, Reserved]
  | bits64 =>
      rw [Header.lastLayout, Layout.length_free] at hp
      rw [Header.lastLayout, Layout.cellAt_free_iff]
      apply and_congr_right
      intro _
      simp only [Reserved, true_and]
      omega

theorem length_take_commands (hf : f.Fits) (k : Nat) :
    ((f.commands.take k).flatMap (·.layout f.format.order)).length =
      Command.totalSize (f.commands.take k) :=
  Command.length_layouts fun command hc => hf.commands command (List.mem_of_mem_take hc)

theorem standsAt_command (hf : f.Fits) (h : f.layout.StandsAt D 0) {k : Nat} {command : Command}
    (hk : f.commands[k]? = some command) :
    (command.layout f.format.order).StandsAt D (f.commandStart k) := by
  have hall := (standsAt_layout_iff.mp h).2.2
  have hcommand := Layout.standsAt_of_getElem? hall hk
  rwa [length_take_commands hf, Nat.zero_add] at hcommand

theorem cellAt_layout_iff (hf : f.Fits) (i : Nat) (cell : Cell) :
    ∃ bs cs, f.layout.CellAt 0 i cell ↔
      (Layout.ofBytes bs).CellAt 0 i cell ∨ (Layout.ofBytes cs).CellAt magicSize i cell ∨
      (cell = .free ∧ Reserved f.format.width i) ∨
      ∃ (k : Nat) (command : Command), f.commands[k]? = some command ∧
        (command.layout f.format.order).CellAt (f.commandStart k) i cell := by
  obtain ⟨cs, hsize, hlayout⟩ := Header.layout_eq f.format.order f.format.width f.header
  refine ⟨ByteOrder.little.encode 4 f.format.magic.toNat, cs, ?_⟩
  have hbytes : (Layout.ofBytes cs).length = cs.length := List.length_map _
  rw [layout, hlayout]
  simp only [Layout.cellAt_append_iff, Layout.cellAt_flatMap_iff, List.length_append,
    Layout.length_u32, hbytes, length_take_commands hf, Nat.zero_add, or_assoc]
  have hlast := cellAt_lastLayout_iff hsize i cell
  rw [magicSize] at hlast ⊢
  have hstart : ∀ k, 4 + (cs.length + (Header.lastLayout f.format.width).length)
      + Command.totalSize (f.commands.take k) = f.commandStart k := by
    intro k
    rw [commandStart, ← hsize, magicSize]
    omega
  simp only [hstart, hlast]
  rfl

theorem filler_of_getElem? (hf : f.Fits) (h : f.layout[i]? = some cell) :
    cell.mask = 0xFF ∨ f.Filler i ∨ f.FlagByte i := by
  obtain ⟨bs, cs, hiff⟩ := cellAt_layout_iff hf i cell
  rcases hiff.mp ⟨Nat.zero_le i, h⟩ with h | h | h | ⟨k, command, hk, h⟩
  · exact .inl (Layout.mask_of_cellAt_ofBytes h)
  · exact .inl (Layout.mask_of_cellAt_ofBytes h)
  · exact .inr (.inl (.inl h.2))
  · have hcommand := hf.commands command (List.mem_of_getElem? hk)
    rcases Command.filler_of_cellAt hcommand h with hmask | hfiller | ⟨q, hword, hq⟩
    · exact .inl hmask
    · exact .inr (.inl (.inr ⟨k, command, hk, hfiller⟩))
    · exact .inr (.inr ⟨q, ⟨k, command, hk, hword⟩, hq⟩)

theorem getElem?_of_filler (hf : f.Fits) (h : f.Filler i) : f.layout[i]? = some .free := by
  obtain ⟨bs, cs, hiff⟩ := cellAt_layout_iff hf i .free
  have hcell : f.layout.CellAt 0 i .free := by
    rcases h with h | ⟨k, command, hk, h⟩
    · exact hiff.mpr (.inr (.inr (.inl ⟨rfl, h⟩)))
    · have hcommand := hf.commands command (List.mem_of_getElem? hk)
      exact hiff.mpr (.inr (.inr (.inr ⟨k, command, hk, Command.cellAt_of_filler hcommand h⟩)))
  exact hcell.2

end File

end MachO
