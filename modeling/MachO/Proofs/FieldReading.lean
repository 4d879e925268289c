import MachO.Layout
import MachO.Proofs.NumberEncoding
import MachO.Proofs.Scanning
import MachO.Proofs.TextEncoding

namespace MachO

/-- A text fits into a field for a name. -/
def NameFits (s : String) : Prop :=
  (Text.Utf8.encode s).length ≤ nameSize ∧ 0 ∉ Text.Utf8.encode s

instance (s : String) : Decidable (NameFits s) := inferInstanceAs (Decidable (_ ∧ _))

/-- An address or a size can be written in the width. -/
def Width.Holds (w : Width) (n : UInt64) : Prop := n.toNat < 256 ^ w.addressSize

instance (w : Width) (n : UInt64) : Decidable (w.Holds n) := inferInstanceAs (Decidable (_ < _))

theorem untilZero_append {text rest : List UInt8} (h : 0 ∉ text) :
    untilZero (text ++ 0 :: rest) = text := by
  rw [untilZero, List.takeWhile_append_of_pos]
  · simp
  · intro b hb
    exact bne_iff_ne.mpr fun hzero => h (hzero ▸ hb)

theorem zero_notMem_untilZero (bs : List UInt8) : 0 ∉ untilZero bs := by
  intro h
  have hall := List.all_eq_true.mp (List.all_takeWhile (p := (· != 0)) (l := bs)) 0 h
  simp at hall

theorem eq_untilZero_or (bs : List UInt8) :
    bs = untilZero bs ∨ ∃ rest, bs = untilZero bs ++ 0 :: rest := by
  induction bs with
  | nil => exact .inl rfl
  | cons b bs ih =>
      rcases Decidable.em (b = 0) with rfl | hb
      · exact .inr ⟨bs, by simp [untilZero]⟩
      · have hcons : untilZero (b :: bs) = b :: untilZero bs :=
          List.takeWhile_cons_of_pos (bne_iff_ne.mpr hb)
        rw [hcons]
        rcases ih with h | ⟨rest, h⟩
        · exact .inl (congrArg (b :: ·) h)
        · exact .inr ⟨rest, congrArg (b :: ·) h⟩

theorem untilZero_eq_self {text : List UInt8} (h : 0 ∉ text) : untilZero text = text := by
  rcases eq_untilZero_or text with hself | ⟨rest, hrest⟩
  · exact hself.symm
  · rw [hrest] at h
    simp at h

theorem nameOfField_eq_ok_iff {bs : List UInt8} {s : String} :
    nameOfField bs = .ok s ↔ Text.Utf8.encode s = untilZero bs := by
  rw [← Text.Utf8.decode_eq_ok_iff, nameOfField]
  cases Text.Utf8.decode (untilZero bs) <;> simp

theorem Cell.admits_of_mask {cell : Cell} {b : UInt8} (h : cell.mask = 0xFF) :
    cell.admits b = true ↔ b = cell.value := by
  have hmask : b &&& 0xFF = b := by
    apply UInt8.toNat_inj.mp
    rw [UInt8.toNat_and]
    exact (Nat.and_two_pow_sub_one_eq_mod b.toNat 8).trans (Nat.mod_eq_of_lt b.toNat_lt)
  rw [admits, h, hmask, beq_iff_eq]

theorem Cell.admits_exact_iff {b c : UInt8} : (Cell.exact b).admits c = true ↔ c = b :=
  admits_of_mask rfl

theorem Cell.admits_free (b : UInt8) : Cell.free.admits b = true := by
  simp [admits, free]

namespace Layout

theorem length_of_admits {l : Layout} {bs : List UInt8} (h : l.admits bs = true) :
    bs.length = l.length := by
  induction l generalizing bs with
  | nil =>
      cases bs with
      | nil => rfl
      | cons b bs => cases h
  | cons c cs ih =>
      cases bs with
      | nil => cases h
      | cons b bs =>
          rw [admits, Bool.and_eq_true] at h
          rw [List.length_cons, List.length_cons, ih h.2]

theorem admits_append {l m : Layout} {bs cs : List UInt8} (h : bs.length = l.length) :
    (l ++ m).admits (bs ++ cs) = (l.admits bs && m.admits cs) := by
  induction l generalizing bs with
  | nil =>
      rw [List.eq_nil_of_length_eq_zero h]
      simp [admits]
  | cons c l ih =>
      cases bs with
      | nil => cases h
      | cons b bs =>
          have hlen : bs.length = l.length := Nat.succ.inj h
          simp only [List.cons_append, admits, ih hlen, Bool.and_assoc]

theorem admits_ofBytes_iff {bs cs : List UInt8} : (ofBytes bs).admits cs = true ↔ cs = bs := by
  induction bs generalizing cs with
  | nil => cases cs <;> simp [ofBytes, admits]
  | cons b bs ih =>
      cases cs with
      | nil => simp [ofBytes, admits]
      | cons c cs =>
          rw [ofBytes] at ih
          simp [ofBytes, admits, Cell.admits_exact_iff, ih]

theorem admits_free_iff {n : Nat} {bs : List UInt8} :
    (free n).admits bs = true ↔ bs.length = n := by
  induction n generalizing bs with
  | zero => cases bs <;> simp [free, admits]
  | succ n ih =>
      cases bs with
      | nil => simp [free, admits, List.replicate_succ]
      | cons b bs =>
          rw [free] at ih
          simp [free, admits, List.replicate_succ, Cell.admits_free, ih]

/-- The bytes at a position are as the layout says. -/
def StandsAt (l : Layout) (D : List UInt8) (position : Nat) : Prop :=
  l.admits (window D position l.length) = true

instance (l : Layout) (D : List UInt8) (p : Nat) : Decidable (l.StandsAt D p) :=
  inferInstanceAs (Decidable (_ = _))

theorem standsAt_append_iff {l m : Layout} {D : List UInt8} {p : Nat} :
    (l ++ m).StandsAt D p ↔ l.StandsAt D p ∧ m.StandsAt D (p + l.length) := by
  unfold StandsAt
  rw [List.length_append, window_add]
  rcases Decidable.em ((window D p l.length).length = l.length) with hl | hl
  · rw [admits_append hl, Bool.and_eq_true]
  · constructor
    · intro h
      have hlen := length_of_admits h
      rw [List.length_append, List.length_append] at hlen
      simp only [length_window] at hl hlen
      omega
    · intro h
      exact absurd (length_of_admits h.1) hl

theorem standsAt_of_getElem? {α : Type} {xs : List α} {f : α → Layout} {D : List UInt8} {p k : Nat}
    {x : α} (h : StandsAt (xs.flatMap f) D p) (hx : xs[k]? = some x) :
    (f x).StandsAt D (p + ((xs.take k).flatMap f).length) := by
  obtain ⟨hk, rfl⟩ := List.getElem?_eq_some_iff.mp hx
  rw [← List.take_append_drop k xs, List.drop_eq_getElem_cons hk, List.flatMap_append,
    List.flatMap_cons, standsAt_append_iff, standsAt_append_iff] at h
  exact h.2.1

theorem le_of_standsAt {l : Layout} {D : List UInt8} {p : Nat} (hl : 0 < l.length)
    (h : l.StandsAt D p) : p + l.length ≤ D.length :=
  (length_window_eq_iff hl).mp (length_of_admits h)

theorem standsAt_of_admits {l : Layout} {bs : List UInt8} (h : l.admits bs = true)
    (tail : List UInt8) : l.StandsAt (bs ++ tail) 0 := by
  have hlen := length_of_admits h
  rwa [StandsAt, window, List.drop_zero, ← hlen, List.take_left]

theorem standsAt_nil (D : List UInt8) (p : Nat) : StandsAt [] D p := rfl

theorem standsAt_ofBytes_iff {bs D : List UInt8} {p : Nat} :
    (ofBytes bs).StandsAt D p ↔ window D p bs.length = bs := by
  rw [StandsAt, admits_ofBytes_iff, ofBytes, List.length_map]

theorem standsAt_free_iff {n : Nat} {D : List UInt8} {p : Nat} :
    (free n).StandsAt D p ↔ (window D p n).length = n := by
  rw [StandsAt, admits_free_iff, free, List.length_replicate]

@[simp] theorem length_u32 (o : ByteOrder) (n : UInt32) : (u32 o n).length = 4 := by
  simp [u32, ofBytes, ByteOrder.length_encode]

@[simp] theorem length_i32 (o : ByteOrder) (n : Int32) : (i32 o n).length = 4 := by
  simp [i32]

@[simp] theorem length_address (o : ByteOrder) (w : Width) (n : UInt64) :
    (address o w n).length = w.addressSize := by
  simp [address, ofBytes, ByteOrder.length_encode]

@[simp] theorem length_segmentFlags (o : ByteOrder) (f : SegmentFlags) :
    (segmentFlags o f).length = 4 := by
  simp [segmentFlags, ByteOrder.length_encode]

@[simp] theorem length_free (n : Nat) : (free n).length = n := by
  simp [free]

theorem length_name {s : String} (hs : NameFits s) : (name s).length = nameSize := by
  have hle := hs.1
  simp only [name]
  split
  · rename_i hlt
    simp only [ofBytes, List.length_append, List.length_map, List.length_cons, List.length_nil,
      length_free]
    omega
  · simp only [ofBytes, List.length_map]
    omega

theorem standsAt_number_iff {o : ByteOrder} {width n : Nat} {D : List UInt8} {p : Nat} :
    (ofBytes (o.encode width n)).StandsAt D p ↔
      (window D p width).length = width ∧ o.decode (window D p width) = n % 256 ^ width := by
  rw [standsAt_ofBytes_iff, ByteOrder.length_encode]
  constructor
  · intro h
    rw [h, ByteOrder.length_encode, ByteOrder.decode_encode]
    exact ⟨rfl, rfl⟩
  · rintro ⟨hlen, h⟩
    have hself := o.encode_decode (window D p width)
    have hmod := o.encode_decode (o.encode width n)
    rw [hlen, h] at hself
    rw [ByteOrder.length_encode, ByteOrder.decode_encode] at hmod
    rw [← hself, hmod]

theorem standsAt_u32_iff {o : ByteOrder} {n : UInt32} {D : List UInt8} {p : Nat} :
    (u32 o n).StandsAt D p ↔
      (window D p 4).length = 4 ∧ o.decode (window D p 4) = n.toNat := by
  have hlt : n.toNat < 256 ^ 4 := n.toNat_lt
  rw [u32, standsAt_number_iff, Nat.mod_eq_of_lt hlt]

theorem exists_standsAt_u32 (D : List UInt8) (o : ByteOrder) (p : Nat) (h : p + 4 ≤ D.length) :
    ∃ n, (u32 o n).StandsAt D p := by
  have hlen : (window D p 4).length = 4 := (length_window_eq_iff (by decide)).mpr h
  have hlt := o.decode_lt (window D p 4)
  rw [hlen] at hlt
  exact ⟨(o.decode (window D p 4)).toUInt32,
    standsAt_u32_iff.mpr ⟨hlen, (Nat.mod_eq_of_lt hlt).symm⟩⟩

theorem standsAt_address_iff {o : ByteOrder} {w : Width} {n : UInt64} (hn : w.Holds n)
    {D : List UInt8} {p : Nat} :
    (address o w n).StandsAt D p ↔
      (window D p w.addressSize).length = w.addressSize ∧
        o.decode (window D p w.addressSize) = n.toNat := by
  rw [address, standsAt_number_iff, Nat.mod_eq_of_lt hn]

theorem admits_name_iff {s : String} (hs : NameFits s) {bs : List UInt8} :
    (name s).admits bs = true ↔ bs.length = nameSize ∧ untilZero bs = Text.Utf8.encode s := by
  have hlength := length_name hs
  obtain ⟨hle, hzero⟩ := hs
  simp only [name] at hlength ⊢
  split
  · rename_i hlt
    rw [if_pos hlt] at hlength
    constructor
    · intro h
      have hbs := length_of_admits h
      refine ⟨hbs.trans hlength, ?_⟩
      have hhead : (bs.take ((Text.Utf8.encode s).length + 1)).length =
          (ofBytes (Text.Utf8.encode s ++ [0])).length := by
        simp only [ofBytes, List.length_take, List.length_map, List.length_append,
          List.length_cons, List.length_nil]
        omega
      rw [← List.take_append_drop ((Text.Utf8.encode s).length + 1) bs, admits_append hhead,
        Bool.and_eq_true, admits_ofBytes_iff] at h
      rw [← List.take_append_drop ((Text.Utf8.encode s).length + 1) bs, h.1, List.append_assoc]
      exact untilZero_append hzero
    · rintro ⟨hbs, h⟩
      rcases eq_untilZero_or bs with hself | ⟨rest, hrest⟩
      · rw [hself, h] at hbs
        omega
      · rw [h] at hrest
        rw [hrest, List.length_append, List.length_cons] at hbs
        rw [hrest, List.append_cons _ 0 rest, admits_append (by simp [ofBytes]), Bool.and_eq_true,
          admits_ofBytes_iff, admits_free_iff]
        exact ⟨rfl, by omega⟩
  -- A text that fills its field is ended by the field, not by a zero byte.
  · rename_i hlt
    rw [admits_ofBytes_iff]
    constructor
    · rintro rfl
      exact ⟨by omega, untilZero_eq_self hzero⟩
    · rintro ⟨hbs, h⟩
      rcases eq_untilZero_or bs with hself | ⟨rest, hrest⟩
      · rw [hself, h]
      · rw [h] at hrest
        rw [hrest, List.length_append, List.length_cons] at hbs
        omega

theorem standsAt_name_iff {s : String} {D : List UInt8} {p : Nat} :
    NameFits s ∧ (name s).StandsAt D p ↔
      (window D p nameSize).length = nameSize ∧
        Text.Utf8.encode s = untilZero (window D p nameSize) := by
  constructor
  · rintro ⟨hs, h⟩
    rw [StandsAt, length_name hs, admits_name_iff hs] at h
    exact ⟨h.1, h.2.symm⟩
  · rintro ⟨hlen, h⟩
    have hs : NameFits s := by
      refine ⟨?_, ?_⟩
      · rw [h]
        exact Nat.le_trans (List.takeWhile_sublist _).length_le (Nat.le_of_eq hlen)
      · rw [h]
        exact zero_notMem_untilZero _
    rw [StandsAt, length_name hs, admits_name_iff hs]
    exact ⟨hs, hlen, h.symm⟩

/-- The cell of the byte that holds the known flags of a segment. -/
def flagCell (f : SegmentFlags) : Cell := ⟨0xF, f.bits.toNat.toUInt8⟩

theorem admits_flagCell_iff {f : SegmentFlags} {b : UInt8} :
    (flagCell f).admits b = true ↔ b.toNat % 16 = f.bits.toNat := by
  have hbits : f.bits.toNat < 256 := Nat.lt_trans f.bits.isLt (by decide)
  rw [flagCell, Cell.admits, beq_iff_eq, ← UInt8.toNat_inj, UInt8.toNat_and]
  change b.toNat &&& (2 ^ 4 - 1) = f.bits.toNat % 256 ↔ _
  rw [Nat.and_two_pow_sub_one_eq_mod, Nat.mod_eq_of_lt hbits]

theorem digits_toWord (f : SegmentFlags) :
    ByteOrder.digits 4 f.toWord.toNat = [f.bits.toNat.toUInt8, 0, 0, 0] := by
  have hbits : f.bits.toNat < 16 := f.bits.isLt
  have hword : f.toWord.toNat = f.bits.toNat := by
    change (f.bits.setWidth 32).toNat = f.bits.toNat
    rw [BitVec.toNat_setWidth]
    omega
  have hdiv : f.bits.toNat / 256 = 0 := by omega
  simp [ByteOrder.digits, hword, hdiv]

theorem digits_knownFlags : ByteOrder.digits 4 0xF = [0xF, 0, 0, 0] := by decide

theorem segmentFlags_little (f : SegmentFlags) :
    segmentFlags .little f = flagCell f :: free 3 := by
  simp [segmentFlags, ByteOrder.encode, digits_toWord, digits_knownFlags, flagCell, free,
    Cell.free, List.replicate]

theorem segmentFlags_big (f : SegmentFlags) :
    segmentFlags .big f = free 3 ++ [flagCell f] := by
  simp [segmentFlags, ByteOrder.encode, digits_toWord, digits_knownFlags, flagCell, free,
    Cell.free, List.replicate]

theorem admits_segmentFlags_iff {o : ByteOrder} {f : SegmentFlags} {bs : List UInt8} :
    (segmentFlags o f).admits bs = true ↔ bs.length = 4 ∧ o.decode bs % 16 = f.bits.toNat := by
  have hlow : ∀ (b : UInt8) (rest : List UInt8),
      ByteOrder.ofDigits (b :: rest) % 16 = b.toNat % 16 := by
    intro b rest
    rw [ByteOrder.ofDigits]
    omega
  cases o with
  | little =>
      rw [segmentFlags_little, ByteOrder.decode]
      cases bs with
      | nil => simp [admits]
      | cons b rest =>
          rw [admits, Bool.and_eq_true, admits_flagCell_iff, admits_free_iff, hlow,
            List.length_cons, Nat.succ_inj, and_comm]
  | big =>
      rw [segmentFlags_big, ByteOrder.decode]
      rcases List.eq_nil_or_concat bs with rfl | ⟨rest, b, rfl⟩
      · simp [admits, free, List.replicate]
      · rw [List.concat_eq_append, List.reverse_append, List.reverse_singleton,
          List.singleton_append, hlow, List.length_append, List.length_singleton, Nat.succ_inj]
        constructor
        · intro h
          have hlen : rest.length = 3 := by simpa using length_of_admits h
          rw [admits_append (by simp [hlen]), Bool.and_eq_true] at h
          exact ⟨hlen, admits_flagCell_iff.mp (by simpa [admits] using h.2)⟩
        · rintro ⟨hlen, h⟩
          rw [admits_append (by simp [hlen]), Bool.and_eq_true, admits_free_iff]
          exact ⟨hlen, by simpa [admits] using admits_flagCell_iff.mpr h⟩

theorem ofWord_eq_iff {word : UInt32} {f : SegmentFlags} :
    SegmentFlags.ofWord word = f ↔ word.toNat % 16 = f.bits.toNat := by
  obtain ⟨bits⟩ := f
  rw [SegmentFlags.ofWord, SegmentFlags.mk.injEq, ← BitVec.toNat_inj, BitVec.toNat_setWidth]
  rfl

theorem standsAt_segmentFlags_iff {o : ByteOrder} {f : SegmentFlags} {D : List UInt8} {p : Nat} :
    (segmentFlags o f).StandsAt D p ↔
      ∃ word, (u32 o word).StandsAt D p ∧ SegmentFlags.ofWord word = f := by
  rw [StandsAt, length_segmentFlags, admits_segmentFlags_iff]
  constructor
  · rintro ⟨hlen, h⟩
    have hlt := o.decode_lt (window D p 4)
    rw [hlen] at hlt
    refine ⟨(o.decode (window D p 4)).toUInt32, standsAt_u32_iff.mpr ⟨hlen, ?_⟩, ?_⟩
    · exact (Nat.mod_eq_of_lt hlt).symm
    · rw [ofWord_eq_iff, ← h]
      exact congrArg (· % 16) (Nat.mod_eq_of_lt hlt)
  · rintro ⟨word, hword, hf⟩
    obtain ⟨hlen, h⟩ := standsAt_u32_iff.mp hword
    exact ⟨hlen, by rw [h, ofWord_eq_iff.mp hf]⟩

end Layout

namespace Reader

variable {D : List UInt8} {o : ByteOrder} {c c' : Cursor}

theorem u32_eq_ok_iff {n : UInt32} :
    (ofBytes D).u32 o c = .ok n c' ↔
      (Layout.u32 o n).StandsAt D c.position ∧ c' = c.read 4 := by
  rw [u32, bind_eq_ok_iff, Layout.standsAt_u32_iff]
  constructor
  · rintro ⟨bs, u, hread, hpure⟩
    obtain ⟨rfl, hlen, rfl⟩ := bytes_ofBytes_eq_ok_iff.mp hread
    obtain ⟨rfl, rfl⟩ := pure_eq_ok_iff.mp hpure
    have hlt := o.decode_lt (window D c.position 4)
    rw [hlen] at hlt
    refine ⟨⟨hlen, ?_⟩, rfl⟩
    exact (Nat.mod_eq_of_lt hlt).symm
  · rintro ⟨⟨hlen, hn⟩, rfl⟩
    refine ⟨_, _, bytes_ofBytes_eq_ok_iff.mpr ⟨rfl, hlen, rfl⟩, pure_eq_ok_iff.mpr ⟨?_, rfl⟩⟩
    rw [hn]
    exact UInt32.ofNat_toNat.symm

theorem i32_eq_ok_iff {n : Int32} :
    (ofBytes D).i32 o c = .ok n c' ↔
      (Layout.i32 o n).StandsAt D c.position ∧ c' = c.read 4 := by
  rw [i32, bind_eq_ok_iff, Layout.i32]
  constructor
  · rintro ⟨word, u, hread, hpure⟩
    obtain ⟨rfl, rfl⟩ := pure_eq_ok_iff.mp hpure
    exact u32_eq_ok_iff.mp hread
  · intro h
    exact ⟨_, _, u32_eq_ok_iff.mpr h, pure_eq_ok_iff.mpr ⟨rfl, rfl⟩⟩

theorem u64_eq_ok_iff {n : UInt64} :
    (ofBytes D).u64 o c = .ok n c' ↔
      (Layout.address o .bits64 n).StandsAt D c.position ∧ c' = c.read 8 := by
  rw [u64, bind_eq_ok_iff, Layout.standsAt_address_iff (w := .bits64) n.toNat_lt]
  constructor
  · rintro ⟨bs, u, hread, hpure⟩
    obtain ⟨rfl, hlen, rfl⟩ := bytes_ofBytes_eq_ok_iff.mp hread
    obtain ⟨rfl, rfl⟩ := pure_eq_ok_iff.mp hpure
    have hlt := o.decode_lt (window D c.position 8)
    rw [hlen] at hlt
    refine ⟨⟨hlen, ?_⟩, rfl⟩
    exact (Nat.mod_eq_of_lt hlt).symm
  · rintro ⟨⟨hlen, hn⟩, rfl⟩
    refine ⟨_, _, bytes_ofBytes_eq_ok_iff.mpr ⟨rfl, hlen, rfl⟩, pure_eq_ok_iff.mpr ⟨?_, rfl⟩⟩
    have hnumber : o.decode (window D c.position 8) = n.toNat := hn
    rw [hnumber]
    exact UInt64.ofNat_toNat.symm

theorem address_eq_ok_iff {w : Width} {n : UInt64} :
    (ofBytes D).address o w c = .ok n c' ↔
      w.Holds n ∧ (Layout.address o w n).StandsAt D c.position ∧
        c' = c.read w.addressSize := by
  cases w with
  | bits32 =>
      rw [address, bind_eq_ok_iff]
      constructor
      · rintro ⟨word, u, hread, hpure⟩
        obtain ⟨rfl, rfl⟩ := pure_eq_ok_iff.mp hpure
        obtain ⟨h, rfl⟩ := u32_eq_ok_iff.mp hread
        exact ⟨word.toNat_lt, h, rfl⟩
      · rintro ⟨hn, h, rfl⟩
        have hword : n.toUInt32.toUInt64 = n := by
          apply UInt64.toNat_inj.mp
          exact Nat.mod_eq_of_lt hn
        refine ⟨n.toUInt32, _, u32_eq_ok_iff.mpr ⟨?_, rfl⟩, pure_eq_ok_iff.mpr ⟨hword.symm, rfl⟩⟩
        have hnat : n.toUInt32.toNat = n.toNat := congrArg UInt64.toNat hword
        rw [Layout.u32, hnat]
        exact h
  | bits64 =>
      rw [address, u64_eq_ok_iff]
      exact ⟨fun h => ⟨n.toNat_lt, h⟩, And.right⟩

theorem name_eq_ok_iff {s : String} :
    (ofBytes D).name nameSize c = .ok s c' ↔
      NameFits s ∧ (Layout.name s).StandsAt D c.position ∧ c' = c.read nameSize := by
  rw [name, bind_eq_ok_iff, ← and_assoc, Layout.standsAt_name_iff]
  constructor
  · rintro ⟨bs, u, hread, hname⟩
    obtain ⟨rfl, hlen, rfl⟩ := bytes_ofBytes_eq_ok_iff.mp hread
    obtain ⟨hs, rfl⟩ := Scan.ofExcept_eq_ok_iff.mp hname
    exact ⟨⟨hlen, nameOfField_eq_ok_iff.mp hs⟩, rfl⟩
  · rintro ⟨⟨hlen, hs⟩, rfl⟩
    exact ⟨_, _, bytes_ofBytes_eq_ok_iff.mpr ⟨rfl, hlen, rfl⟩,
      Scan.ofExcept_eq_ok_iff.mpr ⟨nameOfField_eq_ok_iff.mpr hs, rfl⟩⟩

section Fields

variable {α β : Type} {b : β}

theorem field_bind_eq_ok_iff {x : Scan α} {P : α → Nat → Prop} {n : Nat}
    (hx : ∀ a c c', x c = .ok a c' ↔ P a c.position ∧ c' = c.read n) {f : α → Scan β} :
    (x >>= f) c = .ok b c' ↔ ∃ a, P a c.position ∧ f a (c.read n) = .ok b c' := by
  rw [bind_eq_ok_iff]
  constructor
  · rintro ⟨a, _, hread, hrest⟩
    obtain ⟨ha, rfl⟩ := (hx _ _ _).mp hread
    exact ⟨a, ha, hrest⟩
  · rintro ⟨a, ha, hrest⟩
    exact ⟨a, _, (hx _ _ _).mpr ⟨ha, rfl⟩, hrest⟩

theorem u32_bind_eq_ok_iff {f : UInt32 → Scan β} :
    ((ofBytes D).u32 o >>= f) c = .ok b c' ↔
      ∃ n, (Layout.u32 o n).StandsAt D c.position ∧ f n (c.read 4) = .ok b c' :=
  field_bind_eq_ok_iff fun _ _ _ => u32_eq_ok_iff

theorem i32_bind_eq_ok_iff {f : Int32 → Scan β} :
    ((ofBytes D).i32 o >>= f) c = .ok b c' ↔
      ∃ n, (Layout.i32 o n).StandsAt D c.position ∧ f n (c.read 4) = .ok b c' :=
  field_bind_eq_ok_iff fun _ _ _ => i32_eq_ok_iff

theorem address_bind_eq_ok_iff {w : Width} {f : UInt64 → Scan β} :
    ((ofBytes D).address o w >>= f) c = .ok b c' ↔
      ∃ n, (w.Holds n ∧ (Layout.address o w n).StandsAt D c.position) ∧
        f n (c.read w.addressSize) = .ok b c' := by
  apply field_bind_eq_ok_iff (P := fun n p => w.Holds n ∧ (Layout.address o w n).StandsAt D p)
  intro n c c'
  rw [address_eq_ok_iff, and_assoc]

theorem name_bind_eq_ok_iff {f : String → Scan β} :
    ((ofBytes D).name nameSize >>= f) c = .ok b c' ↔
      ∃ s, (NameFits s ∧ (Layout.name s).StandsAt D c.position) ∧
        f s (c.read nameSize) = .ok b c' := by
  apply field_bind_eq_ok_iff (P := fun s p => NameFits s ∧ (Layout.name s).StandsAt D p)
  intro s c c'
  rw [name_eq_ok_iff, and_assoc]

end Fields

end Reader

end MachO
