import MachO.Proofs.ListingReading

namespace MachO

open Text Listing

namespace Text

def linesOf (s : String) : List String := (s.toList.splitOn '\n').map String.ofList

/-- The words of a line: what stands between blanks. -/
def wordsOf (s : String) : List String :=
  ((s.toList.splitOn ' ').filter (!·.isEmpty)).map String.ofList

/-- Words on one line, each behind one blank and as many more as are given with it. -/
def spaced (cells : List (Nat × String)) : String :=
  String.join (cells.map fun (fill, word) =>
    " " ++ (String.ofList (List.replicate fill ' ') ++ word))

end Text

namespace Listing

/-- The words of the third line, each with the word of the second line that names it. -/
def tableOf (text : String) : List (String × String) :=
  match linesOf text with
  | _ :: names :: values :: _ => (wordsOf names).zip (wordsOf values)
  | _ => []

def column? (text name : String) : Option String := (tableOf text).lookup name

end Listing

namespace Text

variable {a : String}

theorem linesOf_line (ha : '\n' ∉ a.toList) (r : String) :
    linesOf (a ++ ("\n" ++ r)) = a :: linesOf r := by
  have hchars : ∀ c ∈ a.toList, (c == '\n') = false := by
    intro c hc
    rw [beq_eq_false_iff_ne]
    rintro rfl
    exact ha hc
  rw [linesOf, String.toList_append, String.toList_append]
  change ((a.toList ++ '\n' :: r.toList).splitOn '\n').map String.ofList = _
  rw [List.splitOn, List.splitOnP_append_cons_of_forall_mem hchars '\n' rfl, List.map_cons,
    String.ofList_toList]
  rfl

theorem wordsOf_blank (r : String) : wordsOf (" " ++ r) = wordsOf r := by
  rw [wordsOf, String.toList_append]
  change (((' ' :: r.toList).splitOn ' ').filter (!·.isEmpty)).map String.ofList = _
  rw [List.splitOn, List.splitOnP_cons_eq_if_modifyHead]
  rfl

theorem wordsOf_blanks (count : Nat) (r : String) :
    wordsOf (String.ofList (List.replicate count ' ') ++ r) = wordsOf r := by
  induction count with
  | zero => rw [List.replicate_zero, String.ofList_nil, String.empty_append]
  | succ count ih =>
      rw [List.replicate_succ, ← List.singleton_append, String.ofList_append, String.append_assoc]
      exact (wordsOf_blank _).trans ih

theorem IsWord.ne_blank (ha : IsWord a) : ∀ c ∈ a.toList, (c == ' ') = false := by
  intro c hc
  rw [beq_eq_false_iff_ne]
  rintro rfl
  exact absurd (ha.2 ' ' hc) (by decide)

theorem IsWord.isEmpty_toList (ha : IsWord a) : a.toList.isEmpty = false := by
  rw [List.isEmpty_eq_false_iff]
  exact ha.1

theorem wordsOf_word (ha : IsWord a) (r : String) : wordsOf (a ++ (" " ++ r)) = a :: wordsOf r := by
  rw [wordsOf, String.toList_append, String.toList_append]
  change (((a.toList ++ ' ' :: r.toList).splitOn ' ').filter (!·.isEmpty)).map String.ofList = _
  rw [List.splitOn, List.splitOnP_append_cons_of_forall_mem ha.ne_blank ' ' rfl,
    List.filter_cons_of_pos (by rw [ha.isEmpty_toList]; rfl), List.map_cons, String.ofList_toList]
  rfl

theorem wordsOf_last (ha : IsWord a) : wordsOf a = [a] := by
  have hsplit : a.toList.splitOn ' ' = [a.toList] := List.splitOnP_eq_singleton ha.ne_blank
  rw [wordsOf, hsplit, List.filter_cons_of_pos (by rw [ha.isEmpty_toList]; rfl), List.filter_nil,
    List.map_singleton, String.ofList_toList]

theorem spaced_nil : spaced [] = "" := rfl

theorem spaced_cons (fill : Nat) (word : String) (rest : List (Nat × String)) :
    spaced ((fill, word) :: rest) =
      " " ++ (String.ofList (List.replicate fill ' ') ++ (word ++ spaced rest)) := by
  rw [spaced, List.map_cons, String.join_cons, String.append_assoc, String.append_assoc]
  rfl

theorem wordsOf_spaced (cells : List (Nat × String)) (hcells : ∀ cell ∈ cells, IsWord cell.2) :
    wordsOf (spaced cells) = cells.map Prod.snd := by
  induction cells with
  | nil => rfl
  | cons cell rest ih =>
      obtain ⟨hword, hrest⟩ := List.forall_mem_cons.mp hcells
      rw [spaced_cons, wordsOf_blank, wordsOf_blanks, List.map_cons, ← ih hrest]
      cases rest with
      | nil =>
          rw [spaced_nil, String.append_empty, wordsOf_last hword]
          rfl
      | cons next rest => rw [spaced_cons, wordsOf_word hword, wordsOf_blank]

theorem newline_notMem_spaced (cells : List (Nat × String))
    (hcells : ∀ cell ∈ cells, IsWord cell.2) : '\n' ∉ (spaced cells).toList := by
  induction cells with
  | nil => exact List.not_mem_nil
  | cons cell rest ih =>
      obtain ⟨hword, hrest⟩ := List.forall_mem_cons.mp hcells
      have hblanks : '\n' ∉ (String.ofList (List.replicate cell.1 ' ')).toList := by
        rw [String.toList_ofList]
        exact fun h => absurd (List.eq_of_mem_replicate h) (by decide)
      rw [spaced_cons]
      exact newline_notMem_append (by decide) (newline_notMem_append hblanks
        (newline_notMem_append hword.newline_notMem (ih hrest)))

theorem hexPadded_two {high low : Nat} (hhigh : high < 16) (hlow : low < 16) :
    hexPadded 2 (16 * high + low) = String.ofList [high.digitChar, low.digitChar] := by
  rcases high.eq_zero_or_pos with rfl | hpos
  · rw [Nat.mul_zero, Nat.zero_add, hexPadded, hex, Nat.toDigits_of_lt_base hlow, padLeft,
      String.length_ofList, ← String.ofList_append]
    rfl
  · rw [hexPadded, hex, ← Nat.toDigits_append_toDigits (by decide) hpos hlow,
      Nat.toDigits_of_lt_base hhigh, Nat.toDigits_of_lt_base hlow, padLeft, String.length_ofList,
      ← String.ofList_append]
    rfl

theorem length_hexPadded_two {n : Nat} (hn : n < 256) : (hexPadded 2 n).length = 2 := by
  rw [← Nat.div_add_mod n 16, hexPadded_two (by omega) (by omega), String.length_ofList]
  rfl

theorem hex_eq_append {n byte : Nat} (hn : 0 < n) (hbyte : byte < 256) :
    hex (256 * n + byte) = hex n ++ hexPadded 2 byte := by
  obtain ⟨high, low, hhigh, hlow, rfl⟩ :
      ∃ high low, high < 16 ∧ low < 16 ∧ byte = 16 * high + low :=
    ⟨byte / 16, byte % 16, by omega, by omega, (Nat.div_add_mod byte 16).symm⟩
  have hsplit : 256 * n + (16 * high + low) = 16 * (16 * n + high) + low := by omega
  rw [hexPadded_two hhigh hlow, hex, hex, hsplit,
    ← Nat.toDigits_append_toDigits (by decide) (by omega) hlow,
    ← Nat.toDigits_append_toDigits (by decide) hn hhigh, Nat.toDigits_of_lt_base hhigh,
    Nat.toDigits_of_lt_base hlow, List.append_assoc, String.ofList_append]
  rfl

end Text

namespace Header

variable (h : Header)

/-- The words on the third line of the listing, with the blanks before them. -/
def cells : List (Nat × String) :=
  [(0, "0x" ++ hexPadded 8 h.magic.toNat),
    (7 - (signed h.cpuType.toInt).length, signed h.cpuType.toInt),
    (10 - (signed h.subtypeNumber.toInt).length, signed h.subtypeNumber.toInt),
    (1, "0x" ++ hexPadded 2 h.capabilities.toUInt32.toNat),
    (10 - (decimal h.fileType.toNat).length + 1, decimal h.fileType.toNat),
    (5 - (decimal h.commandCount.toNat).length, decimal h.commandCount.toNat),
    (10 - (decimal h.commandsSize.toNat).length, decimal h.commandsSize.toNat),
    (0, "0x" ++ hexPadded 8 h.flags.toNat)]

def columnNames : List (Nat × String) :=
  [(5, "magic"), (0, "cputype"), (0, "cpusubtype"), (1, "caps"), (3, "filetype"), (0, "ncmds"),
    (0, "sizeofcmds"), (5, "flags")]

theorem isWord_of_mem_columnNames : ∀ cell ∈ columnNames, IsWord cell.2 := by decide

theorem isWord_of_mem_cells : ∀ cell ∈ h.cells, IsWord cell.2 := by
  have hzero : IsWord "0x" := by decide
  have hhex : ∀ width n, IsWord ("0x" ++ hexPadded width n) := fun width n =>
    .append_left hzero.2 (isWord_hexPadded width n)
  simp only [cells, List.forall_mem_cons, hhex, isWord_signed, isWord_decimal, true_and,
    List.not_mem_nil, false_implies, implies_true]

theorem headerColumns_eq : headerColumns = spaced columnNames ++ "\n" := by decide

theorem listing_eq_lines : h.listing = "Mach header" ++ ("\n" ++
    (spaced columnNames ++ ("\n" ++ (spaced h.cells ++ ("\n" ++ ""))))) := by
  rw [← String.append_empty (s := h.listing), listing_append, headerColumns_eq]
  apply String.toList_inj.mp
  simp [cells, spaced_cons, spaced_nil, padLeft, List.replicate_succ]

theorem tableOf_listing :
    tableOf h.listing = (columnNames.map Prod.snd).zip (h.cells.map Prod.snd) := by
  have hnames := newline_notMem_spaced columnNames isWord_of_mem_columnNames
  have hvalues := newline_notMem_spaced h.cells h.isWord_of_mem_cells
  rw [tableOf, listing_eq_lines, linesOf_line (by decide), linesOf_line hnames,
    linesOf_line hvalues]
  dsimp only
  rw [wordsOf_spaced columnNames isWord_of_mem_columnNames,
    wordsOf_spaced h.cells h.isWord_of_mem_cells]

theorem column?_caps :
    column? h.listing "caps" = some ("0x" ++ hexPadded 2 h.capabilities.toUInt32.toNat) := by
  rw [column?, tableOf_listing]
  rfl

theorem column?_cpusubtype :
    column? h.listing "cpusubtype" = some (signed h.subtypeNumber.toInt) := by
  rw [column?, tableOf_listing]
  rfl

theorem toInt_subtypeNumber :
    h.subtypeNumber.toInt = (h.cpuSubtype.toUInt32.toNat % 2 ^ 24 : Nat) := by
  have hnat : (h.cpuSubtype.toBitVec &&& 0x00FFFFFF#32).toNat =
      h.cpuSubtype.toUInt32.toNat % 2 ^ 24 := by
    rw [BitVec.toNat_and]
    exact Nat.and_two_pow_sub_one_eq_mod _ 24
  have hlt : h.cpuSubtype.toUInt32.toNat % 2 ^ 24 < 2 ^ 24 := Nat.mod_lt _ (by decide)
  have hint := BitVec.toInt_eq_toNat_of_lt (x := h.cpuSubtype.toBitVec &&& 0x00FFFFFF#32)
    (by omega)
  rw [hnat] at hint
  exact hint

theorem neg_iff : h.cpuSubtype < 0 ↔ 2 ^ 31 ≤ h.cpuSubtype.toUInt32.toNat := by
  have hsign := BitVec.toInt_neg_iff (x := h.cpuSubtype.toBitVec)
  have hnat : h.cpuSubtype.toBitVec.toNat = h.cpuSubtype.toUInt32.toNat := rfl
  rw [Int32.lt_iff_toInt_lt]
  change h.cpuSubtype.toBitVec.toInt < 0 ↔ _
  omega

theorem toNat_capabilities : h.capabilities.toUInt32.toNat =
    (if h.cpuSubtype < 0 then 256 * 0xFFFFFF else 0) + h.cpuSubtype.toUInt32.toNat / 2 ^ 24 := by
  have hshift : h.capabilities.toUInt32.toNat = (h.cpuSubtype.toBitVec.sshiftRight 24).toNat := rfl
  have hnat : h.cpuSubtype.toBitVec.toNat = h.cpuSubtype.toUInt32.toNat := rfl
  have hlt := h.cpuSubtype.toUInt32.toNat_lt
  rw [hshift, BitVec.toNat_sshiftRight, BitVec.msb_eq_decide, hnat, Nat.shiftRight_eq_div_pow,
    Nat.shiftRight_eq_div_pow]
  by_cases hneg : h.cpuSubtype < 0
  · have hle := h.neg_iff.mp hneg
    rw [if_pos (decide_eq_true hle), if_pos hneg]
    omega
  · have hgt := Nat.lt_of_not_le (mt h.neg_iff.mpr hneg)
    rw [if_neg (by simpa using hgt), if_neg hneg, Nat.zero_add]

theorem hexPadded_capabilities : hexPadded 2 h.capabilities.toUInt32.toNat =
    (if h.cpuSubtype < 0 then "ffffff" else "") ++
      hexPadded 2 (h.cpuSubtype.toUInt32.toNat / 2 ^ 24) := by
  have hbyte : h.cpuSubtype.toUInt32.toNat / 2 ^ 24 < 256 := by
    have hlt := h.cpuSubtype.toUInt32.toNat_lt
    omega
  rw [toNat_capabilities]
  by_cases hneg : h.cpuSubtype < 0
  · have hsign : hex 0xFFFFFF = "ffffff" := by decide
    have hlength : (hex (256 * 0xFFFFFF + h.cpuSubtype.toUInt32.toNat / 2 ^ 24)).length = 8 := by
      rw [hex_eq_append (by decide) hbyte, hsign, String.length_append, length_hexPadded_two hbyte]
      rfl
    -- There are more digits than the two of the column, so no zero is put before them.
    rw [if_pos hneg, if_pos hneg, hexPadded, padLeft, hlength, hex_eq_append (by decide) hbyte,
      hsign]
    rfl
  · rw [if_neg hneg, if_neg hneg, Nat.zero_add, String.empty_append]

/-- The two columns of the processor subtype. The one holds its lowest 24 bits; the other its
highest byte in two digits, with six digits for the bytes of the sign before them where the subtype
is negative. As words of 32 bits the two numbers give the subtype again; as numbers they do so only
where it is not negative, and so do the two digits stand alone only there. -/
theorem subtype_columns (h : Header) :
    let pattern := h.cpuSubtype.toUInt32.toNat
    let top := hexPadded 2 (pattern / 2 ^ 24)
    ∃ caps subtype,
      column? h.listing "caps" = some ("0x" ++ caps) ∧
      column? h.listing "cpusubtype" = some subtype ∧
      caps = (if h.cpuSubtype < 0 then "ffffff" else "") ++ top ∧
      top.length = 2 ∧
      subtype = decimal (pattern % 2 ^ 24) ∧
      (valueOf 16 caps.toList <<< 24 ||| valueOf 10 subtype.toList) % 2 ^ 32 = pattern ∧
      (valueOf 16 caps.toList <<< 24 ||| valueOf 10 subtype.toList = pattern ↔
        0 ≤ h.cpuSubtype) ∧
      (caps.length = 2 ↔ 0 ≤ h.cpuSubtype) := by
  intro pattern top
  have hpattern : pattern < 2 ^ 32 := h.cpuSubtype.toUInt32.toNat_lt
  have hlow : pattern % 2 ^ 24 < 2 ^ 24 := Nat.mod_lt pattern (by decide)
  have htop : top.length = 2 := length_hexPadded_two (by omega)
  have hsubtype : signed h.subtypeNumber.toInt = decimal (pattern % 2 ^ 24) :=
    congrArg signed h.toInt_subtypeNumber
  have hsum : valueOf 16 (hexPadded 2 h.capabilities.toUInt32.toNat).toList <<< 24 |||
      valueOf 10 (decimal (pattern % 2 ^ 24)).toList =
        ((if h.cpuSubtype < 0 then 256 * 0xFFFFFF else 0) + pattern / 2 ^ 24) * 2 ^ 24 +
          pattern % 2 ^ 24 := by
    rw [valueOf_hexPadded, valueOf_decimal, ← Nat.shiftLeft_add_eq_or_of_lt hlow,
      Nat.shiftLeft_eq, toNat_capabilities]
  refine ⟨_, _, h.column?_caps, h.column?_cpusubtype, h.hexPadded_capabilities, htop, hsubtype,
    ?_⟩
  rw [hsubtype, hsum, hexPadded_capabilities, String.length_append, htop, ← Int32.not_lt]
  by_cases hneg : h.cpuSubtype < 0
  · have hsix : "ffffff".length = 6 := by decide
    rw [if_pos hneg, if_pos hneg, hsix]
    exact ⟨by omega, iff_of_false (by omega) (not_not_intro hneg),
      iff_of_false (by decide) (not_not_intro hneg)⟩
  · rw [if_neg hneg, if_neg hneg]
    exact ⟨by omega, iff_of_true (by omega) hneg, iff_of_true rfl hneg⟩

/-- The subtype of an ordinary program, with the bit that says that its libraries have 64 bits. The
byte 0x80 is shown in eight digits. -/
theorem library_bit_in_eight_digits :
    let h : Header := ⟨0xFEEDFACF, 0x01000007, -2147483645, 2, 0, 0, 0⟩
    let pattern := h.cpuSubtype.toUInt32.toNat
    pattern = 0x80000003 ∧ column? h.listing "caps" = some "0xffffff80" ∧
      ¬ ∃ caps subtype,
        column? h.listing "caps" = some ("0x" ++ caps) ∧
        column? h.listing "cpusubtype" = some subtype ∧
        caps.length = 2 ∧ valueOf 16 caps.toList = pattern / 2 ^ 24 ∧
        subtype = decimal (pattern % 2 ^ 24) ∧
        valueOf 16 caps.toList <<< 24 ||| valueOf 10 subtype.toList = pattern := by
  intro h pattern
  have hsplit : "0xffffff80" = "0x" ++ "ffffff80" := by decide
  have hcaps : column? h.listing "caps" = some "0xffffff80" := by
    rw [column?_caps, hsplit]
    decide
  refine ⟨by decide, hcaps, ?_⟩
  rintro ⟨caps, subtype, hcolumn, -, hlength, -⟩
  rw [hcaps, hsplit, Option.some.injEq, String.append_right_inj] at hcolumn
  rw [← hcolumn] at hlength
  exact absurd hlength (by decide)

end Header

end MachO
