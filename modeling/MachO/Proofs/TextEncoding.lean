import MachO.Text.Utf8

namespace MachO.Text.Utf8

/-- The well-formed sequences of one character, by the number of bytes after the lead. -/
inductive Sequence : UInt8 → List UInt8 → Prop where
  | one {l : UInt8} (hl : l.toNat < 0x80) : Sequence l []
  | two {l b : UInt8} (hl : 0xC2 ≤ l.toNat ∧ l.toNat < 0xE0)
      (hb : 0x80 ≤ b.toNat ∧ b.toNat ≤ 0xBF) : Sequence l [b]
  | three {l b c : UInt8} (hl : 0xE0 ≤ l.toNat ∧ l.toNat < 0xF0)
      (hb : 0x80 ≤ b.toNat ∧ b.toNat ≤ 0xBF) (hc : 0x80 ≤ c.toNat ∧ c.toNat ≤ 0xBF)
      (hlong : l.toNat = 0xE0 → 0xA0 ≤ b.toNat) (hsurrogate : l.toNat = 0xED → b.toNat ≤ 0x9F) :
      Sequence l [b, c]
  | four {l b c d : UInt8} (hl : 0xF0 ≤ l.toNat ∧ l.toNat ≤ 0xF4)
      (hb : 0x80 ≤ b.toNat ∧ b.toNat ≤ 0xBF) (hc : 0x80 ≤ c.toNat ∧ c.toNat ≤ 0xBF)
      (hd : 0x80 ≤ d.toNat ∧ d.toNat ≤ 0xBF) (hlong : l.toNat = 0xF0 → 0x90 ≤ b.toNat)
      (hhigh : l.toNat = 0xF4 → b.toNat ≤ 0x8F) : Sequence l [b, c, d]

/-- Each byte lies in the range at its place, and there are as many bytes as ranges. -/
def Fits : List ByteRange → List UInt8 → Prop
  | [], [] => True
  | r :: rs, b :: bs => r.holds b = true ∧ Fits rs bs
  | _, _ => False

theorem length_of_fits {ranges : List ByteRange} {bs : List UInt8} (h : Fits ranges bs) :
    bs.length = ranges.length := by
  induction ranges generalizing bs with
  | nil =>
      cases bs with
      | nil => rfl
      | cons b bs => exact h.elim
  | cons r rs ih =>
      cases bs with
      | nil => exact h.elim
      | cons b bs => rw [List.length_cons, List.length_cons, ih h.2]

theorem matched_eq_length_iff {ranges : List ByteRange} {bs : List UInt8} :
    matched ranges bs = ranges.length ↔ Fits ranges (bs.take ranges.length) := by
  induction ranges generalizing bs with
  | nil => simp [matched, Fits]
  | cons r rs ih =>
      cases bs with
      | nil => simp [matched, Fits]
      | cons b bs =>
          rw [matched, List.length_cons, List.take_succ_cons, Fits]
          split
          · rename_i h
            simp [h, ih]
          · rename_i h
            simp [h]

theorem holds_iff {r : ByteRange} {b : UInt8} :
    r.holds b = true ↔ r.low.toNat ≤ b.toNat ∧ b.toNat ≤ r.high.toNat := by
  simp [ByteRange.holds, UInt8.le_iff_toNat_le]

theorem toNat_ofNat {n : Nat} (h : n < 0xD800 ∨ 0xDFFF < n ∧ n < 0x110000) :
    (Char.ofNat n).val.toNat = n := by
  rw [Char.ofNat, dif_pos h]
  rfl

theorem toNat_character {lead : UInt8} {rest : List UInt8} {n : Nat}
    (hn : rest.foldl (fun n b => 64 * n + b.toNat % 64) (payload lead rest.length) = n)
    (h : n < 0xD800 ∨ 0xDFFF < n ∧ n < 0x110000) : (character lead rest).val.toNat = n := by
  subst hn
  exact toNat_ofNat h

theorem ofNat_eq {n : Nat} {b : UInt8} (h : n = b.toNat) : UInt8.ofNat n = b := by
  rw [h]
  exact UInt8.ofNat_toNat

theorem eq_nil_of_fits {bs : List UInt8} (h : Fits [] bs) : bs = [] := by
  cases bs with
  | nil => rfl
  | cons b bs => exact h.elim

theorem exists_of_fits_cons {r : ByteRange} {rs : List ByteRange} {bs : List UInt8}
    (h : Fits (r :: rs) bs) :
    ∃ b bs', bs = b :: bs' ∧ (r.low.toNat ≤ b.toNat ∧ b.toNat ≤ r.high.toNat) ∧ Fits rs bs' := by
  cases bs with
  | nil => exact h.elim
  | cons b bs => exact ⟨b, bs, rfl, holds_iff.mp h.1, h.2⟩

theorem sequence_of_fits {lead : UInt8} {ranges : List ByteRange} {rest : List UInt8}
    (hf : followers lead = some ranges) (h : Fits ranges rest) : Sequence lead rest := by
  simp only [followers, UInt8.lt_iff_toNat_lt, ← UInt8.toNat_inj, UInt8.reduceToNat] at hf
  -- One goal is left for every class of leads, three of them with two followers.
  repeat' split at hf
  all_goals cases hf
  · rw [eq_nil_of_fits h]
    exact .one (by assumption)
  · obtain ⟨b, bs, rfl, hb, h⟩ := exists_of_fits_cons h
    rw [eq_nil_of_fits h]
    exact .two (by omega) hb
  iterate 3
    obtain ⟨b, bs, rfl, hb, h⟩ := exists_of_fits_cons h
    obtain ⟨c, cs, rfl, hc, h⟩ := exists_of_fits_cons h
    rw [eq_nil_of_fits h]
    simp only [continuation, UInt8.reduceToNat] at hb hc
    exact .three (by omega) (by omega) hc (by omega) (by omega)
  all_goals
    obtain ⟨b, bs, rfl, hb, h⟩ := exists_of_fits_cons h
    obtain ⟨c, cs, rfl, hc, h⟩ := exists_of_fits_cons h
    obtain ⟨d, ds, rfl, hd, h⟩ := exists_of_fits_cons h
    rw [eq_nil_of_fits h]
    simp only [continuation, UInt8.reduceToNat] at hb hc hd
    exact .four (by omega) (by omega) hc hd (by omega) (by omega)

theorem fits_of_sequence {lead : UInt8} {rest : List UInt8} (h : Sequence lead rest) :
    ∃ ranges, followers lead = some ranges ∧ Fits ranges rest := by
  simp only [followers, UInt8.lt_iff_toNat_lt, ← UInt8.toNat_inj, UInt8.reduceToNat]
  cases h with
  | one hl => exact ⟨[], by rw [if_pos hl], trivial⟩
  | two hl hb =>
      rw [if_neg (by omega), if_neg (by omega), if_pos hl.2]
      exact ⟨_, rfl, holds_iff.mpr hb, trivial⟩
  | three hl hb hc hlong hsurrogate =>
      rw [if_neg (by omega), if_neg (by omega), if_neg (by omega)]
      repeat' split
      all_goals first | omega | refine ⟨_, rfl, holds_iff.mpr ?_, holds_iff.mpr hc, trivial⟩
      · exact ⟨hlong ‹_›, hb.2⟩
      · exact ⟨hb.1, hsurrogate ‹_›⟩
      · exact hb
  | four hl hb hc hd hlong hhigh =>
      iterate 6 rw [if_neg (by omega)]
      repeat' split
      all_goals first
        | omega
        | refine ⟨_, rfl, holds_iff.mpr ?_, holds_iff.mpr hc, holds_iff.mpr hd, trivial⟩
      · exact ⟨hlong ‹_›, hb.2⟩
      · exact hb
      · exact ⟨hb.1, hhigh ‹_›⟩

theorem utf8EncodeChar_character {lead : UInt8} {rest : List UInt8} (h : Sequence lead rest) :
    String.utf8EncodeChar (character lead rest) = lead :: rest := by
  cases h with
  | one hl =>
      have hval : (character lead []).val.toNat = lead.toNat := toNat_character rfl (by omega)
      rw [String.utf8EncodeChar]
      simp only [hval]
      rw [if_pos (by omega), ofNat_eq rfl]
  | @two b hl hb =>
      have hval : (character lead [b]).val.toNat = 64 * (lead.toNat % 32) + b.toNat % 64 :=
        toNat_character rfl (by omega)
      rw [String.utf8EncodeChar]
      simp only [hval]
      rw [if_neg (by omega), if_pos (by omega), ofNat_eq (b := lead) (by omega),
        ofNat_eq (b := b) (by omega)]
  | @three b c hl hb hc hlong hsurrogate =>
      have hval : (character lead [b, c]).val.toNat =
          64 * (64 * (lead.toNat % 16) + b.toNat % 64) + c.toNat % 64 :=
        toNat_character rfl (by omega)
      rw [String.utf8EncodeChar]
      simp only [hval]
      rw [if_neg (by omega), if_neg (by omega), if_pos (by omega), ofNat_eq (b := lead) (by omega),
        ofNat_eq (b := b) (by omega), ofNat_eq (b := c) (by omega)]
  | @four b c d hl hb hc hd hlong hhigh =>
      have hval : (character lead [b, c, d]).val.toNat =
          64 * (64 * (64 * (lead.toNat % 8) + b.toNat % 64) + c.toNat % 64) + d.toNat % 64 :=
        toNat_character rfl (by omega)
      rw [String.utf8EncodeChar]
      simp only [hval]
      rw [if_neg (by omega), if_neg (by omega), if_neg (by omega), ofNat_eq (b := lead) (by omega),
        ofNat_eq (b := b) (by omega), ofNat_eq (b := c) (by omega), ofNat_eq (b := d) (by omega)]

theorem character_eq {lead : UInt8} {rest : List UInt8} {c : Char}
    (h : rest.foldl (fun n b => 64 * n + b.toNat % 64) (payload lead rest.length) = c.val.toNat) :
    character lead rest = c := by
  rw [character, h]
  exact Char.ofNat_toNat c

theorem exists_sequence (c : Char) :
    ∃ lead rest, String.utf8EncodeChar c = lead :: rest ∧ Sequence lead rest ∧
      character lead rest = c := by
  have hvalid : c.val.toNat < 0xD800 ∨ 0xDFFF < c.val.toNat ∧ c.val.toNat < 0x110000 := c.valid
  rw [String.utf8EncodeChar]
  split
  · refine ⟨_, _, rfl, .one ?_, character_eq ?_⟩
    · rw [UInt8.toNat_ofNat']
      omega
    · change (UInt8.ofNat _).toNat = _
      rw [UInt8.toNat_ofNat']
      omega
  split
  · refine ⟨_, _, rfl, .two ?_ ?_, character_eq ?_⟩
    · rw [UInt8.toNat_ofNat']
      omega
    · rw [UInt8.toNat_ofNat']
      omega
    · change 64 * ((UInt8.ofNat _).toNat % 32) + (UInt8.ofNat _).toNat % 64 = _
      simp only [UInt8.toNat_ofNat']
      omega
  split
  · refine ⟨_, _, rfl, .three ?_ ?_ ?_ ?_ ?_, character_eq ?_⟩
    iterate 5
      · simp only [UInt8.toNat_ofNat']
        omega
    · change 64 * (64 * ((UInt8.ofNat _).toNat % 16) + (UInt8.ofNat _).toNat % 64)
        + (UInt8.ofNat _).toNat % 64 = _
      simp only [UInt8.toNat_ofNat']
      omega
  · refine ⟨_, _, rfl, .four ?_ ?_ ?_ ?_ ?_ ?_, character_eq ?_⟩
    iterate 6
      · simp only [UInt8.toNat_ofNat']
        omega
    · change 64 * (64 * (64 * ((UInt8.ofNat _).toNat % 8) + (UInt8.ofNat _).toNat % 64)
        + (UInt8.ofNat _).toNat % 64) + (UInt8.ofNat _).toNat % 64 = _
      simp only [UInt8.toNat_ofNat']
      omega

theorem decodeFrom_append {lead : UInt8} {rest : List UInt8} (h : Sequence lead rest)
    (index : Nat) (tail : List UInt8) :
    decodeFrom index (lead :: rest ++ tail) =
      (decodeFrom (index + 1 + rest.length) tail).map (character lead rest :: ·) := by
  obtain ⟨ranges, hf, hfits⟩ := fits_of_sequence h
  have hlen := length_of_fits hfits
  have htake : (rest ++ tail).take ranges.length = rest := by rw [← hlen, List.take_left]
  have hcount : matched ranges (rest ++ tail) = ranges.length :=
    matched_eq_length_iff.mpr (by rwa [htake])
  rw [List.cons_append, decodeFrom, hf]
  simp only [hcount, ↓reduceIte]
  rw [htake, ← hlen, List.drop_left]
  cases decodeFrom (index + 1 + rest.length) tail <;> rfl

theorem decodeFrom_flatMap (index : Nat) (cs : List Char) :
    decodeFrom index (cs.flatMap String.utf8EncodeChar) = .ok cs := by
  induction cs generalizing index with
  | nil => rw [List.flatMap_nil, decodeFrom]
  | cons c cs ih =>
      obtain ⟨lead, rest, hencode, hseq, hc⟩ := exists_sequence c
      rw [List.flatMap_cons, hencode, decodeFrom_append hseq, ih, hc]
      rfl

theorem flatMap_of_decodeFrom {index : Nat} {bs : List UInt8} {cs : List Char}
    (h : decodeFrom index bs = .ok cs) : cs.flatMap String.utf8EncodeChar = bs := by
  fun_induction decodeFrom index bs generalizing cs with
  | case1 =>
      cases h
      rfl
  | case2 => cases h
  | case3 index lead rest ranges hf count hcount rs hrest =>
      rename_i ih
      cases h
      have hfits := matched_eq_length_iff.mp hcount
      have hseq := utf8EncodeChar_character (sequence_of_fits hf hfits)
      rw [List.flatMap_cons, ih hrest, hcount, hseq, List.cons_append, List.take_append_drop]
  | case4 => cases h
  | case5 => cases h
  | case6 => cases h

/-- Decoding gives a text exactly on the bytes that encode it. -/
theorem decode_eq_ok_iff {bs : List UInt8} {s : String} : decode bs = .ok s ↔ encode s = bs := by
  constructor
  · intro h
    rw [decode] at h
    cases hd : decodeFrom 0 bs with
    | error d =>
        rw [hd] at h
        cases h
    | ok cs =>
        rw [hd] at h
        cases h
        rw [encode, String.toList_ofList, flatMap_of_decodeFrom hd]
  · rintro rfl
    rw [decode, encode, decodeFrom_flatMap]
    exact congrArg Except.ok (String.ofList_toList)

theorem Sequence.eq_of_zero_mem {lead : UInt8} {rest : List UInt8} (h : Sequence lead rest)
    (hzero : 0 ∈ lead :: rest) : lead = 0 ∧ rest = [] := by
  have hpos : ∀ b : UInt8, 0 < b.toNat → 0 ≠ b := by
    rintro b hb rfl
    exact absurd hb (by decide)
  cases h with
  | one hl => exact ⟨(List.mem_singleton.mp hzero).symm, rfl⟩
  | @two b hl hb => simp [hpos lead (by omega), hpos b (by omega)] at hzero
  | @three b c hl hb hc hlong hsurrogate =>
      simp [hpos lead (by omega), hpos b (by omega), hpos c (by omega)] at hzero
  | @four b c d hl hb hc hd hlong hhigh =>
      simp [hpos lead (by omega), hpos b (by omega), hpos c (by omega), hpos d (by omega)] at hzero

theorem zero_mem_encode_iff {s : String} : 0 ∈ encode s ↔ '\x00' ∈ s.toList := by
  rw [encode, List.mem_flatMap]
  constructor
  · rintro ⟨c, hc, hzero⟩
    obtain ⟨lead, rest, hencode, hseq, rfl⟩ := exists_sequence c
    rw [hencode] at hzero
    obtain ⟨rfl, rfl⟩ := hseq.eq_of_zero_mem hzero
    exact hc
  · intro h
    exact ⟨_, h, by decide⟩

end MachO.Text.Utf8
