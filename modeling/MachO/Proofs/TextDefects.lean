import Mathlib.Order.Bounds.Basic
import MachO.Proofs.TextEncoding

/-!
Defects of texts. Where bytes encode no text, decoding ends behind the longest beginning of them
that encodes one: no character's sequence stands there. Bytes that begin the sequence of a character
are told from others by the ranges that follow their lead, since any beginning that keeps to them
can be completed with their lowest bytes.
-/

namespace MachO.Text.Utf8

/-- The bytes encode a text. -/
def WellFormed (bs : List UInt8) : Prop := ∃ s : String, encode s = bs

/-- The sequence of some character begins with the bytes. -/
def Begins (bs : List UInt8) : Prop := ∃ c : Char, bs <+: String.utf8EncodeChar c

def Defect.index : Defect → Nat
  | .incomplete index => index
  | .invalid index _ => index

/-- The defect is the one that bytes have which encode no text. -/
structure Defect.Locates (d : Defect) (bs : List UInt8) : Prop where
  /-- It stands behind the longest beginning that encodes a text. -/
  index : IsGreatest {i | i ≤ bs.length ∧ WellFormed (bs.take i)} d.index
  /-- The bytes are cut off if the sequence of some character goes on behind them. -/
  incomplete : (∃ i, d = .incomplete i) ↔
    ∃ c : Char, bs.drop d.index <+: String.utf8EncodeChar c ∧
      bs.drop d.index ≠ String.utf8EncodeChar c
  /-- Otherwise those are kept as one piece that begin a sequence, or one byte if none does. -/
  invalid : ∀ i n, d = .invalid i n → (1 ≤ n ∧ n ≤ 3) ∧
    ∃ k, IsGreatest {k | k ≤ (bs.drop i).length ∧ Begins ((bs.drop i).take k)} k ∧ n = max 1 k

section Ranges

variable {lead : UInt8} {ranges : List ByteRange} {bs : List UInt8}

theorem length_followers_le (h : followers lead = some ranges) : ranges.length ≤ 3 := by
  unfold followers at h
  repeat' split at h
  all_goals cases h
  all_goals decide

theorem holds_low_of_followers (h : followers lead = some ranges) :
    ∀ r ∈ ranges, r.holds r.low = true := by
  unfold followers at h
  repeat' split at h
  all_goals cases h
  all_goals decide

theorem matched_le (ranges : List ByteRange) (bs : List UInt8) :
    matched ranges bs ≤ ranges.length ∧ matched ranges bs ≤ bs.length := by
  induction ranges generalizing bs with
  | nil => simp [matched]
  | cons r rs ih =>
      cases bs with
      | nil => simp [matched]
      | cons b bs =>
          have hrest := ih bs
          rw [matched, List.length_cons, List.length_cons]
          split <;> omega

theorem matched_take (ranges : List ByteRange) (bs : List UInt8) (n : Nat) :
    matched ranges (bs.take n) = min n (matched ranges bs) := by
  induction ranges generalizing bs n with
  | nil => simp [matched]
  | cons r rs ih =>
      cases bs with
      | nil => simp [matched]
      | cons b bs =>
          cases n with
          | zero => simp [matched]
          | succ n =>
              rw [List.take_succ_cons, matched, matched, ih]
              split <;> omega

theorem fits_map_low (h : ∀ r ∈ ranges, r.holds r.low = true) :
    Fits ranges (ranges.map ByteRange.low) := by
  induction ranges with
  | nil => trivial
  | cons r rs ih =>
      obtain ⟨hr, hrs⟩ := List.forall_mem_cons.mp h
      exact ⟨hr, ih hrs⟩

/-- Bytes that keep to the ranges at their places can be completed. -/
theorem exists_fits_append (h : ∀ r ∈ ranges, r.holds r.low = true)
    (hbs : matched ranges bs = bs.length) : ∃ rest, Fits ranges (bs ++ rest) := by
  induction ranges generalizing bs with
  | nil =>
      cases bs with
      | nil => exact ⟨[], trivial⟩
      | cons b bs => cases hbs
  | cons r rs ih =>
      cases bs with
      | nil => exact ⟨(r :: rs).map ByteRange.low, fits_map_low h⟩
      | cons b bs =>
          rw [matched, List.length_cons] at hbs
          split at hbs
          · rename_i hb
            obtain ⟨rest, hrest⟩ := ih (List.forall_mem_cons.mp h).2 (Nat.succ.inj hbs)
            exact ⟨rest, hb, hrest⟩
          · cases hbs

theorem matched_of_fits_append {rest : List UInt8} (h : Fits ranges (bs ++ rest)) :
    matched ranges bs = bs.length := by
  have hlen := length_of_fits h
  have hall : matched ranges (bs ++ rest) = ranges.length :=
    matched_eq_length_iff.mpr (by rwa [← hlen, List.take_length])
  have htake := matched_take ranges (bs ++ rest) bs.length
  rw [List.take_left, hall] at htake
  rw [List.length_append] at hlen
  omega

end Ranges

section Sequences

variable {lead : UInt8} {ranges : List ByteRange} {tail : List UInt8}

theorem begins_nil : Begins [] := ⟨'a', List.nil_prefix⟩

theorem begins_cons_iff :
    Begins (lead :: tail) ↔
      ∃ ranges, followers lead = some ranges ∧ matched ranges tail = tail.length := by
  constructor
  · rintro ⟨c, hc⟩
    obtain ⟨lead', rest, hencode, hseq, -⟩ := exists_sequence c
    rw [hencode, List.cons_prefix_cons] at hc
    obtain ⟨rfl, more, rfl⟩ := hc
    obtain ⟨ranges, hf, hfits⟩ := fits_of_sequence hseq
    exact ⟨ranges, hf, matched_of_fits_append hfits⟩
  · rintro ⟨ranges, hf, htail⟩
    obtain ⟨rest, hfits⟩ := exists_fits_append (holds_low_of_followers hf) htail
    refine ⟨character lead (tail ++ rest), ?_⟩
    rw [utf8EncodeChar_character (sequence_of_fits hf hfits), ← List.cons_append]
    exact List.prefix_append _ _

theorem exists_first_char_iff :
    (∃ c : Char, String.utf8EncodeChar c <+: lead :: tail) ↔
      ∃ ranges, followers lead = some ranges ∧ matched ranges tail = ranges.length := by
  constructor
  · rintro ⟨c, hc⟩
    obtain ⟨lead', rest, hencode, hseq, -⟩ := exists_sequence c
    rw [hencode, List.cons_prefix_cons] at hc
    obtain ⟨rfl, more, rfl⟩ := hc
    obtain ⟨ranges, hf, hfits⟩ := fits_of_sequence hseq
    refine ⟨ranges, hf, matched_eq_length_iff.mpr ?_⟩
    rwa [← length_of_fits hfits, List.take_left]
  · rintro ⟨ranges, hf, htail⟩
    have hfits := matched_eq_length_iff.mp htail
    refine ⟨character lead (tail.take ranges.length), ?_⟩
    rw [utf8EncodeChar_character (sequence_of_fits hf hfits), List.cons_prefix_cons]
    exact ⟨rfl, List.take_prefix _ _⟩

theorem isGreatest_begins_of_some (hf : followers lead = some ranges) :
    IsGreatest {k | k ≤ (lead :: tail).length ∧ Begins ((lead :: tail).take k)}
      (matched ranges tail + 1) := by
  have hle := (matched_le ranges tail).2
  have hbegins : ∀ k, Begins ((lead :: tail).take (k + 1)) ↔
      min k (matched ranges tail) = min k tail.length := by
    intro k
    rw [List.take_succ_cons, begins_cons_iff]
    constructor
    · rintro ⟨ranges', hf', h⟩
      obtain rfl : ranges = ranges' := Option.some.inj (hf.symm.trans hf')
      rwa [matched_take, List.length_take] at h
    · intro h
      exact ⟨ranges, hf, by rwa [matched_take, List.length_take]⟩
  constructor
  · refine ⟨Nat.succ_le_succ hle, (hbegins _).mpr ?_⟩
    omega
  · rintro k ⟨hk, h⟩
    cases k with
    | zero => exact Nat.zero_le _
    | succ k =>
        have hmin := (hbegins k).mp h
        rw [List.length_cons] at hk
        omega

theorem isGreatest_begins_of_none (hf : followers lead = none) :
    IsGreatest {k | k ≤ (lead :: tail).length ∧ Begins ((lead :: tail).take k)} 0 := by
  refine ⟨⟨Nat.zero_le _, begins_nil⟩, ?_⟩
  rintro k ⟨-, h⟩
  cases k with
  | zero => exact Nat.le_refl 0
  | succ k =>
      rw [List.take_succ_cons, begins_cons_iff] at h
      obtain ⟨ranges, hf', -⟩ := h
      rw [hf] at hf'
      cases hf'

end Sequences

section Texts

variable {bs good rest : List UInt8}

theorem wellFormed_nil : WellFormed [] := ⟨"", rfl⟩

theorem WellFormed.cons {lead : UInt8} (hseq : Sequence lead rest) (hbs : WellFormed bs) :
    WellFormed (lead :: rest ++ bs) := by
  obtain ⟨s, rfl⟩ := hbs
  refine ⟨String.ofList (character lead rest :: s.toList), ?_⟩
  rw [encode, String.toList_ofList, List.flatMap_cons, utf8EncodeChar_character hseq]
  rfl

theorem wellFormed_of_decodeFrom {index : Nat} {cs : List Char}
    (h : decodeFrom index bs = .ok cs) : WellFormed bs := by
  refine ⟨String.ofList cs, ?_⟩
  rw [encode, String.toList_ofList, flatMap_of_decodeFrom h]

theorem decodeFrom_flatMap_append (index : Nat) (cs : List Char) (bs : List UInt8) :
    decodeFrom index (cs.flatMap String.utf8EncodeChar ++ bs) =
      (decodeFrom (index + (cs.flatMap String.utf8EncodeChar).length) bs).map (cs ++ ·) := by
  induction cs generalizing index with
  | nil =>
      show decodeFrom index bs = (decodeFrom index bs).map id
      cases decodeFrom index bs <;> rfl
  | cons c cs ih =>
      obtain ⟨lead, rest, hencode, hseq, hc⟩ := exists_sequence c
      have hlength : index + (lead :: rest ++ cs.flatMap String.utf8EncodeChar).length =
          index + 1 + rest.length + (cs.flatMap String.utf8EncodeChar).length := by
        simp only [List.length_append, List.length_cons]
        omega
      rw [List.flatMap_cons, hencode, List.append_assoc, decodeFrom_append hseq, ih, hc, hlength]
      cases decodeFrom _ bs <;> rfl

theorem WellFormed.of_append (hgood : WellFormed good) (h : WellFormed (good ++ rest)) :
    WellFormed rest := by
  obtain ⟨s, rfl⟩ := hgood
  obtain ⟨t, ht⟩ := h
  have hdecode : decodeFrom 0 (encode t) = .ok t.toList := decodeFrom_flatMap 0 t.toList
  rw [ht, encode, decodeFrom_flatMap_append] at hdecode
  cases hrest : decodeFrom (0 + (s.toList.flatMap String.utf8EncodeChar).length) rest with
  | ok cs => exact wellFormed_of_decodeFrom hrest
  | error d =>
      rw [hrest] at hdecode
      cases hdecode

theorem WellFormed.exists_first_char (h : WellFormed bs) (hne : bs ≠ []) :
    ∃ c : Char, String.utf8EncodeChar c <+: bs := by
  obtain ⟨s, rfl⟩ := h
  rw [encode] at hne ⊢
  cases hs : s.toList with
  | nil =>
      rw [hs] at hne
      exact absurd rfl hne
  | cons c cs => exact ⟨c, List.prefix_append _ _⟩

/-- A text ends where no sequence of a character stands. -/
theorem isGreatest_wellFormed (hgood : WellFormed good)
    (hrest : ¬ ∃ c : Char, String.utf8EncodeChar c <+: rest) :
    IsGreatest {i | i ≤ (good ++ rest).length ∧ WellFormed ((good ++ rest).take i)}
      good.length := by
  constructor
  · refine ⟨?_, ?_⟩
    · rw [List.length_append]
      exact Nat.le_add_right _ _
    · rwa [List.take_left]
  · rintro i ⟨hi, h⟩
    refine Nat.not_lt.mp fun hlt => hrest ?_
    obtain ⟨n, rfl⟩ := Nat.exists_eq_add_of_lt hlt
    rw [List.length_append] at hi
    rw [Nat.add_assoc, List.take_length_add_append] at h
    have hne : rest.take (n + 1) ≠ [] := List.ne_nil_of_length_pos (by
      rw [List.length_take]
      omega)
    obtain ⟨c, hc⟩ := (hgood.of_append h).exists_first_char hne
    exact ⟨c, hc.trans (List.take_prefix _ _)⟩

end Texts

/-- The ways in which no sequence stands at a lead byte and what follows it. -/
inductive Stops (index : Nat) (lead : UInt8) (tail : List UInt8) : Defect → Prop
  | lead (noSequence : followers lead = none) : Stops index lead tail (.invalid index 1)
  | cut {ranges : List ByteRange} (follow : followers lead = some ranges)
      (all : matched ranges tail = tail.length) (short : tail.length < ranges.length) :
      Stops index lead tail (.incomplete index)
  | broken {ranges : List ByteRange} (follow : followers lead = some ranges)
      (before : matched ranges tail < tail.length)
      (short : matched ranges tail < ranges.length) :
      Stops index lead tail (.invalid index (matched ranges tail + 1))

section Stopping

variable {index : Nat} {lead : UInt8} {bs tail : List UInt8} {d : Defect}

theorem Stops.index_eq (h : Stops index lead tail d) : d.index = index := by
  cases h <;> rfl

theorem Stops.not_exists_first_char (h : Stops index lead tail d) :
    ¬ ∃ c : Char, String.utf8EncodeChar c <+: lead :: tail := by
  rw [exists_first_char_iff]
  rintro ⟨ranges, hf, hall⟩
  cases h with
  | lead noSequence =>
      rw [noSequence] at hf
      cases hf
  | cut follow all short =>
      rw [follow] at hf
      cases hf
      omega
  | broken follow before short =>
      rw [follow] at hf
      cases hf
      omega

theorem stops_of_decodeFrom (h : decodeFrom index bs = .error d) :
    ∃ good lead tail, bs = good ++ lead :: tail ∧ WellFormed good ∧
      Stops (index + good.length) lead tail d := by
  fun_induction decodeFrom index bs with
  | case1 => cases h
  | case2 index lead rest hf =>
      cases h
      exact ⟨[], lead, rest, rfl, wellFormed_nil, .lead hf⟩
  | case3 => cases h
  | case4 index lead rest ranges hf count hcount d' hrest ih =>
      cases h
      have hfits := matched_eq_length_iff.mp hcount
      rw [← hcount] at hfits
      obtain ⟨good, lead', tail, hdrop, hgood, hstops⟩ := ih hrest
      refine ⟨lead :: rest.take count ++ good, lead', tail, ?_,
        hgood.cons (sequence_of_fits hf hfits), ?_⟩
      · rw [List.append_assoc, ← hdrop, List.cons_append, List.take_append_drop]
      · have hcountle : count ≤ rest.length := (matched_le ranges rest).2
        have hlength : index + (lead :: rest.take count ++ good).length =
            index + 1 + count + good.length := by
          simp only [List.length_append, List.length_cons, List.length_take]
          omega
        rwa [hlength]
  | case5 index lead rest ranges hf count hcount hlength =>
      cases h
      have hle : count ≤ ranges.length := (matched_le ranges rest).1
      exact ⟨[], lead, rest, rfl, wellFormed_nil, .cut hf hlength.symm (by omega)⟩
  | case6 index lead rest ranges hf count hcount hlength =>
      cases h
      have hle : count ≤ ranges.length ∧ count ≤ rest.length := matched_le ranges rest
      exact ⟨[], lead, rest, rfl, wellFormed_nil, .broken hf (by omega) (by omega)⟩

/-- The defect that decoding reports is the one that the bytes have. -/
theorem locates_of_decode (h : decode bs = .error d) : d.Locates bs := by
  have hfrom : decodeFrom 0 bs = .error d := by
    rw [decode] at h
    cases hd : decodeFrom 0 bs with
    | ok cs =>
        rw [hd] at h
        cases h
    | error d' =>
        rw [hd] at h
        cases h
        rfl
  obtain ⟨good, lead, tail, rfl, hgood, hstops⟩ := stops_of_decodeFrom hfrom
  rw [Nat.zero_add] at hstops
  have hindex := hstops.index_eq
  have hnone := hstops.not_exists_first_char
  have hdrop : (good ++ lead :: tail).drop d.index = lead :: tail := by
    rw [hindex, List.drop_left]
  refine ⟨?_, ?_, ?_⟩
  · rw [hindex]
    exact isGreatest_wellFormed hgood hnone
  · rw [hdrop]
    cases hstops with
    | lead noSequence =>
        refine ⟨?_, ?_⟩
        · rintro ⟨i, hi⟩
          cases hi
        · rintro ⟨c, hc, -⟩
          obtain ⟨ranges, hf, -⟩ := begins_cons_iff.mp ⟨c, hc⟩
          rw [noSequence] at hf
          cases hf
    | cut follow all short =>
        obtain ⟨c, hc⟩ := begins_cons_iff.mpr ⟨_, follow, all⟩
        refine ⟨fun _ => ⟨c, hc, ?_⟩, fun _ => ⟨_, rfl⟩⟩
        intro hwhole
        exact hnone ⟨c, hwhole ▸ List.prefix_rfl⟩
    | broken follow before short =>
        refine ⟨?_, ?_⟩
        · rintro ⟨i, hi⟩
          cases hi
        · rintro ⟨c, hc, -⟩
          obtain ⟨ranges, hf, hall⟩ := begins_cons_iff.mp ⟨c, hc⟩
          rw [follow] at hf
          cases hf
          omega
  · rintro i n rfl
    have hdrop' : (good ++ lead :: tail).drop i = lead :: tail := hdrop
    rw [hdrop']
    cases hstops with
    | lead noSequence => exact ⟨by decide, 0, isGreatest_begins_of_none noSequence, rfl⟩
    | broken follow before short =>
        have hthree := length_followers_le follow
        exact ⟨by omega, _, isGreatest_begins_of_some follow, by omega⟩

end Stopping

end MachO.Text.Utf8
