import MachO.Listing
import MachO.Proofs.ColumnReading
import MachO.Proofs.FieldReading

/-!
Lines of listings read back. The value of a line ends where the line does, and a number ends where a
remark may begin. The segment that a section is labelled with may itself hold an end of line; it is
told by the little room that a name has.
-/

namespace MachO

open Text

/-- Of any two texts of values, each with anything behind it, that are equal, the values look alike
and the same is behind them. -/
def Legible {α β : Type} (P : α → Prop) (text : α → String) (view : α → β) : Prop :=
  ∀ ⦃a b : α⦄, P a → P b → ∀ ⦃r r' : String⦄, text a ++ r = text b ++ r' → view a = view b ∧ r = r'

/-- Legible texts stay so in a row, when it is known how many there are. -/
theorem Legible.join {α β : Type} {P : α → Prop} {text : α → String} {view : α → β}
    (h : Legible P text view) {as bs : List α} (has : ∀ a ∈ as, P a) (hbs : ∀ b ∈ bs, P b)
    (hlength : as.length = bs.length) {r r' : String}
    (hjoin : String.join (as.map text) ++ r = String.join (bs.map text) ++ r') :
    as.map view = bs.map view ∧ r = r' := by
  induction as generalizing bs with
  | nil =>
      cases bs with
      | nil => exact ⟨rfl, (String.append_right_inj _).mp hjoin⟩
      | cons b bs => cases hlength
  | cons a as ih =>
      cases bs with
      | nil => cases hlength
      | cons b bs =>
          obtain ⟨ha, has⟩ := List.forall_mem_cons.mp has
          obtain ⟨hb, hbs⟩ := List.forall_mem_cons.mp hbs
          simp only [List.map_cons, String.join_cons, String.append_assoc] at hjoin
          obtain ⟨hview, hrest⟩ := h ha hb hjoin
          obtain ⟨hviews, hr⟩ := ih has hbs (Nat.succ.inj hlength) hrest
          exact ⟨by rw [List.map_cons, List.map_cons, hview, hviews], hr⟩

namespace Listing

variable {label r r' : String}

theorem field_inj {value value' : String} (hvalue : '\n' ∉ value.toList)
    (hvalue' : '\n' ∉ value'.toList) (h : field label value ++ r = field label value' ++ r') :
    value = value' ∧ r = r' := by
  simp only [field, String.append_assoc, String.append_right_inj] at h
  exact line_inj hvalue hvalue' h

theorem decimalField_inj {n m : Nat} (h : decimalField label n ++ r = decimalField label m ++ r') :
    n = m ∧ r = r' := by
  obtain ⟨hvalue, hr⟩ :=
    field_inj (isWord_decimal n).newline_notMem (isWord_decimal m).newline_notMem h
  exact ⟨decimal_inj.mp hvalue, hr⟩

theorem hexField_inj {digits n m : Nat}
    (h : hexField label digits n ++ r = hexField label digits m ++ r') : n = m ∧ r = r' := by
  have hnewline : ∀ k, '\n' ∉ ("0x" ++ hexPadded digits k).toList :=
    fun k => newline_notMem_append (by decide) (isWord_hexPadded digits k).newline_notMem
  obtain ⟨hvalue, hr⟩ := field_inj (hnewline n) (hnewline m) h
  exact ⟨hexPadded_inj.mp ((String.append_right_inj "0x").mp hvalue), hr⟩

theorem newline_notMem_remark {applies : Bool} {text : String} (h : '\n' ∉ text.toList) :
    '\n' ∉ (remark applies text).toList := by
  cases applies with
  | false => exact List.not_mem_nil
  | true => exact newline_notMem_append (newline_notMem_append (by decide) h) (by decide)

theorem breaks_remark (applies : Bool) (text : String) :
    Breaks isWordChar (remark applies text) := by
  cases applies with
  | false => exact nofun
  | true =>
      simp only [remark, if_true, String.append_assoc]
      exact breaks_append (by decide) _

theorem remarkField_inj {applies applies' : Bool} {text : String} {n m : Nat}
    (htext : '\n' ∉ text.toList)
    (h : field label (decimal n ++ remark applies text) ++ r =
      field label (decimal m ++ remark applies' text) ++ r') : n = m ∧ r = r' := by
  have hnewline : ∀ k applies, '\n' ∉ (decimal k ++ remark applies text).toList :=
    fun k _ => newline_notMem_append (isWord_decimal k).newline_notMem (newline_notMem_remark htext)
  obtain ⟨hvalue, hr⟩ := field_inj (hnewline n applies) (hnewline m applies') h
  obtain ⟨hword, -⟩ := span_inj (isWord_decimal n).2 (isWord_decimal m).2
    (breaks_remark applies text) (breaks_remark applies' text) hvalue
  exact ⟨decimal_inj.mp hword, hr⟩

theorem powerField_inj {n m p q : Nat}
    (h : field label ("2^" ++ (decimal n ++ (" (" ++ (decimal p ++ ")")))) ++ r =
      field label ("2^" ++ (decimal m ++ (" (" ++ (decimal q ++ ")")))) ++ r') :
    n = m ∧ r = r' := by
  have hnewline : ∀ k l, '\n' ∉ ("2^" ++ (decimal k ++ (" (" ++ (decimal l ++ ")")))).toList := by
    intro k l
    have hl : '\n' ∉ (decimal l ++ ")").toList :=
      newline_notMem_append (isWord_decimal l).newline_notMem (by decide)
    have hk : '\n' ∉ (decimal k ++ (" (" ++ (decimal l ++ ")"))).toList :=
      newline_notMem_append (isWord_decimal k).newline_notMem
        (newline_notMem_append (by decide) hl)
    exact newline_notMem_append (by decide) hk
  obtain ⟨hvalue, hr⟩ := field_inj (hnewline n p) (hnewline m q) h
  obtain ⟨hword, -⟩ := word_inj (by decide) (isWord_decimal n) (isWord_decimal m)
    ((String.append_right_inj "2^").mp hvalue)
  exact ⟨decimal_inj.mp hword, hr⟩

end Listing

open Listing

theorem NameFits.length_le {s : String} (h : NameFits s) : s.toList.length ≤ nameSize := by
  have hbytes : s.toList.length ≤ (Utf8.encode s).length := by
    rw [Utf8.encode]
    induction s.toList with
    | nil => exact Nat.zero_le _
    | cons c cs ih =>
        rw [List.flatMap_cons, List.length_append, String.length_utf8EncodeChar, List.length_cons]
        have := c.utf8Size_pos
        omega
  exact Nat.le_trans hbytes h.1

section Labels

variable {owner label : String}

/-- What stands in the listing of a section behind the segment that it is labelled with. -/
def behindLabel (owner label : String) (digits n : Nat) (rest : String) : String :=
  remark (owner != label) "does not match segment"
    ++ ("\n" ++ (hexField "      addr" digits n ++ rest))

theorem behindLabel_of_eq (h : owner = label) (digits n : Nat) (rest : String) :
    behindLabel owner label digits n rest =
      "\n      addr 0x" ++ hexPadded digits n ++ ("\n" ++ rest) := by
  have happlies : (owner != label) = false := bne_eq_false_iff_eq.mpr h
  rw [behindLabel, happlies, hexField, field]
  simp only [remark, String.append_assoc]
  rfl

theorem behindLabel_of_ne (h : owner ≠ label) (digits n : Nat) (rest : String) :
    ∃ rest', behindLabel owner label digits n rest = " (does not match segment)" ++ rest' := by
  have happlies : (owner != label) = true := bne_iff_ne.mpr h
  rw [behindLabel, happlies]
  exact ⟨_, rfl⟩

theorem getElem?_ne_of_notMem {s t : String} {c : Char} (hc : c ∉ s.toList) {i : Nat}
    (hi : i < s.toList.length) : (s ++ t).toList[i]? ≠ some c := by
  rw [String.toList_append, List.getElem?_append_left hi]
  exact fun h => hc (List.mem_of_getElem? h)

theorem le_length_hexPadded (digits n : Nat) : digits ≤ (hexPadded digits n).toList.length := by
  rw [hexPadded, padLeft, String.toList_append, List.length_append, String.toList_ofList,
    List.length_replicate, String.length_toList]
  omega

theorem behindLabel_ne_parenthesis {digits : Nat} (hdigits : 8 ≤ digits) (n : Nat) (rest : String)
    {i : Nat} (hi : 1 < i) (hle : i ≤ nameSize + 1) :
    (behindLabel owner label digits n rest).toList[i]? ≠ some '(' := by
  rcases Classical.em (owner = label) with h | h
  · rw [behindLabel_of_eq h]
    apply getElem?_ne_of_notMem
    · rw [String.toList_append, List.mem_append]
      exact not_or_intro (by decide) fun hmem =>
        absurd ((isWord_hexPadded digits n).2 _ hmem) (by decide)
    · have hlength := le_length_hexPadded digits n
      have hfront : "\n      addr 0x".toList.length = 14 := rfl
      rw [String.toList_append, List.length_append, hfront]
      simp only [nameSize] at hle
      omega
  · obtain ⟨rest', hrest⟩ := behindLabel_of_ne h digits n rest
    obtain ⟨j, rfl⟩ := Nat.exists_eq_add_of_lt hi
    have hsplit : " (does not match segment)" = " (" ++ "does not match segment)" := rfl
    have hskip : (" (" ++ ("does not match segment)" ++ rest')).toList[1 + j + 1]? =
        ("does not match segment)" ++ rest').toList[j]? := by
      rw [String.toList_append, Nat.add_right_comm, Nat.add_comm (1 + 1)]
      rfl
    rw [hrest, hsplit, String.append_assoc, hskip]
    refine getElem?_ne_of_notMem (by decide) (Nat.lt_of_lt_of_le ?_ (by decide : 16 ≤ _))
    simp only [nameSize] at hle
    omega

theorem behindLabel_ne_newline (h : owner ≠ label) (digits n : Nat) (rest : String) {i : Nat}
    (hi : i ≤ nameSize) : (behindLabel owner label digits n rest).toList[i]? ≠ some '\n' := by
  obtain ⟨rest', hrest⟩ := behindLabel_of_ne h digits n rest
  rw [hrest]
  exact getElem?_ne_of_notMem (by decide) (Nat.lt_of_le_of_lt hi (by decide))

theorem getElem?_add_of_append {as bs u v : List Char} (h : as ++ u = bs ++ v)
    (hlt : as.length < bs.length) (i : Nat) : u[bs.length - as.length + i]? = v[i]? := by
  have hleft : (as ++ u)[bs.length + i]? = u[bs.length - as.length + i]? := by
    rw [List.getElem?_append_right (by omega), ← Nat.sub_add_comm (Nat.le_of_lt hlt)]
  rw [← hleft, h, List.getElem?_append_right (by omega), Nat.add_sub_cancel_left]

/-- Two labels in the listings of one segment, with the same text on the whole, have the same
length: of a longer one, the end would be the beginning of what stands behind the shorter one. -/
theorem length_label_le {a b : String} {digits n m : Nat} {r r' : String} (hdigits : 8 ≤ digits)
    (hb : b.toList.length ≤ nameSize)
    (h : a ++ behindLabel owner a digits n r = b ++ behindLabel owner b digits m r') :
    b.toList.length ≤ a.toList.length := by
  refine Nat.not_lt.mp fun hlt => ?_
  have hshift := getElem?_add_of_append
    (by rw [← String.toList_append, ← String.toList_append, h]) hlt
  -- What the longer label ends in starts with an end of line, or with the blank and parenthesis of
  -- a remark; behind the shorter label neither stands so near.
  rcases Classical.em (owner = b) with howner | howner
  · have hnewline : (behindLabel owner b digits m r').toList[0]? = some '\n' := by
      rw [behindLabel_of_eq howner, String.append_assoc, String.toList_append]
      rfl
    have hne : owner ≠ a := by
      rintro rfl
      rw [howner] at hlt
      exact Nat.lt_irrefl _ hlt
    exact behindLabel_ne_newline hne digits n r (by omega) ((hshift 0).trans hnewline)
  · have hparenthesis : (behindLabel owner b digits m r').toList[1]? = some '(' := by
      obtain ⟨rest', hrest⟩ := behindLabel_of_ne howner digits m r'
      rw [hrest, String.toList_append]
      rfl
    exact behindLabel_ne_parenthesis hdigits n r (by omega) (by omega)
      ((hshift 1).trans hparenthesis)

theorem label_inj {a b : String} {digits n m : Nat} {r r' : String} (hdigits : 8 ≤ digits)
    (ha : a.toList.length ≤ nameSize) (hb : b.toList.length ≤ nameSize)
    (h : a ++ behindLabel owner a digits n r = b ++ behindLabel owner b digits m r') :
    a = b ∧ n = m ∧ r = r' := by
  have hlength : a.toList.length = b.toList.length :=
    Nat.le_antisymm (length_label_le hdigits ha h.symm) (length_label_le hdigits hb h)
  have hlists : a.toList ++ (behindLabel owner a digits n r).toList =
      b.toList ++ (behindLabel owner b digits m r').toList := by
    rw [← String.toList_append, ← String.toList_append, h]
  obtain rfl := String.toList_inj.mp (List.append_inj_left hlists hlength)
  simp only [behindLabel, String.append_right_inj] at h
  exact ⟨rfl, hexField_inj h⟩

theorem labelField_inj {a b : String} {digits n m : Nat} {r r' : String} (hdigits : 8 ≤ digits)
    (ha : a.toList.length ≤ nameSize) (hb : b.toList.length ≤ nameSize)
    (h : field "   segname" (a ++ remark (owner != a) "does not match segment") ++
        (hexField "      addr" digits n ++ r) =
      field "   segname" (b ++ remark (owner != b) "does not match segment") ++
        (hexField "      addr" digits m ++ r')) : a = b ∧ n = m ∧ r = r' := by
  simp only [field, String.append_assoc, String.append_right_inj] at h
  exact label_inj hdigits ha hb h

end Labels

end MachO
