import MachO.Text.Column

namespace MachO.Text

/-- What a digit counts, up to base sixteen. -/
def digitValue (c : Char) : Nat := if c.isDigit then c.toNat - 48 else c.toNat - 87

/-- The number that the digits of a base stand for. -/
def valueOf (base : Nat) (cs : List Char) : Nat :=
  cs.foldl (fun n c => base * n + digitValue c) 0

/-- The character can stand in a number. -/
def isWordChar (c : Char) : Bool := c.isAlphanum || c == '-'

def IsWord (s : String) : Prop := s.toList ≠ [] ∧ ∀ c ∈ s.toList, isWordChar c = true

instance (s : String) : Decidable (IsWord s) :=
  decidable_of_iff (s.toList ≠ [] ∧ s.toList.all isWordChar = true)
    (and_congr_right fun _ => List.all_eq_true)

/-- The text does not go on with a character of a kind. -/
def Breaks (kind : Char → Bool) (s : String) : Prop := ∀ c ∈ s.toList.head?, kind c = false

theorem digitValue_digitChar : ∀ d < 16, digitValue d.digitChar = d := by decide

theorem isAlphanum_digitChar : ∀ d < 16, d.digitChar.isAlphanum = true := by decide

section Digits

variable {base : Nat}

theorem valueOf_append_digit (cs : List Char) {d : Nat} (hd : d < 16) :
    valueOf base (cs ++ [d.digitChar]) = base * valueOf base cs + d := by
  rw [valueOf, List.foldl_append, List.foldl_cons, List.foldl_nil, digitValue_digitChar d hd]
  rfl

theorem valueOf_replicate_append (count : Nat) (cs : List Char) :
    valueOf base (List.replicate count '0' ++ cs) = valueOf base cs := by
  have hzeros : ∀ count, valueOf base (List.replicate count '0') = 0 := by
    intro count
    induction count with
    | zero => rfl
    | succ count ih =>
        have hzero : (0 : Nat).digitChar = '0' := rfl
        rw [List.replicate_succ', ← hzero, valueOf_append_digit _ (by decide), hzero, ih,
          Nat.mul_zero]
  rw [valueOf, List.foldl_append]
  exact congrArg (fun n => cs.foldl _ n) (hzeros count)

theorem valueOf_toDigits (hbase : 1 < base) (hle : base ≤ 16) (n : Nat) :
    valueOf base (Nat.toDigits base n) = n := by
  induction n using Nat.base_induction base hbase with
  | single m hm =>
      rw [Nat.toDigits_of_lt_base hm, ← List.nil_append [_], valueOf_append_digit _ (by omega)]
      exact Nat.zero_add m
  | digit m k hk hm ih =>
      rw [← Nat.toDigits_append_toDigits hbase hm hk, Nat.toDigits_of_lt_base hk,
        valueOf_append_digit _ (by omega), ih]

theorem isAlphanum_of_mem_toDigits (hbase : 1 < base) (hle : base ≤ 16) (n : Nat) :
    ∀ c ∈ Nat.toDigits base n, c.isAlphanum = true := by
  induction n using Nat.base_induction base hbase with
  | single m hm =>
      rw [Nat.toDigits_of_lt_base hm, List.forall_mem_singleton]
      exact isAlphanum_digitChar m (by omega)
  | digit m k hk hm ih =>
      rw [← Nat.toDigits_append_toDigits hbase hm hk, Nat.toDigits_of_lt_base hk,
        List.forall_mem_append, List.forall_mem_singleton]
      exact ⟨ih, isAlphanum_digitChar k (by omega)⟩

end Digits

section Numbers

theorem valueOf_decimal (n : Nat) : valueOf 10 (decimal n).toList = n := by
  rw [decimal, String.toList_ofList, valueOf_toDigits (by decide) (by decide)]

theorem valueOf_hex (n : Nat) : valueOf 16 (hex n).toList = n := by
  rw [hex, String.toList_ofList, valueOf_toDigits (by decide) (by decide)]

theorem valueOf_hexPadded (width n : Nat) : valueOf 16 (hexPadded width n).toList = n := by
  rw [hexPadded, padLeft, String.toList_append, String.toList_ofList, valueOf_replicate_append,
    valueOf_hex]

theorem decimal_inj {n m : Nat} : decimal n = decimal m ↔ n = m := by
  refine ⟨fun h => ?_, congrArg decimal⟩
  rw [← valueOf_decimal n, h, valueOf_decimal]

theorem hexPadded_inj {width n m : Nat} : hexPadded width n = hexPadded width m ↔ n = m := by
  refine ⟨fun h => ?_, congrArg (hexPadded width)⟩
  rw [← valueOf_hexPadded width n, h, valueOf_hexPadded]

theorem IsWord.append_left {s t : String} (hs : ∀ c ∈ s.toList, isWordChar c = true)
    (ht : IsWord t) : IsWord (s ++ t) := by
  rw [IsWord, String.toList_append, List.forall_mem_append]
  exact ⟨List.append_ne_nil_of_right_ne_nil _ ht.1, hs, ht.2⟩

theorem isWord_ofDigits {base : Nat} (hbase : 1 < base) (hle : base ≤ 16) (n : Nat) :
    IsWord (String.ofList (Nat.toDigits base n)) := by
  rw [IsWord, String.toList_ofList]
  refine ⟨Nat.toDigits_ne_nil, fun c hc => ?_⟩
  rw [isWordChar, isAlphanum_of_mem_toDigits hbase hle n c hc, Bool.true_or]

theorem isWord_decimal (n : Nat) : IsWord (decimal n) := isWord_ofDigits (by decide) (by decide) n

theorem isWord_hexPadded (width n : Nat) : IsWord (hexPadded width n) := by
  refine .append_left (fun c hc => ?_) (isWord_ofDigits (by decide) (by decide) n)
  rw [String.toList_ofList] at hc
  rw [List.eq_of_mem_replicate hc]
  rfl

theorem isWord_signed (i : Int) : IsWord (signed i) := by
  cases i with
  | ofNat n => exact isWord_decimal n
  | negSucc n => exact .append_left (List.forall_mem_singleton.mpr rfl) (isWord_decimal (n + 1))

theorem decimal_ne_minus_append (n : Nat) (s : String) : decimal n ≠ "-" ++ s := by
  intro h
  have hmem : '-' ∈ Nat.toDigits 10 n := by
    rw [← String.toList_ofList (l := Nat.toDigits 10 n), ← decimal, h, String.toList_append]
    exact List.mem_cons_self
  exact absurd (isAlphanum_of_mem_toDigits (by decide) (by decide) n _ hmem) (by decide)

theorem signed_inj {i j : Int} : signed i = signed j ↔ i = j := by
  refine ⟨fun h => ?_, congrArg signed⟩
  cases i with
  | ofNat n =>
      cases j with
      | ofNat m => exact congrArg Int.ofNat (decimal_inj.mp h)
      | negSucc m => exact absurd h (decimal_ne_minus_append n _)
  | negSucc n =>
      cases j with
      | ofNat m => exact absurd h.symm (decimal_ne_minus_append m _)
      | negSucc m =>
          have hnumbers := decimal_inj.mp ((String.append_right_inj "-").mp h)
          rw [Nat.succ.inj hnumbers]

end Numbers

section Words

variable {kind : Char → Bool} {a b r r' : String}

theorem span_inj (ha : ∀ c ∈ a.toList, kind c = true) (hb : ∀ c ∈ b.toList, kind c = true)
    (hr : Breaks kind r) (hr' : Breaks kind r') (h : a ++ r = b ++ r') : a = b ∧ r = r' := by
  have htake : ∀ s t : String, (∀ c ∈ s.toList, kind c = true) → Breaks kind t →
      (s ++ t).toList.takeWhile kind = s.toList := by
    intro s t hs ht
    rw [String.toList_append, List.takeWhile_append_of_pos hs]
    cases hlist : t.toList with
    | nil => simp
    | cons c cs =>
        have hc : kind c = false := ht c (by rw [hlist]; rfl)
        rw [List.takeWhile_cons_of_neg (by simp [hc]), List.append_nil]
  have hab : a = b := by
    rw [← String.toList_inj, ← htake a r ha hr, h, htake b r' hb hr']
  subst hab
  exact ⟨rfl, (String.append_right_inj a).mp h⟩

theorem breaks_append {s : String} (hs : s.toList.head?.any (!kind ·) = true) (r : String) :
    Breaks kind (s ++ r) := by
  obtain ⟨c, hhead, hc⟩ := (Option.any_eq_true _ _).mp hs
  intro c' hc'
  rw [String.toList_append, List.head?_append, hhead] at hc'
  cases hc'
  exact (Bool.not_eq_true' _).mp hc

theorem newline_notMem_append (ha : '\n' ∉ a.toList) (hb : '\n' ∉ b.toList) :
    '\n' ∉ (a ++ b).toList := by
  rw [String.toList_append, List.mem_append]
  exact not_or_intro ha hb

theorem line_inj (ha : '\n' ∉ a.toList) (hb : '\n' ∉ b.toList)
    (h : a ++ ("\n" ++ r) = b ++ ("\n" ++ r')) : a = b ∧ r = r' := by
  have hkind : ∀ s : String, '\n' ∉ s.toList → ∀ c ∈ s.toList, (c != '\n') = true := by
    intro s hs c hc
    rw [bne_iff_ne]
    rintro rfl
    exact hs hc
  obtain ⟨hab, hrest⟩ := span_inj (hkind a ha) (hkind b hb)
    (breaks_append (by decide) r) (breaks_append (by decide) r') h
  exact ⟨hab, (String.append_right_inj "\n").mp hrest⟩

theorem word_inj {separator : String}
    (hseparator : separator.toList.head?.any (!isWordChar ·) = true) (ha : IsWord a)
    (hb : IsWord b) (h : a ++ (separator ++ r) = b ++ (separator ++ r')) : a = b ∧ r = r' := by
  obtain ⟨hab, hrest⟩ := span_inj ha.2 hb.2 (breaks_append hseparator r)
    (breaks_append hseparator r') h
  exact ⟨hab, (String.append_right_inj separator).mp hrest⟩

theorem IsWord.breaks_blanks (ha : IsWord a) (r : String) : Breaks (· == ' ') (a ++ r) := by
  obtain ⟨c, cs, hlist⟩ := List.exists_cons_of_ne_nil ha.1
  have hc : c ≠ ' ' := by
    rintro rfl
    exact absurd (ha.2 ' ' (by rw [hlist]; exact List.mem_cons_self)) (by decide)
  refine breaks_append ?_ r
  rw [hlist]
  simpa using hc

theorem column_inj {separator : String}
    (hseparator : separator.toList.head?.any (!isWordChar ·) = true) {width : Nat} (ha : IsWord a)
    (hb : IsWord b)
    (h : padLeft ' ' width a ++ (separator ++ r) = padLeft ' ' width b ++ (separator ++ r')) :
    a = b ∧ r = r' := by
  have hblanks : ∀ count, ∀ c ∈ (String.ofList (List.replicate count ' ')).toList,
      (c == ' ') = true := by
    intro count c hc
    rw [String.toList_ofList] at hc
    rw [List.eq_of_mem_replicate hc]
    rfl
  rw [padLeft, padLeft, String.append_assoc, String.append_assoc] at h
  obtain ⟨-, hwords⟩ := span_inj (hblanks _) (hblanks _) (ha.breaks_blanks _) (hb.breaks_blanks _) h
  exact word_inj hseparator ha hb hwords

theorem IsWord.newline_notMem (ha : IsWord a) : '\n' ∉ a.toList :=
  fun h => absurd (ha.2 _ h) (by decide)

end Words

end MachO.Text
