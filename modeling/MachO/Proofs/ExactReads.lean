import MachO.Proofs.ExactArithmetic
import MachO.Proofs.TextDefects

namespace MachO

namespace Reader

variable {r : Reader} {c : Cursor} {n : Nat}

/-- An exact read without faults depends on nothing but the number of bytes that are left. -/
theorem bytes_of_faultless (hs : r.source.Faultless) (hroom : n ≤ r.capacity) (c : Cursor) :
    r.bytes n c =
      if n ≤ r.source.bytes.toList.length - c.position then
        .ok (window r.source.bytes.toList c.position n) (c.read n)
      else
        .error (.io .endOfSource)
          ((c.calling (.read c.position n)).after
            (r.source.bytes.toList.length - c.position) []) := by
  have hreach : r.source.reach c.position n = n := by
    rw [Source.reach, hs.failAt]
    rfl
  have hgoesOn : ∀ p, r.source.failsAt p = false := by
    intro p
    rw [Source.failsAt, hs.failAt]
  have hread := Source.readExact_eq hs.chunk c.position n
  rw [hreach] at hread
  simp only [hgoesOn, length_window] at hread
  split
  · rename_i hle
    rw [if_pos (Nat.min_eq_left hle)] at hread
    exact bytes_of_got hroom hread (by rw [length_window, Nat.min_eq_left hle])
  · rename_i hlt
    have hleft := Nat.min_eq_right (Nat.le_of_not_le hlt)
    rw [if_neg (by omega)] at hread
    rw [bytes_of_fault hroom hread, length_window, hleft]
    rfl

theorem capacity_lt (hsize : r.source.bytes.toList.length < 2 ^ 63) (hn : 2 ^ 63 ≤ n) :
    r.capacity < n := by
  have hlength : r.source.bytes.toList.length = r.source.bytes.size := Array.length_toList
  have hlimit : objectLimit < 2 ^ 63 := by decide
  rw [capacity]
  omega

theorem bytes_of_length_lt (hs : r.source.Faultless) (hroom : n ≤ r.capacity)
    (hlt : r.source.bytes.toList.length - c.position < n) :
    r.bytes n c = .error (.io .endOfSource)
      ((c.calling (.read c.position n)).after
        (r.source.bytes.toList.length - c.position) []) := by
  rw [bytes_of_faultless hs hroom, if_neg (Nat.not_le.mpr hlt)]

section

variable {bs : List UInt8} {c' d : Cursor}

theorem name_of_bytes (h : r.bytes n c = .ok bs c') :
    r.name n c = Scan.ofExcept (nameOfField bs) c' := by
  rw [name, bind_eq_of_ok h]

theorem name_eq_ok_iff_of_bytes (h : r.bytes n c = .ok bs c') {s : String} :
    r.name n c = .ok s d ↔ Text.Utf8.encode s = untilZero bs ∧ d = c' := by
  rw [name_of_bytes h, Scan.ofExcept_eq_ok_iff, nameOfField_eq_ok_iff]

theorem exists_name_iff_of_bytes (h : r.bytes n c = .ok bs c') {s : String} :
    (∃ d, r.name n c = .ok s d) ↔ Text.Utf8.encode s = untilZero bs := by
  simp only [name_eq_ok_iff_of_bytes h, exists_and_left, exists_eq, and_true]

theorem nameOfField_of_name (h : r.bytes n c = .ok bs c') {e : Error}
    (hname : r.name n c = .error e d) : nameOfField bs = .error e := by
  rw [name_of_bytes h] at hname
  cases hfield : nameOfField bs with
  | ok s =>
      rw [hfield] at hname
      cases hname
  | error e' =>
      rw [hfield] at hname
      cases hname
      rfl

theorem stateAfter_name_of_bytes (h : r.bytes n c = .ok bs c') :
    stateAfter (r.name n) c = c' := by
  rw [stateAfter, name_of_bytes h]
  cases nameOfField bs <;> rfl

end

end Reader

theorem untilZero_take_append {text : List UInt8} (htext : 0 ∉ text) {n : Nat}
    (hn : text.length ≤ n) (rest : List UInt8) :
    untilZero ((text ++ 0 :: rest).take n) = text := by
  rw [List.take_append, List.take_of_length_le hn]
  cases n - text.length with
  | zero => rw [List.take_zero, List.append_nil, untilZero_eq_self htext]
  | succ k => rw [List.take_succ_cons, untilZero_append htext]

theorem locates_of_nameOfField {bs : List UInt8} {e : Error} (h : nameOfField bs = .error e) :
    ∃ d : Text.Utf8.Defect, e = .badName d ∧ d.Locates (untilZero bs) := by
  rw [nameOfField] at h
  cases hdecode : Text.Utf8.decode (untilZero bs) with
  | ok s =>
      rw [hdecode] at h
      cases h
  | error d =>
      rw [hdecode] at h
      cases h
      exact ⟨d, rfl, Text.Utf8.locates_of_decode hdecode⟩

section Names

open Text

/-- A name is read exactly. If its field is there, all of it is read, and the name is the text that
is encoded before the first zero byte, so that what stands behind that byte has no part in it. If no
text is encoded there, the error tells where and how the bytes stop being one. If the field is not
there, what is left of it is read, and nothing is made of that. A field of more bytes than an object
has is not read at all: the program breaks off. -/
theorem name_exact {r : Reader} (hs : r.source.Faultless) (c : Cursor) (n : Nat) :
    let D := r.source.bytes.toList
    let field := window D c.position n
    let encoded := untilZero field
    (n < 2 ^ 63 →
      (n ≤ D.length - c.position →
        stateAfter (r.name n) c = c.read n ∧
        ((∃ s c', r.name n c = .ok s c') ↔ Utf8.WellFormed encoded) ∧
        (∀ s c', r.name n c = .ok s c' →
          Utf8.encode s = encoded ∧ '\x00' ∉ s.toList ∧ (Utf8.encode s).length ≤ n) ∧
        (∀ s rest, '\x00' ∉ s.toList → (Utf8.encode s).length ≤ n →
          field = (Utf8.encode s ++ 0 :: rest).take n → ∃ c', r.name n c = .ok s c') ∧
        ∀ e c', r.name n c = .error e c' →
          ∃ d : Utf8.Defect, e = .badName d ∧ d.Locates encoded) ∧
      (D.length - c.position < n →
        r.name n c = .error (.io .endOfSource)
          ((c.calling (.read c.position n)).after (D.length - c.position) []))) ∧
    (2 ^ 63 ≤ n → D.length < 2 ^ 63 → r.name n c = .error (.panic .capacity) c) := by
  intro D field encoded
  refine ⟨fun hless => ?_, fun hmore hsize =>
    bind_eq_of_error (Reader.bytes_of_capacity_lt (Reader.capacity_lt hsize hmore) c)⟩
  have hroom := Reader.le_capacity_of_lt (r := r) hless
  refine ⟨fun hle => ?_, fun hlt => bind_eq_of_error (Reader.bytes_of_length_lt hs hroom hlt)⟩
  have hbytes : r.bytes n c = .ok field (c.read n) :=
    (Reader.bytes_of_faultless hs hroom c).trans (if_pos hle)
  refine ⟨Reader.stateAfter_name_of_bytes hbytes,
    exists_congr fun _ => Reader.exists_name_iff_of_bytes hbytes, ?_, ?_, ?_⟩
  · intro s c' h
    have hencode : Utf8.encode s = untilZero field :=
      ((Reader.name_eq_ok_iff_of_bytes hbytes).mp h).1
    refine ⟨hencode, ?_, ?_⟩
    · rw [← Utf8.zero_mem_encode_iff, hencode]
      exact zero_notMem_untilZero field
    · rw [hencode]
      exact Nat.le_trans (List.takeWhile_sublist _).length_le (List.length_take_le _ _)
  · intro s rest hzero hlength hfield
    refine (Reader.exists_name_iff_of_bytes hbytes).mpr ?_
    show Utf8.encode s = untilZero field
    rw [hfield, untilZero_take_append (mt Utf8.zero_mem_encode_iff.mp hzero) hlength]
  · intro e c' h
    exact locates_of_nameOfField (Reader.nameOfField_of_name hbytes h)

theorem name_exact_padded :
    let r := Reader.ofSource
      { bytes := #[0x68, 0xC3, 0xA9, 0, 0xFF, 0x61, 0xE2, 0x82, 0, 0x7A], chunk := some 2 }
    (∃ c', r.name 5 ⟨0, #[], #[]⟩ = .ok "hé" c') ∧
    failure? (r.name 4) ⟨5, #[], #[]⟩ = some (.badName (.incomplete 1)) ∧
    (Utf8.Defect.incomplete 1).Locates [0x61, 0xE2, 0x82] ∧
    stateAfter (r.name 4) ⟨5, #[], #[]⟩ = ⟨9, #[], #[.read 5 4]⟩ ∧
    r.name 4 ⟨8, #[], #[]⟩ = .error (.io .endOfSource) ⟨10, #[], #[.read 8 4]⟩ ∧
    r.name (2 ^ 63) ⟨8, #[], #[]⟩ = .error (.panic .capacity) ⟨8, #[], #[]⟩ := by
  intro r
  have hs : r.source.Faultless := ⟨by decide, rfl, rfl⟩
  obtain ⟨hwhole, -⟩ := (name_exact hs ⟨0, #[], #[]⟩ 5).1 (by decide)
  obtain ⟨hcut, -⟩ := (name_exact hs ⟨5, #[], #[]⟩ 4).1 (by decide)
  obtain ⟨-, hshort⟩ := (name_exact hs ⟨8, #[], #[]⟩ 4).1 (by decide)
  obtain ⟨-, hmore⟩ := name_exact hs ⟨8, #[], #[]⟩ (2 ^ 63)
  obtain ⟨-, -, -, hpadded, -⟩ := hwhole (by decide)
  obtain ⟨hafter, -, -, -, hdefect⟩ := hcut (by decide)
  have hfails : failure? (r.name 4) ⟨5, #[], #[]⟩ = some (.badName (.incomplete 1)) := by
    decide +kernel
  obtain ⟨c', herror⟩ := exists_of_failure? hfails
  obtain ⟨d, hd, hlocates⟩ := hdefect _ c' herror
  cases hd
  exact ⟨hpadded "hé" [0xFF] (by decide) (by decide) (by decide), hfails, hlocates, hafter,
    hshort (by decide), hmore (by decide) (by decide)⟩

/-- A field that no object could hold is not all there in a byte of data, but the byte is not
taken, and no failure of the source is answered. -/
theorem name_breaks_off :
    let r := Reader.ofSource { bytes := #[0] }
    r.source.Faultless ∧
    r.source.bytes.toList.length - Cursor.start.position < 2 ^ 63 ∧
    r.name (2 ^ 63) .start = .error (.panic .capacity) .start ∧
    ¬ ∃ c', r.name (2 ^ 63) .start = .error (.io .endOfSource) c' ∧ c'.position = 1 := by
  intro r
  have hname : r.name (2 ^ 63) .start = .error (.panic .capacity) .start :=
    bind_eq_of_error (Reader.bytes_of_capacity_lt (by decide) .start)
  refine ⟨⟨by decide, rfl, rfl⟩, by decide, hname, ?_⟩
  rintro ⟨c', hfault, -⟩
  rw [hname] at hfault
  cases hfault

end Names

end MachO
