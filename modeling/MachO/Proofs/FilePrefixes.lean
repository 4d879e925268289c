import MachO.Proofs.Flaws

namespace MachO

/-- The error is that bytes are missing at the end. -/
def Error.IsShort (e : Error) : Prop :=
  ∃ n p, e = .shortHeader n p ∨ e = .shortCommand n p

theorem window_take_append {D : List UInt8} {p n q : Nat} (h : p + n ≤ q) (hq : q ≤ D.length)
    (tail : List UInt8) : window (D.take q ++ tail) p n = window D p n := by
  have hlen : (D.take q).length = q := by
    rw [List.length_take]
    omega
  have hroom : n ≤ ((D.take q).drop p).length := by
    rw [List.length_drop, hlen]
    omega
  rw [window, window, List.drop_append_of_le_length (by omega), List.take_append_of_le_length hroom,
    List.drop_take, List.take_take, Nat.min_eq_left (by omega)]

theorem Layout.standsAt_take_append_iff {D : List UInt8} {l : Layout} {p q : Nat}
    (h : p + l.length ≤ q) (hq : q ≤ D.length) (tail : List UInt8) :
    l.StandsAt (D.take q ++ tail) p ↔ l.StandsAt D p := by
  rw [StandsAt, StandsAt, window_take_append h hq]

namespace File

variable {D : List UInt8} {f : File} {c : Cursor} {e : Error}

theorem position_le_of_decode (h : File.decode (.ofBytes D) .start = .ok f c) :
    c.position = f.layout.length ∧ c.position ≤ D.length := by
  obtain ⟨hf, hstands, rfl⟩ := decode_eq_ok_iff.mp h
  have hlen := length_layout hf
  have hend : (f.past .start).position = f.layout.length := by
    rw [position_past, hlen]
    exact Nat.zero_add _
  have hpos : 0 < f.layout.length := by
    rw [hlen, extent, headSize, magicSize]
    omega
  have hle := Layout.le_of_standsAt hpos hstands
  refine ⟨hend, ?_⟩
  rw [hend, ← Nat.zero_add f.layout.length]
  exact hle

theorem decode_take_append (h : File.decode (.ofBytes D) .start = .ok f c) (tail : List UInt8) :
    File.decode (.ofBytes (D.take c.position ++ tail)) .start = .ok f c := by
  obtain ⟨hend, hle⟩ := position_le_of_decode h
  obtain ⟨hf, hstands, rfl⟩ := decode_eq_ok_iff.mp h
  refine decode_eq_ok_iff.mpr ⟨hf, ?_, rfl⟩
  refine (Layout.standsAt_take_append_iff ?_ hle tail).mpr hstands
  rw [hend]
  exact Nat.le_of_eq (Nat.zero_add _)

theorem decode_append_of_error (h : File.decode (.ofBytes D) .start = .error e c)
    (he : ¬ e.IsShort) (tail : List UInt8) :
    File.decode (.ofBytes (D ++ tail)) .start = .error e c := by
  have hshows : (Source.ofBytes (D ++ tail)).Shows D := by
    refine ⟨⟨tail, ?_⟩, nofun, nofun, rfl⟩
    simp [Source.ofBytes]
  have hle : D.length ≤ (Reader.ofBytes (D ++ tail)).length := by
    rw [Reader.length_ofBytes, List.length_append]
    omega
  have hfollows := File.decode_follows (Reader.ofBytes_follows hshows
    (fun e => e.IsShort ∨ e.IsFault) (.inr ⟨_, rfl⟩) hle
    (fun _ n p => ⟨.inl ⟨n, p, .inl rfl⟩, .inl ⟨n, p, .inr rfl⟩⟩))
  rcases hfollows .start with hsame | ⟨e', c', herror, hexcused⟩
  · exact hsame.symm.trans h
  · rw [h] at herror
    cases herror
    rcases hexcused with hshort | hfault
    · exact absurd hshort he
    · exact absurd hfault (flaw_of_decode h).not_isFault

theorem decode_take_of_lt (h : File.decode (.ofBytes D) .start = .ok f c) {q : Nat}
    (hq : q < c.position) :
    ∃ e c', File.decode (.ofBytes (D.take q)) .start = .error e c' ∧ e.IsShort := by
  have hwhole := decode_take_append h []
  rw [List.append_nil] at hwhole
  have hsplit : D.take c.position = D.take q ++ (D.take c.position).drop q := by
    have htake : D.take q = (D.take c.position).take q := by
      rw [List.take_take, Nat.min_eq_left (Nat.le_of_lt hq)]
    rw [htake, List.take_append_drop]
  cases hprefix : File.decode (.ofBytes (D.take q)) .start with
  | ok f' c' =>
      -- With the rest behind it the same file would be read, and it would end too early.
      obtain ⟨-, hle⟩ := position_le_of_decode hprefix
      have hlonger := decode_take_append hprefix ((D.take q).drop c'.position ++
        (D.take c.position).drop q)
      rw [← List.append_assoc, List.take_append_drop, ← hsplit, hwhole] at hlonger
      cases hlonger
      rw [List.length_take] at hle
      omega
  | error e c' =>
      refine ⟨e, c', rfl, ?_⟩
      by_cases he : e.IsShort
      · exact he
      · have hlonger := decode_append_of_error hprefix he ((D.take c.position).drop q)
        rw [← hsplit, hwhole] at hlonger
        cases hlonger

/-- A file is read from the bytes up to the end of its last load command, whatever follows them; a
strict beginning of these bytes is refused because bytes are missing. Bytes that are refused for
any other reason are refused for it whatever follows them. -/
theorem decode_beginnings (D : List UInt8) :
    (∀ f c, File.decode (.ofBytes D) .start = .ok f c →
      c.position ≤ D.length ∧
      (∀ tail, File.decode (.ofBytes (D.take c.position ++ tail)) .start = .ok f c) ∧
      ∀ q < c.position, ∃ e c', File.decode (.ofBytes (D.take q)) .start = .error e c' ∧
        e.IsShort) ∧
    ∀ e c, File.decode (.ofBytes D) .start = .error e c → ¬ e.IsShort →
      ∀ tail, File.decode (.ofBytes (D ++ tail)) .start = .error e c := by
  constructor
  · intro f c h
    refine ⟨(position_le_of_decode h).2, ?_, ?_⟩
    · intro tail
      exact decode_take_append h tail
    · intro q hq
      exact decode_take_of_lt h hq
  · intro e c h he tail
    exact decode_append_of_error h he tail

theorem decode_beginnings_narrowInWide :
    (∃ c, File.decode (.ofBytes (narrowInWideBytes.take 172 ++ [1, 2])) .start =
      .ok narrowInWide c) ∧
    (∃ e c, File.decode (.ofBytes (narrowInWideBytes.take 100)) .start = .error e c ∧
      e.IsShort) ∧
    ∃ c, File.decode (.ofBytes ([0xCA, 0xFE, 0xBA, 0xBE] ++ [0, 0, 0, 1])) .start =
      .error (.container 0xBEBAFECA) c := by
  obtain ⟨c, hread, hposition⟩ := decode_narrowInWide
  obtain ⟨-, hlonger, hshorter⟩ := (decode_beginnings narrowInWideBytes).1 narrowInWide c hread
  rw [hposition] at hlonger hshorter
  have hrefused : failure? (File.decode (.ofBytes [0xCA, 0xFE, 0xBA, 0xBE])) .start =
      some (.container 0xBEBAFECA) := by decide +kernel
  obtain ⟨c', hdecode⟩ := exists_of_failure? hrefused
  refine ⟨⟨c, hlonger [1, 2]⟩, hshorter 100 (by decide), c', ?_⟩
  apply (decode_beginnings [0xCA, 0xFE, 0xBA, 0xBE]).2 _ _ hdecode
  rintro ⟨n, p, h | h⟩ <;> cases h

end File

end MachO
