import MachO.Proofs.Flaws

namespace MachO

theorem window_window {D : List UInt8} {p n q m : Nat} (h : q + m ≤ n) :
    window (window D p n) q m = window D (p + q) m := by
  rw [window, window, window, List.drop_take, List.drop_drop, List.take_take,
    Nat.min_eq_left (by omega)]

theorem numberAt_window {o : ByteOrder} {D : List UInt8} {p n q : Nat} (h : q + 4 ≤ n) :
    numberAt o (window D p n) q = numberAt o D (p + q) := by
  rw [numberAt, numberAt, window_window h]

/-- The second cursor stands `p` bytes behind the first one, which is between the bounds. -/
def Cursor.Shifted (p low high : Nat) (c d : Cursor) : Prop :=
  d.position = p + c.position ∧ low ≤ c.position ∧ c.position ≤ high

theorem Reader.alike_of_window {D : List UInt8} {p n : Nat} (hroom : p + n ≤ D.length)
    (low : Nat) :
    (ofBytes (window D p n)).ReadsAlike (· = .io .endOfSource) (Cursor.Shifted p low n)
      (ofBytes D) := by
  have hlen : (window D p n).length = n := by
    rw [length_window]
    omega
  refine ⟨?_, fun c d events h => h⟩
  rintro m hm c d ⟨hshift, hlow, hhigh⟩
  rcases Nat.lt_or_ge n (c.position + m) with hout | hin
  · right
    have hread := Source.readExact_ofBytes (window D p n) c.position m
    have hmissing : ¬ (window (window D p n) c.position m).length = m := by
      rw [length_window, hlen]
      omega
    rw [if_neg hmissing] at hread
    have hroom : m ≤ (ofBytes (window D p n)).capacity := le_capacity_of_le_objectLimit hm
    exact ⟨_, outcome_of_error (bytes_of_fault hroom hread), rfl⟩
  · left
    have hown := bytes_ofBytes (D := window D p n) (c := c) (by rwa [hlen])
    have hall := bytes_ofBytes (D := D) (n := m) (c := d) (by omega)
    rw [hshift, ← window_window hin] at hall
    refine Tracks.same_of_ok hown hall ⟨?_, Nat.le_add_right_of_le hlow, hin⟩
    simp only [Cursor.position_read]
    omega

namespace Command

variable {o : ByteOrder} {D : List UInt8} {c c' : Cursor} {id size : UInt32} {e : Error}

theorem decodeBody_not_isFault (hroom : c.position + (size.toNat - headSize) ≤ D.length)
    (h : decodeBody (.ofBytes D) o id size c = .error e c') : ¬ e.IsFault := by
  unfold decodeBody at h
  cases hw : LoadCommand.segmentWidth? id with
  | some w =>
      rw [hw] at h
      rcases bind_eq_error_iff.mp h with hsegment | ⟨g, c₁, -, hpure⟩
      · exact (Segment.flaw_of_decode hroom hsegment).not_isFault
      · cases hpure
  | none =>
      rw [hw] at h
      cases h

theorem decodeBody_own {p : Nat} (hge : headSize ≤ size.toNat)
    (hroom : p + size.toNat ≤ D.length) (hc : c.position = p + headSize) :
    outcome (decodeBody (.ofBytes D) o id size) c =
        outcome (decodeBody (.ofBytes (window D p size.toNat)) o id size) ⟨headSize, #[], #[]⟩ ∧
      p + headSize ≤ (stateAfter (decodeBody (.ofBytes D) o id size) c).position ∧
      (stateAfter (decodeBody (.ofBytes D) o id size) c).position ≤ p + size.toNat := by
  have halike := decodeBody_alike (Reader.alike_of_window hroom headSize) o id size
  rcases halike ⟨headSize, #[], #[]⟩ c ⟨hc, Nat.le_refl _, hge⟩ with
    ⟨hsame, hshift, hlow, hhigh⟩ | ⟨e, herror, he⟩
  · exact ⟨hsame.symm, by omega, by omega⟩
  · -- The bytes of the command are enough for whatever its body holds.
    obtain ⟨c', hown⟩ := exists_of_outcome_error herror
    have hinside : headSize + (size.toNat - headSize) ≤ (window D p size.toNat).length := by
      rw [length_window]
      omega
    exact absurd ⟨_, he⟩ (decodeBody_not_isFault hinside hown)

theorem decodeRest_own {p : Nat} (hge : headSize ≤ size.toNat)
    (hroom : p + size.toNat ≤ D.length) (hc : c.position = p + headSize) :
    outcome (decodeRest (.ofBytes D) o p id size) c =
        (outcome (decodeBody (.ofBytes (window D p size.toNat)) o id size) ⟨headSize, #[], #[]⟩).map
          (⟨·, size.toNat⟩) ∧
      p + headSize ≤ (stateAfter (decodeRest (.ofBytes D) o p id size) c).position ∧
      (stateAfter (decodeRest (.ofBytes D) o p id size) c).position ≤ p + size.toNat := by
  have htold : Scan.tell (.commandBegun id size p) c =
      .ok () (c.after 0 [.commandBegun id size p]) := Scan.tell_eq_ok_iff.mpr rfl
  have hpast : (c.after 0 [.commandBegun id size p]).position = p + headSize := hc
  obtain ⟨hbody, hlow, hhigh⟩ := decodeBody_own (o := o) hge hroom hpast
  rw [decodeRest, outcome_bind_of_ok htold, stateAfter_bind_of_ok htold, ← hbody]
  cases hd : decodeBody (.ofBytes D) o id size (c.after 0 [.commandBegun id size p]) with
  | ok content c₁ =>
      have hseek : (Reader.ofBytes D).seekTo (p + size.toNat) c₁ =
          .ok () (c₁.sought (p + size.toNat)) := Reader.seekTo_ofBytes_eq_ok_iff.mpr rfl
      rw [outcome_bind_of_ok hd, stateAfter_bind_of_ok hd, outcome_bind_of_ok hseek,
        stateAfter_bind_of_ok hseek, outcome_of_ok hd]
      exact ⟨rfl, Nat.add_le_add_left hge p, Nat.le_refl _⟩
  | error e c₁ =>
      rw [stateAfter_of_error hd] at hlow hhigh
      rw [outcome_bind_of_error hd, stateAfter_bind_of_error hd, outcome_of_error hd]
      exact ⟨rfl, hlow, hhigh⟩

/-- The bytes that a command takes by its own account, its head at least. -/
def spanAt (o : ByteOrder) (D : List UInt8) (p : Nat) : Nat := max headSize (commandSizeAt o D p)

theorem outcome_decode_congr {D' : List UInt8} {d : Cursor}
    (hroom : c.position + spanAt o D c.position ≤ D.length)
    (hwindow : window D' d.position (spanAt o D c.position) =
      window D c.position (spanAt o D c.position)) :
    outcome (Command.decode (.ofBytes D') o) d = outcome (Command.decode (.ofBytes D) o) c := by
  have hhead : headSize ≤ spanAt o D c.position := Nat.le_max_left _ _
  have hbody : commandSizeAt o D c.position ≤ spanAt o D c.position := Nat.le_max_right _ _
  generalize spanAt o D c.position = span at hroom hwindow hhead hbody
  have hroom' : d.position + span ≤ D'.length := by
    have hpos : 0 < span := Nat.lt_of_lt_of_le (by decide) hhead
    rw [← length_window_eq_iff hpos, hwindow, length_window_eq_iff hpos]
    exact hroom
  have hnumber : ∀ q, q + 4 ≤ headSize →
      numberAt o D' (d.position + q) = numberAt o D (c.position + q) := by
    intro q hq
    rw [← numberAt_window (Nat.le_trans hq hhead), hwindow,
      numberAt_window (Nat.le_trans hq hhead)]
  obtain ⟨id, size, hid, hsize, hdecode⟩ := decode_of_head (o := o) (D := D) (c := c) (by omega)
  obtain ⟨id', size', hid', hsize', hdecode'⟩ :=
    decode_of_head (o := o) (D := D') (c := d) (by omega)
  obtain rfl : id' = id :=
    UInt32.toNat_inj.mp (hid'.trans ((hnumber 0 (by decide)).trans hid.symm))
  obtain rfl : size' = size :=
    UInt32.toNat_inj.mp (hsize'.trans ((hnumber 4 (by decide)).trans hsize.symm))
  rw [if_neg (by omega)] at hdecode hdecode'
  rcases Nat.lt_or_ge size'.toNat headSize with hsmall | hge
  · rw [if_pos hsmall] at hdecode hdecode'
    rw [outcome_of_error hdecode, outcome_of_error hdecode']
  · rw [if_neg (Nat.not_lt.mpr hge)] at hdecode hdecode'
    have hown : window D' d.position size'.toNat = window D c.position size'.toNat := by
      have hinside : 0 + size'.toNat ≤ span := by omega
      rw [← Nat.add_zero d.position, ← window_window hinside, hwindow, window_window hinside,
        Nat.add_zero]
    rw [outcome_congr hdecode, outcome_congr hdecode',
      (decodeRest_own hge (p := c.position) (by omega) rfl).1,
      (decodeRest_own hge (p := d.position) (by omega) rfl).1, hown]

theorem position_of_error (h : Command.decode (.ofBytes D) o c = .error e c') :
    (D.length < c.position + headSize ∧ e = .shortCommand headSize c.position ∧
      c'.position = c.position) ∨
    (D.length < c.position + commandSizeAt o D c.position ∧
      e = .shortCommand (commandSizeAt o D c.position) c.position ∧
      c.position + headSize ≤ D.length ∧ c'.position = c.position + headSize) ∨
    (c.position + spanAt o D c.position ≤ D.length ∧ c.position + headSize ≤ c'.position ∧
      c'.position ≤ c.position + spanAt o D c.position) := by
  rcases Nat.lt_or_ge D.length (c.position + headSize) with hshort | hhead
  · rw [decode_of_short hshort] at h
    cases h
    exact .inl ⟨hshort, rfl, rfl⟩
  right
  obtain ⟨id, size, -, hsize, hdecode⟩ := decode_of_head (o := o) hhead
  rw [hdecode] at h
  rw [spanAt, ← hsize]
  split at h
  · rename_i hshort
    cases h
    exact .inl ⟨hshort, rfl, hhead, rfl⟩
  right
  rename_i hinside
  split at h
  · rename_i hsmall
    cases h
    rw [position_headRead]
    omega
  · rename_i hge
    have hpast : (headRead c).position = c.position + headSize := rfl
    obtain ⟨-, hlow, hhigh⟩ := decodeRest_own (o := o) (Nat.not_lt.mp hge)
      (Nat.not_lt.mp hinside) hpast
    rw [stateAfter_of_error h] at hlow hhigh
    omega

/-- A load command is read from its own bytes only, whatever is around it and wherever it stands;
the reader ends at the end of the command, or does not leave it. -/
theorem decode_from_own_bytes (o : ByteOrder) (D : List UInt8) {c : Cursor}
    (hc : c.position ≤ D.length) :
    let p := c.position
    let size := commandSizeAt o D p
    (∀ command c', Command.decode (.ofBytes D) o c = .ok command c' →
      command.size = size ∧ 8 ≤ size ∧ p + size ≤ D.length ∧ c'.position = p + size ∧
      ∀ (D' : List UInt8) (d : Cursor), window D' d.position size = window D p size →
        ∃ d', Command.decode (.ofBytes D') o d = .ok command d') ∧
    ∀ e c', Command.decode (.ofBytes D) o c = .error e c' →
      (D.length < p + 8 ∧ c'.position = p ∨
        p + 8 ≤ c'.position ∧ c'.position ≤ max (p + 8) (p + size)) ∧
      c'.position ≤ D.length ∧
      ((∀ n q, e ≠ .shortCommand n q) → ∀ (D' : List UInt8) (d : Cursor),
        window D' d.position (max 8 size) = window D p (max 8 size) →
        ∃ d', Command.decode (.ofBytes D') o d = .error e d') := by
  intro p size
  have hspan : spanAt o D c.position = max 8 size := rfl
  refine ⟨?_, ?_⟩
  · intro command c' h
    obtain ⟨hfits, hstands, hend⟩ := decode_eq_ok_iff.mp h
    have hsize : size = command.size := (numbers_of_standsAt hfits hstands).2
    have hge : 8 ≤ size := hsize ▸ hfits.size_ge
    have hroom : p + size ≤ D.length :=
      hsize ▸ ((standsAt_layout_iff hfits).mp hstands).2.2.2
    have hmax : spanAt o D p = size := Nat.max_eq_right hge
    refine ⟨hsize.symm, hge, hroom, by rw [hend, hsize]; rfl, ?_⟩
    intro D' d hwindow
    have hsame : outcome (Command.decode (.ofBytes D') o) d =
        outcome (Command.decode (.ofBytes D) o) c :=
      outcome_decode_congr (hmax ▸ hroom) (hmax ▸ hwindow)
    rw [outcome_of_ok h] at hsame
    exact exists_of_outcome_ok hsame
  · intro e c' h
    rcases position_of_error h with ⟨hshort, rfl, hend⟩ | ⟨hout, rfl, hhead, hend⟩ |
      ⟨hroom, hlow, hhigh⟩
    · exact ⟨.inl ⟨hshort, hend⟩, hend ▸ hc, fun hother => absurd rfl (hother _ _)⟩
    · rw [headSize] at hhead hend
      exact ⟨.inr ⟨by omega, by omega⟩, by omega, fun hother => absurd rfl (hother _ _)⟩
    · rw [hspan] at hhigh hroom
      have hmax : p + max 8 size = max (p + 8) (p + size) := by omega
      refine ⟨.inr ⟨hlow, hmax ▸ hhigh⟩, Nat.le_trans hhigh hroom, ?_⟩
      intro _ D' d hwindow
      have hsame : outcome (Command.decode (.ofBytes D') o) d =
          outcome (Command.decode (.ofBytes D) o) c := outcome_decode_congr hroom hwindow
      rw [outcome_of_error h] at hsame
      exact exists_of_outcome_error hsame

theorem decode_from_own_bytes_narrowInWide :
    let D := File.narrowInWideBytes
    let crowded := D.set 80 2
    let start : Cursor := ⟨32, #[], #[]⟩
    let behind : Cursor := ⟨1, #[], #[]⟩
    ∃ command c, Command.decode (.ofBytes D) .little start = .ok command c ∧
      c.position = 160 ∧
      (∃ d, Command.decode (.ofBytes (0xFF :: window D 32 128)) .little behind = .ok command d) ∧
      ∃ d, Command.decode (.ofBytes (0xFF :: window crowded 32 128)) .little behind =
        .error (.shortSection 68 4) d := by
  intro D crowded start behind
  have hread : result? (Command.decode (.ofBytes D) .little) start =
      some (File.narrowInWide.commands.head (by decide)) := by decide +kernel
  have hcrowded : failure? (Command.decode (.ofBytes crowded) .little) start =
      some (.shortSection 68 4) := by decide +kernel
  obtain ⟨c, hok⟩ := exists_of_result? hread
  obtain ⟨c', herror⟩ := exists_of_failure? hcrowded
  have hsize : commandSizeAt .little D 32 = 128 := by decide +kernel
  have hsize' : commandSizeAt .little crowded 32 = 128 := by decide +kernel
  obtain ⟨hread, -⟩ := decode_from_own_bytes .little D (c := start) (by decide +kernel)
  obtain ⟨-, hrefused⟩ := decode_from_own_bytes .little crowded (c := start) (by decide +kernel)
  obtain ⟨-, -, -, hend, hsame⟩ := hread _ c hok
  obtain ⟨-, -, hsame'⟩ := hrefused _ c' herror
  refine ⟨_, c, hok, ?_, hsame _ behind ?_, hsame' (fun _ _ => nofun) _ behind ?_⟩
  · rw [hend, hsize]
  · rw [hsize]
    decide +kernel
  · rw [hsize']
    decide +kernel

end Command

end MachO
