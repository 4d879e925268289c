import MachO.Proofs.ScanComparison

namespace MachO

/-- A source that refuses neither reads nor seeks. Its single read calls may be short. -/
structure Source.Faultless (s : Source) : Prop where
  chunk : s.chunk ≠ some 0
  failAt : s.failAt = none
  seekLimit : s.seekLimit = none

namespace Source

variable {s : Source} {position n : Nat}

theorem allowsSeek_iff {s : Source} {p : Nat} :
    s.allowsSeek p = true ↔ ∀ limit, s.seekLimit = some limit → p ≤ limit := by
  rw [allowsSeek]
  cases s.seekLimit with
  | none => simp
  | some limit => simp

theorem Faultless.readExact (hs : s.Faultless) (h : position + n ≤ s.bytes.size) :
    s.readExact position n = (window s.bytes.toList position n, none) := by
  have hshows : s.Shows s.bytes.toList := by
    refine ⟨List.prefix_rfl, hs.chunk, ?_, hs.seekLimit⟩
    rw [hs.failAt]
    exact nofun
  exact hshows.readExact h

end Source

namespace Reader

variable {r : Reader} {c c' : Cursor} {name : String} {offset size : Nat}

theorem bytes_eq_ok {n : Nat} {bs : List UInt8} (h : r.bytes n c = .ok bs c') :
    bs = window r.source.bytes.toList c.position n ∧ bs.length = n ∧ c' = c.read n := by
  rcases Nat.lt_or_ge r.capacity n with hnone | hroom
  · rw [bytes_of_capacity_lt hnone] at h
    cases h
  cases hfault : (r.source.readExact c.position n).2 with
  | none =>
      obtain ⟨hread, hlen⟩ := Source.readExact_of_none hfault
      rw [bytes_of_got hroom hread hlen] at h
      cases h
      exact ⟨rfl, hlen, rfl⟩
  | some f =>
      rw [bytes_of_fault hroom (Prod.ext rfl hfault)] at h
      cases h

theorem bytes_eq_error {n : Nat} {e : Error} (h : r.bytes n c = .error e c') :
    c' = c ∨ ∃ got, c' = (c.calling (.read c.position n)).after got [] := by
  rcases Nat.lt_or_ge r.capacity n with hnone | hroom
  · rw [bytes_of_capacity_lt hnone] at h
    cases h
    exact .inl rfl
  cases hfault : (r.source.readExact c.position n).2 with
  | none =>
      obtain ⟨hread, hlen⟩ := Source.readExact_of_none hfault
      rw [bytes_of_got hroom hread hlen] at h
      cases h
  | some f =>
      rw [bytes_of_fault hroom (Prod.ext rfl hfault)] at h
      cases h
      exact .inr ⟨_, rfl⟩

theorem region_eq_ok {bs : List UInt8} (h : r.region name offset size c = .ok bs c') :
    bs = window r.source.bytes.toList offset size ∧ bs.length = size := by
  rw [region] at h
  obtain ⟨-, h⟩ := ite_throw_eq_ok_iff.mp h
  obtain ⟨home, c₁, -, h⟩ := bind_eq_ok_iff.mp h
  obtain ⟨_, c₂, -, h⟩ := bind_eq_ok_iff.mp h
  obtain ⟨_, c₃, hgo, h⟩ := bind_eq_ok_iff.mp h
  have hthere : c₃.position = offset := by
    rw [seekTo_eq] at hgo
    split at hgo
    · cases hgo
      rfl
    · cases hgo
  obtain ⟨c₄, _, hbytes, -⟩ := Scan.exists_of_followedBy_eq_ok h
  obtain ⟨hwindow, hlen, -⟩ := bytes_eq_ok hbytes
  rw [hthere] at hwindow
  exact ⟨hwindow, hlen⟩

theorem position_region (hhome : r.source.allowsSeek c.position = true)
    (hroom : offset + size < r.length → size ≤ r.capacity) :
    (stateAfter (r.region name offset size) c).position = c.position := by
  have hregion := region_of_allowsSeek hhome name offset size
  split at hregion
  · rw [stateAfter_of_error hregion]
  · rename_i hinside
    rw [if_neg (Nat.not_lt.mpr (hroom (Nat.not_le.mp hinside)))] at hregion
    split at hregion
    · cases hfault : (r.source.readExact offset size).2 with
      | none =>
          rw [hfault] at hregion
          rw [stateAfter_of_ok hregion]
          rfl
      | some f =>
          rw [hfault] at hregion
          rw [stateAfter_of_error hregion]
          rfl
    · rw [stateAfter_of_error hregion]
      rfl

theorem region_le_capacity {s : Source} (hlength : s.reportedLength = s.bytes.size)
    (h : offset + size < s.bytes.size) : size ≤ (ofSource s).capacity := by
  have hsize : size ≤ s.bytes.size := by omega
  exact le_capacity (r := ofSource s) (Nat.le_trans hsize (Nat.le_of_eq hlength.symm)) hsize

theorem region_of_faultless {s : Source} (hs : s.Faultless)
    (hlength : s.reportedLength = s.bytes.size) (name : String) (offset size : Nat) (c : Cursor) :
    (ofSource s).region name offset size c =
      if s.bytes.size ≤ offset + size then .error (.outOfRange name offset size s.bytes.size) c
      else
        .ok (window s.bytes.toList offset size) (c.visited name offset size) := by
  have hreported : (ofSource s).length = s.bytes.size := hlength
  rw [region_of_seekLimit hs.seekLimit, hreported]
  split
  · rfl
  · rename_i hinside
    have hlt := Nat.not_le.mp hinside
    rw [if_neg (Nat.not_lt.mpr (region_le_capacity hlength hlt)), ofSource,
      hs.readExact (Nat.le_of_lt hlt)]

end Reader

theorem Section.read_of_isZero {x : Section} (h : x.isZero = true) (r : Reader) (c : Cursor) :
    x.read r c =
      if x.size.toNat ≤ zeroLimit then .ok (List.replicate x.size.toNat 0) c
      else .error (.outOfRange x.name x.offset.toNat x.size.toNat r.length) c := by
  rw [read, if_pos h]
  split <;> rfl

/-- A region read is exact and leaves the scan where it stood. Without faults it fails only when the
region does not end before the last byte, and then nothing has moved; with faults it gives all the
bytes of the region or none, and the scan is put back wherever it may be. The bytes of a segment and
of a section are such regions; a section without bytes in the file is zeros, which no source has a
part in. -/
theorem region_exact (s : Source) (hlength : s.reportedLength = s.bytes.size) (c : Cursor)
    (name : String) (offset size : Nat) :
    let D := s.bytes.toList
    let r := Reader.ofSource s
    (s.Faultless →
      ((∃ bs c', r.region name offset size c = .ok bs c') ↔
        offset < D.length ∧ offset + size < D.length) ∧
      ∀ e c', r.region name offset size c = .error e c' →
        e = .outOfRange name offset size D.length ∧ c' = c) ∧
    (∀ bs c', r.region name offset size c = .ok bs c' →
      bs = window D offset size ∧ bs.length = size) ∧
    ((∀ limit, s.seekLimit = some limit → c.position ≤ limit) →
      (stateAfter (r.region name offset size) c).position = c.position) ∧
    (∀ g : Segment, g.read r = r.region g.name g.fileOffset.toNat g.fileSize.toNat) ∧
    ∀ x : Section,
      (x.isZero = false → x.read r = r.region x.name x.offset.toNat x.size.toNat) ∧
      (x.isZero = true → ∀ (other : Reader) (d : Cursor),
        (x.size.toNat ≤ 2 ^ 63 - 1 → ∀ elsewhere,
          { x with offset := elsewhere }.read other d = .ok (List.replicate x.size.toNat 0) d) ∧
        (2 ^ 63 - 1 < x.size.toNat →
          x.read other d =
            .error (.outOfRange x.name x.offset.toNat x.size.toNat other.length) d)) := by
  intro D r
  have hD : D.length = s.bytes.size := Array.length_toList
  refine ⟨?_, fun _ _ => Reader.region_eq_ok, ?_, fun g => rfl, ?_⟩
  · intro hs
    have hregion := Reader.region_of_faultless hs hlength name offset size c
    rw [← hD] at hregion
    split at hregion
    · rename_i hout
      refine ⟨⟨?_, ?_⟩, ?_⟩
      · rintro ⟨bs, c', hok⟩
        rw [hregion] at hok
        cases hok
      · intro hinside
        omega
      · intro e c' herror
        rw [hregion] at herror
        cases herror
        exact ⟨rfl, rfl⟩
    · refine ⟨⟨fun _ => by omega, fun _ => ⟨_, _, hregion⟩⟩, ?_⟩
      intro e c' herror
      rw [hregion] at herror
      cases herror
  · intro hlimit
    refine Reader.position_region (Source.allowsSeek_iff.mpr hlimit) fun hinside => ?_
    exact Reader.region_le_capacity hlength (Nat.lt_of_lt_of_eq hinside hlength)
  · intro x
    refine ⟨fun hx => Section.read_eq_region hx r, fun hx other d => ⟨?_, ?_⟩⟩
    · intro hsize elsewhere
      have hzero : { x with offset := elsewhere }.isZero = true := hx
      exact (Section.read_of_isZero hzero other d).trans (if_pos hsize)
    · intro hsize
      exact (Section.read_of_isZero hx other d).trans (if_neg (Nat.not_le.mpr hsize))

theorem region_exact_midway :
    let bytes : Array UInt8 := #[0, 1, 2, 3, 4, 5, 6, 7]
    let faulty := Reader.ofSource
      { bytes, chunk := some 3, failAt := some 4, seekLimit := some 20 }
    let whole := Reader.ofSource { bytes, chunk := some 3 }
    let c : Cursor := ⟨20, #[], #[]⟩
    failure? (faulty.region "x" 2 4) c = some (.io .sourceRead) ∧
    (stateAfter (faulty.region "x" 2 4) c).position = 20 ∧
    (∃ c', whole.region "x" 2 4 c = .ok [2, 3, 4, 5] c') ∧
    ¬ ∃ bs c', whole.region "x" 4 4 c = .ok bs c' := by
  intro bytes faulty whole c
  have hfaultless : Source.Faultless { bytes, chunk := some 3 } := ⟨by decide, rfl, rfl⟩
  obtain ⟨-, -, hback, -⟩ := region_exact
    { bytes, chunk := some 3, failAt := some 4, seekLimit := some 20 } rfl c "x" 2 4
  obtain ⟨hinside, hexact, -⟩ := region_exact { bytes, chunk := some 3 } rfl c "x" 2 4
  obtain ⟨houtside, -⟩ := region_exact { bytes, chunk := some 3 } rfl c "x" 4 4
  refine ⟨by decide +kernel, hback ?_, ?_, ?_⟩
  · intro limit h
    cases h
    exact Nat.le_refl 20
  · obtain ⟨bs, c', hok⟩ := (hinside hfaultless).1.mpr (by decide)
    obtain ⟨rfl, -⟩ := hexact bs c' hok
    exact ⟨c', hok⟩
  · rw [(houtside hfaultless).1]
    decide

end MachO
