import MachO.Proofs.Scanning
import MachO.Section

namespace MachO

theorem Scan.attempt_eq {α : Type} (x : Scan α) (c : Cursor) :
    x.attempt c =
      match x c with
      | .ok a c' => .ok (.ok a) c'
      | .error e c' => if e.isPanic then .error e c' else .ok (.error e) c' := rfl

/-- The last scan is done whatever the first one gives, unless it is a panic. -/
theorem Scan.followedBy_eq {α : Type} (x : Scan α) (last : Scan Unit) (c : Cursor) :
    x.followedBy last c =
      match x c with
      | .ok a c' => (last >>= fun _ => pure a) c'
      | .error e c' => if e.isPanic then .error e c' else (last >>= fun _ => throw e) c' := by
  have hattempt := x.attempt_eq c
  rw [followedBy]
  cases hx : x c with
  | ok a c' =>
      rw [hx] at hattempt
      exact bind_eq_of_ok hattempt
  | error e c' =>
      simp only [hx] at hattempt ⊢
      cases hpanic : e.isPanic with
      | true =>
          rw [if_pos hpanic] at hattempt
          exact bind_eq_of_error hattempt
      | false =>
          rw [if_neg (by simp [hpanic])] at hattempt
          exact bind_eq_of_ok hattempt

theorem Scan.exists_of_followedBy_eq_ok {α : Type} {x : Scan α} {last : Scan Unit} {a : α}
    {c c' : Cursor} (h : x.followedBy last c = .ok a c') :
    ∃ c₁ u, x c = .ok a c₁ ∧ last c₁ = .ok u c' := by
  rw [followedBy_eq] at h
  cases hx : x c with
  | ok b c₁ =>
      rw [hx] at h
      obtain ⟨u, c₂, hlast, hpure⟩ := bind_eq_ok_iff.mp h
      obtain ⟨rfl, rfl⟩ := pure_eq_ok_iff.mp hpure
      exact ⟨c₁, u, rfl, hlast⟩
  | error e c₁ =>
      simp only [hx] at h
      split at h
      · cases h
      · obtain ⟨u, c₂, -, hthrow⟩ := bind_eq_ok_iff.mp h
        cases hthrow

namespace Cursor

def begun (c : Cursor) (name : String) (offset size : Nat) : Cursor :=
  c.asked.after 0 [.regionBegun name offset size]

/-- The cursor after a region was read and it was put back. -/
def visited (c : Cursor) (name : String) (offset size : Nat) : Cursor :=
  (((c.begun name offset size).sought offset).calling (.read offset size)).sought c.position

end Cursor

namespace Reader

variable {D : List UInt8} {name : String} {offset size : Nat}

theorem bytes_ofBytes {n : Nat} {c : Cursor} (h : c.position + n ≤ D.length) :
    (ofBytes D).bytes n c = .ok (window D c.position n) (c.read n) := by
  refine bytes_ofBytes_eq_ok_iff.mpr ⟨rfl, ?_, rfl⟩
  rw [length_window]
  omega

/-- Where the scan may be put back, it stands where it stood after a region, also when the region
cannot be gone to or bytes of it are missing. Only a panic leaves it where the region starts. -/
theorem region_of_allowsSeek {r : Reader} {c : Cursor}
    (hhome : r.source.allowsSeek c.position = true) (name : String) (offset size : Nat) :
    r.region name offset size c =
      if r.length ≤ offset + size then .error (.outOfRange name offset size r.length) c
      else if r.source.allowsSeek offset then
        if r.capacity < size then
          .error (.panic .capacity) ((c.begun name offset size).sought offset)
        else
          match (r.source.readExact offset size).2 with
          | none => .ok (r.source.readExact offset size).1 (c.visited name offset size)
          | some f => .error (.io f) (c.visited name offset size)
      else .error (.io .sourceSeek) ((c.begun name offset size).calling (.seek offset)) := by
  have hback : ∀ d : Cursor, r.seekTo c.position d = .ok () (d.sought c.position) := by
    intro d
    rw [seekTo_eq, if_pos hhome]
  split
  · rename_i h
    rw [region, if_pos h]
    rfl
  · rename_i h
    have hregion : r.region name offset size c = (do
        let home ← Scan.position
        Scan.tell (.regionBegun name offset size)
        r.seekTo offset
        (r.bytes size).followedBy (r.seekTo home) : Scan (List UInt8)) c := by
      rw [region, if_neg h]
    have htold : Scan.tell (.regionBegun name offset size) c.asked =
        .ok () (c.begun name offset size) := Scan.tell_eq_ok_iff.mpr rfl
    rw [hregion, bind_eq_of_ok (Scan.position_eq c), bind_eq_of_ok htold]
    have hgo := r.seekTo_eq offset (c.begun name offset size)
    split
    · rename_i hallows
      rw [if_pos hallows] at hgo
      rw [bind_eq_of_ok hgo, Scan.followedBy_eq]
      rcases Nat.lt_or_ge r.capacity size with hroom | hroom
      · rw [bytes_of_capacity_lt hroom, if_pos hroom]
        rfl
      · rw [bytes_eq hroom, Cursor.position_sought, if_neg (Nat.not_lt.mpr hroom)]
        cases (r.source.readExact offset size).2 with
        | none => exact bind_eq_of_ok (hback _)
        | some f => exact bind_eq_of_ok (hback _)
    · rename_i hrefused
      rw [if_neg hrefused] at hgo
      exact bind_eq_of_error hgo

theorem region_of_seekLimit {r : Reader} (hr : r.source.seekLimit = none) (name : String)
    (offset size : Nat) (c : Cursor) :
    r.region name offset size c =
      if r.length ≤ offset + size then .error (.outOfRange name offset size r.length) c
      else if r.capacity < size then
        .error (.panic .capacity) ((c.begun name offset size).sought offset)
      else
        match (r.source.readExact offset size).2 with
        | none => .ok (r.source.readExact offset size).1 (c.visited name offset size)
        | some f => .error (.io f) (c.visited name offset size) := by
  have hallows : ∀ p, r.source.allowsSeek p = true := by
    intro p
    rw [Source.allowsSeek, hr]
  rw [region_of_allowsSeek (hallows _), if_pos (hallows _)]

theorem region_ofBytes_of_lt (h : offset + size < D.length) (c : Cursor) :
    (ofBytes D).region name offset size c =
      .ok (window D offset size) (c.visited name offset size) := by
  have hlength := length_ofBytes D
  have hroom := le_capacity_ofBytes (D := D) (n := size) (by omega)
  have hlen : (window D offset size).length = size := by
    rw [length_window]
    omega
  have hread : (ofBytes D).source.readExact offset size = (window D offset size, none) := by
    have hexact := Source.readExact_ofBytes D offset size
    rwa [if_pos hlen] at hexact
  rw [region_of_seekLimit rfl, if_neg (by omega), if_neg (Nat.not_lt.mpr hroom), hread]

theorem region_ofBytes_of_le (h : D.length ≤ offset + size) (c : Cursor) :
    (ofBytes D).region name offset size c = .error (.outOfRange name offset size D.length) c := by
  rw [region_of_seekLimit rfl, length_ofBytes, if_pos h]

end Reader

theorem Section.read_eq_region {s : Section} (h : s.isZero = false) (r : Reader) :
    s.read r = r.region s.name s.offset.toNat s.size.toNat := by
  rw [read, if_neg (by simp [h])]

theorem Section.size_pos {s : Section} (h : s.isZero = false) : 0 < s.size.toNat := by
  have hsize : s.size ≠ 0 := by
    intro hzero
    simp [isZero, hzero] at h
  exact Nat.pos_of_ne_zero fun hzero => hsize (UInt64.toNat_inj.mp hzero)

end MachO
