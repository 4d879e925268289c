namespace MachO

/-- Bytes that stand in a row from a position on. -/
structure Run where
  start : Nat
  bytes : List UInt8
  deriving DecidableEq, Repr

namespace Run

/-- The position after the last byte. -/
def stop (r : Run) : Nat := r.start + r.bytes.length

def get? (r : Run) (x : Nat) : Option UInt8 := if r.start ≤ x then r.bytes[x - r.start]? else none

def before (r : Run) (x : Nat) : Run := { r with bytes := r.bytes.take (x - r.start) }

def since (r : Run) (x : Nat) : Run := ⟨max r.start x, r.bytes.drop (x - r.start)⟩

theorem get?_before (r : Run) (x y : Nat) :
    (r.before x).get? y = if y < x then r.get? y else none := by
  simp only [get?, before, List.getElem?_take]
  by_cases hr : r.start ≤ y
  · by_cases hx : y < x
    · have hsub : y - r.start < x - r.start := by omega
      simp [hr, hx, hsub]
    · have hsub : ¬ y - r.start < x - r.start := by omega
      simp [hr, hx, hsub]
  · simp [hr]

theorem get?_since (r : Run) (x y : Nat) :
    (r.since x).get? y = if x ≤ y then r.get? y else none := by
  simp only [get?, since, List.getElem?_drop]
  by_cases hx : x ≤ y
  · by_cases hr : r.start ≤ y
    · have hmax : max r.start x ≤ y := by omega
      have hsum : x - r.start + (y - max r.start x) = y - r.start := by omega
      rw [if_pos hmax, hsum, if_pos hx, if_pos hr]
    · have hmax : ¬ max r.start x ≤ y := by omega
      rw [if_neg hmax, if_pos hx, if_neg hr]
  · have hmax : ¬ max r.start x ≤ y := by omega
    rw [if_neg hmax, if_neg hx]

theorem get?_eq_none_of_isEmpty {r : Run} (h : r.bytes.isEmpty) (x : Nat) : r.get? x = none := by
  simp [get?, List.isEmpty_iff.mp h]

theorem get?_append {r s : Run} (h : r.stop = s.start) (x : Nat) :
    (Run.mk r.start (r.bytes ++ s.bytes)).get? x = (r.get? x).or (s.get? x) := by
  simp only [get?, stop] at h ⊢
  rw [List.getElem?_append]
  by_cases hr : r.start ≤ x
  · by_cases hl : x - r.start < r.bytes.length
    · simp [hr, hl]
    · have hs : s.start ≤ x := by omega
      have hsub : x - r.start - r.bytes.length = x - s.start := by omega
      simp [hr, hl, hs, hsub]
  · have hs : ¬ s.start ≤ x := by omega
    simp [hr, hs]

end Run

/-- A sparse image. -/
structure Image where
  runs : List Run
  deriving DecidableEq, Repr

namespace Image

def empty : Image := ⟨[]⟩

def get? (image : Image) (x : Nat) : Option UInt8 := image.runs.findSome? (·.get? x)

/-- Put a run before others; runs that touch become one, and a run without bytes is dropped. -/
def glue (r : Run) : List Run → List Run
  | [] => if r.bytes.isEmpty then [] else [r]
  | s :: rest =>
      if r.bytes.isEmpty then s :: rest
      else if r.stop = s.start then ⟨r.start, r.bytes ++ s.bytes⟩ :: rest
      else r :: s :: rest

/-- Put runs that ascend into the form with gaps. -/
def join (runs : List Run) : List Run := runs.foldr glue []

/-- The image with bytes put at a position; what stood there is replaced. -/
def write (image : Image) (position : Nat) (bytes : List UInt8) : Image :=
  if bytes.isEmpty then image
  else
    let stop := position + bytes.length
    ⟨join (image.runs.map (·.before position) ++ [⟨position, bytes⟩]
      ++ image.runs.map (·.since stop))⟩

def writeAll (image : Image) (runs : List Run) : Image :=
  runs.foldl (fun i r => i.write r.start r.bytes) image

def ofBytes (bytes : List UInt8) : Image := empty.write 0 bytes

/-- Runs as bytes from a position on, gaps being filled with zeros. -/
def flattenFrom (position : Nat) : List Run → List UInt8
  | [] => []
  | r :: rest =>
      List.replicate (r.start - position) 0 ++ r.bytes ++ flattenFrom (max position r.stop) rest

def flatten (image : Image) : List UInt8 := flattenFrom 0 image.runs

theorem findSome?_glue (r : Run) (runs : List Run) (x : Nat) :
    (glue r runs).findSome? (·.get? x) = (r.get? x).or (runs.findSome? (·.get? x)) := by
  cases runs with
  | nil =>
      by_cases h : r.bytes.isEmpty
      · simp [glue, h, Run.get?_eq_none_of_isEmpty h x]
      · simp [glue, h]
  | cons s rest =>
      by_cases h : r.bytes.isEmpty
      · simp [glue, h, Run.get?_eq_none_of_isEmpty h x]
      · by_cases hs : r.stop = s.start
        · rw [glue, if_neg h, if_pos hs, List.findSome?_cons, Run.get?_append hs,
            List.findSome?_cons]
          cases r.get? x <;> cases s.get? x <;> rfl
        · rw [glue, if_neg h, if_neg hs, List.findSome?_cons]
          cases r.get? x <;> rfl

theorem findSome?_join (runs : List Run) (x : Nat) :
    (join runs).findSome? (·.get? x) = runs.findSome? (·.get? x) := by
  induction runs with
  | nil => rfl
  | cons r rest ih =>
      change (glue r (join rest)).findSome? (·.get? x) = _
      rw [findSome?_glue, ih, List.findSome?_cons]
      cases r.get? x <;> rfl

theorem get?_write (image : Image) (position : Nat) (bytes : List UInt8) (x : Nat) :
    (image.write position bytes).get? x =
      if position ≤ x ∧ x < position + bytes.length then bytes[x - position]?
      else image.get? x := by
  by_cases h : bytes.isEmpty
  · have hlen : bytes.length = 0 := by simp [List.isEmpty_iff.mp h]
    have hout : ¬ (position ≤ x ∧ x < position + bytes.length) := by omega
    rw [write, if_pos h, if_neg hout]
  · have hbefore : (image.runs.map (·.before position)).findSome? (·.get? x) =
        if x < position then image.get? x else none := by
      rw [List.findSome?_map]
      simp only [Function.comp_def, Run.get?_before, get?]
      split
      · rfl
      · simp
    have hsince : (image.runs.map (·.since (position + bytes.length))).findSome? (·.get? x) =
        if position + bytes.length ≤ x then image.get? x else none := by
      rw [List.findSome?_map]
      simp only [Function.comp_def, Run.get?_since, get?]
      split
      · rfl
      · simp
    rw [write, if_neg h]
    change (join _).findSome? (·.get? x) = _
    rw [findSome?_join, List.findSome?_append, List.findSome?_append, hbefore, hsince]
    simp only [List.findSome?_cons, List.findSome?_nil, Run.get?]
    by_cases hlow : position ≤ x
    · by_cases hhigh : x < position + bytes.length
      · have hget : x - position < bytes.length := by omega
        have hnot : ¬ x < position := by omega
        simp [hlow, hhigh, hnot, hget]
      · have hnot : ¬ x < position := by omega
        have hge : position + bytes.length ≤ x := by omega
        have hget : bytes[x - position]? = none := by
          rw [List.getElem?_eq_none_iff]
          omega
        simp [hlow, hhigh, hnot, hge, hget]
    · have hlt : x < position := by omega
      have hnot : ¬ position + bytes.length ≤ x := by omega
      simp [hlow, hlt, hnot]

theorem get?_writeAll_congr {i j : Image} (h : ∀ x, i.get? x = j.get? x) (runs : List Run)
    (x : Nat) : (i.writeAll runs).get? x = (j.writeAll runs).get? x := by
  induction runs generalizing i j with
  | nil => exact h x
  | cons r rest ih =>
      apply ih
      intro y
      rw [get?_write, get?_write, h y]

theorem get?_write_append (image : Image) {r s : Run} (h : r.stop = s.start) (x : Nat) :
    (image.write r.start (r.bytes ++ s.bytes)).get? x =
      ((image.write r.start r.bytes).write s.start s.bytes).get? x := by
  simp only [Run.stop] at h
  rw [get?_write, get?_write, get?_write, ← h, List.length_append, List.getElem?_append]
  by_cases hlow : r.start ≤ x
  · by_cases hmid : x < r.start + r.bytes.length
    · have hin : x - r.start < r.bytes.length := by omega
      have hsum : x < r.start + (r.bytes.length + s.bytes.length) := by omega
      have hnot : ¬ r.start + r.bytes.length ≤ x := by omega
      simp [hlow, hmid, hin, hsum, hnot]
    · have hin : ¬ x - r.start < r.bytes.length := by omega
      have hge : r.start + r.bytes.length ≤ x := by omega
      have hsub : x - r.start - r.bytes.length = x - (r.start + r.bytes.length) := by omega
      simp [hlow, hmid, hin, hge, hsub, Nat.add_assoc]
  · have hnot : ¬ r.start + r.bytes.length ≤ x := by omega
    simp [hlow, hnot]

theorem write_of_isEmpty (image : Image) {r : Run} (h : r.bytes.isEmpty) :
    image.write r.start r.bytes = image := by
  simp [write, h]

theorem get?_writeAll_glue (image : Image) (r : Run) (runs : List Run) (x : Nat) :
    (image.writeAll (glue r runs)).get? x = (image.writeAll (r :: runs)).get? x := by
  cases runs with
  | nil =>
      by_cases h : r.bytes.isEmpty
      · simp [glue, h, writeAll, write_of_isEmpty]
      · simp [glue, h]
  | cons s rest =>
      by_cases h : r.bytes.isEmpty
      · simp [glue, h, writeAll, write_of_isEmpty]
      · by_cases hs : r.stop = s.start
        · rw [glue, if_neg h, if_pos hs]
          exact get?_writeAll_congr (get?_write_append image hs) rest x
        · rw [glue, if_neg h, if_neg hs]

theorem get?_writeAll_join (image : Image) (runs : List Run) (x : Nat) :
    (image.writeAll (join runs)).get? x = (image.writeAll runs).get? x := by
  induction runs generalizing image with
  | nil => rfl
  | cons r rest ih =>
      change (image.writeAll (glue r (join rest))).get? x = _
      rw [get?_writeAll_glue]
      exact ih _

end Image

end MachO
