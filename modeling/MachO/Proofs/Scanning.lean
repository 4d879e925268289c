import MachO.Reader
import Mathlib.Algebra.Group.Nat.Defs

/-!
Scans of bytes without faults. A chain of steps has a result exactly when every step has one, so a
scan is opened step by step from the cursor that it starts with. On bytes without faults an exact
read gives the bytes that stand there, or fails at their end.
-/

namespace MachO

/-- The bytes from a position on, at most `n` of them. -/
def window (bytes : List UInt8) (position n : Nat) : List UInt8 := (bytes.drop position).take n

@[simp] theorem length_window (bytes : List UInt8) (position n : Nat) :
    (window bytes position n).length = min n (bytes.length - position) := by
  simp [window]

@[simp] theorem window_zero (bytes : List UInt8) (position : Nat) :
    window bytes position 0 = [] := rfl

theorem window_add (bytes : List UInt8) (position m n : Nat) :
    window bytes position (m + n) =
      window bytes position m ++ window bytes (position + m) n := by
  rw [window, List.take_add, List.drop_drop]
  rfl

theorem length_window_eq_iff {bytes : List UInt8} {position n : Nat} (hn : 0 < n) :
    (window bytes position n).length = n ↔ position + n ≤ bytes.length := by
  rw [length_window]
  omega

theorem window_eq_nil_of_le {bytes : List UInt8} {position : Nat} (h : bytes.length ≤ position)
    (n : Nat) : window bytes position n = [] := by
  rw [window, List.drop_eq_nil_of_le h, List.take_nil]

theorem window_min (bytes : List UInt8) (position n : Nat) :
    window bytes position (min n (bytes.length - position)) = window bytes position n := by
  rw [window, window, ← List.length_drop, ← List.take_eq_take_min]

namespace Source

/-- How many of the bytes that are wanted at a position stand before the one from which reads
fail. -/
def reach (s : Source) (position wanted : Nat) : Nat :=
  atMost (s.failAt.map (· - position)) wanted

theorem readExact_zero (s : Source) (position : Nat) : s.readExact position 0 = ([], none) := by
  rw [readExact, if_pos rfl]

theorem reach_le (s : Source) (position n : Nat) : s.reach position n ≤ n := by
  cases hf : s.failAt with
  | none => simp [reach, hf, atMost]
  | some f =>
      simp only [reach, hf, Option.map_some, atMost]
      exact Nat.min_le_right _ n

theorem reach_add {s : Source} {position m n : Nat} (h : m ≤ s.reach position n) :
    s.reach position n = m + s.reach (position + m) (n - m) := by
  cases hf : s.failAt with
  | none =>
      simp only [reach, hf, Option.map_none, atMost] at h ⊢
      omega
  | some f =>
      simp only [reach, hf, Option.map_some, atMost] at h ⊢
      omega

theorem reach_eq_zero_iff {s : Source} {position n : Nat} (hn : 0 < n) :
    s.reach position n = 0 ↔ s.failsAt position = true := by
  cases hf : s.failAt with
  | none =>
      simp only [reach, failsAt, hf, Option.map_none, atMost, Bool.false_eq_true, iff_false]
      omega
  | some f =>
      simp only [reach, failsAt, hf, Option.map_some, atMost, decide_eq_true_eq]
      omega

theorem allowance_eq (s : Source) (position n : Nat) :
    s.allowance position n = atMost s.chunk (s.reach position n) := rfl

theorem allowance_pos {s : Source} (hs : s.chunk ≠ some 0) {position n : Nat}
    (h : 0 < s.reach position n) : 0 < s.allowance position n := by
  rw [allowance_eq]
  cases hc : s.chunk with
  | none => exact h
  | some l =>
      have hl : l ≠ 0 := fun hzero => hs (by rw [hc, hzero])
      simp only [atMost]
      omega

theorem allowance_le (s : Source) (position n : Nat) :
    s.allowance position n ≤ s.reach position n := by
  rw [allowance_eq]
  cases s.chunk with
  | none => exact Nat.le_refl _
  | some l => exact Nat.min_le_right l _

/-- An exact read gives what stands before the end of the bytes and before the position from which
reads fail, however short the single reads are. -/
theorem readExact_eq {s : Source} (hs : s.chunk ≠ some 0) (position n : Nat) :
    s.readExact position n =
      let got := window s.bytes.toList position (s.reach position n)
      (got, if got.length = n then none
        else some (if s.failsAt (position + got.length) then .sourceRead else .endOfSource)) := by
  induction n using Nat.strongRecOn generalizing position with
  | ind n ih =>
      rcases Nat.eq_zero_or_pos n with rfl | hn
      · have hreach := s.reach_le position 0
        have hzero : s.reach position 0 = 0 := by omega
        rw [readExact]
        simp [hzero]
      cases hf : s.failsAt position with
      | true =>
          have hzero := (reach_eq_zero_iff hn).mpr hf
          rw [readExact, if_neg (by omega), readSome, if_pos hf]
          simp [hzero, hf, Nat.ne_of_lt hn]
      | false =>
          have hreach : 0 < s.reach position n := by
            have := mt (reach_eq_zero_iff hn).mp (by simp [hf] : ¬ s.failsAt position = true)
            omega
          have hall := allowance_pos hs hreach
          have hle := s.allowance_le position n
          have hn' := s.reach_le position n
          have hsome : s.readSome position n =
              .ok (window s.bytes.toList position (s.allowance position n)) := by
            rw [readSome, if_neg (by simp [hf]), slice_eq]
            rfl
          rw [readExact, if_neg (by omega), hsome]
          cases hw : window s.bytes.toList position (s.allowance position n) with
          | nil =>
              have hlen := congrArg List.length hw
              rw [length_window, List.length_nil] at hlen
              have hend : s.bytes.toList.length ≤ position := by omega
              simp [window_eq_nil_of_le hend, hf, Nat.ne_of_lt hn]
          | cons b bs =>
              have hlen := congrArg List.length hw
              rw [length_window, List.length_cons] at hlen
              have hstep : bs.length + 1 ≤ s.reach position n := by omega
              -- The bytes of this call and those of the rest are one window, also at the end.
              have hgot : window s.bytes.toList position (s.reach position n) =
                  b :: bs ++ window s.bytes.toList (position + (bs.length + 1))
                    (s.reach (position + (bs.length + 1)) (n - (bs.length + 1))) := by
                rw [reach_add hstep, window_add, ← hw, ← hlen, window_min]
              have hiff : ∀ k, k = n - (bs.length + 1) ↔ bs.length + 1 + k = n := by omega
              simp only [ih (n - (bs.length + 1)) (by omega), hgot, List.length_append,
                List.length_cons, hiff, Nat.add_assoc]

end Source

section Steps

variable {ε σ α β : Type} {s t : σ}

theorem bind_eq_ok_iff {x : EStateM ε σ α} {f : α → EStateM ε σ β} {b : β} :
    (x >>= f) s = .ok b t ↔ ∃ a u, x s = .ok a u ∧ f a u = .ok b t := by
  change EStateM.bind x f s = _ ↔ _
  rw [EStateM.bind]
  cases x s with
  | ok a u =>
      constructor
      · intro h
        exact ⟨a, u, rfl, h⟩
      · rintro ⟨a', u', hx, h⟩
        cases hx
        exact h
  | error e u =>
      constructor
      · intro h
        cases h
      · rintro ⟨a', u', hx, -⟩
        cases hx

theorem bind_eq_of_ok {x : EStateM ε σ α} {f : α → EStateM ε σ β} {a : α}
    (h : x s = .ok a t) : (x >>= f) s = f a t := by
  change EStateM.bind x f s = _
  rw [EStateM.bind, h]

theorem bind_eq_of_error {x : EStateM ε σ α} {f : α → EStateM ε σ β} {e : ε}
    (h : x s = .error e t) : (x >>= f) s = .error e t := by
  change EStateM.bind x f s = _
  rw [EStateM.bind, h]

theorem bind_eq_of_eq {x y : EStateM ε σ α} (h : x s = y t) (f : α → EStateM ε σ β) :
    (x >>= f) s = (y >>= f) t := by
  change EStateM.bind x f s = EStateM.bind y f t
  rw [EStateM.bind, EStateM.bind, h]

theorem bind_eq_error_iff {x : EStateM ε σ α} {f : α → EStateM ε σ β} {e : ε} :
    (x >>= f) s = .error e t ↔
      x s = .error e t ∨ ∃ a u, x s = .ok a u ∧ f a u = .error e t := by
  cases hx : x s with
  | ok a u =>
      rw [bind_eq_of_ok hx]
      constructor
      · intro h
        exact .inr ⟨a, u, rfl, h⟩
      · rintro (h | ⟨a', u', h, hf⟩)
        · cases h
        · cases h
          exact hf
  | error e' u =>
      rw [bind_eq_of_error hx]
      constructor
      · intro h
        cases h
        exact .inl rfl
      · rintro (h | ⟨a', u', h, -⟩)
        · cases h
          rfl
        · cases h

theorem pure_eq_ok_iff {a b : α} :
    (pure a : EStateM ε σ α) s = .ok b t ↔ b = a ∧ t = s := by
  change EStateM.Result.ok a s = _ ↔ _
  rw [EStateM.Result.ok.injEq]
  constructor
  · rintro ⟨rfl, rfl⟩
    exact ⟨rfl, rfl⟩
  · rintro ⟨rfl, rfl⟩
    exact ⟨rfl, rfl⟩

theorem throw_ne_ok {e : ε} {a : α} : (throw e : EStateM ε σ α) s ≠ .ok a t := by
  intro h
  cases h

theorem ite_throw_eq_ok_iff {p : Prop} [Decidable p] {e : ε} {f : α → EStateM ε σ β}
    {x : EStateM ε σ β} {b : β} :
    (if p then throw e >>= f else x) s = .ok b t ↔ ¬ p ∧ x s = .ok b t := by
  split
  · rename_i h
    constructor
    · intro hok
      cases hok
    · exact fun hok => absurd h hok.1
  · rename_i h
    exact ⟨fun hok => ⟨h, hok⟩, And.right⟩

theorem ite_throw_eq_error_iff {p : Prop} [Decidable p] {e e' : ε} {f : α → EStateM ε σ β}
    {x : EStateM ε σ β} :
    (if p then throw e' >>= f else x) s = .error e t ↔
      p ∧ e = e' ∧ t = s ∨ ¬ p ∧ x s = .error e t := by
  split
  · rename_i h
    have hthrow : (throw e' >>= f : EStateM ε σ β) s = .error e' s := rfl
    simp [hthrow, h, eq_comm]
  · rename_i h
    simp [h]

theorem discard_eq_ok_iff {x : EStateM ε σ α} {u : Unit} :
    (discard x) s = .ok u t ↔ ∃ a, x s = .ok a t := by
  change EStateM.map (fun _ => ()) x s = _ ↔ _
  rw [EStateM.map]
  cases x s with
  | ok a v =>
      constructor
      · intro h
        cases h
        exact ⟨a, rfl⟩
      · rintro ⟨b, h⟩
        cases h
        rfl
  | error e v =>
      constructor
      · intro h
        cases h
      · rintro ⟨b, h⟩
        cases h

end Steps

/-- The result of a run that succeeds. -/
def result? {ε σ α : Type} (x : EStateM ε σ α) (s : σ) : Option α :=
  match x s with
  | .ok a _ => some a
  | .error .. => none

/-- The error of a run that fails. -/
def failure? {ε σ α : Type} (x : EStateM ε σ α) (s : σ) : Option ε :=
  match x s with
  | .ok .. => none
  | .error e _ => some e

/-- The state that a run ends in, whether it succeeds or fails. -/
def stateAfter {ε σ α : Type} (x : EStateM ε σ α) (s : σ) : σ :=
  match x s with
  | .ok _ t => t
  | .error _ t => t

section Runs

variable {ε σ α β : Type} {x : EStateM ε σ α} {s t : σ}

theorem stateAfter_of_ok {a : α} (h : x s = .ok a t) : stateAfter x s = t := by
  rw [stateAfter, h]

theorem stateAfter_of_error {e : ε} (h : x s = .error e t) : stateAfter x s = t := by
  rw [stateAfter, h]

theorem stateAfter_congr {y : EStateM ε σ α} (h : x s = y t) : stateAfter x s = stateAfter y t := by
  rw [stateAfter, stateAfter, h]

theorem stateAfter_bind_of_ok {a : α} (h : x s = .ok a t) (f : α → EStateM ε σ β) :
    stateAfter (x >>= f) s = stateAfter (f a) t := by
  rw [stateAfter, stateAfter, bind_eq_of_ok h]

theorem stateAfter_bind_of_error {e : ε} (h : x s = .error e t) (f : α → EStateM ε σ β) :
    stateAfter (x >>= f) s = t :=
  stateAfter_of_error (bind_eq_of_error h)

theorem stateAfter_bind_pure (x : EStateM ε σ α) (f : α → β) (s : σ) :
    stateAfter (do return f (← x)) s = stateAfter x s := by
  cases h : x s with
  | ok a t => exact (stateAfter_bind_of_ok h _).trans (stateAfter_of_ok h).symm
  | error e t => exact (stateAfter_bind_of_error h _).trans (stateAfter_of_error h).symm

theorem exists_of_result? {a : α} (h : result? x s = some a) : ∃ t, x s = .ok a t := by
  rw [result?] at h
  cases hx : x s with
  | ok b t =>
      rw [hx] at h
      cases h
      exact ⟨t, rfl⟩
  | error e t =>
      rw [hx] at h
      cases h

theorem exists_of_failure? {e : ε} (h : failure? x s = some e) : ∃ t, x s = .error e t := by
  rw [failure?] at h
  cases hx : x s with
  | ok a t =>
      rw [hx] at h
      cases h
  | error e' t =>
      rw [hx] at h
      cases h
      exact ⟨t, rfl⟩

end Runs

namespace Cursor

/-- The cursor after `n` more bytes and some more events. -/
def after (c : Cursor) (n : Nat) (events : List Event) : Cursor :=
  { c with position := c.position + n, events := c.events ++ events }

def calling (c : Cursor) (a : Access) : Cursor := { c with calls := c.calls.push a }

/-- The cursor after the source was asked where it stands. -/
def asked (c : Cursor) : Cursor := c.calling (.move 0)

def sought (c : Cursor) (position : Nat) : Cursor := { c.calling (.seek position) with position }

/-- The cursor after an exact read of `n` bytes. -/
def read (c : Cursor) (n : Nat) : Cursor := (c.calling (.read c.position n)).after n []

def readAll (c : Cursor) (sizes : List Nat) : Cursor := sizes.foldl read c

@[simp] theorem position_after (c : Cursor) (n : Nat) (events : List Event) :
    (c.after n events).position = c.position + n := rfl

@[simp] theorem position_asked (c : Cursor) : c.asked.position = c.position := rfl

@[simp] theorem position_sought (c : Cursor) (p : Nat) : (c.sought p).position = p := rfl

@[simp] theorem position_read (c : Cursor) (n : Nat) : (c.read n).position = c.position + n := rfl

end Cursor

theorem Scan.tell_eq_ok_iff {e : Event} {c c' : Cursor} {u : Unit} :
    Scan.tell e c = .ok u c' ↔ c' = c.after 0 [e] := by
  change EStateM.Result.ok () { c with events := c.events.push e } = _ ↔ _
  simp [Cursor.after, eq_comm]

theorem Scan.tellAll_eq_ok_iff {es : List Event} {c c' : Cursor} {u : Unit} :
    Scan.tellAll es c = .ok u c' ↔ c' = c.after 0 es := by
  change EStateM.Result.ok () { c with events := c.events ++ es } = _ ↔ _
  simp [Cursor.after, eq_comm]

theorem Scan.ofExcept_eq_ok_iff {α : Type} {x : Except Error α} {c c' : Cursor} {a : α} :
    Scan.ofExcept x c = .ok a c' ↔ x = .ok a ∧ c' = c := by
  cases x with
  | ok b => simp [Scan.ofExcept, pure_eq_ok_iff, eq_comm]
  | error e => simp [Scan.ofExcept, throw_ne_ok]

theorem Scan.position_eq (c : Cursor) : Scan.position c = .ok c.position c.asked := rfl

theorem Scan.position_eq_ok_iff {c c' : Cursor} {p : Nat} :
    Scan.position c = .ok p c' ↔ p = c.position ∧ c' = c.asked := by
  rw [position_eq]
  simp [eq_comm]

theorem Source.readExact_ofBytes (D : List UInt8) (position n : Nat) :
    (Source.ofBytes D).readExact position n =
      (window D position n,
        if (window D position n).length = n then none else some .endOfSource) := by
  rw [readExact_eq (by simp [Source.ofBytes])]
  rfl

namespace Reader

variable {D : List UInt8} {c c' : Cursor} {n : Nat}

theorem length_ofBytes (D : List UInt8) : (ofBytes D).length = D.length := by
  simp [ofBytes, ofSource, Source.reportedLength, Source.ofBytes]

theorem le_capacity_of_le_objectLimit {r : Reader} (h : n ≤ objectLimit) : n ≤ r.capacity :=
  Nat.le_trans h (Nat.le_max_left ..)

theorem le_capacity_of_lt {r : Reader} (h : n < 2 ^ 63) : n ≤ r.capacity :=
  le_capacity_of_le_objectLimit (Nat.le_of_lt_succ h)

theorem le_capacity {r : Reader} (hlength : n ≤ r.length) (hsize : n ≤ r.source.bytes.size) :
    n ≤ r.capacity :=
  Nat.le_trans (Nat.le_min.mpr ⟨hlength, hsize⟩) (Nat.le_max_right ..)

theorem le_capacity_ofBytes (h : n ≤ D.length) : n ≤ (ofBytes D).capacity :=
  le_capacity (Nat.le_trans h (Nat.le_of_eq (length_ofBytes D).symm)) h

theorem bytes_eq {r : Reader} (hn : n ≤ r.capacity) (c : Cursor) :
    r.bytes n c =
      let got := (r.source.readExact c.position n).1
      let next := (c.calling (.read c.position n)).after got.length []
      match (r.source.readExact c.position n).2 with
      | none => .ok got next
      | some f => .error (.io f) next := by
  have hafter : ∀ (d : Cursor) m, d.after m [] = { d with position := d.position + m } := by
    intro d m
    simp [Cursor.after]
  have hbytes : r.bytes n c =
      (match (r.source.readExact c.position n).2 with
      | none => pure (r.source.readExact c.position n).1
      | some f => throw (.io f) : Scan (List UInt8))
        { c.calling (.read c.position n) with
          position := c.position + (r.source.readExact c.position n).1.length } := by
    rw [bytes, if_neg (Nat.not_lt.mpr hn)]
    rfl
  simp only [hafter, hbytes]
  cases (r.source.readExact c.position n).2 with
  | none => rfl
  | some f => rfl

theorem bytes_of_capacity_lt {r : Reader} (hn : r.capacity < n) (c : Cursor) :
    r.bytes n c = .error (.panic .capacity) c := by
  rw [bytes, if_pos hn]
  rfl

theorem bytes_ofBytes_eq_ok_iff {bs : List UInt8} :
    (ofBytes D).bytes n c = .ok bs c' ↔
      bs = window D c.position n ∧ bs.length = n ∧ c' = c.read n := by
  have hread : (ofBytes D).source.readExact c.position n =
      (window D c.position n,
        if (window D c.position n).length = n then none else some .endOfSource) :=
    Source.readExact_ofBytes D c.position n
  have hlen := length_window D c.position n
  rcases Nat.lt_or_ge (ofBytes D).capacity n with hn | hn
  · rw [bytes_of_capacity_lt hn]
    constructor
    · intro hok
      cases hok
    · rintro ⟨rfl, hgot, -⟩
      have hle := le_capacity_ofBytes (D := D) (n := n) (by omega)
      omega
  simp only [bytes_eq hn, hread]
  split
  · rename_i h
    simp only [ite_eq_left_iff, reduceCtorEq, imp_false, Decidable.not_not] at h
    constructor
    · intro hok
      cases hok
      exact ⟨rfl, h, by rw [h]; rfl⟩
    · rintro ⟨rfl, hlen, rfl⟩
      rw [h]
      rfl
  · rename_i h
    constructor
    · intro hok
      cases hok
    · rintro ⟨rfl, hlen, -⟩
      simp [hlen] at h

theorem ensureBy_exact_eq (r : Reader) (n : Nat) (short : Nat → Nat → Error) (c : Cursor) :
    r.ensureBy .exact n short c =
      if r.length < c.position + n then .error (short n c.position) c.asked
      else .ok () c.asked := by
  have hensure : r.ensureBy .exact n short c =
      (if r.length < c.position + n then throw (short n c.position) else pure () : Scan Unit)
        c.asked := rfl
  rw [hensure]
  split <;> rfl

theorem ensureBy_ofBytes_eq_ok_iff {short : Nat → Nat → Error} {u : Unit} :
    (ofBytes D).ensureBy .exact n short c = .ok u c' ↔
      c.position + n ≤ D.length ∧ c' = c.asked := by
  rw [ensureBy_exact_eq, length_ofBytes]
  split
  · rename_i hlt
    constructor
    · intro hok
      cases hok
    · rintro ⟨hle, -⟩
      omega
  · rename_i hlt
    constructor
    · intro hok
      cases hok
      exact ⟨by omega, rfl⟩
    · rintro ⟨-, rfl⟩
      rfl

theorem seekTo_eq (r : Reader) (p : Nat) (c : Cursor) :
    r.seekTo p c =
      if r.source.allowsSeek p then .ok () (c.sought p)
      else .error (.io .sourceSeek) (c.calling (.seek p)) := by
  have hseek : r.seekTo p c =
      (if r.source.allowsSeek p then modify fun c => { c with position := p }
      else throw (.io .sourceSeek) : Scan Unit) (c.calling (.seek p)) := rfl
  rw [hseek]
  cases r.source.allowsSeek p <;> rfl

theorem seekTo_ofBytes_eq_ok_iff {p : Nat} {u : Unit} :
    (ofBytes D).seekTo p c = .ok u c' ↔ c' = c.sought p := by
  have hallows : (ofBytes D).source.allowsSeek p = true := rfl
  rw [seekTo_eq, if_pos hallows]
  simp [eq_comm]

end Reader

end MachO
