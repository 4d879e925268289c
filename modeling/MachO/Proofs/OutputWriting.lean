import MachO.Proofs.Scanning
import MachO.Sink

namespace MachO

/-- Bytes put at a position over what was held before. -/
def put (earlier : Nat → Option UInt8) (position : Nat) (bytes : List UInt8) (x : Nat) :
    Option UInt8 :=
  if position ≤ x ∧ x < position + bytes.length then bytes[x - position]? else earlier x

theorem put_nil (earlier : Nat → Option UInt8) (position : Nat) :
    put earlier position [] = earlier := by
  funext x
  rw [put, if_neg (by simp)]

theorem put_append (earlier : Nat → Option UInt8) (position : Nat) (bs cs : List UInt8) :
    put earlier position (bs ++ cs) = put (put earlier position bs) (position + bs.length) cs := by
  funext x
  simp only [put, List.length_append, List.getElem?_append]
  rcases Nat.lt_or_ge x position with hlow | hlow
  · rw [if_neg (by omega), if_neg (by omega), if_neg (by omega)]
  rcases Nat.lt_or_ge x (position + bs.length) with hmid | hmid
  · rw [if_pos (by omega), if_pos (by omega), if_neg (by omega), if_pos (by omega)]
  rcases Nat.lt_or_ge x (position + bs.length + cs.length) with hhigh | hhigh
  · rw [if_pos (by omega), if_neg (by omega), if_pos (by omega), Nat.sub_sub]
  · rw [if_neg (by omega), if_neg (by omega), if_neg (by omega)]

theorem isSome_put {earlier : Nat → Option UInt8} {position x : Nat} {bytes : List UInt8} :
    (put earlier position bytes x).isSome ↔
      (position ≤ x ∧ x < position + bytes.length) ∨ (earlier x).isSome := by
  rw [put]
  split
  · rename_i hx
    have hlt : x - position < bytes.length := by omega
    rw [List.getElem?_eq_getElem hlt]
    exact ⟨fun _ => .inl hx, fun _ => rfl⟩
  · rename_i hx
    exact ⟨.inr, fun h => h.resolve_left hx⟩

/-- A sink that takes all seeks and flushes and every byte before its last position. Its single
write calls may be short. -/
structure Sink.Faultless (k : Sink) : Prop where
  chunk : k.chunk ≠ some 0
  limit : k.limit = 0xFFFFFFFFFFFFFFFF
  seekLimit : k.seekLimit = none
  failsFlush : k.failsFlush = false

instance (k : Sink) : Decidable k.Faultless :=
  decidable_of_iff (k.chunk ≠ some 0 ∧ k.limit = 0xFFFFFFFFFFFFFFFF ∧ k.seekLimit = none ∧
      k.failsFlush = false)
    ⟨fun ⟨h₁, h₂, h₃, h₄⟩ => ⟨h₁, h₂, h₃, h₄⟩, fun ⟨h₁, h₂, h₃, h₄⟩ => ⟨h₁, h₂, h₃, h₄⟩⟩

theorem Sink.Faultless.limit_toNat {k : Sink} (hk : k.Faultless) : k.limit.toNat = 2 ^ 64 - 1 := by
  rw [hk.limit]
  rfl

theorem Output.get?_accept (o : Output) (bytes : List UInt8) :
    (o.accept bytes).image.get? = put o.image.get? o.position bytes := by
  funext x
  exact o.get?_image_accept bytes x

namespace Sink

variable {k : Sink} {o : Output} {bytes : List UInt8}

theorem writeAll_cons (k : Sink) (b : UInt8) (bs : List UInt8) (o : Output) :
    k.writeAll (b :: bs) o =
      if k.limit.toNat ≤ o.position then
        .error (if k.silentWhenFull then .nothingTaken else k.writeFault) (o.record .full)
      else if k.allowance o.position = 0 then
        .error .nothingTaken (o.accept ((b :: bs).take (k.allowance o.position)))
      else
        k.writeAll ((b :: bs).drop (k.allowance o.position))
          (o.accept ((b :: bs).take (k.allowance o.position))) := by
  rw [writeAll]

theorem allowance_le (k : Sink) (position : Nat) :
    k.allowance position ≤ k.limit.toNat - position := by
  rw [allowance]
  cases k.chunk with
  | none => exact Nat.le_refl _
  | some l => exact Nat.min_le_right l _

theorem allowance_pos (hchunk : k.chunk ≠ some 0) {position : Nat}
    (h : position < k.limit.toNat) : 0 < k.allowance position := by
  rw [allowance]
  cases hc : k.chunk with
  | none => exact Nat.sub_pos_of_lt h
  | some l =>
      have hl : l ≠ 0 := fun hzero => hchunk (by rw [hc, hzero])
      simp only [atMost]
      omega

theorem writeAll_step (hchunk : k.chunk ≠ some 0) (hbytes : bytes ≠ [])
    (h : o.position < k.limit.toNat) :
    ∃ count, 0 < count ∧ o.position + count ≤ k.limit.toNat ∧
      k.writeAll bytes o = k.writeAll (bytes.drop count) (o.accept (bytes.take count)) := by
  have hpos := k.allowance_pos hchunk h
  have hle := k.allowance_le o.position
  refine ⟨k.allowance o.position, hpos, by omega, ?_⟩
  cases bytes with
  | nil => exact absurd rfl hbytes
  | cons b bs => rw [writeAll_cons, if_neg (Nat.not_le.mpr h), if_neg (Nat.pos_iff_ne_zero.mp hpos)]

theorem writeAll_eq_ok {u : Unit} {o' : Output} (h : k.writeAll bytes o = .ok u o') :
    o'.image.get? = put o.image.get? o.position bytes := by
  induction bytes using writeAll.induct k generalizing o with
  | case1 =>
      rw [writeAll] at h
      cases h
      exact (put_nil _ _).symm
  | case2 b bs ih =>
      have hstep := writeAll_cons k b bs o
      rw [h] at hstep
      split at hstep
      · cases hstep
      split at hstep
      · cases hstep
      · rename_i hcount
        have hrest := ih o hcount hstep.symm
        have hposition : (o.accept ((b :: bs).take (k.allowance o.position))).position =
            o.position + ((b :: bs).take (k.allowance o.position)).length := rfl
        rw [hrest, Output.get?_accept, hposition, ← put_append, List.take_append_drop]

theorem writeAll_of_le (hchunk : k.chunk ≠ some 0)
    (h : o.position + bytes.length ≤ k.limit.toNat) :
    ∃ o', k.writeAll bytes o = .ok () o' ∧
      o'.image.get? = put o.image.get? o.position bytes := by
  suffices hdone : ∃ o', k.writeAll bytes o = .ok () o' by
    obtain ⟨o', hok⟩ := hdone
    exact ⟨o', hok, writeAll_eq_ok hok⟩
  induction hn : bytes.length using Nat.strongRecOn generalizing bytes o with
  | ind n ih =>
      cases bytes with
      | nil => exact ⟨o, by rw [writeAll]⟩
      | cons b bs =>
          have hlen : (b :: bs).length = bs.length + 1 := rfl
          obtain ⟨count, hpos, -, hstep⟩ :=
            writeAll_step (k := k) (o := o) hchunk (List.cons_ne_nil b bs) (by omega)
          have hsum := congrArg List.length (List.take_append_drop count (b :: bs))
          rw [List.length_append] at hsum
          have hshort : ((b :: bs).drop count).length < n := by
            rw [List.length_drop]
            omega
          have hposition : (o.accept ((b :: bs).take count)).position =
              o.position + ((b :: bs).take count).length := rfl
          obtain ⟨o', hok⟩ := ih _ hshort (o := o.accept ((b :: bs).take count)) (by omega) rfl
          exact ⟨o', hstep.trans hok⟩

theorem writeAll_of_lt (hchunk : k.chunk ≠ some 0) (hbytes : bytes ≠ [])
    (h : k.limit.toNat < o.position + bytes.length) :
    ∃ f o', k.writeAll bytes o = .error f o' := by
  induction hn : bytes.length using Nat.strongRecOn generalizing bytes o with
  | ind n ih =>
      rcases Nat.lt_or_ge o.position k.limit.toNat with hlt | hge
      · obtain ⟨count, hpos, hinside, hstep⟩ := writeAll_step (k := k) (o := o) hchunk hbytes hlt
        have hposition : (o.accept (bytes.take count)).position = o.position + count := by
          change o.position + (bytes.take count).length = _
          rw [List.length_take]
          omega
        have hdrop := List.length_drop (i := count) (l := bytes)
        have hrest : bytes.drop count ≠ [] := List.ne_nil_of_length_pos (by omega)
        obtain ⟨f, o', herror⟩ := ih _ (by omega) (o := o.accept (bytes.take count)) hrest
          (by omega) rfl
        exact ⟨f, o', hstep.trans herror⟩
      · cases bytes with
        | nil => exact absurd rfl hbytes
        | cons b bs =>
            rw [writeAll_cons, if_pos hge]
            exact ⟨_, _, rfl⟩

theorem writeAll_of_length_le (hchunk : k.chunk ≠ some 0)
    (h : bytes.length ≤ k.limit.toNat - o.position) :
    ∃ o', k.writeAll bytes o = .ok () o' := by
  cases bytes with
  | nil => exact ⟨o, by rw [writeAll]⟩
  | cons b bs =>
      rw [List.length_cons] at h
      have hend : o.position + (b :: bs).length ≤ k.limit.toNat := by
        rw [List.length_cons]
        omega
      obtain ⟨o', hok, -⟩ := writeAll_of_le hchunk hend
      exact ⟨o', hok⟩

theorem seekTo_eq (k : Sink) (position : Nat) (o : Output) :
    k.seekTo position o =
      if k.allowsSeek position then .ok () { o.record (.seek position) with position }
      else .error k.seekFault (o.record (.seek position)) := by
  rw [seekTo]
  cases k.allowsSeek position <;> rfl

theorem flush_eq (k : Sink) (o : Output) :
    k.flush o =
      if k.failsFlush then .error .outputFlush (o.record .flush)
      else .ok () (o.record .flush) := by
  rw [flush]
  cases k.failsFlush <;> rfl

theorem allowsSeek_of_seekLimit (h : k.seekLimit = none) (position : Nat) :
    k.allowsSeek position = true := by
  rw [allowsSeek, h]

theorem seekTo_of_seekLimit (h : k.seekLimit = none) (o : Output) (position : Nat) :
    ∃ o', k.seekTo position o = .ok () o' ∧ o'.position = position ∧ o'.image = o.image := by
  refine ⟨{ o.record (.seek position) with position }, ?_, rfl, ?_⟩
  · rw [seekTo_eq, if_pos (allowsSeek_of_seekLimit h position)]
  · exact Output.image_record rfl o

theorem flush_of_failsFlush (h : k.failsFlush = false) (o : Output) :
    ∃ o', k.flush o = .ok () o' ∧ o'.image = o.image := by
  refine ⟨o.record .flush, ?_, Output.image_record rfl o⟩
  rw [flush_eq, h]
  rfl

section Success

variable {o' : Output} {u : Unit}

theorem seekTo_eq_ok {position : Nat} (h : k.seekTo position o = .ok u o') :
    o'.position = position ∧ o'.image = o.image := by
  rw [seekTo_eq] at h
  split at h
  · cases h
    exact ⟨rfl, Output.image_record rfl o⟩
  · cases h

theorem flush_eq_ok (h : k.flush o = .ok u o') : o'.image = o.image := by
  rw [flush_eq] at h
  split at h
  · cases h
  · cases h
    exact Output.image_record rfl o

end Success

end Sink

end MachO
