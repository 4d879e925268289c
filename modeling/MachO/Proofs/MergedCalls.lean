import MachO.Proofs.ImageRuns
import MachO.Proofs.RunComparison

namespace MachO

/-- Calls, the latest one first, after one more; a write right behind a write is put into it. -/
def Call.absorb : List Call → Call → List Call
  | .write position bytes :: rest, .write _ more => .write position (bytes ++ more) :: rest
  | calls, call => call :: calls

namespace Output

/-- The calls of the output, write calls in a row being merged into one. -/
def mergedCalls (o : Output) : List Call := (o.calls.toList.foldl Call.absorb []).reverse

/-- The outputs stand at the same position and hold the same, and their calls differ only in how
bytes written in a row are divided among them. -/
structure Alike (o o' : Output) : Prop where
  position : o.position = o'.position
  earlier : o.earlier = o'.earlier
  writes : Image.join o.writes = Image.join o'.writes
  calls : o.calls.toList.foldl Call.absorb [] = o'.calls.toList.foldl Call.absorb []

theorem writes_record (o : Output) (call : Call) :
    (o.record call).writes = o.writes ++ call.run?.toList := by
  rw [writes, record, Array.toList_push, List.filterMap_append, writes]
  cases h : call.run? <;> simp [h]

theorem absorbed_record (o : Output) (call : Call) :
    (o.record call).calls.toList.foldl Call.absorb [] =
      Call.absorb (o.calls.toList.foldl Call.absorb []) call := by
  rw [record, Array.toList_push, List.foldl_append, List.foldl_cons, List.foldl_nil]

namespace Alike

variable {o o' o'' : Output}

theorem refl (o : Output) : o.Alike o := ⟨rfl, rfl, rfl, rfl⟩

theorem symm (h : o.Alike o') : o'.Alike o :=
  ⟨h.position.symm, h.earlier.symm, h.writes.symm, h.calls.symm⟩

theorem trans (h : o.Alike o') (h' : o'.Alike o'') : o.Alike o'' :=
  ⟨h.position.trans h'.position, h.earlier.trans h'.earlier, h.writes.trans h'.writes,
    h.calls.trans h'.calls⟩

theorem image (h : o.Alike o') : o.image = o'.image := by
  rw [Output.image, Output.image, h.earlier, h.writes]

theorem mergedCalls (h : o.Alike o') : o.mergedCalls = o'.mergedCalls :=
  congrArg List.reverse h.calls

theorem record (h : o.Alike o') (call : Call) : (o.record call).Alike (o'.record call) := by
  refine ⟨h.position, h.earlier, ?_, ?_⟩
  · rw [writes_record, writes_record]
    exact Image.join_append_congr h.writes _
  · rw [absorbed_record, absorbed_record, h.calls]

theorem compatible : Compatible Alike :=
  ⟨fun _ _ h => h.position, fun _ _ call h => h.record call,
    fun _ _ _ h => ⟨rfl, h.earlier, h.writes, h.calls⟩⟩

theorem accept_append (o : Output) (bs cs : List UInt8) :
    (o.accept (bs ++ cs)).Alike ((o.accept bs).accept cs) := by
  refine ⟨?_, rfl, ?_, ?_⟩
  · simp only [Output.accept, List.length_append, Nat.add_assoc]
  · have hone : (o.accept (bs ++ cs)).writes = o.writes ++ [⟨o.position, bs ++ cs⟩] :=
      o.writes_record (.write o.position (bs ++ cs))
    have hfirst : (o.accept bs).writes = o.writes ++ [⟨o.position, bs⟩] :=
      o.writes_record (.write o.position bs)
    have htwo : ((o.accept bs).accept cs).writes =
        o.writes ++ ([⟨o.position, bs⟩] ++ [⟨o.position + bs.length, cs⟩]) := by
      rw [← List.append_assoc, ← hfirst]
      exact (o.accept bs).writes_record (.write (o.position + bs.length) cs)
    have hglue := Image.glue_glue (r := ⟨o.position, bs⟩) (s := ⟨o.position + bs.length, cs⟩)
      rfl []
    rw [hone, htwo, Image.join, Image.join, List.foldr_append, List.foldr_append]
    exact congrArg (o.writes.foldr Image.glue) hglue.symm
  · have hone := o.absorbed_record (.write o.position (bs ++ cs))
    have hfirst := o.absorbed_record (.write o.position bs)
    have hsecond := (o.accept bs).absorbed_record (.write (o.accept bs).position cs)
    refine hone.trans (Eq.trans ?_ hsecond.symm)
    refine Eq.trans ?_ (congrArg (Call.absorb · _) hfirst.symm)
    -- Only a write that comes last takes in another one.
    cases o.calls.toList.foldl Call.absorb [] with
    | nil => rfl
    | cons last rest =>
        cases last with
        | write position bytes =>
            simp only [Call.absorb, List.append_assoc]
        | _ => rfl

end Alike

end Output

namespace Sink

variable {k : Sink} {o o' : Output} {bytes : List UInt8}

theorem writeAll_of_chunk_none (hk : k.chunk = none) (hbytes : bytes ≠ [])
    (h : o.position < k.limit.toNat) :
    k.writeAll bytes o =
      k.writeAll (bytes.drop (k.limit.toNat - o.position))
        (o.accept (bytes.take (k.limit.toNat - o.position))) := by
  have hroom : k.allowance o.position = k.limit.toNat - o.position := by
    rw [allowance, hk]
    rfl
  cases bytes with
  | nil => exact absurd rfl hbytes
  | cons b bs =>
      rw [writeAll_cons, if_neg (Nat.not_le.mpr h), hroom, if_neg (Nat.sub_ne_zero_of_lt h)]

theorem writeAll_drop_alike (hk : k.chunk = none) (hbytes : bytes ≠ []) {count : Nat}
    (hcount : 0 < count) (h : o.position + count ≤ k.limit.toNat) :
    outcome (k.writeAll bytes) o =
        outcome (k.writeAll (bytes.drop count)) (o.accept (bytes.take count)) ∧
      (stateAfter (k.writeAll bytes) o).Alike
        (stateAfter (k.writeAll (bytes.drop count)) (o.accept (bytes.take count))) := by
  have hwhole := writeAll_of_chunk_none hk hbytes (o := o) (by omega)
  rcases Nat.lt_or_ge count (min bytes.length (k.limit.toNat - o.position)) with hlt | hge
  -- One call takes what is left of the room, behind the bytes that are already there.
  · have hdrop : bytes.drop count ≠ [] :=
      List.ne_nil_of_length_pos (by rw [List.length_drop]; omega)
    have hposition : (o.accept (bytes.take count)).position = o.position + count := by
      change o.position + (bytes.take count).length = _
      rw [List.length_take]
      omega
    have hsum : k.limit.toNat - o.position =
        count + (k.limit.toNat - (o.accept (bytes.take count)).position) := by omega
    have hrest := writeAll_of_chunk_none hk hdrop (o := o.accept (bytes.take count)) (by omega)
    rw [List.drop_drop, ← hsum] at hrest
    rw [hsum, List.take_add, ← hsum] at hwhole
    rw [outcome, outcome, stateAfter, stateAfter, hwhole, hrest]
    exact (Output.Alike.compatible.writeAll k _).same (.accept_append o (bytes.take count) _)
  -- One call takes as many bytes as the calls before it would have.
  · have hsame : bytes.take (k.limit.toNat - o.position) = bytes.take count ∧
        bytes.drop (k.limit.toNat - o.position) = bytes.drop count := by
      rcases Nat.lt_or_ge count bytes.length with hlt | hend
      · have hfull : k.limit.toNat - o.position = count := by omega
        rw [hfull]
        exact ⟨rfl, rfl⟩
      · rw [List.take_of_length_le hend, List.take_of_length_le (by omega),
          List.drop_eq_nil_of_le hend, List.drop_eq_nil_of_le (by omega)]
        exact ⟨rfl, rfl⟩
    rw [outcome, outcome, stateAfter, stateAfter, hwhole, hsame.1, hsame.2]
    exact ⟨rfl, .refl _⟩

def unchunked (k : Sink) : Sink := { k with chunk := none }

/-- Short write calls and long ones end alike, with alike outputs. -/
theorem writeAll_unchunked (hk : k.chunk ≠ some 0) (h : o.Alike o') :
    outcome (k.writeAll bytes) o = outcome (k.unchunked.writeAll bytes) o' ∧
      (stateAfter (k.writeAll bytes) o).Alike (stateAfter (k.unchunked.writeAll bytes) o') := by
  induction hn : bytes.length using Nat.strongRecOn generalizing bytes o o' with
  | ind n ih =>
      cases bytes with
      | nil =>
          have hdone : ∀ (k : Sink) o, k.writeAll [] o = .ok () o := fun k o => by rw [writeAll]
          exact Tracks.same_of_ok (hdone k o) (hdone k.unchunked o') h
      | cons b bs =>
          rcases Nat.lt_or_ge o.position k.limit.toNat with hlt | hfull
          · have hbytes : b :: bs ≠ [] := List.cons_ne_nil b bs
            obtain ⟨count, hcount, hroom, hstep⟩ := writeAll_step hk hbytes hlt
            have hshort : ((b :: bs).drop count).length < n := by
              rw [List.length_drop, ← hn, List.length_cons]
              omega
            obtain ⟨hsame, halike⟩ := ih _ hshort
              (Output.Alike.compatible.accept h ((b :: bs).take count)) rfl
            rw [h.position] at hroom
            obtain ⟨hsame', halike'⟩ :=
              writeAll_drop_alike (k := k.unchunked) rfl hbytes hcount hroom
            have hfirst : outcome (k.writeAll (b :: bs)) o =
                outcome (k.writeAll ((b :: bs).drop count)) (o.accept ((b :: bs).take count)) := by
              rw [outcome, outcome, hstep]
            rw [stateAfter, hstep, ← stateAfter]
            exact ⟨hfirst.trans (hsame.trans hsame'.symm), halike.trans halike'.symm⟩
          · have hfull' : k.unchunked.limit.toNat ≤ o'.position := h.position ▸ hfull
            have hstep := k.writeAll_cons b bs o
            have hstep' := k.unchunked.writeAll_cons b bs o'
            rw [if_pos hfull] at hstep
            rw [if_pos hfull'] at hstep'
            exact Tracks.same_of_error hstep hstep' (h.record .full)

end Sink

end MachO
