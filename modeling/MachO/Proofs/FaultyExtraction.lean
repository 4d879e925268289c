import MachO.Proofs.FileDecoding
import MachO.Proofs.OutputCalls
import MachO.Proofs.ScanComparison

namespace MachO

/-- Bytes with their positions, the first one at `position`. -/
def positioned (position : Nat) (bytes : List UInt8) : List (Nat × UInt8) :=
  (bytes.zipIdx position).map Prod.swap

theorem positioned_append (position : Nat) (bs cs : List UInt8) :
    positioned position (bs ++ cs) =
      positioned position bs ++ positioned (position + bs.length) cs := by
  rw [positioned, List.zipIdx_append, List.map_append]
  rfl

theorem positioned_mono {bs cs : List UInt8} (h : bs <+: cs) (position : Nat) :
    positioned position bs <+: positioned position cs := by
  obtain ⟨rest, rfl⟩ := h
  rw [positioned_append]
  exact List.prefix_append _ _

/-- The bytes that the call has stored, with their positions. -/
def Call.stored : Call → List (Nat × UInt8)
  | .write position bytes => positioned position bytes
  | _ => []

namespace Sink

/-- Writing all of some bytes stores the first `n` of them, none at or after the limit. Where every
write call takes a byte, none before the limit is left out. -/
structure Stores (k : Sink) (bytes : List UInt8) (o : Output) (n : Nat) : Prop where
  seen : (stateAfter (k.writeAll bytes) o).seen Call.stored =
    o.seen Call.stored ++ positioned o.position (bytes.take n)
  below : n ≤ k.limit.toNat - o.position
  all : ∀ u o', k.writeAll bytes o = .ok u o' →
    bytes.length ≤ n ∧ o'.position = o.position + bytes.length
  most : k.chunk ≠ some 0 → min bytes.length (k.limit.toNat - o.position) ≤ n

variable {k : Sink} {o o' : Output} {bytes : List UInt8}

theorem stores_nil (k : Sink) (o : Output) : k.Stores [] o 0 := by
  have hnil : k.writeAll [] o = .ok () o := by rw [writeAll]
  refine ⟨?_, Nat.zero_le _, ?_, fun _ => Nat.min_le_left _ _⟩
  · rw [stateAfter_of_ok hnil]
    exact (List.append_nil _).symm
  · intro u o' hok
    rw [hnil] at hok
    cases hok
    exact ⟨Nat.le_refl _, rfl⟩

theorem stores_of_error {f : Fault} (h : k.writeAll bytes o = .error f o')
    (hseen : o'.seen Call.stored = o.seen Call.stored)
    (hlimit : k.chunk ≠ some 0 → k.limit.toNat ≤ o.position) : k.Stores bytes o 0 := by
  refine ⟨?_, Nat.zero_le _, ?_, ?_⟩
  · rw [stateAfter_of_error h, hseen]
    exact (List.append_nil _).symm
  · intro u o'' hok
    rw [h] at hok
    cases hok
  · intro hchunk
    have := hlimit hchunk
    omega

theorem stores_append {taken rest : List UInt8} {n : Nat} (hsplit : taken ++ rest = bytes)
    (hstep : k.writeAll bytes o = k.writeAll rest (o.accept taken))
    (htaken : taken.length ≤ k.limit.toNat - o.position)
    (hrest : k.Stores rest (o.accept taken) n) : k.Stores bytes o (taken.length + n) := by
  subst hsplit
  have hposition : (o.accept taken).position = o.position + taken.length := rfl
  have hbelow := hrest.below
  refine ⟨?_, by omega, ?_, ?_⟩
  · rw [stateAfter, hstep, ← stateAfter, hrest.seen, Output.seen_accept, List.append_assoc,
      List.take_length_add_append, positioned_append]
    rfl
  · intro u o' hok
    rw [hstep] at hok
    have hall := hrest.all u o' hok
    rw [List.length_append]
    omega
  · intro hchunk
    have hmost := hrest.most hchunk
    rw [List.length_append]
    omega

theorem exists_stores (k : Sink) (bytes : List UInt8) (o : Output) :
    ∃ n, k.Stores bytes o n := by
  induction bytes using writeAll.induct k generalizing o with
  | case1 => exact ⟨0, stores_nil k o⟩
  | case2 b bs ih =>
      have hstep := writeAll_cons k b bs o
      split at hstep
      · rename_i hfull
        refine ⟨0, stores_of_error hstep ?_ fun _ => hfull⟩
        rw [Output.seen_record]
        exact List.append_nil _
      rename_i hbelow
      split at hstep
      · rename_i hzero
        refine ⟨0, stores_of_error hstep ?_ ?_⟩
        · rw [Output.seen_accept, hzero]
          exact List.append_nil _
        · intro hchunk
          exact absurd hzero (Nat.pos_iff_ne_zero.mp (allowance_pos hchunk (by omega)))
      -- The call has taken the first bytes, and what it left is offered again.
      · rename_i hcount
        have htaken := List.length_take_le (k.allowance o.position) (b :: bs)
        obtain ⟨n, hrest⟩ := ih o hcount (o.accept ((b :: bs).take (k.allowance o.position)))
        exact ⟨_, stores_append (List.take_append_drop _ _) hstep
          (Nat.le_trans htaken (k.allowance_le o.position)) hrest⟩

theorem Stores.take_of_faultless {clean : Sink} (hclean : clean.Faultless) {n n' : Nat}
    (h : k.Stores bytes o n) (h' : clean.Stores bytes o' n')
    (hposition : o.position = o'.position) : bytes.take n <+: bytes.take n' := by
  have hbelow := h.below
  have hmost := h'.most hclean.chunk
  have hlimit := k.limit.toNat_lt
  rw [hclean.limit_toNat] at hmost
  rw [List.take_eq_take_min]
  apply List.take_prefix_take_left
  omega

end Sink

/-- The outputs stand at the same position and have stored the same. -/
structure Output.Agrees (o o' : Output) : Prop where
  position : o.position = o'.position
  stored : o.seen Call.stored = o'.seen Call.stored

structure Transfer.Agrees (t u : Transfer) : Prop where
  cursor : t.cursor = u.cursor
  output : t.output.Agrees u.output

/-- From states that agree, the first run ends like the second one in states that agree, or it ends
in an error with a beginning stored of what the second one stores; the second one ends in that error
too, unless it is a fault. The second run keeps what is stored. -/
structure Copying.Trails {α : Type} (x y : Copying α) : Prop where
  grows : ∀ u, u.output.seen Call.stored <+: (stateAfter y u).output.seen Call.stored
  outcome : ∀ t u, t.Agrees u →
    (∃ a t' u', x t = .ok a t' ∧ y u = .ok a u' ∧ t'.Agrees u') ∨
    ∃ e t', x t = .error e t' ∧
      t'.output.seen Call.stored <+: (stateAfter y u).output.seen Call.stored ∧
      (e.IsFault ∨ ∃ u', y u = .error e u')

namespace Copying.Trails

variable {α α' : Type}

theorem pure (a : α) : Trails (Pure.pure a) (Pure.pure a) := by
  refine ⟨fun u => List.prefix_rfl, ?_⟩
  intro t u h
  exact .inl ⟨a, t, u, rfl, rfl, h⟩

theorem throw (e : Error) :
    Trails (MonadExcept.throw e : Copying α) (MonadExcept.throw e) := by
  refine ⟨fun u => List.prefix_rfl, ?_⟩
  intro t u h
  refine .inr ⟨e, t, rfl, ?_, .inr ⟨u, rfl⟩⟩
  rw [h.output.stored]
  exact List.prefix_rfl

theorem bind {x y : Copying α} {f g : α → Copying α'} (hx : Trails x y)
    (hf : ∀ a, Trails (f a) (g a)) : Trails (x >>= f) (y >>= g) := by
  -- What the first run had stored when it ended stays a beginning while the second one goes on.
  have hmore : ∀ u, (stateAfter y u).output.seen Call.stored <+:
      (stateAfter (y >>= g) u).output.seen Call.stored := by
    intro u
    cases h : y u with
    | ok a u' =>
        rw [stateAfter_of_ok h, stateAfter_bind_of_ok h]
        exact (hf a).grows u'
    | error e u' =>
        have hsame := (stateAfter_bind_of_error h g).trans (stateAfter_of_error h).symm
        exact hsame ▸ List.prefix_rfl
  refine ⟨fun u => (hx.grows u).trans (hmore u), ?_⟩
  intro t u h
  rcases hx.outcome t u h with ⟨a, t', u', hxa, hya, h'⟩ | ⟨e, t', hxe, hstored, hcause⟩
  · rw [bind_eq_of_ok hxa, bind_eq_of_ok hya, stateAfter_bind_of_ok hya]
    exact (hf a).outcome t' u' h'
  · refine .inr ⟨e, t', bind_eq_of_error hxe, hstored.trans (hmore u), ?_⟩
    rcases hcause with hfault | ⟨u', hye⟩
    · exact .inl hfault
    · exact .inr ⟨u', bind_eq_of_error hye⟩

theorem scan {x y : Scan α} (h : x.Follows Error.IsFault y) :
    Trails (Copying.scan x) (Copying.scan y) := by
  have hgrows : ∀ u, u.output.seen Call.stored <+:
      (stateAfter (Copying.scan y) u).output.seen Call.stored := by
    intro u
    exact output_scan y u ▸ List.prefix_rfl
  refine ⟨hgrows, ?_⟩
  intro t u htu
  have hstored := htu.output.stored ▸ hgrows u
  rcases h t.cursor with hsame | ⟨e, c, hx, he⟩
  · cases hy : y t.cursor with
    | ok a c =>
        rw [hy] at hsame
        rw [htu.cursor] at hy
        exact .inl ⟨a, _, _, scan_of_ok hsame, scan_of_ok hy, rfl, htu.output⟩
    | error e c =>
        rw [hy] at hsame
        rw [htu.cursor] at hy
        exact .inr ⟨e, _, scan_of_error hsame, hstored, .inr ⟨_, scan_of_error hy⟩⟩
  · exact .inr ⟨e, _, scan_of_error hx, hstored, .inl he⟩

theorem writing {x y : Writing α}
    (hgrows : ∀ o, o.seen Call.stored <+: (stateAfter y o).seen Call.stored)
    (hstored : ∀ o o', o.Agrees o' →
      (stateAfter x o).seen Call.stored <+: (stateAfter y o').seen Call.stored)
    (hok : ∀ o o', o.Agrees o' → ∀ a p, x o = .ok a p → ∃ p', y o' = .ok a p' ∧ p.Agrees p') :
    Trails (Copying.writing x) (Copying.writing y) := by
  constructor
  · intro u
    rw [output_writing]
    exact hgrows u.output
  · intro t u h
    cases hx : x t.output with
    | ok a o =>
        obtain ⟨o', hy, hagrees⟩ := hok _ _ h.output a o hx
        exact .inl ⟨a, _, _, writing_of_ok hx, writing_of_ok hy, h.cursor, hagrees⟩
    | error f o =>
        have hbefore := hstored _ _ h.output
        rw [stateAfter_of_error hx] at hbefore
        -- An error of writing is a fault, whatever the second output does.
        refine .inr ⟨_, _, writing_of_error hx, ?_, .inl ⟨f, rfl⟩⟩
        rw [output_writing]
        exact hbefore

theorem writing_of_seen_eq {x y : Writing α}
    (hx : ∀ o, (stateAfter x o).seen Call.stored = o.seen Call.stored)
    (hy : ∀ o, (stateAfter y o).seen Call.stored = o.seen Call.stored)
    (hok : ∀ o o', o.position = o'.position → ∀ a p, x o = .ok a p →
      ∃ p', y o' = .ok a p' ∧ p.position = p'.position) :
    Trails (Copying.writing x) (Copying.writing y) := by
  apply writing
  · intro o
    exact hy o ▸ List.prefix_rfl
  · intro o o' h
    have hsame : (stateAfter x o).seen Call.stored = (stateAfter y o').seen Call.stored := by
      rw [hx, hy, h.stored]
    exact hsame ▸ List.prefix_rfl
  · intro o o' h a p hp
    obtain ⟨p', hp', hposition⟩ := hok o o' h.position a p hp
    refine ⟨p', hp', hposition, ?_⟩
    rw [← stateAfter_of_ok hp, ← stateAfter_of_ok hp', hx, hy, h.stored]

variable {clean : Sink}

theorem seekTo (hclean : clean.Faultless) (k : Sink) (position : Nat) :
    Trails (Copying.writing (k.seekTo position)) (Copying.writing (clean.seekTo position)) := by
  have hsame : ∀ (k : Sink) (o : Output),
      (stateAfter (k.seekTo position) o).seen Call.stored = o.seen Call.stored := by
    intro k o
    exact (k.seen_seekTo _ _ _).trans (List.append_nil _)
  apply writing_of_seen_eq (hsame k) (hsame clean)
  intro o o' _ u p hp
  have hallows := Sink.allowsSeek_of_seekLimit hclean.seekLimit position
  rw [Sink.seekTo_eq] at hp
  split at hp
  · cases hp
    refine ⟨{ o'.record (.seek position) with position }, ?_, rfl⟩
    rw [Sink.seekTo_eq, if_pos hallows]
  · cases hp

theorem flush (hclean : clean.Faultless) (k : Sink) :
    Trails (Copying.writing k.flush) (Copying.writing clean.flush) := by
  have hsame : ∀ (k : Sink) (o : Output),
      (stateAfter k.flush o).seen Call.stored = o.seen Call.stored := by
    intro k o
    exact (k.seen_flush _ _).trans (List.append_nil _)
  apply writing_of_seen_eq (hsame k) (hsame clean)
  intro o o' hposition u p hp
  rw [Sink.flush_eq] at hp
  split at hp
  · cases hp
  · cases hp
    refine ⟨o'.record .flush, ?_, hposition⟩
    rw [Sink.flush_eq, hclean.failsFlush]
    rfl

theorem writeAll (hclean : clean.Faultless) (k : Sink) (bytes : List UInt8) :
    Trails (Copying.writing (k.writeAll bytes)) (Copying.writing (clean.writeAll bytes)) := by
  apply writing
  · intro o
    obtain ⟨n, h⟩ := clean.exists_stores bytes o
    rw [h.seen]
    exact List.prefix_append _ _
  · intro o o' hagrees
    obtain ⟨n, h⟩ := k.exists_stores bytes o
    obtain ⟨n', h'⟩ := clean.exists_stores bytes o'
    rw [h.seen, h'.seen, hagrees.stored, hagrees.position, List.prefix_append_right_inj]
    exact positioned_mono (h.take_of_faultless hclean h' hagrees.position) _
  · intro o o' hagrees u p hp
    obtain ⟨n, h⟩ := k.exists_stores bytes o
    obtain ⟨n', h'⟩ := clean.exists_stores bytes o'
    obtain ⟨hlen, hposition⟩ := h.all u p hp
    have hbelow := h.below
    have hlimit := k.limit.toNat_lt
    have hfits : bytes.length ≤ clean.limit.toNat - o'.position := by
      rw [hclean.limit_toNat, ← hagrees.position]
      omega
    obtain ⟨p', hp'⟩ := Sink.writeAll_of_length_le hclean.chunk hfits
    obtain ⟨hlen', hposition'⟩ := h'.all () p' hp'
    refine ⟨p', hp', ?_, ?_⟩
    · rw [hposition, hposition', hagrees.position]
    · rw [← stateAfter_of_ok hp, ← stateAfter_of_ok hp', h.seen, h'.seen, hagrees.stored,
        hagrees.position, List.take_of_length_le hlen, List.take_of_length_le hlen']

end Copying.Trails

section Comparison

variable {r r' : Reader} {clean : Sink}

theorem Placement.copy_trails (hr : r.FollowsWholly Error.IsFault r') (hclean : clean.Faultless)
    (k : Sink) (p : Placement) :
    Copying.Trails (p.copy r k) (p.copy r' clean) := by
  apply (Copying.Trails.scan (Section.read_follows hr p.target)).bind
  intro bytes
  apply (Copying.Trails.scan (.refl _)).bind
  intro _
  apply (Copying.Trails.seekTo hclean k p.offset).bind
  intro _
  apply (Copying.Trails.writeAll hclean k bytes).bind
  intro _
  exact .pure _

theorem copyAll_trails (hr : r.FollowsWholly Error.IsFault r') (hclean : clean.Faultless)
    (k : Sink) (placements : List Placement) (summary : Summary) :
    Copying.Trails (copyAll r k placements summary) (copyAll r' clean placements summary) := by
  induction placements generalizing summary with
  | nil => exact .pure _
  | cons p rest ih =>
      apply (p.copy_trails hr hclean k).bind
      intro length
      exact ih _

theorem extract_trails (hr : r.FollowsWholly Error.IsFault r') (hclean : clean.Faultless)
    (k : Sink) (commands : List Command) (selection : Selection) :
    Copying.Trails (extract r k commands selection) (extract r' clean commands selection) := by
  unfold extract extractBy
  split
  · exact .throw _
  apply (Copying.Trails.scan (.refl _)).bind
  intro _
  apply (Copying.Trails.scan (.refl _)).bind
  intro placements
  apply (copyAll_trails hr hclean k placements _).bind
  intro summary
  apply (Copying.Trails.flush hclean k).bind
  intro _
  apply (Copying.Trails.scan (.refl _)).bind
  intro _
  exact .pure _

theorem extractFile_trails (hr : r.FollowsWholly Error.IsFault r') (hclean : clean.Faultless)
    (k : Sink) (selection : Selection) :
    Copying.Trails (extractFile r k selection) (extractFile r' clean selection) := by
  rw [extractFile, extractFile]
  split
  · exact .throw _
  apply (Copying.Trails.scan (File.decode_follows hr.toFollows)).bind
  intro file
  exact extract_trails hr hclean k file.commands selection

end Comparison

/-- The last call is the only flush. -/
def Output.FlushedLast (o : Output) : Prop :=
  ∃ calls : Array Call, o.calls = calls.push .flush ∧ .flush ∉ calls

/-- The part of an extraction from a file that comes before the output is flushed. -/
def copyFile (r : Reader) (k : Sink) (selection : Selection) : Copying Summary := do
  if selection.isEmpty then throw .emptySelection
  let file ← Copying.scan (File.decode r)
  copySelected r k file.commands selection

section Flushing

variable (r : Reader) (k : Sink) (selection : Selection)

theorem extractFile_eq_bind :
    extractFile r k selection = copyFile r k selection >>= finish k := by
  unfold extractFile copyFile
  split
  · rfl
  · simp only [bind_assoc, extract_eq_bind]

theorem copyFile_flush_notMem {t : Transfer} (h : .flush ∉ t.output.calls) :
    .flush ∉ (stateAfter (copyFile r k selection) t).output.calls := by
  have hissues : Copying.Issues Call.flushes (copyFile r k selection) [] := by
    rw [copyFile]
    split
    · exact .throw _
    apply (Copying.Issues.scan _).bind
    intro file _
    apply copySelected_issues (fun _ _ => rfl) rfl
    intro placements _
    exact List.flatMap_eq_nil_iff.mpr fun _ _ => rfl
  obtain ⟨issued, hseen, hnone, -⟩ := hissues t
  rw [List.prefix_nil] at hnone
  rw [hnone, List.append_nil, Output.seen_flushes_eq_nil_iff.mpr h] at hseen
  exact Output.seen_flushes_eq_nil_iff.mp hseen

theorem finish_eq (summary : Summary) (t : Transfer) :
    finish k summary t =
      if k.failsFlush then .error (.io .outputFlush) ⟨t.cursor, t.output.record .flush⟩
      else .ok summary ⟨t.cursor.after 0 [.extracted summary], t.output.record .flush⟩ := by
  cases h : k.failsFlush with
  | true =>
      have hflush : k.flush t.output = .error .outputFlush (t.output.record .flush) := by
        rw [Sink.flush_eq, if_pos h]
      exact bind_eq_of_error (Copying.writing_of_error hflush)
  | false =>
      have hflush : k.flush t.output = .ok () (t.output.record .flush) := by
        rw [Sink.flush_eq, if_neg (by simp [h])]
      have htell : Copying.scan (Scan.tell (.extracted summary))
          ⟨t.cursor, t.output.record .flush⟩ =
          .ok () ⟨t.cursor.after 0 [.extracted summary], t.output.record .flush⟩ :=
        Copying.scan_of_ok (Scan.tell_eq_ok_iff.mpr rfl)
      exact (bind_eq_of_ok (Copying.writing_of_ok hflush)).trans (bind_eq_of_ok htell)

/-- A run that succeeds has flushed the output at its end. A run that fails has not flushed it,
unless flushing is what failed. -/
theorem extractFile_flush {t : Transfer} (h : .flush ∉ t.output.calls) :
    (∀ summary u, extractFile r k selection t = .ok summary u → u.output.FlushedLast) ∧
    ∀ e u, extractFile r k selection t = .error e u →
      .flush ∉ u.output.calls ∨
        k.failsFlush = true ∧ e = .io .outputFlush ∧ u.output.FlushedLast := by
  have hcopied := copyFile_flush_notMem r k selection h
  rw [extractFile_eq_bind]
  cases hcopy : copyFile r k selection t with
  | error e v =>
      rw [stateAfter_of_error hcopy] at hcopied
      rw [bind_eq_of_error hcopy]
      refine ⟨nofun, ?_⟩
      intro e' u herror
      cases herror
      exact .inl hcopied
  | ok summary v =>
      rw [stateAfter_of_ok hcopy] at hcopied
      rw [bind_eq_of_ok hcopy, finish_eq]
      have hlast : (v.output.record .flush).FlushedLast := ⟨v.output.calls, rfl, hcopied⟩
      constructor
      · intro summary' u hok
        split at hok
        · cases hok
        · cases hok
          exact hlast
      · intro e u herror
        split at herror
        · rename_i hfails
          cases herror
          exact .inr ⟨hfails, rfl, hlast⟩
        · cases herror

end Flushing

/-- Whatever faults a source of some bytes and an output have, an extraction into an empty output
stores a beginning of what is stored without faults, and it ends in the same way or in a fault. When
it succeeds, it has stored all of that, its account is the same, and it has flushed the output once
as its last call. When it fails, the output was not flushed, unless flushing is what failed. -/
theorem extraction_stores_beginning {s : Source} (hs : s.claim = none) (k : Sink) {clean : Sink}
    (hclean : clean.Faultless) (selection : Selection) :
    let faulty := extractFile (.ofSource s) k selection
    let faultless := extractFile (.ofBytes s.bytes.toList) clean selection
    let start : Transfer := ⟨.start, .empty⟩
    (stateAfter faulty start).output.seen Call.stored <+:
      (stateAfter faultless start).output.seen Call.stored ∧
    (∀ summary t, faulty start = .ok summary t →
      t.output.FlushedLast ∧ ∃ u, faultless start = .ok summary u ∧
        t.output.seen Call.stored = u.output.seen Call.stored) ∧
    ∀ e t, faulty start = .error e t →
      (e.IsFault ∨ ∃ u, faultless start = .error e u) ∧
      (.flush ∉ t.output.calls ∨
        k.failsFlush = true ∧ e = .io .outputFlush ∧ t.output.FlushedLast) := by
  intro faulty faultless start
  have htrails : faulty.Trails faultless :=
    extractFile_trails (Reader.ofSource_follows hs) hclean k selection
  have hempty : .flush ∉ start.output.calls := Array.not_mem_empty _
  obtain ⟨hflushed, hnot⟩ := extractFile_flush (.ofSource s) k selection hempty
  rcases htrails.outcome start start ⟨rfl, rfl, rfl⟩ with
    ⟨summary, t, u, hfaulty, hfaultless, hagrees⟩ | ⟨e, t, hfaulty, hstored, hcause⟩
  · rw [stateAfter_of_ok hfaulty, stateAfter_of_ok hfaultless, hagrees.output.stored]
    refine ⟨List.prefix_rfl, ?_, ?_⟩
    · intro summary' t' hok
      have hlast := hflushed summary' t' hok
      rw [hfaulty] at hok
      cases hok
      exact ⟨hlast, u, hfaultless, hagrees.output.stored⟩
    · intro e t' herror
      rw [hfaulty] at herror
      cases herror
  · rw [stateAfter_of_error hfaulty]
    refine ⟨hstored, ?_, ?_⟩
    · intro summary t' hok
      rw [hfaulty] at hok
      cases hok
    · intro e' t' herror
      have hflush := hnot e' t' herror
      rw [hfaulty] at herror
      cases herror
      exact ⟨hcause, hflush⟩

theorem extraction_stores_beginning_narrowInWide :
    let s : Source := { bytes := File.narrowInWideBytes.toArray, chunk := some 7 }
    let selection := Selection.empty.withSegment "__TEXT"
    let start : Transfer := ⟨.start, .empty⟩
    let all := [(0, 128), (1, 0), (2, 0), (3, 0)]
    ({} : Sink).Faultless ∧
    (∃ summary t, extractFile (.ofSource s) { chunk := some 3 } selection start = .ok summary t ∧
      t.output.FlushedLast ∧ t.output.seen Call.stored = all) ∧
    ∃ t, extractFile (.ofSource s) { limit := 3, chunk := some 2 } selection start =
        .error (.io .outputFull) t ∧
      .flush ∉ t.output.calls ∧ t.output.seen Call.stored = all.take 3 ∧
      t.output.seen Call.stored <+: all := by
  intro s selection start all
  have hclean : ({} : Sink).Faultless := by decide
  have hall : (stateAfter (extractFile (.ofBytes s.bytes.toList) {} selection) start).output.seen
      Call.stored = all := by decide +kernel
  refine ⟨hclean, ?_, ?_⟩
  · have hresult : result? (extractFile (.ofSource s) { chunk := some 3 } selection) start =
        some ⟨some 0x1000, 1, 0, 4⟩ := by decide +kernel
    obtain ⟨t, hrun⟩ := exists_of_result? hresult
    obtain ⟨-, hok, -⟩ :=
      extraction_stores_beginning (s := s) rfl { chunk := some 3 } hclean selection
    obtain ⟨hlast, u, hfaultless, hsame⟩ := hok _ t hrun
    rw [stateAfter_of_ok hfaultless] at hall
    exact ⟨_, t, hrun, hlast, hsame.trans hall⟩
  · have hfailure : failure? (extractFile (.ofSource s) { limit := 3, chunk := some 2 } selection)
        start = some (.io .outputFull) := by decide +kernel
    have hthree : (stateAfter (extractFile (.ofSource s) { limit := 3, chunk := some 2 } selection)
        start).output.seen Call.stored = all.take 3 := by decide +kernel
    obtain ⟨t, hrun⟩ := exists_of_failure? hfailure
    obtain ⟨hstored, -, herror⟩ := extraction_stores_beginning (s := s) rfl
      { limit := 3, chunk := some 2 } hclean selection
    obtain ⟨-, hflush⟩ := herror _ t hrun
    rw [hall, stateAfter_of_error hrun] at hstored
    rw [stateAfter_of_error hrun] at hthree
    refine ⟨t, hrun, ?_, hthree, hstored⟩
    rcases hflush with hnone | ⟨hfails, -⟩
    · exact hnone
    · cases hfails

end MachO
