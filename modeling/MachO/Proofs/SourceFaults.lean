import MachO.Proofs.FilePrefixes

namespace MachO

/-- The readers have the same length, give the same bytes, and go alike to the positions up to their
length. -/
structure Reader.Agrees (r r' : Reader) : Prop where
  length : r.length = r'.length
  bytes : ∀ n ≤ objectLimit, r.bytes n = r'.bytes n
  seekTo : ∀ p ≤ r.length, r.seekTo p = r'.seekTo p

section Agreement

variable {r r' : Reader} (h : r.Agrees r')
include h

namespace Reader.Agrees

theorem ensureBy (a : Arithmetic) (n : Nat) (short : Nat → Nat → Error) :
    r.ensureBy a n short = r'.ensureBy a n short := by
  rw [Reader.ensureBy, Reader.ensureBy, h.length]

theorem u32 (o : ByteOrder) : r.u32 o = r'.u32 o := by
  rw [Reader.u32, Reader.u32, h.bytes 4 (by decide)]

theorem i32 (o : ByteOrder) : r.i32 o = r'.i32 o := by
  rw [Reader.i32, Reader.i32, h.u32]

theorem alike : r.ReadsAlike (fun _ => False) Eq r' :=
  ⟨fun n hn => .of_eq (h.bytes n hn), fun _ _ events hcd => congrArg (·.after 0 events) hcd⟩

end Reader.Agrees

theorem Command.decode_of_agrees (o : ByteOrder) : Command.decode r o = Command.decode r' o := by
  have hbody : ∀ id size, decodeBody r o id size = decodeBody r' o id size := fun id size =>
    (decodeBody_alike h.alike o id size).eq
  simp only [Command.decode_eq, h.ensureBy, h.u32, hbody, ← h.length]
  refine bind_congr fun _ => bind_congr fun start => bind_congr fun id => bind_congr fun size => ?_
  split
  · rfl
  · rename_i hinside
    rw [h.seekTo _ (Nat.not_lt.mp hinside)]

theorem Header.decode_of_agrees (o : ByteOrder) (w : Width) (magic : UInt32) :
    Header.decode r o w magic = Header.decode r' o w magic := by
  simp only [Header.decode, Header.decodeBy, Header.decodeFields, h.ensureBy, h.i32, h.u32]

theorem File.decode_of_agrees : File.decode r = File.decode r' := by
  simp only [File.decode_eq, h.ensureBy, h.bytes magicSize (by decide), Header.decode_of_agrees h,
    Command.decode_of_agrees h]

end Agreement

def Source.seeking (s : Source) (limit : Option Nat) : Source := { s with seekLimit := limit }

theorem Reader.bytes_seeking {s : Source} (hs : s.chunk ≠ some 0) (limit : Option Nat)
    (length : Nat) {n : Nat} (hn : n ≤ objectLimit) :
    (⟨s.seeking limit, length⟩ : Reader).bytes n = (ofSource s).bytes n := by
  have hread : ∀ position,
      (s.seeking limit).readExact position n = s.readExact position n := by
    intro position
    rw [Source.readExact_eq hs, Source.readExact_eq (s := s.seeking limit) hs]
    rfl
  funext c
  rw [bytes_eq (le_capacity_of_le_objectLimit hn), bytes_eq (le_capacity_of_le_objectLimit hn)]
  simp only [ofSource, hread]

/-- A reader of the bytes that cannot go behind them. -/
def Reader.confined (D : List UInt8) : Reader :=
  ⟨(Source.ofBytes D).seeking (some D.length), D.length⟩

theorem Reader.allowsSeek_confined (D : List UInt8) (p : Nat) :
    (confined D).source.allowsSeek p = true ↔ p ≤ D.length :=
  decide_eq_true_iff

/-- To read a file it is not necessary to go behind its bytes. -/
theorem Reader.confined_agrees (D : List UInt8) : (confined D).Agrees (ofBytes D) := by
  have hchunk : (Source.ofBytes D).chunk ≠ some 0 := nofun
  refine ⟨(length_ofBytes D).symm, fun n => bytes_seeking hchunk _ _, ?_⟩
  intro p hp
  have hallows : (confined D).source.allowsSeek p = true := (allowsSeek_confined D p).mpr hp
  have hfaultless : (ofBytes D).source.allowsSeek p = true := rfl
  rw [seekTo, seekTo, hallows, hfaultless]

theorem Reader.confined_follows {D : List UInt8} {s : Source} (hbytes : D <+: s.bytes.toList)
    (hlength : s.reportedLength = s.bytes.size) (hchunk : s.chunk ≠ some 0)
    (hfail : ∀ n, s.failAt = some n → D.length ≤ n)
    (hseek : ∀ n, s.seekLimit = some n → D.length ≤ n) :
    (confined D).Follows (fun e => e.IsShort ∨ e.IsFault) (ofSource s) := by
  have hshows : (s.seeking none).Shows D := ⟨hbytes, hchunk, hfail, rfl⟩
  have hle : D.length ≤ s.reportedLength := by
    rw [hlength, ← Array.length_toList]
    exact hbytes.length_le
  have hfollows := ofBytes_follows hshows (fun e => e.IsShort ∨ e.IsFault) (.inr ⟨_, rfl⟩) hle
    fun _ n p => ⟨.inl ⟨n, p, .inl rfl⟩, .inl ⟨n, p, .inr rfl⟩⟩
  refine ⟨?_, ?_, hle, fun _ n p => ⟨.inl ⟨n, p, .inl rfl⟩, .inl ⟨n, p, .inr rfl⟩⟩⟩
  · intro n hn
    rw [(confined_agrees D).bytes n hn, ← bytes_seeking hchunk none s.reportedLength hn]
    exact hfollows.bytes n hn
  · intro p c
    cases hallows : (confined D).source.allowsSeek p with
    | true =>
        have hp := (allowsSeek_confined D p).mp hallows
        have hsource : (ofSource s).source.allowsSeek p = true := by
          rw [ofSource, Source.allowsSeek]
          cases hlimit : s.seekLimit with
          | none => rfl
          | some limit => exact decide_eq_true (Nat.le_trans hp (hseek limit hlimit))
        rw [seekTo, seekTo, hallows, hsource]
        exact .inl rfl
    | false =>
        have hrefused := (confined D).seekTo_eq p c
        rw [hallows] at hrefused
        exact .inr ⟨.io .sourceSeek, _, hrefused, .inr ⟨_, rfl⟩⟩

namespace File

variable {s : Source} {f : File} {c : Cursor}

/-- Only what stands up to the end of the last load command is read, and only there is gone to. -/
theorem decode_of_faults_behind (hlength : s.reportedLength = s.bytes.size)
    (hchunk : s.chunk ≠ some 0) (h : File.decode (.ofBytes s.bytes.toList) .start = .ok f c)
    (hfail : ∀ n, s.failAt = some n → c.position ≤ n)
    (hseek : ∀ n, s.seekLimit = some n → c.position ≤ n) :
    File.decode (.ofSource s) .start = .ok f c := by
  have hle := (position_le_of_decode h).2
  have hend : (s.bytes.toList.take c.position).length = c.position := by
    rw [List.length_take, Nat.min_eq_left hle]
  have hconfined : File.decode (.confined (s.bytes.toList.take c.position)) .start = .ok f c := by
    have hbeginning := decode_take_append h []
    rw [List.append_nil] at hbeginning
    rw [File.decode_of_agrees (Reader.confined_agrees _), hbeginning]
  have hfollows := File.decode_follows (Reader.confined_follows
    (List.take_prefix c.position s.bytes.toList) hlength hchunk
    (fun n hn => hend.symm ▸ hfail n hn) (fun n hn => hend.symm ▸ hseek n hn))
  rcases hfollows .start with hsame | ⟨e, c', herror, -⟩
  · rw [← hsame, hconfined]
  · rw [hconfined] at herror
    cases herror

/-- A source that does not lie about its length gives the file or the error that its bytes give
without faults, or its own failure is reported. Where its faults lie behind the last load command,
it gives the file. -/
theorem faults_undisguised {s : Source} (hlength : s.reportedLength = s.bytes.size)
    (hchunk : s.chunk ≠ some 0) :
    let faulty := File.decode (.ofSource s) .start
    let faultless := File.decode (.ofBytes s.bytes.toList) .start
    (faulty = faultless ∨ ∃ fault c, faulty = .error (.io fault) c) ∧
      ∀ f c, faultless = .ok f c → (∀ n, s.failAt = some n → c.position ≤ n) →
        (∀ n, s.seekLimit = some n → c.position ≤ n) → faulty = .ok f c := by
  intro faulty faultless
  have hsize : (Reader.ofSource s).length = (Reader.ofBytes s.bytes.toList).length := by
    rw [Reader.length_ofBytes, Array.length_toList]
    exact hlength
  constructor
  · rcases File.decode_follows (Reader.follows_of_length hsize).toFollows .start with
      hsame | ⟨e, c, herror, fault, rfl⟩
    · exact .inl hsame
    · exact .inr ⟨fault, c, herror⟩
  · intro f c h hfail hseek
    exact decode_of_faults_behind hlength hchunk h hfail hseek

theorem faults_undisguised_narrowInWide :
    let s : Source := { bytes := narrowInWideBytes.toArray, chunk := some 3, claim := some 173 }
    let behind : Source := { s with failAt := some 172, seekLimit := some 172 }
    let reading : Source := { s with failAt := some 100 }
    let seeking : Source := { s with seekLimit := some 100 }
    (∃ c, File.decode (.ofSource behind) .start = .ok narrowInWide c) ∧
    (∃ fault c, File.decode (.ofSource reading) .start = .error (.io fault) c) ∧
    ∃ fault c, File.decode (.ofSource seeking) .start = .error (.io fault) c := by
  intro s behind reading seeking
  obtain ⟨c, hdecode, hposition⟩ := decode_narrowInWide
  have hfaultless : File.decode (.ofBytes s.bytes.toList) .start = .ok narrowInWide c := hdecode
  have hlength : s.reportedLength = s.bytes.size := by decide +kernel
  -- A source that gives no file has a fault in its way.
  have hfault : ∀ t : Source, t.reportedLength = t.bytes.size → t.chunk ≠ some 0 →
      t.bytes = s.bytes → result? (File.decode (.ofSource t)) .start = none →
      ∃ fault c, File.decode (.ofSource t) .start = .error (.io fault) c := by
    intro t hlength hchunk hbytes hnone
    rcases (faults_undisguised hlength hchunk).1 with hsame | hfault
    · rw [hbytes, hfaultless] at hsame
      rw [result?, hsame] at hnone
      cases hnone
    · exact hfault
  refine ⟨⟨c, ?_⟩, ?_, ?_⟩
  · apply (faults_undisguised (s := behind) hlength (by decide)).2 narrowInWide c hfaultless
    · intro n hn
      cases hn
      omega
    · intro n hn
      cases hn
      omega
  · exact hfault reading hlength (by decide) rfl (by decide +kernel)
  · exact hfault seeking hlength (by decide) rfl (by decide +kernel)

end File

end MachO
