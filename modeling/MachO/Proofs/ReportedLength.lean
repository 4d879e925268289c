import MachO.Proofs.Flaws
import MachO.Proofs.SessionComparison

namespace MachO

/-- The source of some bytes that reports a length, be it theirs or not. -/
def Source.reporting (D : List UInt8) (length : Nat) : Source :=
  { bytes := D.toArray, claim := some length }

section Shown

variable {D : List UInt8} {s : Source}

theorem Reader.capacity_of_shows (hs : s.Shows D) :
    (⟨s, D.length⟩ : Reader).capacity = (ofBytes D).capacity := by
  have hlength := length_ofBytes D
  have hsize : s.bytes.toList.length = s.bytes.size := Array.length_toList
  have hprefix := hs.bytes.length_le
  show max objectLimit (min D.length s.bytes.size) =
    max objectLimit (min (ofBytes D).length D.length)
  omega

theorem Reader.region_of_shows (hs : s.Shows D) (name : String) (offset size : Nat) :
    (⟨s, D.length⟩ : Reader).region name offset size = (ofBytes D).region name offset size := by
  funext c
  rw [region_of_seekLimit hs.seekLimit, region_of_seekLimit rfl, length_ofBytes,
    capacity_of_shows hs]
  split
  · rfl
  · rename_i hlt
    have hself : (Source.ofBytes D).Shows D := ⟨List.prefix_rfl, nofun, nofun, rfl⟩
    have hinside : offset + size ≤ D.length := Nat.le_of_lt (Nat.not_le.mp hlt)
    have hread : s.readExact offset size = (ofBytes D).source.readExact offset size :=
      (hs.readExact hinside).trans (hself.readExact hinside).symm
    rw [hread]

theorem Comparison.ofShows (hs : s.Shows D) (k : Sink) :
    Comparison (fun _ => False) Eq Eq ⟨s, D.length⟩ (.ofBytes D) k k := by
  apply Comparison.ofFollows (Reader.length_ofBytes D).symm ?_ (fun _ _ => .of_eq rfl) (.of_eq rfl)
  intro name offset size
  rw [Reader.region_of_shows hs]
  exact .refl _

theorem extractFile_of_shows (hs : s.Shows D) (k : Sink) (selection : Selection) (o : Output) :
    extractFile ⟨s, D.length⟩ k selection ⟨.start, o⟩ =
      extractFile (.ofBytes D) k selection ⟨.start, o⟩ := by
  have hextract : ∀ file : File, extract ⟨s, D.length⟩ k file.commands selection =
      extract (.ofBytes D) k file.commands selection := by
    intro file
    funext t
    obtain ⟨hsame, hrelated⟩ :=
      ((Comparison.ofShows hs k).extract file.commands selection).same (s := t) ⟨rfl, rfl⟩
    exact eq_of_outcome hsame hrelated.eq
  have hsame := File.decode_of_shows hs
  cases hselection : selection.isEmpty with
  | true => rw [extractFile_of_isEmpty hselection, extractFile_of_isEmpty hselection]
  | false =>
      cases hdecode : File.decode (.ofBytes D) .start with
      | ok file c =>
          rw [extractFile_of_decode_ok hselection (hsame.trans hdecode),
            extractFile_of_decode_ok hselection hdecode, hextract]
      | error e c =>
          rw [extractFile_of_decode_error hselection (hsame.trans hdecode),
            extractFile_of_decode_error hselection hdecode]

theorem Session.performAll_of_shows (hs : s.Shows D) (k : Sink) (session : Session)
    {steps : List Step} (hsteps : ∀ step ∈ steps, step.rests = true) :
    session.performAll ⟨s, D.length⟩ k steps = session.performAll (.ofBytes D) k steps := by
  have hcomparison := Comparison.ofShows hs k
  have hstart : session.Related Eq Eq session := ⟨rfl, rfl, rfl⟩
  obtain ⟨hsame, hrelated⟩ := hstart.performAll hcomparison.position
    fun step hstep file => hcomparison.work (fun _ => False.elim) file (hsteps step hstep)
  exact Prod.ext hsame hrelated.eq

end Shown

section Reporting

variable {D filler : List UInt8} {length : Nat}

theorem Source.reporting_shows (D : List UInt8) (length : Nat) :
    (reporting D length).Shows (D.take length) :=
  ⟨List.take_prefix length D, nofun, nofun, rfl⟩

theorem Reader.reporting_eq (h : length ≤ D.length) :
    ofSource (.reporting D length) = ⟨.reporting D length, (D.take length).length⟩ := by
  rw [List.length_take, Nat.min_eq_left h]
  rfl

/-- Where bytes are missing they cannot be filled in: whatever they may be, a reader of all of them
gives the same until a read meets the end, or is refused the room that all of them would have. -/
theorem Reader.bytes_reporting (h : length = D.length + filler.length) (n : Nat) (c : Cursor) :
    let r := ofSource (.reporting D length)
    let r' := ofBytes (D ++ filler)
    r.bytes n c = r'.bytes n c ∨
      ∃ e c', r.bytes n c = .error e c' ∧
        (e = .io .endOfSource ∨ r.capacity < n ∧ n ≤ r'.capacity ∧ e = .panic .capacity) := by
  intro r r'
  have hshows : (Source.ofBytes (D ++ filler)).Shows D :=
    ⟨List.prefix_append D filler, nofun, nofun, rfl⟩
  have hreported : (Source.reporting D length).Shows D := ⟨List.prefix_rfl, nofun, nofun, rfl⟩
  have hlonger : r.capacity ≤ r'.capacity := by
    have hlength := length_ofBytes (D ++ filler)
    rw [List.length_append] at hlength
    show max objectLimit (min length D.length) ≤
      max objectLimit (min (ofBytes (D ++ filler)).length (D ++ filler).length)
    rw [List.length_append]
    omega
  rcases Nat.lt_or_ge r.capacity n with hnone | hroom
  · rcases Nat.lt_or_ge r'.capacity n with hnone' | hroom'
    · exact .inl ((bytes_of_capacity_lt hnone c).trans (bytes_of_capacity_lt hnone' c).symm)
    · exact .inr ⟨_, _, bytes_of_capacity_lt hnone c, .inr ⟨hnone, hroom', rfl⟩⟩
  have hroom' := Nat.le_trans hroom hlonger
  rcases Nat.eq_zero_or_pos n with rfl | hn
  · exact .inl ((bytes_of_got hroom (Source.readExact_zero ..) rfl).trans
      (bytes_of_got hroom' (Source.readExact_zero ..) rfl).symm)
  rcases Nat.lt_or_ge D.length (c.position + n) with hlt | hge
  · have hread : (Source.reporting D length).readExact c.position n =
        (Source.ofBytes D).readExact c.position n := by
      rw [Source.readExact_ofBytes, Source.readExact_eq (s := .reporting D length) nofun]
      rfl
    rw [Source.readExact_ofBytes, if_neg (mt (length_window_eq_iff hn).mp (Nat.not_le.mpr hlt))]
      at hread
    exact .inr ⟨_, _, bytes_of_fault hroom hread, .inl rfl⟩
  · exact .inl ((bytes_of_shows hreported hroom hge).trans (bytes_of_shows hshows hroom' hge).symm)

theorem Reader.length_reporting (h : length = D.length + filler.length) :
    (ofSource (.reporting D length)).length = (ofBytes (D ++ filler)).length := by
  rw [length_ofBytes, List.length_append]
  exact h

theorem Reader.reporting_follows (h : length = D.length + filler.length) :
    (ofSource (.reporting D length)).Follows (· = .io .endOfSource) (ofBytes (D ++ filler)) where
  bytes n hn c := by
    rcases bytes_reporting h n c with hsame | ⟨e, c', herror, he⟩
    · exact .inl hsame
    · refine .inr ⟨e, c', herror, he.resolve_right ?_⟩
      rintro ⟨hnone, -, -⟩
      exact absurd (le_capacity_of_le_objectLimit hn) (Nat.not_le.mpr hnone)
  seekTo _ := .refl _
  length_le := Nat.le_of_eq (length_reporting h)
  short hne := absurd (length_reporting h) hne

/-- A byte is missing, or there is no room for bytes that are reported and cannot be there. -/
def Error.IsLack (length : Nat) (e : Error) : Prop :=
  e = .io .endOfSource ∨ 2 ^ 63 ≤ length ∧ e = .panic .capacity

theorem Reader.reporting_followsWholly (h : length = D.length + filler.length) :
    (ofSource (.reporting D length)).FollowsWholly (Error.IsLack length)
      (ofBytes (D ++ filler)) := by
  have hall : ∀ n, ((ofSource (.reporting D length)).bytes n).Follows (Error.IsLack length)
      ((ofBytes (D ++ filler)).bytes n) := by
    intro n c
    rcases bytes_reporting h n c with hsame | ⟨e, c', herror, he⟩
    · exact .inl hsame
    · refine .inr ⟨e, c', herror, he.imp_right ?_⟩
      rintro ⟨hnone, hroom, rfl⟩
      refine ⟨?_, rfl⟩
      have hlimit : (ofSource (.reporting D length)).capacity ≥ objectLimit := Nat.le_max_left ..
      have hlength := length_reporting h
      have hreported : (ofSource (.reporting D length)).length = length := rfl
      rw [capacity, ← hlength, hreported] at hroom
      have hbound : objectLimit + 1 = 2 ^ 63 := rfl
      omega
  refine ⟨⟨fun n _ => hall n, fun _ => .refl _, Nat.le_of_eq (length_reporting h),
    fun hne => absurd (length_reporting h) hne⟩, length_reporting h, hall, ?_⟩
  intro p hrefused
  cases hrefused

theorem Comparison.reporting (h : length = D.length + filler.length) (k : Sink) :
    Comparison (Error.IsLack length) Eq Eq (.ofSource (.reporting D length))
      (.ofBytes (D ++ filler)) k k := by
  have hfollows := Reader.reporting_followsWholly h
  exact .ofFollows hfollows.length hfollows.region (fun _ _ => .of_eq rfl) (.of_eq rfl)

end Reporting

/-- Only the bytes before the measured length have a part in what a reader gives. Where too few are
reported, files, extractions and sessions are those of these bytes alone, with every error, position
and image. Where too many are reported, a file or an extraction fails because a byte is missing, or
it is the one of the longer bytes, whatever is filled in for the missing ones; only if more are
reported than an object has may an extraction also break off for want of room. -/
theorem reported_length_binds (D : List UInt8) (length : Nat) (k : Sink) :
    let r := Reader.ofSource (.reporting D length)
    (length ≤ D.length →
      let honest := Reader.ofBytes (D.take length)
      File.decode r .start = File.decode honest .start ∧
      (∀ selection o, extractFile r k selection ⟨.start, o⟩ =
        extractFile honest k selection ⟨.start, o⟩) ∧
      ∀ (session : Session) steps, (∀ step ∈ steps, step.rests = true) →
        session.performAll r k steps = session.performAll honest k steps) ∧
    (D.length < length →
      ((∃ c, File.decode r .start = .error (.io .endOfSource) c) ∨
        ∀ filler, filler.length = length - D.length →
          File.decode r .start = File.decode (.ofBytes (D ++ filler)) .start) ∧
      ∀ selection o,
        (∃ t, extractFile r k selection ⟨.start, o⟩ = .error (.io .endOfSource) t) ∨
        (2 ^ 63 ≤ length ∧
          ∃ t, extractFile r k selection ⟨.start, o⟩ = .error (.panic .capacity) t) ∨
        ∀ filler, filler.length = length - D.length →
          extractFile r k selection ⟨.start, o⟩ =
            extractFile (.ofBytes (D ++ filler)) k selection ⟨.start, o⟩) := by
  intro r
  constructor
  · intro hle honest
    have hshows := Source.reporting_shows D length
    have hr : r = ⟨.reporting D length, (D.take length).length⟩ := Reader.reporting_eq hle
    rw [hr]
    refine ⟨File.decode_of_shows hshows, ?_, ?_⟩
    · intro selection o
      exact extractFile_of_shows hshows k selection o
    · intro session steps hsteps
      exact Session.performAll_of_shows hshows k session hsteps
  · intro hlt
    have hsum : ∀ filler : List UInt8, filler.length = length - D.length →
        length = D.length + filler.length := by omega
    constructor
    · by_cases hfault : ∃ c, File.decode r .start = .error (.io .endOfSource) c
      · exact .inl hfault
      · refine .inr fun filler hfiller => ?_
        have hfollows := File.decode_follows (Reader.reporting_follows (hsum filler hfiller))
        rcases hfollows .start with hsame | ⟨e, c, herror, rfl⟩
        · exact hsame
        · exact absurd ⟨c, herror⟩ hfault
    · intro selection o
      by_cases hlack : ∃ e, outcome (extractFile r k selection) ⟨.start, o⟩ = .error e ∧
          Error.IsLack length e
      · obtain ⟨e, herror, rfl | ⟨hlength, rfl⟩⟩ := hlack
        · exact .inl (exists_of_outcome_error herror)
        · exact .inr (.inl ⟨hlength, exists_of_outcome_error herror⟩)
      · refine .inr (.inr fun filler hfiller => ?_)
        have hlonger := hsum filler hfiller
        have hdecode := File.decode_follows (Reader.reporting_followsWholly hlonger).toFollows
        have hextract :=
          (Comparison.reporting hlonger k).extractFile (.of_follows hdecode) selection
        rcases hextract ⟨.start, o⟩ ⟨.start, o⟩ ⟨rfl, rfl⟩ with
          ⟨hsame, hrelated⟩ | hexcused
        · exact eq_of_outcome hsame hrelated.eq
        · exact absurd hexcused hlack

theorem reported_length_binds_narrowInWide :
    let D := File.narrowInWideBytes
    let selection := Selection.empty.withSegment "__TEXT"
    let start : Transfer := ⟨.start, .empty⟩
    let opened : Session := ⟨File.narrowInWide, ⟨⟨172, #[], #[]⟩, .empty⟩⟩
    (∃ c, File.decode (.ofSource (.reporting D 172)) .start = .ok File.narrowInWide c) ∧
    (opened.performAll (.ofSource (.reporting D 172)) {}
        [.probe (.region "end" 170 2), .readSection none "__text"]).1 =
      [⟨.error (.outOfRange "end" 170 2 172), 172⟩, ⟨.ok (.bytes [128, 0, 0, 0]), 172⟩] ∧
    (∃ c, File.decode (.ofSource (.reporting (D.take 100) 173)) .start =
      .error (.io .endOfSource) c) ∧
    ∀ filler, filler.length = 200 - D.length →
      extractFile (.ofSource (.reporting D 200)) {} selection start =
        extractFile (.ofBytes (D ++ filler)) {} selection start := by
  intro D selection start opened
  have hlength : D.length = 173 := by decide +kernel
  refine ⟨?_, ?_, ?_, ?_⟩
  · obtain ⟨hdecode, -, -⟩ := (reported_length_binds D 172 {}).1 (by omega)
    have hhonest : result? (File.decode (.ofBytes (D.take 172))) .start =
        some File.narrowInWide := by decide +kernel
    rw [hdecode]
    exact exists_of_result? hhonest
  · obtain ⟨-, -, hperform⟩ := (reported_length_binds D 172 {}).1 (by omega)
    rw [hperform opened _ (by decide)]
    decide +kernel
  · have hshort : (D.take 100).length < 173 := by
      rw [List.length_take]
      omega
    obtain ⟨hfault | hfilled, -⟩ := (reported_length_binds (D.take 100) 173 {}).2 hshort
    · exact hfault
    -- The missing bytes decide which file it is, so no result fits all of them.
    · have hzeros := hfilled (List.replicate 73 0) (by simp [hlength])
      have hrest := hfilled (D.drop 100) (by simp [hlength])
      have hfile : result? (File.decode (.ofBytes (D.take 100 ++ D.drop 100))) .start =
          some File.narrowInWide := by decide +kernel
      have hother : result? (File.decode (.ofBytes (D.take 100 ++ List.replicate 73 0))) .start ≠
          some File.narrowInWide := by decide +kernel
      rw [result?, ← hzeros, hrest] at hother
      rw [result?] at hfile
      exact absurd hfile hother
  · obtain ⟨-, hextracted⟩ := (reported_length_binds D 200 {}).2 (by omega)
    have hresult : result? (extractFile (.ofSource (.reporting D 200)) {} selection) start =
        some ⟨some 0x1000, 1, 0, 4⟩ := by decide +kernel
    obtain ⟨t, hok⟩ := exists_of_result? hresult
    have hsame := hextracted selection .empty
    rw [hok] at hsame
    obtain ⟨u, herror⟩ | ⟨-, u, herror⟩ | hsame := hsame
    · cases herror
    · cases herror
    · rwa [hok]

end MachO
