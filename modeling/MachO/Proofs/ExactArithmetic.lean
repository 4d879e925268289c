import MachO.Proofs.DecodingTrace
import MachO.Proofs.ExtractionSummary
import MachO.Proofs.FaultyExtraction

namespace MachO

/-- The arithmetic of machine words, which wraps around. -/
def Arithmetic.machine : Arithmetic where
  sum m n := .ok (m.toUInt64 + n.toUInt64).toNat
  difference x y := .ok (x - y).toNat

/-- Exact sums and differences, in range. Where a sum starts too far on, or a machine word does not
hold the result, they are refused. -/
def Arithmetic.refusing (farthest : Nat) : Arithmetic where
  sum m n := if m ≤ farthest ∧ m + n < 2 ^ 64 then .ok (m + n) else .error (.io .positionRange)
  difference x y := if y ≤ x then .ok (x.toNat - y.toNat) else .error (.io .positionRange)

namespace Arithmetic

def SumsUpTo (farthest : Nat) (a : Arithmetic) : Prop :=
  ∀ m n, m ≤ farthest → m + n < 2 ^ 64 → a.sum m n = .ok (m + n)

/-- All sums that a machine word holds are exact, and all differences that are not negative. -/
structure InRange (a : Arithmetic) : Prop where
  sum : ∀ m n, m + n < 2 ^ 64 → a.sum m n = .ok (m + n)
  difference : ∀ x y : UInt64, y ≤ x → a.difference x y = .ok (x.toNat - y.toNat)

theorem machine_inRange : machine.InRange where
  sum m n h := by
    have hm : m.toUInt64.toNat = m := Nat.mod_eq_of_lt (by omega)
    have hn : n.toUInt64.toNat = n := Nat.mod_eq_of_lt (by omega)
    show Except.ok (m.toUInt64 + n.toUInt64).toNat = _
    rw [UInt64.toNat_add, hm, hn, Nat.mod_eq_of_lt h]
  difference x y h := congrArg Except.ok (UInt64.toNat_sub_of_le x y h)

theorem checked_inRange : checked.InRange where
  sum _ _ h := if_pos h
  difference _ _ h := if_pos h

theorem refusing_sumsUpTo (farthest : Nat) : (refusing farthest).SumsUpTo farthest :=
  fun _ _ hm hsum => if_pos ⟨hm, hsum⟩

end Arithmetic

/-- From cursors with the one property the scans do the same, and end with the other one. -/
def Scan.AgreesFrom {α : Type} (P : Cursor → Prop) (x y : Scan α) (Q : α → Cursor → Prop) : Prop :=
  ∀ c, P c → x c = y c ∧ ∀ a c', y c = .ok a c' → Q a c'

namespace Scan.AgreesFrom

variable {α β : Type} {P : Cursor → Prop} {Q : α → Cursor → Prop} {R : β → Cursor → Prop}
  {x y : Scan α}

theorem bind {f g : α → Scan β} (hxy : AgreesFrom P x y Q)
    (hfg : ∀ a, AgreesFrom (Q a) (f a) (g a) R) : AgreesFrom P (x >>= f) (y >>= g) R := by
  intro c hc
  obtain ⟨hsame, hend⟩ := hxy c hc
  cases hy : y c with
  | ok a c' =>
      obtain ⟨hrest, hlast⟩ := hfg a c' (hend a c' hy)
      rw [bind_eq_of_ok (hsame.trans hy), bind_eq_of_ok hy]
      exact ⟨hrest, hlast⟩
  | error e c' =>
      rw [bind_eq_of_error (hsame.trans hy), bind_eq_of_error hy]
      exact ⟨rfl, nofun⟩

theorem of_meets (h : x.Meets P Q fun _ => True) : AgreesFrom P x x Q :=
  fun c hc => ⟨rfl, (h c hc).1⟩

theorem of_eq (hxy : x = y) (h : y.Meets P Q fun _ => True) : AgreesFrom P x y Q := by
  rw [hxy]
  exact .of_meets h

theorem assuming {p : Prop} (hxy : p → AgreesFrom P x y Q) :
    AgreesFrom (fun c => p ∧ P c) x y Q :=
  fun c hc => hxy hc.1 c hc.2

theorem replicate {x y : Scan α} (hxy : AgreesFrom P x y fun _ => P) (n : Nat) :
    AgreesFrom P (x.replicate n) (y.replicate n) fun _ => P := by
  induction n with
  | zero => exact .of_meets (.pure fun _ => id)
  | succ n ih => exact hxy.bind fun a => ih.bind fun as => .of_meets (.pure fun _ => id)

end Scan.AgreesFrom

/-- The scan reads `n` bytes and ends among those that there are. -/
def Scan.Lands {α : Type} (size n : Nat) (x : Scan α) : Prop :=
  ∀ p, Meets (·.position = p) x (fun _ c => c.position = p + n ∧ c.position ≤ size) fun _ => True

theorem Scan.Lands.map {α β : Type} {size n : Nat} {x : Scan α} (hx : x.Lands size n) (f : α → β) :
    (do return f (← x) : Scan β).Lands size n :=
  fun p => (hx p).bind fun _ => .pure fun _ => id

theorem Scan.Lands.inside {α : Type} {size n : Nat} {x : Scan α} (hx : x.Lands size n)
    {P : Cursor → Prop} : x.Meets P (fun _ c => c.position ≤ size) fun _ => True :=
  fun c _ => ⟨fun a c' h => ((hx c.position c rfl).1 a c' h).2, fun _ _ _ => trivial⟩

theorem Scan.Meets.unknown {α : Type} (x : Scan α) :
    x.Meets (fun _ => True) (fun _ _ => True) fun _ => True :=
  fun _ _ => ⟨fun _ _ _ => trivial, fun _ _ _ => trivial⟩

namespace Reader

variable {a : Arithmetic} {r : Reader} {size farthest n : Nat}

theorem ensureBy_of_sum {c : Cursor} (hsum : a.sum c.position n = .ok (c.position + n))
    (short : Nat → Nat → Error) : r.ensureBy a n short c = r.ensureBy .exact n short c := by
  show (do
    let stop ← Scan.ofExcept (a.sum c.position n)
    if r.length < stop then throw (short n c.position) : Scan Unit) c.asked = _
  rw [hsum]
  rfl

theorem ensure_eq {c : Cursor} (hsum : c.position + n < 2 ^ 64) (short : Nat → Nat → Error) :
    r.ensure n short c =
      if r.length < c.position + n then .error (short n c.position) c.asked
      else .ok () c.asked :=
  (ensureBy_of_sum (Arithmetic.checked_inRange.sum _ _ hsum) short).trans
    (r.ensureBy_exact_eq n short c)

theorem ensureBy_agrees {P : Cursor → Prop} (ha : a.SumsUpTo farthest)
    (hn : farthest + n < 2 ^ 64) (hP : ∀ c, P c → c.position ≤ farthest)
    (hasked : ∀ c, P c → P c.asked) (short : Nat → Nat → Error) :
    Scan.AgreesFrom P (r.ensureBy a n short) (r.ensureBy .exact n short) fun _ => P := by
  intro c hc
  have hposition := hP c hc
  refine ⟨ensureBy_of_sum (ha _ _ hposition (by omega)) short, ?_⟩
  intro u c' h
  rw [ensureBy_exact_eq] at h
  split at h
  · cases h
  · cases h
    exact hasked c hc

variable (hr : r.source.bytes.size = size)
include hr

theorem bytes_lands (hn : 0 < n) : (r.bytes n).Lands size n := by
  rintro p c rfl
  refine ⟨?_, fun _ _ _ => trivial⟩
  intro bs c' h
  obtain ⟨rfl, hlen, rfl⟩ := bytes_eq_ok h
  rw [length_window, Array.length_toList, hr] at hlen
  rw [Cursor.position_read]
  omega

theorem u32_lands (o : ByteOrder) : (r.u32 o).Lands size 4 := (bytes_lands hr (by decide)).map _

theorem i32_lands (o : ByteOrder) : (r.i32 o).Lands size 4 := (u32_lands hr o).map _

end Reader

section Decoding

variable {a : Arithmetic} {r : Reader} {size : Nat} (hr : r.source.bytes.size = size)
  (o : ByteOrder)
include hr

theorem Header.decodeFields_inside (w : Width) (magic : UInt32) (P : Cursor → Prop) :
    (decodeFields r o w magic).Meets P (fun _ c => c.position ≤ size) fun _ => True := by
  apply (Reader.i32_lands hr o).inside.bind
  intro cpuType
  apply (Reader.i32_lands hr o).inside.bind
  intro cpuSubtype
  apply (Reader.u32_lands hr o).inside.bind
  intro fileType
  apply (Reader.u32_lands hr o).inside.bind
  intro commandCount
  apply (Reader.u32_lands hr o).inside.bind
  intro commandsSize
  apply (Reader.u32_lands hr o).inside.bind
  intro flags
  cases w with
  | bits32 => exact .pure fun _ => id
  | bits64 =>
      have hreserved : (discard (r.u32 o)).Lands size 4 := (Reader.u32_lands hr o).map _
      exact hreserved.inside.bind fun _ => .pure fun _ => id

variable (hsize : size < 2 ^ 63) (ha : a.SumsUpTo (size + 2 ^ 32))
include hsize ha

theorem Command.decodeBy_agrees :
    Scan.AgreesFrom (·.position ≤ size + 2 ^ 32) (decodeBy a r o) (decode r o)
      fun _ c => c.position ≤ size + 2 ^ 32 := by
  rw [decode_eq]
  apply (Reader.ensureBy_agrees ha (by rw [headSize]; omega) (fun _ => id) (fun _ => id) _).bind
  intro _
  apply (Scan.AgreesFrom.of_meets (Scan.position_meets fun _ => id)).bind
  intro start
  apply (Scan.AgreesFrom.of_meets ((Reader.u32_lands hr o start).imp (fun _ h => h.1)
    fun _ _ h => h.1)).bind
  intro kind
  -- The head is read before the size is added, so that the sum starts among the bytes there are.
  apply (Scan.AgreesFrom.of_meets ((Reader.u32_lands hr o (start + 4)).imp (fun _ => id)
    fun _ c h => (⟨by omega, trivial⟩ : start ≤ size ∧ True))).bind
  intro length
  apply Scan.AgreesFrom.assuming
  intro hstart
  have hlength := length.toNat_lt
  have hsum : a.sum start length.toNat = .ok (start + length.toNat) :=
    ha _ _ (by omega) (by omega)
  refine .of_eq ?_ ?_
  · simp only [hsum, Scan.ofExcept, pure_bind]
  apply Scan.Meets.guard fun _ => id
  intro _
  apply Scan.Meets.guard fun _ => id
  intro _
  apply (Scan.Meets.unknown _).bind
  intro _
  apply (Scan.Meets.unknown _).bind
  intro content
  have hseek : (r.seekTo (start + length.toNat)).Meets (fun _ => True)
      (fun _ c => c.position ≤ size + 2 ^ 32) fun _ => True := by
    intro c _
    refine ⟨?_, fun _ _ _ => trivial⟩
    intro u c' h
    rw [Reader.seekTo_eq] at h
    split at h
    · cases h
      show start + length.toNat ≤ size + 2 ^ 32
      omega
    · cases h
  exact hseek.bind fun _ => .pure fun _ => id

theorem Header.decodeBy_agrees (w : Width) (magic : UInt32) :
    Scan.AgreesFrom (·.position ≤ size) (decodeBy a r o w magic) (Header.decode r o w magic)
      fun _ c => c.position ≤ size := by
  have hheader : w.headerSize ≤ 28 := by cases w <;> decide
  exact (Reader.ensureBy_agrees ha (by omega) (fun _ h => Nat.le_add_right_of_le h)
    (fun _ => id) _).bind
    fun _ => .of_meets (decodeFields_inside hr o w magic _)

omit o in
theorem File.decodeBy_agrees :
    Scan.AgreesFrom (·.position = 0) (decodeBy a r) (File.decode r) fun _ _ => True := by
  rw [decode_eq]
  apply (Reader.ensureBy_agrees ha (by rw [magicSize]; omega) (fun _ h => by omega)
    (fun _ => id) _).bind
  intro _
  apply (Scan.AgreesFrom.of_meets (Reader.bytes_lands hr (by decide)).inside).bind
  intro magic
  apply (Scan.AgreesFrom.of_meets (Scan.Meets.ofExcept fun _ _ => trivial)).bind
  intro format
  apply (Header.decodeBy_agrees hr format.order hsize ha format.width format.magic).bind
  intro header
  -- From here on the reader may stand behind the bytes, but never farther than one load command.
  have htell : (Scan.tell (.headerRead format header)).Meets (fun c => c.position ≤ size)
      (fun _ c => c.position ≤ size + 2 ^ 32) fun _ => True := by
    intro c hc
    refine ⟨?_, nofun⟩
    intro u c' h
    rw [Scan.tell_eq_ok_iff.mp h]
    exact Nat.le_add_right_of_le hc
  apply (Scan.AgreesFrom.of_meets htell).bind
  intro _
  apply ((Command.decodeBy_agrees hr format.order hsize ha).replicate _).bind
  intro commands
  exact .of_meets ((Scan.Meets.unknown _).imp (fun _ _ => trivial) fun _ _ => id)

end Decoding

theorem Sink.writeAll_inside {k : Sink} {bytes : List UInt8} {o o' : Output} {u : Unit}
    (hbytes : 0 < bytes.length) (h : k.writeAll bytes o = .ok u o') :
    o.position + bytes.length < 2 ^ 64 := by
  obtain ⟨n, hstores⟩ := k.exists_stores bytes o
  have hbelow := hstores.below
  have hall := (hstores.all u o' h).1
  have hlimit := k.limit.toNat_lt
  omega

section Extraction

variable {a : Arithmetic} {r : Reader} {k : Sink}

theorem Placement.copy_inside {p : Placement} {n : Nat} {t t' : Transfer}
    (hp : p.target.isZero = false) (h : p.copy r k t = .ok n t') : p.offset + n < 2 ^ 64 := by
  obtain ⟨bytes, o, rfl, hlen, hposition, -, hwrite⟩ := exists_writeAll_of_copy hp h
  have hpos := Section.size_pos hp
  have hinside := Sink.writeAll_inside (by omega) hwrite
  rwa [hposition] at hinside

variable (ha : a.InRange)
include ha

theorem Placement.ofOriginBy_eq (origin : UInt64) : ofOriginBy a origin = ofOrigin origin := by
  funext s
  rw [ofOrigin, ofOriginBy, ofOriginBy]
  split
  · rfl
  -- The section does not lie below the origin.
  · rename_i h
    rw [ha.difference _ _ (UInt64.not_lt.mp h)]
    rfl

theorem planBy_eq (commands : List Command) (selection : Selection) :
    planBy a commands selection = plan commands selection := by
  rw [plan, planBy, planBy]
  cases (selection.sectionsIn commands).filter (!·.isZero) with
  | nil => rfl
  | cons s rest =>
      rw [Placement.ofSectionsBy, Placement.ofOriginBy_eq ha]
      rfl

theorem copyAllBy_eq {placements : List Placement}
    (hplacements : ∀ p ∈ placements, p.target.isZero = false) (summary : Summary) :
    copyAllBy a r k placements summary = copyAll r k placements summary := by
  induction placements generalizing summary with
  | nil => rfl
  | cons p rest ih =>
      obtain ⟨hp, hrest⟩ := List.forall_mem_cons.mp hplacements
      funext t
      rw [copyAllBy, copyAll_cons]
      cases hcopy : p.copy r k t with
      | error e t' => rw [bind_eq_of_error hcopy, bind_eq_of_error hcopy]
      | ok n t' =>
          rw [bind_eq_of_ok hcopy, bind_eq_of_ok hcopy,
            ha.sum _ _ (Placement.copy_inside hp hcopy)]
          exact congrFun (ih hrest _) t'

theorem extractBy_eq (commands : List Command) (selection : Selection) :
    extractBy a r k commands selection = extract r k commands selection := by
  rw [extract, extractBy, extractBy, planBy_eq ha]
  show _ = (do
    if selection.isEmpty then throw .emptySelection
    Copying.scan (Scan.tellAll (planEvents commands selection))
    let placements ← Copying.scan (Scan.ofExcept (plan commands selection))
    let skipped := (selection.sectionsIn commands).countP (·.isZero)
    let summary ← copyAll r k placements (.begin placements skipped)
    Copying.writing k.flush
    Copying.scan (Scan.tell (.extracted summary))
    return summary : Copying Summary)
  cases hplan : plan commands selection with
  | error e => rfl
  | ok placements =>
      have hstored : ∀ p ∈ placements, p.target.isZero = false := by
        obtain ⟨-, rfl⟩ := plan_eq_ok_iff.mp hplan
        intro p hp
        obtain ⟨s, hs, rfl⟩ := List.mem_map.mp hp
        exact isZero_of_mem_storedIn hs
      have hplaced : Copying.scan (Scan.ofExcept (.ok placements)) = pure placements := rfl
      simp only [hplaced, pure_bind, copyAllBy_eq ha hstored]

end Extraction

/-- No sum and no difference leaves its range. A file is read the same with any arithmetic that is
right on sums that start at most one load command behind the bytes and stay below the range of
positions, whatever length the source reports and whichever faults it has; and sections are placed
and copied the same with any arithmetic that is right on differences that are not negative and on
such sums, wherever they come from and wherever they go. -/
theorem arithmetic_in_range :
    (∀ r, File.decodeBy .exact r = File.decode r) ∧
    (∀ (s : Source) (a : Arithmetic), s.bytes.size < 2 ^ 63 →
      a.SumsUpTo (s.bytes.size + 2 ^ 32) →
      File.decodeBy a (.ofSource s) .start = File.decode (.ofSource s) .start) ∧
    ∀ a : Arithmetic, a.InRange → ∀ commands selection,
      planBy a commands selection = plan commands selection ∧
      ∀ r k, extractBy a r k commands selection = extract r k commands selection := by
  refine ⟨fun _ => rfl, ?_, ?_⟩
  · intro s a hsize ha
    have hr : (Reader.ofSource s).source.bytes.size = s.bytes.size := rfl
    exact (File.decodeBy_agrees hr hsize ha .start rfl).1
  · intro a ha commands selection
    exact ⟨planBy_eq ha commands selection, fun r k => extractBy_eq ha commands selection⟩

theorem arithmetic_in_range_narrowInWide :
    let s : Source := { bytes := File.narrowInWideBytes.toArray, claim := some (2 ^ 64 - 1) }
    let selection := Selection.empty.withSegment "S"
    File.decodeBy .machine (.ofSource s) .start = File.decode (.ofSource s) .start ∧
    File.decodeBy (.refusing (173 + 2 ^ 32)) (.ofSource s) .start =
      File.decode (.ofSource s) .start ∧
    plan overlapping selection = planBy .machine overlapping selection ∧
    ∀ k, extractBy .machine (.ofSource s) k overlapping selection =
      extract (.ofSource s) k overlapping selection := by
  intro s selection
  have hsize : s.bytes.size = 173 := by decide +kernel
  have hless : s.bytes.size < 2 ^ 63 := by rw [hsize]; decide
  have hmachine := Arithmetic.machine_inRange
  obtain ⟨-, hdecode, hextract⟩ := arithmetic_in_range
  obtain ⟨hplan, hcopied⟩ := hextract .machine hmachine overlapping selection
  have hrefusing := Arithmetic.refusing_sumsUpTo (s.bytes.size + 2 ^ 32)
  refine ⟨hdecode s .machine hless fun m n _ => hmachine.sum m n, ?_, hplan.symm, hcopied _⟩
  rw [← hdecode s _ hless hrefusing, hsize]

end MachO
