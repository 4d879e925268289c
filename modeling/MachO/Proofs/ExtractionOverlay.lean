import MachO.Extraction
import MachO.Proofs.OutputWriting
import MachO.Proofs.RegionReading

/-!
Extraction as an overlay. The selected sections that have bytes in the file are put into the output
one over the other, each as far behind the start as its address lies above that of the first one.
What the output holds in the end is at every position the byte of the last section that covers it,
or what it held before.
-/

namespace MachO

namespace Copying

variable {α : Type} {t t' : Transfer} {a : α}

theorem scan_of_ok {x : Scan α} {c : Cursor} (h : x t.cursor = .ok a c) :
    scan x t = .ok a ⟨c, t.output⟩ := by
  rw [scan, h]

theorem scan_of_error {x : Scan α} {c : Cursor} {e : Error} (h : x t.cursor = .error e c) :
    scan x t = .error e ⟨c, t.output⟩ := by
  rw [scan, h]

theorem writing_of_ok {x : Writing α} {o : Output} (h : x t.output = .ok a o) :
    writing x t = .ok a ⟨t.cursor, o⟩ := by
  rw [writing, h]

theorem writing_of_error {x : Writing α} {o : Output} {f : Fault} (h : x t.output = .error f o) :
    writing x t = .error (.io f) ⟨t.cursor, o⟩ := by
  rw [writing, h]

theorem scan_eq_ok {x : Scan α} (h : scan x t = .ok a t') :
    x t.cursor = .ok a t'.cursor ∧ t'.output = t.output := by
  rw [scan] at h
  cases hx : x t.cursor with
  | ok b c =>
      rw [hx] at h
      cases h
      exact ⟨rfl, rfl⟩
  | error e c =>
      rw [hx] at h
      cases h

theorem writing_eq_ok {x : Writing α} (h : writing x t = .ok a t') :
    x t.output = .ok a t'.output ∧ t'.cursor = t.cursor := by
  rw [writing] at h
  cases hx : x t.output with
  | ok b o =>
      rw [hx] at h
      cases h
      exact ⟨rfl, rfl⟩
  | error f o =>
      rw [hx] at h
      cases h

end Copying

/-- The selected sections that have bytes in the file, in the order of the file. -/
def Selection.storedIn (selection : Selection) (commands : List Command) : List Section :=
  (selection.sectionsIn commands).filter (!·.isZero)

/-- The address that the start of the output stands for: that of the first section. -/
def originOf : List Section → UInt64
  | [] => 0
  | s :: _ => s.address

namespace Section

def offsetFrom (origin : UInt64) (s : Section) : Nat := s.address.toNat - origin.toNat

/-- The section ends before the last byte of the file. -/
def InFile (D : List UInt8) (s : Section) : Prop := s.offset.toNat + s.size.toNat < D.length

/-- The section ends before the last position of an output. -/
def InOutput (origin : UInt64) (s : Section) : Prop :=
  s.offsetFrom origin + s.size.toNat ≤ 2 ^ 64 - 1

instance (D : List UInt8) (s : Section) : Decidable (s.InFile D) :=
  inferInstanceAs (Decidable (_ < _))

instance (origin : UInt64) (s : Section) : Decidable (s.InOutput origin) :=
  inferInstanceAs (Decidable (_ ≤ _))

def covers (origin : UInt64) (x : Nat) (s : Section) : Bool :=
  s.offsetFrom origin ≤ x && x < s.offsetFrom origin + s.size.toNat

def place (origin : UInt64) (s : Section) : Placement := ⟨s.offsetFrom origin, s⟩

def contents (D : List UInt8) (s : Section) : List UInt8 := window D s.offset.toNat s.size.toNat

end Section

def Summary.add (s : Summary) (offset length : Nat) : Summary := s.reaching (offset + length)

def copyAll (r : Reader) (k : Sink) (placements : List Placement) (summary : Summary) :
    Copying Summary :=
  copyAllBy .exact r k placements summary

theorem copyAll_cons (r : Reader) (k : Sink) (p : Placement) (rest : List Placement)
    (summary : Summary) :
    copyAll r k (p :: rest) summary = (do
      let length ← p.copy r k
      copyAll r k rest (summary.add p.offset length)) := rfl

/-- What an output holds after sections were put over each other: at each position the byte of the
last section that covers it. -/
def overlay (D : List UInt8) (origin : UInt64) (earlier : Nat → Option UInt8)
    (sections : List Section) (x : Nat) : Option UInt8 :=
  match sections.reverse.find? (·.covers origin x) with
  | some s => D[s.offset.toNat + (x - s.offsetFrom origin)]?
  | none => earlier x

section Overlay

variable {D : List UInt8} {origin : UInt64} {earlier : Nat → Option UInt8} {s : Section}
  {rest : List Section}

theorem put_contents (h : s.InFile D) :
    put earlier (s.offsetFrom origin) (s.contents D) =
      fun x => if s.covers origin x then D[s.offset.toNat + (x - s.offsetFrom origin)]?
        else earlier x := by
  funext x
  have hlen : (s.contents D).length = s.size.toNat := by
    rw [Section.InFile] at h
    rw [Section.contents, length_window]
    omega
  simp only [put, hlen, Section.covers, Bool.and_eq_true, decide_eq_true_eq]
  split
  · rename_i hx
    rw [Section.contents, window, List.getElem?_take, if_pos (by omega), List.getElem?_drop]
  · rfl

/-- To put a section first is to put the others over what it makes of the output. -/
theorem overlay_cons (h : s.InFile D) :
    overlay D origin earlier (s :: rest) =
      overlay D origin (put earlier (s.offsetFrom origin) (s.contents D)) rest := by
  funext x
  rw [put_contents h, overlay, overlay, List.reverse_cons, List.find?_append]
  cases rest.reverse.find? (·.covers origin x) with
  | some last => rfl
  | none =>
      rw [Option.none_or, List.find?_cons]
      cases s.covers origin x <;> rfl

end Overlay

namespace Placement

variable {D : List UInt8} {k : Sink} {origin : UInt64} {s : Section}

theorem copy_eq (hk : k.Faultless) (hs : s.isZero = false) (hfile : s.InFile D) (origin : UInt64)
    (t : Transfer) :
    ∃ c o, o.position = s.offsetFrom origin ∧ o.image = t.output.image ∧
      (s.place origin).copy (.ofBytes D) k t =
        (do
          Copying.writing (k.writeAll (s.contents D))
          return (s.contents D).length : Copying Nat) ⟨c, o⟩ := by
  obtain ⟨o, hseek, hposition, himage⟩ :=
    Sink.seekTo_of_seekLimit hk.seekLimit t.output (s.offsetFrom origin)
  let begun := t.cursor.visited s.name s.offset.toNat s.size.toNat
  let told := begun.after 0
    [.writeBegun s.label s.name (s.contents D).length (s.offsetFrom origin)]
  have hread : Copying.scan (s.read (.ofBytes D)) t = .ok (s.contents D) ⟨begun, t.output⟩ := by
    rw [s.read_eq_region hs]
    exact Copying.scan_of_ok (Reader.region_ofBytes_of_lt hfile t.cursor)
  have htell : Copying.scan (Scan.tell _) ⟨begun, t.output⟩ = .ok () ⟨told, t.output⟩ :=
    Copying.scan_of_ok (Scan.tell_eq_ok_iff.mpr rfl)
  have hgo : Copying.writing (k.seekTo _) ⟨told, t.output⟩ = .ok () ⟨told, o⟩ :=
    Copying.writing_of_ok hseek
  exact ⟨told, o, hposition, himage,
    (bind_eq_of_ok hread).trans ((bind_eq_of_ok htell).trans (bind_eq_of_ok hgo))⟩

theorem copy_of_inOutput (hk : k.Faultless) (hs : s.isZero = false) (hfile : s.InFile D)
    (houtput : s.InOutput origin) (t : Transfer) :
    ∃ n t', (s.place origin).copy (.ofBytes D) k t = .ok n t' ∧
      t'.output.image.get? = put t.output.image.get? (s.offsetFrom origin) (s.contents D) := by
  obtain ⟨c, o, hposition, himage, hcopy⟩ := copy_eq hk hs hfile origin t
  have hlen : (s.contents D).length ≤ s.size.toNat := by
    rw [Section.contents, length_window]
    exact Nat.min_le_left _ _
  rw [Section.InOutput] at houtput
  have hend : o.position + (s.contents D).length ≤ k.limit.toNat := by
    rw [hk.limit_toNat, hposition]
    omega
  obtain ⟨o', hwrite, hget⟩ := Sink.writeAll_of_le hk.chunk hend
  refine ⟨(s.contents D).length, ⟨c, o'⟩, ?_, ?_⟩
  · rw [hcopy, bind_eq_of_ok (Copying.writing_of_ok hwrite)]
    rfl
  · rw [hget, hposition, himage]

theorem copy_of_not_inOutput (hk : k.Faultless) (hs : s.isZero = false) (hfile : s.InFile D)
    (houtput : ¬ s.InOutput origin) (t : Transfer) :
    ∃ e t', (s.place origin).copy (.ofBytes D) k t = .error e t' := by
  obtain ⟨c, o, hposition, -, hcopy⟩ := copy_eq hk hs hfile origin t
  have hlen : (s.contents D).length = s.size.toNat := by
    rw [Section.InFile] at hfile
    rw [Section.contents, length_window]
    omega
  have hpos := Section.size_pos hs
  rw [Section.InOutput] at houtput
  have hend : k.limit.toNat < o.position + (s.contents D).length := by
    rw [hk.limit_toNat, hposition]
    omega
  obtain ⟨f, o', hwrite⟩ :=
    Sink.writeAll_of_lt hk.chunk (List.ne_nil_of_length_pos (by omega)) hend
  exact ⟨_, _, hcopy.trans (bind_eq_of_error (Copying.writing_of_error hwrite))⟩

theorem copy_of_not_inFile (hs : s.isZero = false) (hfile : ¬ s.InFile D) (origin : UInt64)
    (t : Transfer) :
    ∃ t', (s.place origin).copy (.ofBytes D) k t =
        .error (.outOfRange s.name s.offset.toNat s.size.toNat D.length) t' ∧
      t'.output = t.output := by
  have hread : Copying.scan (s.read (.ofBytes D)) t =
      .error (.outOfRange s.name s.offset.toNat s.size.toNat D.length) t := by
    rw [s.read_eq_region hs]
    exact Copying.scan_of_error (Reader.region_ofBytes_of_le (Nat.not_lt.mp hfile) t.cursor)
  exact ⟨t, bind_eq_of_error hread, rfl⟩

theorem mapM_ofOrigin_eq (origin : UInt64) (sections : List Section) :
    sections.mapM (Placement.ofOrigin origin) =
      match sections.find? (·.address < origin) with
      | some s => .error (.belowOrigin s.name s.address origin)
      | none => .ok (sections.map (·.place origin)) := by
  induction sections with
  | nil => rfl
  | cons s sections ih =>
      rw [List.mapM_cons, Placement.ofOrigin, Placement.ofOriginBy, List.find?_cons, ih]
      rcases Decidable.em (s.address < origin) with h | h
      · simp only [h, if_true, decide_true]
        rfl
      · simp only [h, if_false, decide_false]
        cases sections.find? (·.address < origin) <;> rfl

theorem ofSections_eq (sections : List Section) :
    Placement.ofSections sections =
      sections.mapM (Placement.ofOrigin (originOf sections)) := by
  cases sections <;> rfl

end Placement

section Extraction

variable {r : Reader} {D : List UInt8} {k : Sink} {origin : UInt64} {s : Section}
  {commands : List Command} {selection : Selection}

theorem copyAll_append (hk : k.Faultless) {sections : List Section}
    (h : ∀ s ∈ sections, s.isZero = false ∧ s.InFile D ∧ s.InOutput origin) (summary : Summary)
    (t : Transfer) :
    ∃ summary' t', (∀ rest,
        copyAll (.ofBytes D) k (sections.map (·.place origin) ++ rest) summary t =
          copyAll (.ofBytes D) k rest summary' t') ∧
      t'.output.image.get? = overlay D origin t.output.image.get? sections := by
  induction sections generalizing summary t with
  | nil => exact ⟨summary, t, fun _ => rfl, rfl⟩
  | cons s sections ih =>
      obtain ⟨⟨hs, hfile, houtput⟩, hrest⟩ := List.forall_mem_cons.mp h
      obtain ⟨n, t₁, hcopy, hput⟩ := Placement.copy_of_inOutput (k := k) hk hs hfile houtput t
      obtain ⟨summary', t', hall, himage⟩ := ih hrest (summary.add (s.place origin).offset n) t₁
      refine ⟨summary', t', ?_, ?_⟩
      · intro rest
        rw [← hall rest]
        exact bind_eq_of_ok hcopy
      · rw [himage, hput, overlay_cons hfile]

theorem copyAll_of_misplaced (hk : k.Faultless) (hs : s.isZero = false)
    (h : ¬ (s.InFile D ∧ s.InOutput origin)) (rest : List Placement) (summary : Summary)
    (t : Transfer) :
    ∃ e t', copyAll (.ofBytes D) k (s.place origin :: rest) summary t = .error e t' := by
  rcases Decidable.em (s.InFile D) with hfile | hfile
  · have houtput : ¬ s.InOutput origin := fun houtput => h ⟨hfile, houtput⟩
    obtain ⟨e, t', hcopy⟩ := Placement.copy_of_not_inOutput (k := k) hk hs hfile houtput t
    exact ⟨e, t', bind_eq_of_error hcopy⟩
  · obtain ⟨t', hcopy, -⟩ := Placement.copy_of_not_inFile (k := k) hs hfile origin t
    exact ⟨_, t', bind_eq_of_error hcopy⟩

theorem extract_eq (hselection : selection.isEmpty = false) (t : Transfer) :
    extract r k commands selection t =
      (do
        let placements ← Copying.scan (Scan.ofExcept (plan commands selection))
        let skipped := (selection.sectionsIn commands).countP (·.isZero)
        let summary ← copyAll r k placements (.begin placements skipped)
        Copying.writing k.flush
        Copying.scan (Scan.tell (.extracted summary))
        return summary : Copying Summary)
      ⟨t.cursor.after 0 (planEvents commands selection), t.output⟩ := by
  have htell : Copying.scan (Scan.tellAll (planEvents commands selection)) t =
      .ok () ⟨t.cursor.after 0 (planEvents commands selection), t.output⟩ :=
    Copying.scan_of_ok (Scan.tellAll_eq_ok_iff.mpr rfl)
  rw [extract, extractBy, if_neg (by simp [hselection])]
  exact bind_eq_of_ok htell

theorem extract_of_plan_eq_error (hselection : selection.isEmpty = false) {e : Error}
    (hplan : plan commands selection = .error e) (t : Transfer) :
    ∃ t', extract r k commands selection t = .error e t' := by
  have hfail : ∀ t, Copying.scan (Scan.ofExcept (plan commands selection)) t = .error e t := by
    intro t
    rw [hplan]
    exact Copying.scan_of_error rfl
  rw [extract_eq hselection]
  exact ⟨_, bind_eq_of_error (hfail _)⟩

theorem extract_of_append (hk : k.Faultless) (hselection : selection.isEmpty = false)
    {before : List Section} {rest : List Placement}
    (hplan : plan commands selection = .ok (before.map (·.place origin) ++ rest))
    (hbefore : ∀ s ∈ before, s.isZero = false ∧ s.InFile D ∧ s.InOutput origin) (t : Transfer) :
    ∃ summary t', t'.output.image.get? = overlay D origin t.output.image.get? before ∧
      extract (.ofBytes D) k commands selection t =
        (do
          let summary ← copyAll (.ofBytes D) k rest summary
          Copying.writing k.flush
          Copying.scan (Scan.tell (.extracted summary))
          return summary : Copying Summary) t' := by
  have hplaced : ∀ t, Copying.scan (Scan.ofExcept (plan commands selection)) t =
      .ok (before.map (·.place origin) ++ rest) t := by
    intro t
    exact Copying.scan_of_ok (Scan.ofExcept_eq_ok_iff.mpr ⟨hplan, rfl⟩)
  obtain ⟨summary, t', hcopy, himage⟩ := copyAll_append hk hbefore
    (.begin (before.map (·.place origin) ++ rest)
      ((selection.sectionsIn commands).countP (·.isZero)))
    ⟨t.cursor.after 0 (planEvents commands selection), t.output⟩
  refine ⟨summary, t', himage, ?_⟩
  rw [extract_eq hselection, bind_eq_of_ok (hplaced _)]
  exact bind_eq_of_eq (hcopy rest) _

theorem extract_of_all (hk : k.Faultless) (hselection : selection.isEmpty = false)
    {sections : List Section}
    (hplan : plan commands selection = .ok (sections.map (·.place origin)))
    (h : ∀ s ∈ sections, s.isZero = false ∧ s.InFile D ∧ s.InOutput origin) (t : Transfer) :
    ∃ summary t', extract (.ofBytes D) k commands selection t = .ok summary t' ∧
      t'.output.image.get? = overlay D origin t.output.image.get? sections := by
  rw [← List.append_nil (sections.map _)] at hplan
  obtain ⟨summary, t', himage, hextract⟩ := extract_of_append hk hselection hplan h t
  obtain ⟨o, hflush, hsame⟩ := Sink.flush_of_failsFlush hk.failsFlush t'.output
  have hwritten : Copying.writing k.flush t' = .ok () ⟨t'.cursor, o⟩ :=
    Copying.writing_of_ok hflush
  refine ⟨summary, _, hextract.trans (bind_eq_of_ok hwritten), ?_⟩
  rw [← himage, ← hsame]

theorem plan_eq (commands : List Command) (selection : Selection) :
    plan commands selection =
      match (selection.storedIn commands).find?
        (·.address < originOf (selection.storedIn commands)) with
      | some s =>
          .error (.belowOrigin s.name s.address (originOf (selection.storedIn commands)))
      | none =>
          .ok ((selection.storedIn commands).map
            (·.place (originOf (selection.storedIn commands)))) :=
  (Placement.ofSections_eq _).trans (Placement.mapM_ofOrigin_eq _ _)

theorem plan_eq_ok_iff {placements : List Placement} :
    plan commands selection = .ok placements ↔
      (∀ s ∈ selection.storedIn commands,
        originOf (selection.storedIn commands) ≤ s.address) ∧
      placements = (selection.storedIn commands).map
        (·.place (originOf (selection.storedIn commands))) := by
  rw [plan_eq]
  cases hfind : (selection.storedIn commands).find?
      (·.address < originOf (selection.storedIn commands)) with
  | none =>
      have hall : ∀ s ∈ selection.storedIn commands,
          originOf (selection.storedIn commands) ≤ s.address := by
        intro s hs
        simpa using List.find?_eq_none.mp hfind s hs
      rw [Except.ok.injEq, eq_comm]
      exact ⟨fun h => ⟨hall, h⟩, And.right⟩
  | some s =>
      have hbelow : s.address < originOf (selection.storedIn commands) := by
        simpa using List.find?_some hfind
      have hs := List.mem_of_find?_eq_some hfind
      exact ⟨nofun, fun h => absurd hbelow (UInt64.not_lt.mpr (h.1 s hs))⟩

theorem isZero_of_mem_storedIn (h : s ∈ selection.storedIn commands) :
    s.isZero = false := by
  simpa using (List.mem_filter.mp h).2

theorem extract_of_append_cons (hk : k.Faultless) (hselection : selection.isEmpty = false)
    {before after : List Section}
    (hsections : selection.storedIn commands = before ++ s :: after)
    (horigin : originOf (selection.storedIn commands) = origin)
    (hall : ∀ s ∈ selection.storedIn commands, origin ≤ s.address)
    (hbefore : ∀ s ∈ before, s.InFile D ∧ s.InOutput origin) (t : Transfer) :
    ∃ summary t', t'.output.image.get? = overlay D origin t.output.image.get? before ∧
      extract (.ofBytes D) k commands selection t =
        (do
          let summary ← copyAll (.ofBytes D) k
            (s.place origin :: after.map (·.place origin)) summary
          Copying.writing k.flush
          Copying.scan (Scan.tell (.extracted summary))
          return summary : Copying Summary) t' := by
  subst horigin
  have hplan := plan_eq_ok_iff.mpr ⟨hall, rfl⟩
  rw [hsections, List.map_append, List.map_cons, ← hsections] at hplan
  refine extract_of_append hk hselection hplan (fun x hx => ⟨?_, hbefore x hx⟩) t
  have hmem : x ∈ selection.storedIn commands := by
    rw [hsections]
    exact List.mem_append_left _ hx
  exact isZero_of_mem_storedIn hmem

theorem extract_of_misplaced (hk : k.Faultless) (hselection : selection.isEmpty = false)
    (horigin : originOf (selection.storedIn commands) = origin)
    (h : ¬ ∀ s ∈ selection.storedIn commands,
      origin ≤ s.address ∧ s.InFile D ∧ s.InOutput origin) (t : Transfer) :
    ∃ e t', extract (.ofBytes D) k commands selection t = .error e t' := by
  rcases Classical.em (∀ s ∈ selection.storedIn commands, origin ≤ s.address) with hall | hall
  -- All sections are placed, so that copying starts and ends at the first one that is misplaced.
  · have hsome : (selection.storedIn commands).find?
        (fun s => !decide (s.InFile D ∧ s.InOutput origin)) ≠ none := by
      intro hnone
      rw [List.find?_eq_none] at hnone
      exact h fun s hs => ⟨hall s hs, by simpa using hnone s hs⟩
    obtain ⟨s, hfound⟩ := Option.ne_none_iff_exists'.mp hsome
    obtain ⟨hs, before, after, hsections, hbefore⟩ := List.find?_eq_some_iff_append.mp hfound
    obtain ⟨summary, t', -, hextract⟩ := extract_of_append_cons hk hselection hsections horigin hall
      (fun x hx => by simpa using hbefore x hx) t
    have hzero : s.isZero = false := isZero_of_mem_storedIn (List.mem_of_find?_eq_some hfound)
    have hmisplaced : ¬ (s.InFile D ∧ s.InOutput origin) :=
      of_decide_eq_false (by simpa only [Bool.not_eq_true'] using hs)
    obtain ⟨e, t'', hcopy⟩ := copyAll_of_misplaced hk hzero hmisplaced
      (after.map (·.place origin)) summary t'
    exact ⟨e, t'', hextract.trans (bind_eq_of_error hcopy)⟩
  · cases hplan : plan commands selection with
    | ok placements =>
        subst horigin
        exact absurd (plan_eq_ok_iff.mp hplan).1 hall
    | error e => exact ⟨e, extract_of_plan_eq_error hselection hplan t⟩

/-- Extraction is the overlay of the selected sections that have bytes in the file. It succeeds
exactly when none of them lies below the first one, each ends before the last byte of the file, and
each ends before the last position of the output. If one of them does not end in the file and those
before it have their place, it is reported and the output holds the overlay of those before it. -/
theorem extract_eq_overlay (D : List UInt8) {k : Sink} (hk : k.Faultless)
    (commands : List Command) {selection : Selection} (hselection : selection.isEmpty = false)
    (t : Transfer) :
    let sections := selection.storedIn commands
    let origin := originOf sections
    ((∃ summary t', extract (.ofBytes D) k commands selection t = .ok summary t') ↔
      ∀ s ∈ sections, origin ≤ s.address ∧ s.InFile D ∧ s.InOutput origin) ∧
    (∀ summary t', extract (.ofBytes D) k commands selection t = .ok summary t' →
      ∀ x, t'.output.image.get? x = overlay D origin t.output.image.get? sections x) ∧
    ∀ before s after, sections = before ++ s :: after → (∀ s ∈ sections, origin ≤ s.address) →
      (∀ s ∈ before, s.InFile D ∧ s.InOutput origin) → ¬ s.InFile D →
      ∃ t', extract (.ofBytes D) k commands selection t =
          .error (.outOfRange s.name s.offset.toNat s.size.toNat D.length) t' ∧
        ∀ x, t'.output.image.get? x = overlay D origin t.output.image.get? before x := by
  intro sections origin
  have hok : (∀ s ∈ sections, origin ≤ s.address ∧ s.InFile D ∧ s.InOutput origin) →
      ∃ summary t', extract (.ofBytes D) k commands selection t = .ok summary t' ∧
        t'.output.image.get? = overlay D origin t.output.image.get? sections := fun h =>
    extract_of_all hk hselection (plan_eq_ok_iff.mpr ⟨fun s hs => (h s hs).1, rfl⟩)
      (fun s hs => ⟨isZero_of_mem_storedIn hs, (h s hs).2⟩) t
  have hplaced : ∀ summary t', extract (.ofBytes D) k commands selection t = .ok summary t' →
      ∀ s ∈ sections, origin ≤ s.address ∧ s.InFile D ∧ s.InOutput origin := by
    intro summary t' hextract
    rcases Classical.em (∀ s ∈ sections, origin ≤ s.address ∧ s.InFile D ∧ s.InOutput origin)
      with h | h
    · exact h
    · obtain ⟨e, t'', herror⟩ := extract_of_misplaced hk hselection rfl h t
      rw [hextract] at herror
      cases herror
  refine ⟨⟨?_, ?_⟩, ?_, ?_⟩
  · rintro ⟨summary, t', hextract⟩
    exact hplaced summary t' hextract
  · intro h
    obtain ⟨summary, t', hextract, -⟩ := hok h
    exact ⟨summary, t', hextract⟩
  · intro summary t' hextract x
    obtain ⟨_, _, hextract', himage⟩ := hok (hplaced summary t' hextract)
    rw [hextract] at hextract'
    cases hextract'
    exact congrFun himage x
  · intro before s after hsections hall hbefore hfile
    obtain ⟨summary, t₁, himage, hextract⟩ :=
      extract_of_append_cons hk hselection hsections rfl hall hbefore t
    have hmem : s ∈ selection.storedIn commands := by
      change s ∈ sections
      rw [hsections]
      exact List.mem_append_right _ List.mem_cons_self
    obtain ⟨t', hcopy, hsame⟩ :=
      Placement.copy_of_not_inFile (k := k) (isZero_of_mem_storedIn hmem) hfile origin t₁
    refine ⟨t', hextract.trans (bind_eq_of_error (bind_eq_of_error hcopy)), ?_⟩
    intro x
    rw [hsame]
    exact congrFun himage x

/-- Two sections that overlap, and one between them that has no bytes in the file. -/
def overlapping : List Command :=
  let first : Section := ⟨"a", "S", 100, 4, 0, 0, 0, 0, ⟨0⟩, 0, 0, 0⟩
  let zeros : Section := ⟨"z", "S", 7, 9, 3, 0, 0, 0, ⟨1⟩, 0, 0, 0⟩
  let second : Section := ⟨"b", "S", 102, 4, 5, 0, 0, 0, ⟨0⟩, 0, 0, 0⟩
  [⟨.other 2 8, 8⟩,
    ⟨.segment .bits64 ⟨"S", 0, 0, 0, 0, 0, 0, 3, ⟨0⟩, [first, zeros, second]⟩, 312⟩]

theorem extract_overlapping :
    let earlier := Image.ofBytes (List.replicate 8 0xEE)
    ∃ summary t', extract (.ofBytes [10, 11, 12, 13, 14, 15, 16, 17, 18, 19]) {} overlapping
        (Selection.empty.withSegment "S") ⟨.start, .ofImage earlier⟩ = .ok summary t' ∧
      (List.range 9).map t'.output.image.get? = [some 10, some 11, some 15, some 16, some 17,
        some 18, some 0xEE, some 0xEE, none] := by
  intro earlier
  have hk : ({} : Sink).Faultless := by decide
  have hselection : (Selection.empty.withSegment "S").isEmpty = false := by decide
  obtain ⟨hiff, himage, -⟩ := extract_eq_overlay [10, 11, 12, 13, 14, 15, 16, 17, 18, 19] hk
    overlapping hselection ⟨.start, .ofImage earlier⟩
  obtain ⟨summary, t', hextract⟩ := hiff.mpr (by decide)
  refine ⟨summary, t', hextract, ?_⟩
  rw [List.map_congr_left fun x _ => himage summary t' hextract x]
  decide

end Extraction

end MachO
