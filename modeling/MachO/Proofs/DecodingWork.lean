import MachO.Proofs.DecodingTrace

namespace MachO

def Event.isCommandBegun : Event → Bool
  | .commandBegun .. => true
  | _ => false

def Event.isSectionRead : Event → Bool
  | .sectionRead .. => true
  | _ => false

theorem Cursor.spent_eq (c : Cursor) :
    c.spent = 8 * c.events.toList.countP Event.isCommandBegun
      + 68 * c.events.toList.countP Event.isSectionRead := by
  rw [spent]
  induction c.events.toList with
  | nil => rfl
  | cons e rest ih =>
      rw [List.map_cons, List.sum_cons, ih, List.countP_cons, List.countP_cons]
      cases e <;> simp [Event.price, Event.isCommandBegun, Event.isSectionRead, Command.headSize,
        Width.sectionSize] <;> omega

section Sizes

variable {r : Reader} {o : ByteOrder} {c c' : Cursor}

theorem Command.fits_of_decodeBody {id size : UInt32} {content : LoadCommand}
    (hsize : headSize ≤ size.toNat) (h : decodeBody r o id size c = .ok content c') :
    content.Fits size.toNat := by
  have halike : r.ReadsAlike Error.IsFault Eq (.ofBytes r.source.bytes.toList) :=
    ⟨fun n hn => .of_follows (Reader.bytes_follows_ofBytes fun _ =>
        Reader.le_capacity_of_le_objectLimit hn),
      fun _ _ events hcd => congrArg (·.after 0 events) hcd⟩
  rcases Scan.Follows.of_tracks (decodeBody_alike halike o id size) c with hsame | ⟨e, d, hfault, -⟩
  · rw [h] at hsame
    exact ((decodeBody_eq_ok_iff hsize).mp hsame.symm).2.1
  · rw [h] at hfault
    cases hfault

theorem Command.fits_of_decode {command : Command} (h : Command.decode r o c = .ok command c') :
    command.Fits ∧ c'.position = c.position + command.size := by
  rw [decode_eq] at h
  obtain ⟨_, c₁, hensure, h⟩ := bind_eq_ok_iff.mp h
  obtain ⟨start, c₂, hstart, h⟩ := bind_eq_ok_iff.mp h
  obtain ⟨id, c₃, -, h⟩ := bind_eq_ok_iff.mp h
  obtain ⟨size, c₄, -, h⟩ := bind_eq_ok_iff.mp h
  obtain ⟨-, h⟩ := ite_throw_eq_ok_iff.mp h
  obtain ⟨hsize, h⟩ := ite_throw_eq_ok_iff.mp h
  obtain ⟨_, c₅, -, h⟩ := bind_eq_ok_iff.mp h
  obtain ⟨content, c₆, hbody, h⟩ := bind_eq_ok_iff.mp h
  obtain ⟨_, c₇, hseek, h⟩ := bind_eq_ok_iff.mp h
  obtain ⟨rfl, rfl⟩ := pure_eq_ok_iff.mp h
  have hfits := fits_of_decodeBody (Nat.not_lt.mp hsize) hbody
  refine ⟨⟨Nat.not_lt.mp hsize, size.toNat_lt, hfits⟩, ?_⟩
  rw [Reader.ensureBy_exact_eq] at hensure
  rw [Reader.seekTo_eq] at hseek
  obtain ⟨rfl, -⟩ := Scan.position_eq_ok_iff.mp hstart
  split at hensure
  · cases hensure
  · cases hensure
    split at hseek
    · cases hseek
      rfl
    · cases hseek

theorem Command.fits_of_replicate {n : Nat} {commands : List Command}
    (h : (Command.decode r o).replicate n c = .ok commands c') :
    (∀ command ∈ commands, command.Fits) ∧ c'.position = c.position + totalSize commands := by
  induction n generalizing c c' commands with
  | zero =>
      obtain ⟨rfl, rfl⟩ := pure_eq_ok_iff.mp h
      exact ⟨nofun, rfl⟩
  | succ n ih =>
      obtain ⟨command, c₁, hfirst, h⟩ := bind_eq_ok_iff.mp h
      obtain ⟨rest, c₂, hothers, h⟩ := bind_eq_ok_iff.mp h
      obtain ⟨rfl, rfl⟩ := pure_eq_ok_iff.mp h
      obtain ⟨hcommand, hnext⟩ := fits_of_decode hfirst
      obtain ⟨hrest, hlast⟩ := ih hothers
      refine ⟨List.forall_mem_cons.mpr ⟨hcommand, hrest⟩, ?_⟩
      rw [hlast, hnext, totalSize, Nat.add_assoc]

theorem File.fits_of_decode {f : File} (h : File.decode r .start = .ok f c') :
    (∀ command ∈ f.commands, command.Fits) ∧ c'.position = f.extent := by
  rw [decode_eq_bind] at h
  obtain ⟨⟨format, header⟩, c₁, hhead, h⟩ := bind_eq_ok_iff.mp h
  obtain ⟨commands, c₂, hcommands, h⟩ := bind_eq_ok_iff.mp h
  obtain ⟨_, c₃, htold, h⟩ := bind_eq_ok_iff.mp h
  obtain ⟨rfl, rfl⟩ := pure_eq_ok_iff.mp h
  obtain rfl := Scan.tell_eq_ok_iff.mp htold
  obtain ⟨hfits, hend⟩ := Command.fits_of_replicate hcommands
  have hstart := ((decodeHead_standing r .start (.start r)).1 _ c₁ hhead).position
  refine ⟨hfits, ?_⟩
  rw [Cursor.position_after, hend, hstart]
  rfl

end Sizes

/-- The bytes of the head of a load command and of what is read of its body. -/
def LoadCommand.structureSize : LoadCommand → Nat
  | .segment w g => Command.headSize + (w.segmentSize + g.sections.length * w.sectionSize)
  | .other .. => Command.headSize

theorem Command.structureSize_le {command : Command} (h : command.Fits) :
    command.content.structureSize ≤ command.size := by
  have hge := h.size_ge
  have hcontent := h.content
  cases hc : command.content with
  | segment w g =>
      rw [hc] at hcontent
      exact hcontent.2
  | other id declared => exact hge

theorem Command.sum_structureSize_le {commands : List Command}
    (h : ∀ command ∈ commands, command.Fits) :
    (commands.map (·.content.structureSize)).sum ≤ totalSize commands := by
  induction commands with
  | nil => exact Nat.le_refl 0
  | cons command rest ih =>
      obtain ⟨hcommand, hrest⟩ := List.forall_mem_cons.mp h
      exact Nat.add_le_add (structureSize_le hcommand) (ih hrest)

/-- However many load commands and sections are announced, and whatever length the source reports,
no more of them are begun and read than the bytes allow, also when the file cannot be read. Where it
is read, its load commands, segments and sections lie between the header and where the reader is
left. -/
theorem File.work_le_bytes (s : Source) :
    let c := stateAfter (File.decode (.ofSource s)) .start
    8 * c.events.toList.countP Event.isCommandBegun
        + 68 * c.events.toList.countP Event.isSectionRead ≤ s.bytes.size ∧
      ∀ f c', File.decode (.ofSource s) .start = .ok f c' →
        headSize f.format.width + (f.commands.map (·.content.structureSize)).sum ≤ c'.position := by
  intro c
  constructor
  · rw [← c.spent_eq]
    exact (stopped_decode (.ofSource s)).paid
  · intro f c' h
    obtain ⟨hfits, hend⟩ := fits_of_decode h
    rw [hend, extent]
    exact Nat.add_le_add_left (Command.sum_structureSize_le hfits) _

theorem File.work_le_bytes_narrowInWide :
    let s : Source := { bytes := narrowInWideBytes.toArray, claim := some 1000 }
    let crowded : Source := { s with bytes := (narrowInWideBytes.set 80 0xFF).toArray }
    (∃ c, File.decode (.ofSource s) .start = .ok narrowInWide c ∧
      headSize .bits64 + (narrowInWide.commands.map (·.content.structureSize)).sum ≤ c.position) ∧
    ∃ c, File.decode (.ofSource crowded) .start = .error (.shortSection 68 4) c ∧
      8 * c.events.toList.countP Event.isCommandBegun
        + 68 * c.events.toList.countP Event.isSectionRead ≤ crowded.bytes.size := by
  intro s crowded
  have hread : result? (File.decode (.ofSource s)) .start = some narrowInWide := by decide +kernel
  have hrefused : failure? (File.decode (.ofSource crowded)) .start =
      some (.shortSection 68 4) := by decide +kernel
  obtain ⟨c, hok⟩ := exists_of_result? hread
  obtain ⟨c', herror⟩ := exists_of_failure? hrefused
  have hwork := (work_le_bytes crowded).1
  rw [stateAfter_of_error herror] at hwork
  exact ⟨⟨c, hok, (work_le_bytes s).2 narrowInWide c hok⟩, c', herror, hwork⟩

end MachO
