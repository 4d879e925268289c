import Mathlib.Order.Bounds.Defs
import MachO.Sink

namespace MachO

namespace Image

theorem glue_of_isEmpty {r : Run} (h : r.bytes.isEmpty) (runs : List Run) : glue r runs = runs := by
  cases runs with
  | nil => rw [glue, if_pos h]
  | cons s rest => rw [glue, if_pos h]

theorem glue_cons_of_touching {r s : Run} (hr : ¬ r.bytes.isEmpty) (h : r.stop = s.start)
    (rest : List Run) : glue r (s :: rest) = ⟨r.start, r.bytes ++ s.bytes⟩ :: rest := by
  rw [glue, if_neg hr, if_pos h]

theorem glue_cons_of_apart {r s : Run} (hr : ¬ r.bytes.isEmpty) (h : r.stop ≠ s.start)
    (rest : List Run) : glue r (s :: rest) = r :: s :: rest := by
  rw [glue, if_neg hr, if_neg h]

theorem glue_glue {r s : Run} (h : r.stop = s.start) (runs : List Run) :
    glue r (glue s runs) = glue ⟨r.start, r.bytes ++ s.bytes⟩ runs := by
  rcases Decidable.em (s.bytes.isEmpty = true) with hs | hs
  · rw [glue_of_isEmpty hs, List.isEmpty_iff.mp hs, List.append_nil]
  rcases Decidable.em (r.bytes.isEmpty = true) with hr | hr
  · rw [List.isEmpty_iff] at hr
    have hstart : r.start = s.start := by
      rw [← h, Run.stop, hr]
      rfl
    rw [glue_of_isEmpty (List.isEmpty_iff.mpr hr), hr, List.nil_append, hstart]
  have hboth : ¬ (r.bytes ++ s.bytes).isEmpty = true := by simp_all
  have hstop : (Run.mk r.start (r.bytes ++ s.bytes)).stop = s.stop := by
    rw [Run.stop, Run.stop, List.length_append, ← h, Run.stop, Nat.add_assoc]
  cases runs with
  | nil =>
      have hone : glue s [] = [s] := by rw [glue, if_neg hs]
      rw [hone, glue_cons_of_touching hr h, glue, if_neg hboth]
  | cons t rest =>
      rcases Decidable.em (s.stop = t.start) with ht | ht
      · have hlonger : r.stop = (Run.mk s.start (s.bytes ++ t.bytes)).start := h
        rw [glue_cons_of_touching hs ht, glue_cons_of_touching hr hlonger,
          glue_cons_of_touching hboth (hstop.trans ht), List.append_assoc]
      · rw [glue_cons_of_apart hs ht, glue_cons_of_touching hr h,
          glue_cons_of_apart hboth (fun h' => ht (hstop.symm.trans h'))]

theorem foldr_glue_glue (r : Run) (runs others : List Run) :
    (glue r runs).foldr glue others = glue r (runs.foldr glue others) := by
  rcases Decidable.em (r.bytes.isEmpty = true) with hr | hr
  · rw [glue_of_isEmpty hr, glue_of_isEmpty hr]
  cases runs with
  | nil => rw [glue, if_neg hr, List.foldr_cons]
  | cons s rest =>
      rcases Decidable.em (r.stop = s.start) with hs | hs
      · rw [glue_cons_of_touching hr hs, List.foldr_cons, List.foldr_cons, glue_glue hs]
      · rw [glue_cons_of_apart hr hs, List.foldr_cons]

theorem foldr_glue_join (runs others : List Run) :
    (join runs).foldr glue others = runs.foldr glue others := by
  induction runs with
  | nil => rfl
  | cons r rest ih =>
      change (glue r (join rest)).foldr glue others = glue r (rest.foldr glue others)
      rw [foldr_glue_glue, ih]

theorem join_append_congr {runs runs' : List Run} (h : join runs = join runs')
    (others : List Run) : join (runs ++ others) = join (runs' ++ others) := by
  rw [join, join, List.foldr_append, List.foldr_append, ← foldr_glue_join runs, h,
    foldr_glue_join]

/-- The runs have bytes and ascend from the position on, with a gap between any two. -/
def Ascending : Nat → List Run → Prop
  | _, [] => True
  | p, r :: rest => p ≤ r.start ∧ r.bytes ≠ [] ∧ Ascending (r.stop + 1) rest

/-- The runs that have bytes ascend from the position on; they may touch. -/
def InOrder : Nat → List Run → Prop
  | _, [] => True
  | p, r :: rest => if r.bytes = [] then InOrder p rest else p ≤ r.start ∧ InOrder r.stop rest

section Order

variable {p q : Nat} {r : Run} {runs others : List Run}

theorem Ascending.mono (h : Ascending q runs) (hle : p ≤ q) : Ascending p runs := by
  cases runs with
  | nil => trivial
  | cons r rest => exact ⟨Nat.le_trans hle h.1, h.2⟩

theorem InOrder.mono (h : InOrder q runs) (hle : p ≤ q) : InOrder p runs := by
  induction runs with
  | nil => trivial
  | cons r rest ih =>
      rw [InOrder] at h ⊢
      split at h
      · rw [if_pos ‹_›]
        exact ih h
      · rw [if_neg ‹_›]
        exact ⟨Nat.le_trans hle h.1, h.2⟩

theorem ascending_glue (hfilled : r.bytes ≠ []) (hr : p ≤ r.start) (h : Ascending r.stop runs) :
    Ascending p (glue r runs) := by
  have hne : ¬ r.bytes.isEmpty = true := mt List.isEmpty_iff.mp hfilled
  cases runs with
  | nil =>
      rw [glue, if_neg hne]
      exact ⟨hr, hfilled, trivial⟩
  | cons s rest =>
      obtain ⟨hstart, hs, hrest⟩ := h
      rcases Decidable.em (r.stop = s.start) with htouch | hapart
      · have hstop : (Run.mk r.start (r.bytes ++ s.bytes)).stop = s.stop := by
          rw [Run.stop, List.length_append, Run.stop, ← htouch, Run.stop, Nat.add_assoc]
        rw [glue_cons_of_touching hne htouch]
        exact ⟨hr, List.append_ne_nil_of_left_ne_nil hfilled _, hstop ▸ hrest⟩
      · rw [glue_cons_of_apart hne hapart]
        exact ⟨hr, hfilled, Nat.lt_of_le_of_ne hstart hapart, hs, hrest⟩

theorem ascending_join (h : InOrder p runs) : Ascending p (join runs) := by
  induction runs generalizing p with
  | nil => trivial
  | cons r rest ih =>
      change Ascending p (glue r (join rest))
      rw [InOrder] at h
      split at h
      · rename_i hempty
        rw [glue_of_isEmpty (List.isEmpty_iff.mpr hempty)]
        exact ih h
      · exact ascending_glue ‹_› h.1 (ih h.2)

theorem inOrder_append (h : InOrder p runs) (hpq : p ≤ q)
    (hstop : ∀ r ∈ runs, r.bytes ≠ [] → r.stop ≤ q) (hothers : InOrder q others) :
    InOrder p (runs ++ others) := by
  induction runs generalizing p with
  | nil => exact hothers.mono hpq
  | cons r rest ih =>
      obtain ⟨hr, hrest⟩ := List.forall_mem_cons.mp hstop
      rw [List.cons_append, InOrder]
      rw [InOrder] at h
      split at h
      · rw [if_pos ‹_›]
        exact ih h hpq hrest
      · rw [if_neg ‹_›]
        exact ⟨h.1, ih h.2 (hr ‹_›) hrest⟩

theorem stop_before_le {x : Nat} (h : (r.before x).bytes ≠ []) : (r.before x).stop ≤ x := by
  have hlen := List.length_pos_iff.mpr h
  simp only [Run.stop, Run.before, List.length_take] at hlen ⊢
  omega

theorem inOrder_before (h : Ascending p runs) (x : Nat) : InOrder p (runs.map (·.before x)) := by
  induction runs generalizing p with
  | nil => trivial
  | cons r rest ih =>
      obtain ⟨hstart, -, hrest⟩ := h
      have hle : r.start ≤ r.stop + 1 := Nat.le_add_right_of_le (Nat.le_add_right _ _)
      have hstop : (r.before x).stop ≤ r.stop + 1 := by
        simp only [Run.stop, Run.before, List.length_take]
        omega
      rw [List.map_cons, InOrder]
      split
      · exact ih (hrest.mono (Nat.le_trans hstart hle))
      · exact ⟨hstart, ih (hrest.mono hstop)⟩

theorem inOrder_since (h : Ascending p runs) {x : Nat} (hq : q ≤ max p x) :
    InOrder q (runs.map (·.since x)) := by
  induction runs generalizing p q with
  | nil => trivial
  | cons r rest ih =>
      obtain ⟨hstart, -, hrest⟩ := h
      have hle : r.start ≤ r.stop := Nat.le_add_right _ _
      rw [List.map_cons, InOrder]
      split
      · exact ih hrest (by omega)
      · rename_i hfilled
        have hlen := List.length_pos_iff.mpr hfilled
        have hstop : (r.since x).stop = r.stop := by
          simp only [Run.stop, Run.since, List.length_drop] at hlen ⊢
          omega
        have hsince : (r.since x).start = max r.start x := rfl
        exact ⟨by omega, ih hrest (by omega)⟩

theorem ascending_write {image : Image} (h : Ascending 0 image.runs) (position : Nat)
    (bytes : List UInt8) : Ascending 0 (image.write position bytes).runs := by
  rw [write]
  split
  · exact h
  · rename_i hbytes
    have hfilled : bytes ≠ [] := mt List.isEmpty_iff.mpr hbytes
    have hwritten : InOrder position [⟨position, bytes⟩] := by
      rw [InOrder, if_neg hfilled]
      exact ⟨Nat.le_refl _, trivial⟩
    apply ascending_join
    apply inOrder_append (inOrder_append (inOrder_before h position) (Nat.zero_le position) ?_
      hwritten) (Nat.zero_le (position + bytes.length)) ?_ (inOrder_since h (Nat.le_max_right 0 _))
    · intro r hr hne
      obtain ⟨s, -, rfl⟩ := List.mem_map.mp hr
      exact stop_before_le hne
    · intro r hr hne
      rcases List.mem_append.mp hr with hr | hr
      · obtain ⟨s, -, rfl⟩ := List.mem_map.mp hr
        exact Nat.le_trans (stop_before_le hne) (Nat.le_add_right _ _)
      · rw [List.mem_singleton.mp hr]
        exact Nat.le_refl _

theorem ascending_writeAll {image : Image} (h : Ascending 0 image.runs) (runs : List Run) :
    Ascending 0 (image.writeAll runs).runs := by
  induction runs generalizing image with
  | nil => exact h
  | cons r rest ih => exact ih (ascending_write h r.start r.bytes)

end Order

/-- The bytes are those that are held from the position on, with zeros where none is held, up to the
last one. -/
structure Spells (held : Nat → Option UInt8) (p : Nat) (bytes : List UInt8) : Prop where
  byte : ∀ i < bytes.length, bytes[i]? = some ((held (p + i)).getD 0)
  inside : ∀ x, (held x).isSome → p ≤ x ∧ x < p + bytes.length
  last : bytes ≠ [] → (held (p + bytes.length - 1)).isSome

namespace Spells

variable {held others : Nat → Option UInt8} {p q : Nat} {bs cs : List UInt8}

theorem eq_none (h : Spells held p bs) {x : Nat} (hx : x < p ∨ p + bs.length ≤ x) :
    held x = none := by
  cases hheld : held x with
  | none => rfl
  | some b =>
      have hinside := h.inside x (by rw [hheld]; rfl)
      omega

theorem length_le (h : Spells held p bs) (h' : Spells held p cs) : bs.length ≤ cs.length := by
  rcases Decidable.em (bs = []) with rfl | hbs
  · exact Nat.zero_le _
  · have hlast := h'.inside _ (h.last hbs)
    have hpos := List.length_pos_iff.mpr hbs
    omega

theorem unique (h : Spells held p bs) (h' : Spells held p cs) : bs = cs := by
  have hlen : bs.length = cs.length := Nat.le_antisymm (h.length_le h') (h'.length_le h)
  apply List.ext_getElem? fun i => ?_
  rcases Nat.lt_or_ge i bs.length with hi | hi
  · rw [h.byte i hi, h'.byte i (hlen ▸ hi)]
  · rw [List.getElem?_eq_none hi, List.getElem?_eq_none (hlen ▸ hi)]

theorem run {r : Run} (hfilled : r.bytes ≠ []) : Spells r.get? r.start r.bytes := by
  have hget : ∀ i, r.get? (r.start + i) = r.bytes[i]? := by
    intro i
    rw [Run.get?, if_pos (Nat.le_add_right _ _), Nat.add_sub_cancel_left]
  have hlen := List.length_pos_iff.mpr hfilled
  refine ⟨?_, ?_, ?_⟩
  · intro i hi
    rw [hget, List.getElem?_eq_getElem hi]
    rfl
  · intro x hx
    rw [Run.get?] at hx
    split at hx
    · obtain ⟨b, hb⟩ := Option.isSome_iff_exists.mp hx
      have hlt := (List.getElem?_eq_some_iff.mp hb).1
      omega
    · cases hx
  · intro _
    rw [Nat.add_sub_assoc hlen, hget, List.getElem?_eq_getElem (Nat.sub_one_lt_of_lt hlen)]
    rfl

theorem zeros (h : Spells held q bs) (hpq : p ≤ q) (hbs : bs ≠ []) :
    Spells held p (List.replicate (q - p) 0 ++ bs) := by
  have hlen : (List.replicate (q - p) (0 : UInt8) ++ bs).length = q - p + bs.length := by
    rw [List.length_append, List.length_replicate]
  refine ⟨?_, ?_, ?_⟩
  · intro i hi
    rw [List.getElem?_append, List.length_replicate]
    split
    · rw [List.getElem?_replicate_of_lt ‹_›, h.eq_none (.inl (by omega))]
      rfl
    · have hsum : q + (i - (q - p)) = p + i := by omega
      rw [h.byte _ (by omega), hsum]
  · intro x hx
    have hinside := h.inside x hx
    omega
  · intro _
    have hsum : p + (q - p + bs.length) = q + bs.length := by omega
    rw [hlen, hsum]
    exact h.last hbs

theorem append (h : Spells held p bs) (hbs : bs ≠ []) (h' : Spells others (p + bs.length) cs) :
    Spells (fun x => (held x).or (others x)) p (bs ++ cs) := by
  have hlen : (bs ++ cs).length = bs.length + cs.length := List.length_append
  refine ⟨?_, ?_, ?_⟩
  · intro i hi
    rw [List.getElem?_append]
    split
    · rw [h.byte i ‹_›, h'.eq_none (.inl (by omega)), Option.or_none]
    · have hsum : p + bs.length + (i - bs.length) = p + i := by omega
      rw [h'.byte _ (by omega), hsum, h.eq_none (x := p + i) (.inr (by omega)), Option.none_or]
  · intro x hx
    rw [Option.isSome_or, Bool.or_eq_true] at hx
    rcases hx with hx | hx
    · have hinside := h.inside x hx
      omega
    · have hinside := h'.inside x hx
      omega
  · intro _
    rw [Option.isSome_or, Bool.or_eq_true]
    rcases Decidable.em (cs = []) with rfl | hcs
    · rw [List.append_nil]
      exact .inl (h.last hbs)
    · rw [hlen, ← Nat.add_assoc]
      exact .inr (h'.last hcs)

end Spells

theorem spells_flattenFrom {p : Nat} {runs : List Run} (h : Ascending p runs) :
    Spells (fun x => runs.findSome? (·.get? x)) p (flattenFrom p runs) := by
  induction runs generalizing p with
  | nil => exact ⟨nofun, nofun, fun hne => absurd rfl hne⟩
  | cons r rest ih =>
      obtain ⟨hstart, hfilled, hrest⟩ := h
      have hbehind : Spells _ (r.start + r.bytes.length) _ :=
        ih (hrest.mono (Nat.le_succ r.stop))
      have hboth := (Spells.run hfilled).append hfilled hbehind
      have hmax : max p r.stop = r.stop :=
        Nat.max_eq_right (Nat.le_trans hstart (Nat.le_add_right _ _))
      have hheld : (fun x => (r :: rest).findSome? (·.get? x)) =
          fun x => (r.get? x).or (rest.findSome? (·.get? x)) := by
        funext x
        rw [List.findSome?_cons]
        cases r.get? x <;> rfl
      rw [flattenFrom, hmax, hheld, List.append_assoc]
      exact hboth.zeros hstart (List.append_ne_nil_of_left_ne_nil hfilled _)

theorem spells_flatten {image : Image} (h : Ascending 0 image.runs) :
    Spells image.get? 0 image.flatten :=
  spells_flattenFrom h

end Image

theorem Run.isSome_get?_iff {r : Run} {x : Nat} :
    (r.get? x).isSome ↔ r.start ≤ x ∧ x < r.stop := by
  rw [get?, stop]
  split
  · rw [isSome_getElem?]
    omega
  · rename_i hbefore
    exact ⟨fun h => absurd h Bool.false_ne_true, fun h => absurd h.1 hbefore⟩

namespace Image

variable {image : Image} {p q : Nat} {r last : Run} {runs : List Run}

theorem isSome_get?_iff {x : Nat} :
    (image.get? x).isSome ↔ ∃ r ∈ image.runs, r.start ≤ x ∧ x < r.stop := by
  rw [get?, List.findSome?_isSome_iff]
  simp only [Run.isSome_get?_iff]

theorem eq_empty_of_write {position : Nat} {bytes : List UInt8}
    (h : image.write position bytes = .empty) : image = .empty := by
  rcases Decidable.em (bytes.isEmpty = true) with hbytes | hbytes
  · rwa [write, if_pos hbytes] at h
  · have hlen := List.length_pos_iff.mpr (mt List.isEmpty_iff.mpr hbytes)
    have hheld : ((image.write position bytes).get? position).isSome := by
      rw [get?_write, if_pos (by omega), isSome_getElem?]
      omega
    rw [h] at hheld
    cases hheld

theorem eq_empty_of_writeAll (h : image.writeAll runs = .empty) : image = .empty := by
  induction runs generalizing image with
  | nil => exact h
  | cons r rest ih => exact eq_empty_of_write (ih h)

theorem Ascending.le_start (h : Ascending p runs) (hr : r ∈ runs) : p ≤ r.start := by
  induction runs generalizing p with
  | nil => cases hr
  | cons first rest ih =>
      obtain ⟨hstart, -, hrest⟩ := h
      rcases List.mem_cons.mp hr with rfl | hr
      · exact hstart
      · have hbehind := ih hrest hr
        rw [Run.stop] at hbehind
        omega

theorem Ascending.start_lt_stop (h : Ascending p runs) (hr : r ∈ runs) : r.start < r.stop := by
  induction runs generalizing p with
  | nil => cases hr
  | cons first rest ih =>
      obtain ⟨-, hfilled, hrest⟩ := h
      rcases List.mem_cons.mp hr with rfl | hr
      · exact Nat.lt_add_of_pos_right (List.length_pos_iff.mpr hfilled)
      · exact ih hrest hr

theorem Ascending.stop_le (h : Ascending p runs) (hlast : runs.getLast? = some last)
    (hr : r ∈ runs) : r.stop ≤ last.stop := by
  induction runs generalizing p with
  | nil => cases hr
  | cons first rest ih =>
      obtain ⟨-, -, hrest⟩ := h
      cases rest with
      | nil =>
          obtain rfl : first = last := Option.some.inj hlast
          exact Nat.le_of_eq (congrArg Run.stop (List.mem_singleton.mp hr))
      | cons second others =>
          rw [List.getLast?_cons_cons] at hlast
          rcases List.mem_cons.mp hr with rfl | hr
          -- The last run starts behind the first one.
          · have hmem := List.mem_of_getLast? hlast
            have hstart := hrest.le_start hmem
            have hstop := hrest.start_lt_stop hmem
            omega
          · exact ih hrest hlast hr

theorem exists_bounds (h : Ascending 0 image.runs)
    (hp : IsLeast {x | (image.get? x).isSome} p) (hq : IsGreatest {x | (image.get? x).isSome} q) :
    ∃ first last, image.runs.head? = some first ∧ first.start = p ∧
      image.runs.getLast? = some last ∧ last.stop = q + 1 := by
  obtain ⟨hheld, hleast⟩ := hp
  obtain ⟨hheld', hgreatest⟩ := hq
  obtain ⟨r, hr, hstart, -⟩ := isSome_get?_iff.mp hheld
  obtain ⟨r', hr', -, hstop⟩ := isSome_get?_iff.mp hheld'
  have hne : image.runs ≠ [] := List.ne_nil_of_mem hr
  obtain ⟨first, rest, hcons⟩ := List.exists_cons_of_ne_nil hne
  have hfirst : first ∈ image.runs := by
    rw [hcons]
    exact List.mem_cons_self
  have hlast : image.runs.getLast hne ∈ image.runs := List.getLast_mem hne
  refine ⟨first, image.runs.getLast hne, by rw [hcons]; rfl, ?_, List.getLast?_eq_some_getLast hne,
    ?_⟩
  · have hle : first.start ≤ r.start := by
      have hfrom : Ascending first.start image.runs := by
        rw [hcons] at h ⊢
        exact ⟨Nat.le_refl _, h.2⟩
      exact hfrom.le_start hr
    have hge : p ≤ first.start :=
      hleast (isSome_get?_iff.mpr ⟨first, hfirst, Nat.le_refl _, h.start_lt_stop hfirst⟩)
    omega
  · have hfilled := h.start_lt_stop hlast
    have hle := h.stop_le (List.getLast?_eq_some_getLast hne) hr'
    have hge : (image.runs.getLast hne).stop - 1 ≤ q :=
      hgreatest (isSome_get?_iff.mpr ⟨_, hlast, by omega, by omega⟩)
    omega

theorem eq_empty_iff (h : Ascending 0 image.runs) :
    image = .empty ↔ ∀ x, ¬ (image.get? x).isSome := by
  constructor
  · rintro rfl x hx
    cases hx
  · intro hnone
    rcases image with ⟨_ | ⟨first, rest⟩⟩
    · rfl
    · have hfirst : first ∈ first :: rest := List.mem_cons_self
      exact absurd (isSome_get?_iff.mpr ⟨first, hfirst, Nat.le_refl _, h.start_lt_stop hfirst⟩)
        (hnone first.start)

end Image

theorem Output.spells_image {o : Output} (h : o.earlier = .empty) :
    Image.Spells o.image.get? 0 o.image.flatten := by
  apply Image.spells_flatten
  have hempty : Image.Ascending 0 Image.empty.runs := trivial
  rw [Output.image, h]
  exact Image.ascending_writeAll hempty _

end MachO
