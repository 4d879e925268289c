import MachO.Proofs.ExtractionOverlay

namespace MachO

namespace NameSet

variable {s t : NameSet}

theorem contains_iff {name : String} : s.contains name = true ↔ name ∈ s.names :=
  List.contains_iff_mem

theorem subset_iff :
    s.subset t = true ↔ ∀ name, s.contains name = true → t.contains name = true := by
  rw [subset, List.all_eq_true]
  exact forall_congr' fun name => imp_congr_left contains_iff.symm

theorem contains_eq_iff :
    s.contains = t.contains ↔ ∀ name, s.contains name = true ↔ t.contains name = true :=
  funext_iff.trans (forall_congr' fun _ => Bool.eq_iff_iff)

theorem beq_iff : (s == t) = true ↔ s.contains = t.contains := by
  show (s.subset t && t.subset s) = true ↔ _
  rw [Bool.and_eq_true, subset_iff, subset_iff, contains_eq_iff]
  exact forall_and.symm.trans (forall_congr' fun _ => iff_iff_implies_and_implies.symm)

theorem isEmpty_iff : s.isEmpty = true ↔ ∀ name, s.contains name = false := by
  simp only [isEmpty, List.isEmpty_iff, contains, List.contains_eq_mem, decide_eq_false_iff_not]
  exact List.eq_nil_iff_forall_not_mem

theorem isEmpty_congr (h : s.contains = t.contains) : s.isEmpty = t.isEmpty := by
  rw [Bool.eq_iff_iff, isEmpty_iff, isEmpty_iff, h]

end NameSet

namespace Selection

variable {S S' : Selection} {commands : List Command}

/-- Every name that the one asks for is asked for by the other. -/
structure Within (S S' : Selection) : Prop where
  segments : ∀ name, S.segments.contains name = true → S'.segments.contains name = true
  sections : ∀ name, S.sections.contains name = true → S'.sections.contains name = true

theorem Within.selects (h : S.Within S') {s : Section} (hs : S.selects s = true) :
    S'.selects s = true := by
  rw [Selection.selects, Bool.or_eq_true] at hs ⊢
  exact hs.imp (h.sections s.name) (h.segments s.label)

theorem Within.storedIn (h : S.Within S') (commands : List Command) :
    (S'.storedIn commands).filter S.selects = S.storedIn commands := by
  rw [Selection.storedIn, sectionsIn, List.filter_filter, List.filter_filter, Selection.storedIn,
    sectionsIn, List.filter_filter]
  apply List.filter_congr
  intro s _
  cases hs : S.selects s with
  | false =>
      rw [Bool.and_false]
      rfl
  | true => rw [h.selects hs, Bool.and_true, Bool.and_comm]

theorem beq_iff :
    (S == S') = true ↔
      S.segments.contains = S'.segments.contains ∧ S.sections.contains = S'.sections.contains := by
  show (S.segments == S'.segments && S.sections == S'.sections) = true ↔ _
  rw [Bool.and_eq_true, NameSet.beq_iff, NameSet.beq_iff]

section Equal

variable (h : (S == S') = true)

include h

theorem selects_of_beq : S.selects = S'.selects := by
  obtain ⟨hsegments, hsections⟩ := beq_iff.mp h
  funext s
  rw [Selection.selects, Selection.selects, hsegments, hsections]

theorem isEmpty_of_beq : S.isEmpty = S'.isEmpty := by
  obtain ⟨hsegments, hsections⟩ := beq_iff.mp h
  rw [isEmpty, isEmpty, NameSet.isEmpty_congr hsegments, NameSet.isEmpty_congr hsections]

theorem sectionsIn_of_beq : S.sectionsIn commands = S'.sectionsIn commands := by
  rw [sectionsIn, sectionsIn, selects_of_beq h]

theorem planBy_of_beq (a : Arithmetic) : planBy a commands S = planBy a commands S' := by
  rw [planBy, planBy, sectionsIn_of_beq h]

theorem plan_of_beq : plan commands S = plan commands S' := planBy_of_beq h .exact

theorem extract_of_beq (r : Reader) (k : Sink) :
    extract r k commands S = extract r k commands S' := by
  rw [extract, extract, extractBy, extractBy, isEmpty_of_beq h, planEvents, planEvents,
    plan_of_beq h, planBy_of_beq h, sectionsIn_of_beq h]

theorem extractFile_of_beq (r : Reader) (k : Sink) : extractFile r k S = extractFile r k S' := by
  rw [extractFile, extractFile, isEmpty_of_beq h]
  simp only [extract_of_beq h]

end Equal

/-- How a selection is put together. -/
inductive Recipe where
  | empty
  | ofNames (segments sections : List String)
  | withSegment (recipe : Recipe) (name : String)
  | withSection (recipe : Recipe) (name : String)

namespace Recipe

def selection : Recipe → Selection
  | .empty => .empty
  | .ofNames segments sections => .ofNames segments sections
  | .withSegment recipe name => recipe.selection.withSegment name
  | .withSection recipe name => recipe.selection.withSection name

def segments : Recipe → List String
  | .empty => []
  | .ofNames segments _ => segments
  | .withSegment recipe name => recipe.segments ++ [name]
  | .withSection recipe _ => recipe.segments

def sections : Recipe → List String
  | .empty => []
  | .ofNames _ sections => sections
  | .withSegment recipe _ => recipe.sections
  | .withSection recipe name => recipe.sections ++ [name]

theorem contains_segments (recipe : Recipe) (name : String) :
    recipe.selection.segments.contains name = true ↔ name ∈ recipe.segments := by
  rw [NameSet.contains_iff]
  induction recipe with
  | empty => rfl
  | ofNames segments sections => rfl
  | withSegment recipe asked ih =>
      show name ∈ asked :: recipe.selection.segments.names ↔ name ∈ recipe.segments ++ [asked]
      rw [List.mem_cons, ih, List.mem_append, List.mem_singleton, or_comm]
  | withSection recipe _ ih => exact ih

theorem contains_sections (recipe : Recipe) (name : String) :
    recipe.selection.sections.contains name = true ↔ name ∈ recipe.sections := by
  rw [NameSet.contains_iff]
  induction recipe with
  | empty => rfl
  | ofNames segments sections => rfl
  | withSegment recipe _ ih => exact ih
  | withSection recipe asked ih =>
      show name ∈ asked :: recipe.selection.sections.names ↔ name ∈ recipe.sections ++ [asked]
      rw [List.mem_cons, ih, List.mem_append, List.mem_singleton, or_comm]

theorem selection_beq_iff {a b : Recipe} :
    (a.selection == b.selection) = true ↔
      (∀ name, name ∈ a.segments ↔ name ∈ b.segments) ∧
      ∀ name, name ∈ a.sections ↔ name ∈ b.sections := by
  simp only [beq_iff, NameSet.contains_eq_iff, contains_segments, contains_sections]

end Recipe

end Selection

def Placement.shift (distance : Nat) (p : Placement) : Placement :=
  { p with offset := p.offset + distance }

section Growth

variable {S S' : Selection} {commands : List Command} {origin origin' : UInt64}

theorem Section.shift_place {s : Section} (horigin : origin' ≤ origin) (hs : origin ≤ s.address) :
    (s.place origin).shift (origin.toNat - origin'.toNat) = s.place origin' := by
  have hlow : origin'.toNat ≤ origin.toNat := UInt64.le_iff_toNat_le.mp horigin
  have hhigh : origin.toNat ≤ s.address.toNat := UInt64.le_iff_toNat_le.mp hs
  have hsum : s.address.toNat - origin.toNat + (origin.toNat - origin'.toNat) =
      s.address.toNat - origin'.toNat := by omega
  exact congrArg (Placement.mk · s) hsum

theorem target_map_place (origin : UInt64) (sections : List Section) :
    (sections.map (·.place origin)).map (·.target) = sections := by
  rw [List.map_map]
  exact List.map_id sections

theorem originOf_storedIn_le (hwithin : S.Within S') (hne : S.storedIn commands ≠ [])
    (hall : ∀ s ∈ S'.storedIn commands, originOf (S'.storedIn commands) ≤ s.address) :
    originOf (S'.storedIn commands) ≤ originOf (S.storedIn commands) := by
  -- The first section of the smaller selection is one of the larger, which has none below its
  -- origin.
  obtain ⟨first, rest, hstored⟩ := List.exists_cons_of_ne_nil hne
  have hfirst : first ∈ (S'.storedIn commands).filter S.selects := by
    rw [hwithin.storedIn, hstored]
    exact List.mem_cons_self
  rw [hstored]
  exact hall first (List.mem_filter.mp hfirst).1

theorem filter_place (hwithin : S.Within S') (horigin : origin' ≤ origin)
    (hall : ∀ s ∈ S.storedIn commands, origin ≤ s.address) :
    ((S'.storedIn commands).map (·.place origin')).filter (S.selects ·.target) =
      ((S.storedIn commands).map (·.place origin)).map
        (·.shift (origin.toNat - origin'.toNat)) := by
  rw [List.filter_map, List.map_map]
  show ((S'.storedIn commands).filter S.selects).map _ = _
  rw [hwithin.storedIn]
  apply List.map_congr_left
  intro s hs
  exact (Section.shift_place horigin (hall s hs)).symm

/-- With more names asked for, what was placed is placed again in its order, farther by the distance
of the two origins. And only the names matter: two ways to put a selection together give equal ones
exactly when they have the same names in them, and equal selections select the same sections, with
the same placements and the same extraction. -/
theorem selection_growth (commands : List Command) :
    (∀ S S' : Selection, S.Within S' → ∀ placements placements',
      plan commands S = .ok placements → plan commands S' = .ok placements' →
      placements ≠ [] →
      let origin := originOf (placements.map (·.target))
      let origin' := originOf (placements'.map (·.target))
      let moved := placements.map (·.shift (origin.toNat - origin'.toNat))
      placements' ≠ [] ∧ origin' ≤ origin ∧ moved.Sublist placements' ∧
      placements'.filter (S.selects ·.target) = moved) ∧
    ∀ a b : Selection.Recipe,
      ((a.selection == b.selection) = true ↔
        (∀ name, name ∈ a.segments ↔ name ∈ b.segments) ∧
        ∀ name, name ∈ a.sections ↔ name ∈ b.sections) ∧
      ((∀ name, name ∈ a.segments ↔ name ∈ b.segments) →
        (∀ name, name ∈ a.sections ↔ name ∈ b.sections) →
        (∀ s, a.selection.selects s = b.selection.selects s) ∧
        plan commands a.selection = plan commands b.selection ∧
        ∀ r k, extract r k commands a.selection = extract r k commands b.selection ∧
          extractFile r k a.selection = extractFile r k b.selection) := by
  refine ⟨?_, fun a b => ⟨Selection.Recipe.selection_beq_iff, ?_⟩⟩
  · intro S S' hwithin placements placements' hplan hplan' hne
    obtain ⟨hall, rfl⟩ := plan_eq_ok_iff.mp hplan
    obtain ⟨hall', rfl⟩ := plan_eq_ok_iff.mp hplan'
    rw [target_map_place, target_map_place]
    have hstored : S.storedIn commands ≠ [] := fun h => hne (by rw [h]; rfl)
    have horigin := originOf_storedIn_le hwithin hstored hall'
    have hfilter := filter_place hwithin horigin hall
    have hsublist := hfilter ▸ List.filter_sublist
    refine ⟨?_, horigin, hsublist, hfilter⟩
    intro hnil
    rw [hnil, List.sublist_nil, List.map_eq_nil_iff] at hsublist
    exact hne hsublist
  · intro hsegments hsections
    have hequal := Selection.Recipe.selection_beq_iff.mpr ⟨hsegments, hsections⟩
    exact ⟨congrFun (Selection.selects_of_beq hequal), Selection.plan_of_beq hequal, fun r k =>
      ⟨Selection.extract_of_beq hequal r k, Selection.extractFile_of_beq hequal r k⟩⟩

end Growth

theorem selection_growth_overlapping :
    let small : Selection.Recipe := .withSection .empty "b"
    let large : Selection.Recipe := .withSegment small "S"
    let again : Selection.Recipe := .withSection (.ofNames ["S", "S"] ["b"]) "b"
    ∃ placements placements',
      plan overlapping small.selection = .ok placements ∧
      plan overlapping large.selection = .ok placements' ∧
      placements'.filter (small.selection.selects ·.target) = placements.map (·.shift 2) ∧
      plan overlapping again.selection = .ok placements' := by
  intro small large again
  obtain ⟨hgrowth, hsame⟩ := selection_growth overlapping
  have hwithin : small.selection.Within large.selection :=
    ⟨fun _ h => absurd h Bool.false_ne_true, fun _ => id⟩
  have hplan := plan_eq_ok_iff.mpr (⟨by decide, rfl⟩ :
    (∀ s ∈ small.selection.storedIn overlapping, _) ∧ _)
  have hplan' := plan_eq_ok_iff.mpr (⟨by decide, rfl⟩ :
    (∀ s ∈ large.selection.storedIn overlapping, _) ∧ _)
  obtain ⟨-, -, -, hfilter⟩ := hgrowth _ _ hwithin _ _ hplan hplan' (by decide)
  obtain ⟨-, hplans, -⟩ := (hsame again large).2
    (by simp [again, large, small, Selection.Recipe.segments])
    (by simp [again, large, small, Selection.Recipe.sections])
  exact ⟨_, _, hplan, hplan', hfilter, hplans.trans hplan'⟩

end MachO
