import MachO.Proofs.Scanning

namespace MachO

/-- What a run gives, apart from the state that it ends in. -/
def outcome {ε σ α : Type} (x : EStateM ε σ α) (s : σ) : Except ε α :=
  match x s with
  | .ok a _ => .ok a
  | .error e _ => .error e

section Outcomes

variable {ε σ α β : Type} {x : EStateM ε σ α} {s t : σ}

theorem outcome_of_ok {a : α} (h : x s = .ok a t) : outcome x s = .ok a := by
  rw [outcome, h]

theorem outcome_of_error {e : ε} (h : x s = .error e t) : outcome x s = .error e := by
  rw [outcome, h]

theorem outcome_congr {y : EStateM ε σ α} (h : x s = y t) : outcome x s = outcome y t := by
  rw [outcome, outcome, h]

theorem outcome_bind_of_ok {a : α} (h : x s = .ok a t) (f : α → EStateM ε σ β) :
    outcome (x >>= f) s = outcome (f a) t := by
  rw [outcome, outcome, bind_eq_of_ok h]

theorem outcome_bind_of_error {e : ε} (h : x s = .error e t) (f : α → EStateM ε σ β) :
    outcome (x >>= f) s = .error e :=
  outcome_of_error (bind_eq_of_error h)

theorem outcome_map (f : α → β) (x : EStateM ε σ α) (s : σ) :
    outcome (f <$> x) s = (outcome x s).map f := by
  rw [map_eq_pure_bind]
  cases h : x s with
  | ok a t =>
      rw [outcome_bind_of_ok h, outcome_of_ok h]
      rfl
  | error e t =>
      rw [outcome_bind_of_error h, outcome_of_error h]
      rfl

theorem stateAfter_map (f : α → β) (x : EStateM ε σ α) (s : σ) :
    stateAfter (f <$> x) s = stateAfter x s := by
  rw [map_eq_pure_bind, stateAfter_bind_pure]

theorem exists_of_outcome_ok {a : α} (h : outcome x s = .ok a) : ∃ t, x s = .ok a t := by
  rw [outcome] at h
  cases hx : x s with
  | ok b t =>
      rw [hx] at h
      cases h
      exact ⟨t, rfl⟩
  | error e t =>
      rw [hx] at h
      cases h

theorem exists_of_outcome_error {e : ε} (h : outcome x s = .error e) : ∃ t, x s = .error e t := by
  rw [outcome] at h
  cases hx : x s with
  | ok a t =>
      rw [hx] at h
      cases h
  | error e' t =>
      rw [hx] at h
      cases h
      exact ⟨t, rfl⟩

theorem eq_of_outcome {x y : EStateM ε σ α} (houtcome : outcome x s = outcome y t)
    (hstate : stateAfter x s = stateAfter y t) : x s = y t := by
  cases hy : y t with
  | ok a t' =>
      rw [outcome_of_ok hy] at houtcome
      obtain ⟨s', hx⟩ := exists_of_outcome_ok houtcome
      rw [stateAfter_of_ok hx, stateAfter_of_ok hy] at hstate
      rw [hx, hstate]
  | error e t' =>
      rw [outcome_of_error hy] at houtcome
      obtain ⟨s', hx⟩ := exists_of_outcome_error houtcome
      rw [stateAfter_of_error hx, stateAfter_of_error hy] at hstate
      rw [hx, hstate]

end Outcomes

/-- From related states the runs end alike, in related states, or the first one ends in an error
that is excused. -/
def Tracks {ε σ τ α : Type} (excused : ε → Prop) (R : σ → τ → Prop) (x : EStateM ε σ α)
    (y : EStateM ε τ α) : Prop :=
  ∀ s t, R s t →
    (outcome x s = outcome y t ∧ R (stateAfter x s) (stateAfter y t)) ∨
      ∃ e, outcome x s = .error e ∧ excused e

namespace Tracks

variable {ε σ τ α β : Type} {excused : ε → Prop} {R : σ → τ → Prop} {x : EStateM ε σ α}
  {y : EStateM ε τ α}

theorem same_of_ok {a : α} {s s' : σ} {t t' : τ} (hx : x s = .ok a s') (hy : y t = .ok a t')
    (h : R s' t') : outcome x s = outcome y t ∧ R (stateAfter x s) (stateAfter y t) := by
  rw [outcome_of_ok hx, outcome_of_ok hy, stateAfter_of_ok hx, stateAfter_of_ok hy]
  exact ⟨rfl, h⟩

theorem same_of_error {e : ε} {s s' : σ} {t t' : τ} (hx : x s = .error e s')
    (hy : y t = .error e t') (h : R s' t') :
    outcome x s = outcome y t ∧ R (stateAfter x s) (stateAfter y t) := by
  rw [outcome_of_error hx, outcome_of_error hy, stateAfter_of_error hx, stateAfter_of_error hy]
  exact ⟨rfl, h⟩

theorem same (h : Tracks (fun _ => False) R x y) {s : σ} {t : τ} (hst : R s t) :
    outcome x s = outcome y t ∧ R (stateAfter x s) (stateAfter y t) := by
  rcases h s t hst with hsame | ⟨e, -, hnone⟩
  · exact hsame
  · exact absurd hnone not_false

theorem pure (a : α) :
    Tracks excused R (Pure.pure a : EStateM ε σ α) (Pure.pure a : EStateM ε τ α) :=
  fun _ _ h => .inl ⟨rfl, h⟩

theorem throw (e : ε) :
    Tracks excused R (MonadExcept.throw e : EStateM ε σ α) (MonadExcept.throw e : EStateM ε τ α) :=
  fun _ _ h => .inl ⟨rfl, h⟩

theorem bind {f : α → EStateM ε σ β} {g : α → EStateM ε τ β} (hx : Tracks excused R x y)
    (hf : ∀ a, Tracks excused R (f a) (g a)) : Tracks excused R (x >>= f) (y >>= g) := by
  intro s t h
  rcases hx s t h with ⟨hsame, hrelated⟩ | ⟨e, herror, he⟩
  · cases hy : y t with
    | ok a t' =>
        rw [outcome_of_ok hy] at hsame
        obtain ⟨s', hx'⟩ := exists_of_outcome_ok hsame
        rw [stateAfter_of_ok hx', stateAfter_of_ok hy] at hrelated
        rw [outcome_bind_of_ok hx', outcome_bind_of_ok hy, stateAfter_bind_of_ok hx',
          stateAfter_bind_of_ok hy]
        exact hf a s' t' hrelated
    | error e t' =>
        rw [outcome_of_error hy] at hsame
        obtain ⟨s', hx'⟩ := exists_of_outcome_error hsame
        rw [stateAfter_of_error hx', stateAfter_of_error hy] at hrelated
        rw [outcome_bind_of_error hx', outcome_bind_of_error hy, stateAfter_bind_of_error hx',
          stateAfter_bind_of_error hy]
        exact .inl ⟨rfl, hrelated⟩
  · obtain ⟨s', hx'⟩ := exists_of_outcome_error herror
    exact .inr ⟨e, outcome_bind_of_error hx' f, he⟩

theorem of_eq {x y : EStateM ε σ α} (h : x = y) : Tracks excused Eq x y := by
  rintro s t rfl
  exact .inl (by rw [h]; exact ⟨rfl, rfl⟩)

theorem eq {x y : EStateM ε σ α} (h : Tracks (fun _ => False) Eq x y) : x = y := by
  funext s
  obtain ⟨hsame, hrelated⟩ := h.same (s := s) rfl
  exact eq_of_outcome hsame hrelated

theorem guard {p : Prop} [Decidable p] {e : ε} {f : Unit → EStateM ε σ α}
    {g : Unit → EStateM ε τ α} (hxy : Tracks excused R x y) :
    Tracks excused R (if p then MonadExcept.throw e >>= f else x)
      (if p then MonadExcept.throw e >>= g else y) := by
  split
  · intro s t h
    exact .inl ⟨rfl, h⟩
  · exact hxy

section Telling

variable {excused : Error → Prop} {C : Cursor → Cursor → Prop}

theorem ofExcept (x : Except Error α) :
    Tracks excused C (Scan.ofExcept x) (Scan.ofExcept x) := by
  cases x with
  | ok a => exact .pure a
  | error e => exact .throw e

variable (htold : ∀ c d events, C c d → C (c.after 0 events) (d.after 0 events))
include htold

theorem tellAll (events : List Event) :
    Tracks excused C (Scan.tellAll events) (Scan.tellAll events) := by
  have hall : ∀ c, Scan.tellAll events c = .ok () (c.after 0 events) := fun c =>
    Scan.tellAll_eq_ok_iff.mpr rfl
  intro c d hcd
  exact .inl (same_of_ok (hall c) (hall d) (htold c d events hcd))

theorem tell (event : Event) : Tracks excused C (Scan.tell event) (Scan.tell event) := by
  have hone : ∀ c, Scan.tell event c = .ok () (c.after 0 [event]) := fun c =>
    Scan.tell_eq_ok_iff.mpr rfl
  intro c d hcd
  exact .inl (same_of_ok (hone c) (hone d) (htold c d [event] hcd))

end Telling

end Tracks

end MachO
