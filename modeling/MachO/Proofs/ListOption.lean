import MachO.CommandLine.Options

namespace MachO.CommandLine

/-- The argument, met before the options ended, asks for the listing: as a long option, or as a
short one in front of any that takes the rest of the argument as a name. -/
def asksForList (argument : String) : Bool :=
  match argument.toList with
  | '-' :: '-' :: cs => (cs.dropWhile (· == '-')).takeWhile (· != '=') == "list".toList
  | '-' :: cs => (cs.takeWhile fun c => c != 's' && c != 'S').contains 'l'
  | _ => false

/-- An argument that stands before the double dash asks for the listing. -/
def AsksForList (arguments : List String) : Prop :=
  ∃ a ∈ arguments.takeWhile (· != "--"), asksForList a

instance (arguments : List String) : Decidable (AsksForList arguments) :=
  inferInstanceAs (Decidable (∃ a ∈ arguments.takeWhile (· != "--"), asksForList a))

theorem asksForList_cons_iff {argument : String} {arguments : List String} :
    AsksForList (argument :: arguments) ↔
      argument ≠ "--" ∧ (asksForList argument ∨ AsksForList arguments) := by
  by_cases h : argument = "--"
  · simp [AsksForList, h]
  · simp [AsksForList, h]

namespace Taken

variable {t t' : Taken}

@[simp] theorem takeName_lists (t : Taken) (c : Criterion) (name : String) :
    (t.takeName c name).lists = t.lists := by
  cases c <;> rfl

@[simp] theorem takeName_optionsEnded (t : Taken) (c : Criterion) (name : String) :
    (t.takeName c name).optionsEnded = t.optionsEnded := by
  cases c <;> rfl

@[simp] theorem takeOption_lists (t : Taken) (c : Criterion) (value : Option (List Char)) :
    (t.takeOption c value).lists = t.lists := by
  cases value <;> simp [takeOption]

@[simp] theorem takeOption_optionsEnded (t : Taken) (c : Criterion) (value : Option (List Char)) :
    (t.takeOption c value).optionsEnded = t.optionsEnded := by
  cases value <;> simp [takeOption]

/-- What an argument that was taken does to the listing and to the end of the options. -/
structure Notes (t t' : Taken) (list stop : Prop) : Prop where
  lists : 0 < t'.lists ↔ 0 < t.lists ∨ list
  optionsEnded : t'.optionsEnded = true ↔ t.optionsEnded = true ∨ stop

theorem Notes.of_eq {list stop : Prop} (hlists : t'.lists = t.lists)
    (hended : t'.optionsEnded = t.optionsEnded) (hlist : ¬ list) (hstop : ¬ stop) :
    Notes t t' list stop :=
  ⟨by simp [hlists, hlist], by simp [hended, hstop]⟩

theorem notes_takePositional {argument : String} (h : t.takePositional argument = .ok t') :
    Notes t t' False False := by
  rw [takePositional] at h
  split at h
  · cases h
    exact .of_eq rfl rfl id id
  · cases h

theorem notes_takeLong {name : List Char} {value : Option (List Char)}
    (h : t.takeLong name value = .ok t') : Notes t t' (name = "list".toList) False := by
  have hname : name = "list".toList ↔ String.ofList name = "list" := by
    rw [← String.ofList_inj, String.ofList_toList]
  rw [hname]
  unfold takeLong at h
  split at h <;> cases h
  case h_2 heq => exact ⟨by simp [heq], by simp⟩
  all_goals exact .of_eq (by simp) (by simp) (by simp [*]) id

theorem notes_takeShort {cs : List Char} (h : t.takeShort cs = .ok t') :
    Notes t t' ('l' ∈ cs.takeWhile fun c => c != 's' && c != 'S') False := by
  fun_induction takeShort t cs with
  | case1 =>
    cases h
    exact .of_eq rfl rfl (by simp) id
  | case2 t cs ih | case3 t cs ih =>
    obtain ⟨hlists, hended⟩ := ih h
    exact ⟨by simpa using hlists, hended⟩
  | case4 t cs | case5 t cs =>
    cases h
    exact .of_eq (by simp) (by simp) (by simp) id
  | case6 | case7 | case8 => cases h

theorem notes_takeDashed {argument : String} (hdash : argument.toList.head? = some '-')
    (hlength : argument.toList.length ≠ 1) (h : t.takeDashed argument.toList = .ok t') :
    Notes t t' (asksForList argument) (argument = "--") := by
  rw [← String.toList_inj]
  unfold asksForList
  unfold takeDashed at h
  generalize argument.toList = cs at *
  split at h
  · cases h
    exact ⟨by simp, by simp⟩
  · rename_i cs hstop
    obtain ⟨hlists, hended⟩ := notes_takeLong h
    have hcs : cs ≠ [] := by simpa using hstop
    exact ⟨by simpa using hlists, by simpa [hcs] using hended⟩
  · rename_i hstop hlong
    obtain ⟨hlists, hended⟩ := notes_takeShort h
    obtain ⟨cs, rfl⟩ := List.head?_eq_some_iff.mp hdash
    have hcs : ∀ rest, cs ≠ '-' :: rest := fun rest hrest => hlong rest (by rw [hrest])
    refine ⟨?_, ?_⟩
    · rw [hlists]
      split <;> simp_all
    · simpa [hcs] using hended

theorem notes_take {argument : String} (h : t.take argument = .ok t') :
    Notes t t' (t.optionsEnded = false ∧ asksForList argument)
      (t.optionsEnded = false ∧ argument = "--") := by
  rw [take] at h
  by_cases hended : t.optionsEnded = true
  · rw [if_pos hended] at h
    obtain ⟨hlists, hstop⟩ := notes_takePositional h
    exact ⟨by simpa [hended] using hlists, by simpa [hended] using hstop⟩
  rw [if_neg hended] at h
  simp only [Bool.not_eq_true] at hended
  simp only [hended, true_and]
  split at h
  · rename_i hdash
    simp only [Bool.and_eq_true, beq_iff_eq, bne_iff_ne] at hdash
    exact notes_takeDashed hdash.1 hdash.2 h
  · rename_i hdash
    have hlist : ¬ asksForList argument := by
      unfold asksForList
      split <;> simp_all
    have hstop : argument ≠ "--" := by
      rintro rfl
      exact hdash (by decide)
    split at h
    · cases h
      exact .of_eq (by simp) (by simp) hlist hstop
    · obtain ⟨hlists, hstopped⟩ := notes_takePositional h
      exact ⟨by simpa [hlist] using hlists, by simpa [hstop] using hstopped⟩

theorem lists_takeAll {arguments : List String} (h : arguments.foldlM take t = .ok t') :
    0 < t'.lists ↔ 0 < t.lists ∨ t.optionsEnded = false ∧ AsksForList arguments := by
  induction arguments generalizing t with
  | nil =>
      cases h
      simp [AsksForList]
  | cons a arguments ih =>
      rw [List.foldlM_cons] at h
      cases htake : t.take a with
      | error reply =>
          rw [htake] at h
          cases h
      | ok u =>
          rw [htake] at h
          obtain ⟨hlists, hended⟩ := notes_take htake
          have hnone : a = "--" → asksForList a = false := by
            rintro rfl
            rfl
          rw [ih h, hlists, asksForList_cons_iff, ← Bool.not_eq_true u.optionsEnded, hended]
          cases t.optionsEnded <;> grind

theorem task?_eq_list_iff {input : String} {task : Task} (h : t.task? = some (input, task)) :
    task = .list ↔ 0 < t.lists := by
  rw [task?] at h
  split at h
  · cases h
  · split at h
    · cases h
      simp [*]
    · obtain ⟨output, -, heq⟩ := Option.map_eq_some_iff.mp h
      cases heq
      simp [*]

end Taken

theorem Request.task_eq_list_iff {arguments : List String} {q : Request}
    (h : Request.ofArguments arguments = .ok q) : q.task = .list ↔ AsksForList arguments := by
  rw [ofArguments] at h
  cases htaken : arguments.foldlM Taken.take {} with
  | error reply =>
      rw [htaken] at h
      cases h
  | ok t =>
      rw [htaken] at h
      change t.request = .ok q at h
      rw [Taken.request] at h
      have hlists : 0 < t.lists ↔ AsksForList arguments := by
        simpa using Taken.lists_takeAll htaken
      rw [← hlists]
      split at h
      · cases h
      · rename_i input task htask
        split at h
        · cases h
        · split at h
          · cases h
          · cases h
            exact Taken.task?_eq_list_iff htask

end MachO.CommandLine
