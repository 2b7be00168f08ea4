import Mathlib.Data.List.Forall2
import SpecCoverage.Proofs.Specifications.Resolution
import SpecCoverage.Specifications.History

/-!
# Records over whole runs

However specifications are added, mapped by hand and matched, each of them stays well formed: its confidence stands
with its function and is one in percent.

* (step) Every step makes well formed specifications of well formed ones (`Record.WellFormed.next`).  What is added or
  mapped is capped on the way; what a match carries over has been well formed before.
* (match) A match changes the mappings only, and maps to functions that there are (`Record.isMatchOf_next`).
* (run) Both hold at every place of every run that starts from nothing (`run_wellFormed_and_isMatchOf`).
-/

namespace SpecCoverage.Specifications

namespace Record

/-! ## One step -/

/-- Every specification of the record is well formed. -/
def WellFormed (r : Record) : Prop := ∀ s ∈ r.specifications, s.WellFormed

private theorem wellFormed_start : WellFormed {} := fun _ h => nomatch h

theorem WellFormed.append {r : Record} (h : r.WellFormed) {added : List Specification}
    (made : ∀ s ∈ added, s.WellFormed) : WellFormed { r with specifications := r.specifications ++ added } := by
  intro s hs
  rcases List.mem_append.1 hs with hs | hs
  · exact h s hs
  · exact made s hs

theorem WellFormed.modify {r : Record} (h : r.WellFormed) (index : Nat) {f : Specification → Specification}
    (made : ∀ s, (f s).WellFormed) :
    WellFormed { r with specifications := r.specifications.modify index f } := by
  intro s hs
  obtain ⟨i, hi⟩ := List.mem_iff_getElem?.1 hs
  rw [List.getElem?_modify] at hi
  obtain ⟨old, hold, rfl⟩ := Option.map_eq_some_iff.1 hi
  split
  · exact made old
  · exact h old (List.mem_of_getElem? hold)

/-- A step keeps specifications well formed, whatever weights, confidences and policy it brings. -/
theorem WellFormed.next {r : Record} (h : r.WellFormed) (step : Step) : (r.next step).WellFormed := by
  cases step with
  | extract text weights => exact h.append fun s hs => wellFormed_of_mem_extract hs
  | state description => exact h.append (List.forall_mem_singleton.2 ⟨rfl, fun _ hc => nomatch hc⟩)
  | record description function evidence weights =>
    exact h.append (List.forall_mem_singleton.2 (Specification.wellFormed_of_mapped rfl rfl))
  | assign index function confidence =>
    exact h.modify index fun s => Specification.wellFormed_of_mapped rfl rfl
  | release index => exact h.modify index Specification.wellFormed_unmapped
  | rename names => exact h
  | rematch policy =>
    intro s hs
    obtain ⟨old, hold, rfl⟩ := List.mem_map.1 hs
    exact (h old hold).matchOne r.names policy

/-- The record after a match: the specifications in their places, with the descriptions and the evidence that they had,
and mapped to functions that there are. -/
structure IsMatchOf (after before : Record) : Prop where
  names_eq : after.names = before.names
  kept : List.Forall₂ (fun s s' => s'.description = s.description ∧ s'.evidence = s.evidence)
    before.specifications after.specifications
  mem_names : ∀ s ∈ after.specifications, ∀ name, s.function = some name → name ∈ after.names

theorem isMatchOf_next (r : Record) (policy : Policy) : (r.next (.rematch policy)).IsMatchOf r := by
  refine ⟨rfl, ?_, ?_⟩
  · refine List.forall₂_map_right_iff.2 (List.forall₂_same.2 fun s _ => ?_)
    exact Resolution.apply_frame policy s _
  · intro s hs name mapped
    obtain ⟨old, -, rfl⟩ := List.mem_map.1 hs
    exact mem_of_function_matchOne mapped

/-! ## Runs -/

theorem WellFormed.run {r : Record} (h : r.WellFormed) (steps : List Step) :
    ∀ after ∈ r.run steps, after.WellFormed := by
  induction steps generalizing r with
  | nil => exact fun _ hafter => nomatch hafter
  | cons step steps ih => exact List.forall_mem_cons.2 ⟨h.next step, ih (h.next step)⟩

/-- The record at a place of a run is made by the step there from the record before it. -/
private theorem exists_next_of_getElem? {steps : List Step} {i : Nat} {step : Step} (r : Record)
    (hstep : steps[i]? = some step) :
    ∃ before, (r :: r.run steps)[i]? = some before ∧ (r.run steps)[i]? = some (before.next step) := by
  induction steps generalizing r i with
  | nil => cases hstep
  | cons first steps ih =>
    cases i with
    | zero =>
      obtain rfl := Option.some.inj hstep
      exact ⟨r, rfl, rfl⟩
    | succ i => exact ih (r.next first) hstep

end Record

/-- In every run that starts from nothing all specifications are well formed at all times, and each match leaves
everything but the mappings, which it makes to functions that there are. -/
theorem run_wellFormed_and_isMatchOf (steps : List Step) :
    (∀ r ∈ Record.run {} steps, r.WellFormed) ∧
      ∀ (i : Nat) (policy : Policy), steps[i]? = some (.rematch policy) →
        ∃ before after, ({} :: Record.run {} steps)[i]? = some before ∧ (Record.run {} steps)[i]? = some after ∧
          after.IsMatchOf before := by
  refine ⟨Record.wellFormed_start.run steps, fun i policy hstep => ?_⟩
  obtain ⟨before, hbefore, hafter⟩ := Record.exists_next_of_getElem? {} hstep
  exact ⟨before, _, hbefore, hafter, Record.isMatchOf_next before policy⟩

/-- One step of each kind, with weights and confidences above the highest and a policy without bounds. -/
def mixedSteps : List Step :=
  [.extract "- **load**: Loads.\n" { boldBullet := 255 }, .state "send: sends",
   .record "save(): saves" "save" .codeBlock { codeBlock := 200 }, .assign 1 "gone" 255, .release 2,
   .rename ["Send", "load"], .rematch { carryThreshold := 255, exact := 101, caseInsensitive := 255 }]

theorem run_mixedSteps :
    (∃ r ∈ Record.run {} mixedSteps, r.WellFormed ∧ r.specifications.map Specification.function
        = [some "load", some "Send", none]) ∧
      mixedSteps[6]? = some (.rematch { carryThreshold := 255, exact := 101, caseInsensitive := 255 }) ∧
        ∃ before after, ({} :: Record.run {} mixedSteps)[6]? = some before ∧
          (Record.run {} mixedSteps)[6]? = some after ∧ after.IsMatchOf before := by
  obtain ⟨wellFormed, matched⟩ := run_wellFormed_and_isMatchOf mixedSteps
  have last : ∃ r ∈ Record.run {} mixedSteps, r.specifications.map Specification.function
      = [some "load", some "Send", none] := by decide +kernel
  obtain ⟨r, hr, mapped⟩ := last
  exact ⟨⟨r, hr, wellFormed r hr, mapped⟩, rfl, matched 6 _ rfl⟩

end SpecCoverage.Specifications
