import SpecCoverage.Proofs.Specifications.Resolution

/-!
# What matching reads off the functions

Matching looks at the names of the functions, and at their order only where two names differ in case: of those the
first one is found.  So it gives the same for two lists of names that agree up to order (`AgreeUpToOrder`), and each
step of the cascade does:

* (carried, exact) whether a name is there does not depend on the order (`carriesOver_congr`);
* (up to case) the first of a class of names is the same by assumption (`AgreeUpToOrder.firstUpToCase?_eq`);
* (fuzzy) a name is the only one if all others equal it, however often it comes (`onlyOne?_congr`).
-/

namespace SpecCoverage.Specifications

open Text

/-- The first name that differs from the given one in case only. -/
def firstUpToCase? (names : List String) (name : String) : Option String :=
  names.find? fun other => lowercase other = lowercase name

/-- The same names, and from each class of names that differ in case only the same one first. -/
structure AgreeUpToOrder (names others : List String) : Prop where
  mem_iff : ∀ name, name ∈ names ↔ name ∈ others
  first_eq : ∀ name ∈ names, firstUpToCase? names name = firstUpToCase? others name

/-- No two names differ in case only. -/
def DistinctUpToCase (names : List String) : Prop :=
  ∀ name ∈ names, ∀ other ∈ names, lowercase name = lowercase other → name = other

instance (names : List String) : Decidable (DistinctUpToCase names) :=
  inferInstanceAs (Decidable (∀ name ∈ names, ∀ other ∈ names, lowercase name = lowercase other → name = other))

variable {names others : List String}

/-! ## Names up to case -/

private theorem firstUpToCase?_congr {name other : String} (h : lowercase name = lowercase other) :
    firstUpToCase? names name = firstUpToCase? names other := by
  rw [firstUpToCase?, firstUpToCase?, h]

private theorem firstUpToCase?_eq_none_iff {name : String} :
    firstUpToCase? names name = none ↔ ∀ other ∈ names, lowercase other ≠ lowercase name := by
  simp [firstUpToCase?]

/-- The class of a name that is none of the names is empty in both lists. -/
theorem AgreeUpToOrder.firstUpToCase?_eq (h : AgreeUpToOrder names others) (name : String) :
    firstUpToCase? names name = firstUpToCase? others name := by
  by_cases found : ∃ other ∈ names, lowercase other = lowercase name
  · obtain ⟨other, present, same⟩ := found
    rw [← firstUpToCase?_congr same, ← firstUpToCase?_congr same]
    exact h.first_eq other present
  · have absent : ∀ other ∈ names, lowercase other ≠ lowercase name := fun other present same =>
      found ⟨other, present, same⟩
    rw [firstUpToCase?_eq_none_iff.2 absent, eq_comm, firstUpToCase?_eq_none_iff]
    intro other present
    exact absent other ((h.mem_iff other).2 present)

/-- The only name of its class is the first one. -/
private theorem firstUpToCase?_of_distinct (distinct : DistinctUpToCase names) {name : String}
    (present : name ∈ names) :
    firstUpToCase? names name = some name := by
  cases h : firstUpToCase? names name with
  | none => exact absurd rfl (firstUpToCase?_eq_none_iff.1 h name present)
  | some first =>
    have same : lowercase first = lowercase name := by simpa using List.find?_some h
    rw [distinct first (List.mem_of_find?_eq_some h) name present same]

theorem DistinctUpToCase.congr (distinct : DistinctUpToCase names) (h : ∀ name, name ∈ names ↔ name ∈ others) :
    DistinctUpToCase others := fun name present other present' =>
  distinct name ((h name).2 present) other ((h other).2 present')

/-- Where no two names differ in case only, the order and the repetitions do not matter. -/
private theorem agreeUpToOrder_of_distinct (distinct : DistinctUpToCase names)
    (h : ∀ name, name ∈ names ↔ name ∈ others) : AgreeUpToOrder names others := by
  refine ⟨h, fun name present => ?_⟩
  rw [firstUpToCase?_of_distinct distinct present,
    firstUpToCase?_of_distinct (distinct.congr h) ((h name).1 present)]

/-- A name that has come before does not count again. -/
private theorem agreeUpToOrder_of_repeated {front : List String} {name : String} (earlier : name ∈ front)
    (back : List String) : AgreeUpToOrder (front ++ back) (front ++ name :: back) := by
  refine ⟨fun other => ?_, fun other _ => ?_⟩
  · simp only [List.mem_append, List.mem_cons]
    constructor
    · rintro (h | h)
      · exact .inl h
      · exact .inr (.inr h)
    · rintro (h | rfl | h)
      · exact .inl h
      · exact .inl earlier
      · exact .inr h
  · rw [firstUpToCase?, firstUpToCase?, List.find?_append, List.find?_append, List.find?_cons]
    cases h : front.find? fun first => lowercase first = lowercase other with
    | some first => rfl
    | none =>
      -- the name stands in front as well, where nothing of the class has been found
      have outside : ¬ lowercase name = lowercase other := by simpa using List.find?_eq_none.1 h name earlier
      simp [outside]

/-! ## The steps of the cascade -/

theorem onlyOne?_congr (h : ∀ name, name ∈ names ↔ name ∈ others) : onlyOne? names = onlyOne? others := by
  apply Option.ext
  intro name
  simp only [onlyOne?_eq_some_iff, h]

private theorem contains_congr (h : ∀ name, name ∈ names ↔ name ∈ others) (name : String) :
    names.contains name = others.contains name := by
  rw [Bool.eq_iff_iff, List.contains_iff_mem, List.contains_iff_mem, h]

theorem carriesOver_congr (h : ∀ name, name ∈ names ↔ name ∈ others) (policy : Policy) (s : Specification) :
    carriesOver names policy s = carriesOver others policy s := by
  simp only [carriesOver, contains_congr h]

private theorem AgreeUpToOrder.resolveCandidate_eq (h : AgreeUpToOrder names others) (candidate : String) :
    resolveCandidate names candidate = resolveCandidate others candidate := by
  have first : (names.find? fun name => lowercase name = lowercase candidate)
      = others.find? fun name => lowercase name = lowercase candidate := h.firstUpToCase?_eq candidate
  have related : onlyOne? (names.filter fun name => areRelated name candidate)
      = onlyOne? (others.filter fun name => areRelated name candidate) :=
    onlyOne?_congr fun name => by rw [List.mem_filter, List.mem_filter, h.mem_iff]
  rw [resolveCandidate, resolveCandidate, contains_congr h.mem_iff, first, related]

private theorem AgreeUpToOrder.resolve_eq (h : AgreeUpToOrder names others) (policy : Policy) (s : Specification) :
    resolve names policy s = resolve others policy s := by
  simp only [resolve, carriesOver_congr h.mem_iff, h.resolveCandidate_eq]

private theorem AgreeUpToOrder.matchAll_eq (h : AgreeUpToOrder names others) (policy : Policy)
    (specifications : List Specification) :
    matchAll specifications names policy = matchAll specifications others policy := by
  refine List.map_congr_left fun s _ => ?_
  rw [matchOne, matchOne, h.resolve_eq]

/-! ## Matching -/

/-- Matching gives the same for names that agree up to order.  In particular a name that has come before does not
count again, and where no two names differ in case only, neither order nor repetition matters. -/
theorem matchAll_congr_names (specifications : List Specification) (policy : Policy) :
    (∀ names others, AgreeUpToOrder names others →
      matchAll specifications names policy = matchAll specifications others policy) ∧
    (∀ front back name, name ∈ front →
      matchAll specifications (front ++ back) policy = matchAll specifications (front ++ name :: back) policy) ∧
    (∀ names others, DistinctUpToCase names → (∀ name, name ∈ names ↔ name ∈ others) →
      matchAll specifications names policy = matchAll specifications others policy) := by
  refine ⟨fun _ _ h => h.matchAll_eq policy specifications, fun _ back _ earlier => ?_, fun _ _ distinct same => ?_⟩
  · exact (agreeUpToOrder_of_repeated earlier back).matchAll_eq policy specifications
  · exact (agreeUpToOrder_of_distinct distinct same).matchAll_eq policy specifications

/-- `LOAD` is mapped to the first name that differs from it in case only, wherever the other functions stand and
however often.  `ΑΣ` and `ασ` differ in more than case, as the last letter of `ΑΣ` has another form in lower case. -/
theorem matchAll_congr_names_load :
    AgreeUpToOrder ["Load", "send", "load"] ["send", "Load", "send", "load"] ∧
      DistinctUpToCase ["Load", "send"] ∧
      matchAll [{ description := "LOAD: loads" }] ["send", "Load", "send", "load"] {}
        = [{ description := "LOAD: loads", function := some "Load", confidence := some 90 }] ∧
      matchAll [{ description := "LOAD: loads" }] ["Load", "Load", "send"] {}
        = matchAll [{ description := "LOAD: loads" }] ["send", "Load"] {} ∧
      DistinctUpToCase ["ΑΣ", "ασ"] ∧
      matchAll [{ description := "run: runs" }] ["ΑΣ", "ασ"] {}
        = matchAll [{ description := "run: runs" }] ["ασ", "ΑΣ"] {} := by
  have agree : AgreeUpToOrder ["Load", "send", "load"] ["send", "Load", "send", "load"] :=
    ⟨fun name => by simp only [List.mem_cons]; grind, by decide +kernel⟩
  have distinct : DistinctUpToCase ["Load", "send"] := by decide +kernel
  have distinct' : DistinctUpToCase ["ΑΣ", "ασ"] := by decide +kernel
  refine ⟨agree, distinct, ?_, ?_, distinct', ?_⟩
  · rw [← (matchAll_congr_names [{ description := "LOAD: loads" }] {}).1 _ _ agree]
    decide +kernel
  · -- the repetition goes first, then the order
    obtain ⟨-, repeated, reordered⟩ := matchAll_congr_names [{ description := "LOAD: loads" }] {}
    calc matchAll _ ["Load", "Load", "send"] {} = matchAll _ ["Load", "send"] {} :=
          (repeated ["Load"] ["send"] "Load" List.mem_cons_self).symm
      _ = matchAll _ ["send", "Load"] {} :=
          reordered _ _ distinct fun name => by simp only [List.mem_cons]; grind
  · obtain ⟨-, -, reordered⟩ := matchAll_congr_names [{ description := "run: runs" }] {}
    exact reordered _ _ distinct' fun name => by simp only [List.mem_cons]; grind

end SpecCoverage.Specifications
