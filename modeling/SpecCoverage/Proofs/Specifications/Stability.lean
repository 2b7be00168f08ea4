import SpecCoverage.Proofs.Specifications.Resolution

/-!
# Matching again

What becomes of specifications that are matched with functions a second time.

* (same functions) Matching a second time changes nothing, whatever the policy (`matchAll_matchAll`).  A
  specification that is carried over stays as it is; any other is resolved by its description, which the first
  time has kept.
* (other functions) Under a policy without an error a function that was found firmly is kept as long as it
  exists (`matchOne_matchOne_of_isFirm`): a firm step leaves a confidence above the threshold, so that the
  specification is carried over.  This is what the bounds of `Policy.IsValid` are for.
-/

namespace SpecCoverage.Specifications

/-! ## Policies without an error -/

/-- The bounds that a policy without an error keeps. -/
structure Policy.IsValid (p : Policy) : Prop where
  carryThreshold_le : p.carryThreshold ≤ maxConfidence
  exact_le : p.exact ≤ maxConfidence
  caseInsensitive_le : p.caseInsensitive ≤ maxConfidence
  fuzzy_le : p.fuzzy ≤ maxConfidence
  caseInsensitive_le_exact : p.caseInsensitive ≤ p.exact
  fuzzy_le_caseInsensitive : p.fuzzy ≤ p.caseInsensitive
  carryThreshold_lt : p.carryThreshold < p.caseInsensitive

theorem Policy.error?_eq_none_iff {p : Policy} : p.error? = none ↔ p.IsValid := by
  unfold Policy.error?
  constructor
  · intro h
    split at h
    · cases h
    · next inRange =>
      obtain ⟨h1, h2, h3, h4⟩ : p.carryThreshold ≤ maxConfidence ∧ p.exact ≤ maxConfidence ∧
          p.caseInsensitive ≤ maxConfidence ∧ p.fuzzy ≤ maxConfidence := by
        simpa [Policy.fields] using inRange
      -- each of the three comparisons would be an error of its own
      iterate 3 (split at h; · cases h)
      exact ⟨h1, h2, h3, h4, by omega, by omega, by omega⟩
  · rintro ⟨h1, h2, h3, h4, h5, h6, h7⟩
    split
    · next field value found =>
      have above : maxConfidence < value := by simpa using List.find?_some found
      have listed := List.mem_of_find?_eq_some found
      simp only [Policy.fields, List.mem_cons, Prod.mk.injEq, List.not_mem_nil, or_false] at listed
      omega
    · simp only [Nat.not_lt.2 h5, Nat.not_lt.2 h6, Nat.not_le.2 h7, if_false]

/-! ## The same functions -/

private theorem matchOne_matchOne (names : List String) (policy : Policy) (s : Specification) :
    matchOne names policy (matchOne names policy s) = matchOne names policy s := by
  by_cases again : carriesOver names policy (matchOne names policy s) = true
  · exact matchOne_of_carriesOver again
  have first : carriesOver names policy s ≠ true := by
    intro h
    rw [matchOne_of_carriesOver h] at again
    exact again h
  have kept : (matchOne names policy s).description = s.description :=
    (Resolution.apply_frame policy s _).1
  have notCarried : resolve names policy s ≠ .carried := fun h => first (resolve_eq_carried_iff.1 h)
  calc matchOne names policy (matchOne names policy s)
      = (resolve names policy s).apply policy (matchOne names policy s) := by
        rw [matchOne, resolve_congr again first kept]
    _ = matchOne names policy s := Resolution.apply_apply policy s notCarried _

/-- Matching specifications again with the same functions changes nothing, whatever the policy and whatever
they were mapped to before. -/
theorem matchAll_matchAll (specifications : List Specification) (names : List String) (policy : Policy) :
    matchAll (matchAll specifications names policy) names policy
      = matchAll specifications names policy := by
  simp only [matchAll, List.map_map]
  exact List.map_congr_left fun s _ => matchOne_matchOne names policy s

/-! ## Other functions -/

/-- A firm step finds a function by its name; the last step of the cascade only guesses. -/
def Resolution.isFirm : Resolution → Bool
  | carried => true
  | exact _ => true
  | caseInsensitive _ => true
  | fuzzy _ => false
  | none => false

/-- A firm step leaves a confidence above the threshold. -/
private theorem exists_confidence_of_isFirm {policy : Policy} (valid : policy.IsValid) {names : List String}
    {s : Specification} (firm : (resolve names policy s).isFirm = true) :
    ∃ confidence, (matchOne names policy s).confidence = some confidence ∧
      policy.carryThreshold < confidence := by
  unfold matchOne
  cases h : resolve names policy s with
  | carried =>
    obtain ⟨_, confidence, _, hc, above, _⟩ := carriesOver_iff.1 (resolve_eq_carried_iff.1 h)
    exact ⟨confidence, hc, above⟩
  | exact name =>
    -- the policy's own value stands, since it is not above the highest confidence
    refine ⟨policy.exact, congrArg some (Nat.min_eq_left valid.exact_le), ?_⟩
    exact Nat.lt_of_lt_of_le valid.carryThreshold_lt valid.caseInsensitive_le_exact
  | caseInsensitive name =>
    have stands : min policy.caseInsensitive maxConfidence = policy.caseInsensitive :=
      Nat.min_eq_left valid.caseInsensitive_le
    exact ⟨policy.caseInsensitive, congrArg some stands, valid.carryThreshold_lt⟩
  | fuzzy name => rw [h] at firm; cases firm
  | none => rw [h] at firm; cases firm

/-- Under a policy without an error, a specification that a firm step has mapped to a function stays as it is
when it is matched with other functions, as long as that function is among them. -/
theorem matchOne_matchOne_of_isFirm {policy : Policy} (valid : policy.error? = none)
    {names others : List String} {s : Specification} {name : String}
    (firm : (resolve names policy s).isFirm = true) (mapped : (matchOne names policy s).function = some name)
    (present : name ∈ others) :
    matchOne others policy (matchOne names policy s) = matchOne names policy s := by
  obtain ⟨confidence, hc, above⟩ := exists_confidence_of_isFirm (Policy.error?_eq_none_iff.1 valid) firm
  have carried : carriesOver others policy (matchOne names policy s) = true :=
    carriesOver_iff.2 ⟨name, confidence, mapped, hc, above, present⟩
  exact matchOne_of_carriesOver carried

/-- The tightest policy without an error: a match up to case is one above the threshold, and none is higher. -/
def Policy.tight : Policy := { carryThreshold := 99, exact := 100, caseInsensitive := 100 }

theorem matchOne_matchOne_getUser :
    Policy.tight.error? = none ∧
      resolve ["GetUser", "GETUSER"] .tight { description := "getuser: loads" } = .caseInsensitive "GetUser" ∧
      matchOne ["send", "getuser", "GetUser"] .tight
          (matchOne ["GetUser", "GETUSER"] .tight { description := "getuser: loads" })
        = matchOne ["GetUser", "GETUSER"] .tight { description := "getuser: loads" } := by
  have valid : Policy.tight.error? = none := by decide
  have found : resolve ["GetUser", "GETUSER"] .tight { description := "getuser: loads" }
      = .caseInsensitive "GetUser" := by decide +kernel
  have mapped : (matchOne ["GetUser", "GETUSER"] .tight { description := "getuser: loads" }).function
      = some "GetUser" := by rw [matchOne, found]; rfl
  exact ⟨valid, found, matchOne_matchOne_of_isFirm valid (by rw [found]; rfl) mapped (by decide)⟩

end SpecCoverage.Specifications
