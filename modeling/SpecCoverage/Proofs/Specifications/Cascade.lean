import SpecCoverage.Proofs.Specifications.Resolution

/-!
# The best available step

What matching gives is said here without the cascade that finds it: which name a description offers (`Offers`), which
function is the best for a name and how sure that is (`IsBest`), and when there is none (`HasNone`).  A specification
that is not carried over ends mapped exactly to the best function for the name that its description offers, and
unmapped exactly when it offers no name or there is none for it (`matchOne_isBest_iff`).

* (candidate) the name that is read is the one that the description offers (`candidate?_eq_some_iff`);
* (functions) the cascade carries out the best step (`apply_of_isBest`, `apply_of_hasNone`), and for each name there
  is a best function or none (`exists_isBest_or_hasNone`).
-/

namespace SpecCoverage.Specifications

open Text

/-! ## Names -/

theorem occursIn_iff_infix {piece cs : List Char} : occursIn piece cs = true ↔ piece <:+: cs := by
  induction cs with
  | nil => rw [occursIn, List.isEmpty_iff, List.infix_nil]
  | cons c cs ih => rw [occursIn, Bool.or_eq_true, List.isPrefixOf_iff_prefix, ih, List.infix_cons_iff]

/-- One of two names contains the other. -/
def IsRelated (a b : String) : Prop := a.toList <:+: b.toList ∨ b.toList <:+: a.toList

private theorem areRelated_iff {a b : String} : areRelated a b = true ↔ IsRelated a b := by
  rw [areRelated, Bool.or_eq_true, occursIn_iff_infix, occursIn_iff_infix, IsRelated]

/-- A description begins with a name, in front of a parenthesis or a colon. -/
def Offers (description candidate : String) : Prop :=
  candidate ≠ "" ∧ (∀ c ∈ candidate.toList, isNameChar c = true) ∧
    ∃ mark rest, (mark = '(' ∨ mark = ':') ∧ description.toList = candidate.toList ++ mark :: rest

theorem candidate?_eq_some_iff {description candidate : String} :
    candidate? description = some candidate ↔ Offers description candidate := by
  constructor
  · intro h
    -- the run that is read is the name, and the mark behind it is the one that is looked for
    have read : ∀ {name rest : List Char} {mark : Char}, (mark = '(' ∨ mark = ':') →
        run? isNameChar description.toList = some (name, mark :: rest) →
          Offers description (String.ofList name) := by
      intro name rest mark hmark hrun
      obtain ⟨hne, hall, split⟩ := run?_eq_some hrun
      refine ⟨?_, by rwa [String.toList_ofList], mark, rest, hmark, by rw [String.toList_ofList, split]⟩
      rintro empty
      exact hne (by simpa using congrArg String.toList empty)
    unfold candidate? at h
    split at h
    · next hrun => cases h; exact read (.inl rfl) hrun
    · next hrun => cases h; exact read (.inr rfl) hrun
    · cases h
  · rintro ⟨hne, hall, mark, rest, hmark, split⟩
    have nonempty : candidate.toList ≠ [] := fun h => hne (String.toList_inj.1 (by simpa using h))
    have stop : isNameChar mark = false := by rcases hmark with rfl | rfl <;> decide
    unfold candidate?
    rw [split, run?_append nonempty hall stop]
    rcases hmark with rfl | rfl <;> simp

/-! ## Functions -/

/-- The best function for a name, and the confidence of that step: the function of this name; else the first whose
name differs in case only; else the only one with a related name. -/
inductive IsBest (names : List String) (policy : Policy) (candidate : String) : String → Nat → Prop
  | exact : candidate ∈ names → IsBest names policy candidate candidate policy.exact
  | caseInsensitive {front back : List String} {name : String} : candidate ∉ names →
      names = front ++ name :: back → lowercase name = lowercase candidate →
      (∀ earlier ∈ front, lowercase earlier ≠ lowercase candidate) →
      IsBest names policy candidate name policy.caseInsensitive
  | fuzzy {name : String} : (∀ other ∈ names, lowercase other ≠ lowercase candidate) →
      name ∈ names → IsRelated name candidate →
      (∀ other ∈ names, IsRelated other candidate → other = name) →
      IsBest names policy candidate name policy.fuzzy

/-- No function is the best for a name: none differs from it in case only, and none or several are related. -/
def HasNone (names : List String) (candidate : String) : Prop :=
  (∀ other ∈ names, lowercase other ≠ lowercase candidate) ∧
    ((∀ other ∈ names, ¬ IsRelated other candidate) ∨
      ∃ a ∈ names, ∃ b ∈ names, a ≠ b ∧ IsRelated a candidate ∧ IsRelated b candidate)

variable {names : List String} {policy : Policy} {candidate : String}

private theorem onlyOne?_related_eq_some_iff {name : String} :
    onlyOne? (names.filter fun other => areRelated other candidate) = some name ↔
      (name ∈ names ∧ IsRelated name candidate) ∧ ∀ other ∈ names, IsRelated other candidate → other = name := by
  simp only [onlyOne?_eq_some_iff, List.mem_filter, areRelated_iff, and_imp]

/-- No name is the only related one if none is related or two different ones are. -/
private theorem onlyOne?_related_eq_none_iff :
    onlyOne? (names.filter fun other => areRelated other candidate) = none ↔
      (∀ other ∈ names, ¬ IsRelated other candidate) ∨
        ∃ a ∈ names, ∃ b ∈ names, a ≠ b ∧ IsRelated a candidate ∧ IsRelated b candidate := by
  rw [Option.eq_none_iff_forall_ne_some]
  simp only [ne_eq, onlyOne?_related_eq_some_iff]
  constructor
  · intro notOnly
    by_cases some : ∃ a ∈ names, IsRelated a candidate
    · obtain ⟨a, ha, related⟩ := some
      have another : ∃ b ∈ names, IsRelated b candidate ∧ b ≠ a := by
        simpa [ha, related] using notOnly a
      obtain ⟨b, hb, related', differs⟩ := another
      exact .inr ⟨a, ha, b, hb, Ne.symm differs, related, related'⟩
    · exact .inl fun other present related => some ⟨other, present, related⟩
  · rintro (unrelated | ⟨a, ha, b, hb, differ, related, related'⟩) name ⟨⟨present, here⟩, only⟩
    · exact unrelated name present here
    · exact differ ((only a ha related).trans (only b hb related').symm)

private theorem find?_eq_none_of_folded (folded : ∀ other ∈ names, lowercase other ≠ lowercase candidate) :
    (names.find? fun name => lowercase name = lowercase candidate) = none := by
  simpa [List.find?_eq_none] using folded

/-- A name that differs from all in case already is not there itself. -/
private theorem not_mem_of_folded (folded : ∀ other ∈ names, lowercase other ≠ lowercase candidate) :
    candidate ∉ names :=
  fun present => folded candidate present rfl

/-! ## The cascade -/

theorem apply_of_isBest {name : String} {value : Nat} (best : IsBest names policy candidate name value)
    (s : Specification) : (resolveCandidate names candidate).apply policy s = s.mappedTo name value := by
  cases best with
  | exact present => simp [resolveCandidate, present, Resolution.apply]
  | caseInsensitive absent split same earlier =>
    have first : (names.find? fun other => lowercase other = lowercase candidate) = some name := by
      rw [List.find?_eq_some_iff_append]
      exact ⟨by simpa using same, _, _, split, fun other h => by simpa using earlier other h⟩
    simp [resolveCandidate, absent, first, Resolution.apply]
  | fuzzy folded present related only =>
    have found : onlyOne? (names.filter fun other => areRelated other candidate) = some name :=
      onlyOne?_related_eq_some_iff.2 ⟨⟨present, related⟩, only⟩
    simp [resolveCandidate, not_mem_of_folded folded, find?_eq_none_of_folded folded, found, Resolution.apply]

theorem apply_of_hasNone (h : HasNone names candidate) (policy : Policy) (s : Specification) :
    (resolveCandidate names candidate).apply policy s = s.unmapped := by
  obtain ⟨folded, notOnly⟩ := h
  have found := onlyOne?_related_eq_none_iff.2 notOnly
  simp [resolveCandidate, not_mem_of_folded folded, find?_eq_none_of_folded folded, found, Resolution.apply]

theorem exists_isBest_or_hasNone (names : List String) (policy : Policy) (candidate : String) :
    (∃ name value, IsBest names policy candidate name value) ∨ HasNone names candidate := by
  rcases resolveCandidate_cases names candidate with
    ⟨-, present⟩ | ⟨name, -, absent, hfind⟩ | ⟨name, -, folded, honly⟩ | ⟨-, folded, honly⟩
  · exact .inl ⟨_, _, .exact present⟩
  · obtain ⟨same, front, back, split, earlier⟩ := List.find?_eq_some_iff_append.1 hfind
    exact .inl ⟨_, _, .caseInsensitive absent split (by simpa using same) fun other h => by simpa using earlier other h⟩
  · obtain ⟨⟨present, related⟩, only⟩ := onlyOne?_related_eq_some_iff.1 honly
    exact .inl ⟨_, _, .fuzzy folded present related only⟩
  · exact .inr ⟨folded, onlyOne?_related_eq_none_iff.1 honly⟩

/-! ## Matching -/

section

variable {s : Specification} (notCarried : carriesOver names policy s ≠ true)
include notCarried

private theorem matchOne_of_offers (offers : Offers s.description candidate) :
    matchOne names policy s = (resolveCandidate names candidate).apply policy s := by
  rw [matchOne, resolve, if_neg notCarried, candidate?_eq_some_iff.2 offers]

private theorem matchOne_of_not_offers (none : ∀ candidate, ¬ Offers s.description candidate) :
    matchOne names policy s = s.unmapped := by
  have unread : candidate? s.description = .none :=
    Option.eq_none_iff_forall_ne_some.2 fun candidate h => none candidate (candidate?_eq_some_iff.1 h)
  rw [matchOne, resolve, if_neg notCarried, unread]
  rfl

/-- What is not carried over ends mapped to the best function for the name that it offers, or unmapped. -/
private theorem matchOne_cases :
    (∃ candidate name value, Offers s.description candidate ∧ IsBest names policy candidate name value ∧
      matchOne names policy s = s.mappedTo name value) ∨
    ((∀ candidate, Offers s.description candidate → HasNone names candidate) ∧
      matchOne names policy s = s.unmapped) := by
  by_cases some : ∃ candidate, Offers s.description candidate
  · obtain ⟨candidate, offers⟩ := some
    have matched := matchOne_of_offers notCarried offers
    rcases exists_isBest_or_hasNone names policy candidate with ⟨name, value, best⟩ | none
    · exact .inl ⟨candidate, name, value, offers, best, matched.trans (apply_of_isBest best s)⟩
    · refine .inr ⟨fun other offers' => ?_, matched.trans (apply_of_hasNone none policy s)⟩
      -- a description offers one name only
      have same : candidate? s.description = some candidate := candidate?_eq_some_iff.2 offers
      rw [candidate?_eq_some_iff.2 offers'] at same
      obtain rfl := Option.some.inj same
      exact none
  · have none : ∀ candidate, ¬ Offers s.description candidate := fun candidate h => some ⟨candidate, h⟩
    exact .inr ⟨fun candidate h => absurd h (none candidate), matchOne_of_not_offers notCarried none⟩

end

/-- A specification that is not mapped, or not above the threshold, or to no function that there is, ends mapped to a
function with a confidence exactly if the function is the best one for the name that its description offers, and the
confidence is that of the step, capped.  It ends unmapped exactly if it offers no name or there is no best function
for it.  Its description and its evidence stay. -/
theorem matchOne_isBest_iff {s : Specification}
    (notCarried : ∀ name confidence, s.function = some name → s.confidence = some confidence →
      policy.carryThreshold < confidence → name ∉ names) :
    (∀ name confidence, (matchOne names policy s).function = some name ∧
        (matchOne names policy s).confidence = some confidence ↔
      ∃ candidate value, Offers s.description candidate ∧ IsBest names policy candidate name value ∧
        confidence = min value maxConfidence) ∧
    ((matchOne names policy s).function = none ∧ (matchOne names policy s).confidence = none ↔
      ∀ candidate, Offers s.description candidate → HasNone names candidate) ∧
    (matchOne names policy s).description = s.description ∧ (matchOne names policy s).evidence = s.evidence := by
  have notCarried : carriesOver names policy s ≠ true := by
    rw [Ne, carriesOver_iff]
    rintro ⟨name, confidence, hf, hc, above, present⟩
    exact notCarried name confidence hf hc above present
  have mapped : ∀ {candidate name value}, Offers s.description candidate →
      IsBest names policy candidate name value → matchOne names policy s = s.mappedTo name value :=
    fun offers best => (matchOne_of_offers notCarried offers).trans (apply_of_isBest best s)
  refine ⟨fun name confidence => ⟨?_, ?_⟩, ⟨?_, ?_⟩, Resolution.apply_frame policy s _⟩
  · rintro ⟨hf, hc⟩
    rcases matchOne_cases notCarried with ⟨candidate, name', value, offers, best, e⟩ | ⟨-, e⟩ <;> rw [e] at hf hc
    · obtain rfl : name' = name := Option.some.inj hf
      exact ⟨candidate, value, offers, best, (Option.some.inj hc).symm⟩
    · cases hf
  · rintro ⟨candidate, value, offers, best, rfl⟩
    rw [mapped offers best]
    exact ⟨rfl, rfl⟩
  · rintro ⟨hf, -⟩
    rcases matchOne_cases notCarried with ⟨_, _, _, _, _, e⟩ | ⟨none, -⟩
    · rw [e] at hf
      cases hf
    · exact none
  · intro none
    rcases matchOne_cases notCarried with ⟨candidate, _, _, offers, best, e⟩ | ⟨-, e⟩
    · -- a best function is carried out, and no other name is offered
      have unmapped := (matchOne_of_offers notCarried offers).trans (apply_of_hasNone (none _ offers) policy s)
      rw [unmapped]
      exact ⟨rfl, rfl⟩
    · rw [e]
      exact ⟨rfl, rfl⟩

/-- A mapping to a function that is gone is given up for the only related one, whose name comes twice. -/
theorem matchOne_isBest_loads :
    (∀ name confidence, some "loadAll" = some name → some 99 = some confidence → 80 < confidence →
        name ∉ ["loadConfig", "send", "loadConfig"]) ∧
      (∀ name confidence,
        (matchOne ["loadConfig", "send", "loadConfig"] { fuzzy := 130 }
            ⟨"load: reads", some "loadAll", some 99, some .boldBullet⟩).function = some name ∧
          (matchOne ["loadConfig", "send", "loadConfig"] { fuzzy := 130 }
            ⟨"load: reads", some "loadAll", some 99, some .boldBullet⟩).confidence = some confidence ↔
        ∃ candidate value, Offers "load: reads" candidate ∧
          IsBest ["loadConfig", "send", "loadConfig"] { fuzzy := 130 } candidate name value ∧
          confidence = min value maxConfidence) ∧
      matchOne ["loadConfig", "send", "loadConfig"] { fuzzy := 130 }
          ⟨"load: reads", some "loadAll", some 99, some .boldBullet⟩
        = ⟨"load: reads", some "loadConfig", some 100, some .boldBullet⟩ := by
  have gone : ∀ name confidence, some "loadAll" = some name → some 99 = some confidence → 80 < confidence →
      name ∉ ["loadConfig", "send", "loadConfig"] := by
    rintro _ _ ⟨⟩ ⟨⟩ -
    decide
  exact ⟨gone, (@matchOne_isBest_iff ["loadConfig", "send", "loadConfig"] { fuzzy := 130 }
    ⟨"load: reads", some "loadAll", some 99, some .boldBullet⟩ gone).1, by decide +kernel⟩

end SpecCoverage.Specifications
