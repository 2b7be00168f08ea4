import Mathlib.Data.List.TakeWhile
import SpecCoverage.Configuration.Settings
import SpecCoverage.Proofs.Except
import SpecCoverage.Proofs.Specifications.Stability

/-!
# Configurations and their settings

A configuration has settings exactly if its values are valid once the defaults are filled in: a single value of a
configuration may be wrong beside the default of another.  What a valid configuration sets is what its settings have,
and they have the default for the rest (`resolveWith_eq_ok_iff`); so the options of an analysis keep within the bounds
of the configuration.  All this is for any reader of patterns.
-/

namespace SpecCoverage.Configuration

open Files Specifications

/-! ## Values with the defaults filled in -/

def WeightOverrides.weight? (w : WeightOverrides) : Evidence → Option Nat
  | .callSignature => w.callSignature
  | .boldBullet => w.boldBullet
  | .codeBlock => w.codeBlock
  | .sectionMention => w.sectionMention

/-- The values of a policy. -/
inductive PolicyLevel where
  | carryThreshold
  | exact
  | caseInsensitive
  | fuzzy
deriving DecidableEq, Repr

namespace PolicyLevel

def value (level : PolicyLevel) (p : Policy) : Nat :=
  match level with
  | carryThreshold => p.carryThreshold
  | exact => p.exact
  | caseInsensitive => p.caseInsensitive
  | fuzzy => p.fuzzy

def override? (level : PolicyLevel) (p : PolicyOverrides) : Option Nat :=
  match level with
  | carryThreshold => p.carryThreshold
  | exact => p.exact
  | caseInsensitive => p.caseInsensitive
  | fuzzy => p.fuzzy

end PolicyLevel

namespace Config

/-- The weight that a configuration sets, else the default. -/
def weightOf (c : Config) (e : Evidence) : Nat :=
  (c.evidence.bind fun w => w.weight? e).getD (({} : Weights).weight e)

/-- The value of the policy that a configuration sets, else the default. -/
def levelOf (c : Config) (level : PolicyLevel) : Nat :=
  (c.matching.bind level.override?).getD (level.value {})

/-- The patterns that a configuration excludes, else the default. -/
def excludedPatterns (c : Config) : List String := if c.excludes = [] then defaultExcludes else c.excludes

private theorem weights_eq_iff {c : Config} {w : Weights} : c.weights = w ↔ ∀ e, w.weight e = c.weightOf e := by
  have same : ∀ e, c.weights.weight e = c.weightOf e := fun e => by
    cases h : c.evidence <;> cases e <;> simp [weights, weightOf, Weights.weight, WeightOverrides.weight?, h]
  simp only [← same]
  constructor
  · rintro rfl e
    rfl
  · intro h
    obtain ⟨_, _, _, _⟩ := w
    exact (Weights.mk.injEq ..).mpr
      ⟨(h .callSignature).symm, (h .boldBullet).symm, (h .codeBlock).symm, (h .sectionMention).symm⟩

private theorem policy_eq_iff {c : Config} {p : Policy} : c.policy = p ↔ ∀ level, level.value p = c.levelOf level := by
  have same : ∀ level : PolicyLevel, level.value c.policy = c.levelOf level := fun level => by
    cases h : c.matching <;> cases level <;> simp [policy, levelOf, PolicyLevel.value, PolicyLevel.override?, h]
  simp only [← same]
  constructor
  · rintro rfl level
    rfl
  · intro h
    obtain ⟨_, _, _, _⟩ := p
    exact (Policy.mk.injEq ..).mpr
      ⟨(h .carryThreshold).symm, (h .exact).symm, (h .caseInsensitive).symm, (h .fuzzy).symm⟩

private theorem weight_weights (c : Config) (e : Evidence) : c.weights.weight e = c.weightOf e := weights_eq_iff.1 rfl e

private theorem value_policy (c : Config) (level : PolicyLevel) : level.value c.policy = c.levelOf level :=
  policy_eq_iff.1 rfl level

/-- What the values of a configuration have to meet, the defaults among them. -/
structure IsValid (read : PatternReader) (c : Config) : Prop where
  weight_le : ∀ e, c.weightOf e ≤ maxConfidence
  level_le : ∀ level, c.levelOf level ≤ maxConfidence
  caseInsensitive_le_exact : c.levelOf .caseInsensitive ≤ c.levelOf .exact
  fuzzy_le_caseInsensitive : c.levelOf .fuzzy ≤ c.levelOf .caseInsensitive
  carryThreshold_lt : c.levelOf .carryThreshold < c.levelOf .caseInsensitive
  /-- No extension consists of dots only. -/
  extensions : ∀ extension ∈ c.documentationExtensions, ∃ char ∈ extension.toList, char ≠ '.'
  patterns : ∀ pattern ∈ c.includes ++ c.excludedPatterns, (read pattern).isSome = true

end Config

/-! ## Errors -/

private theorem mem_all_evidence (e : Evidence) : e ∈ Evidence.all := by
  cases e <;> simp [Evidence.all]

private theorem withoutDots_eq_empty_iff {extension : String} :
    withoutDots extension = "" ↔ ∀ char ∈ extension.toList, char = '.' := by
  rw [withoutDots, ← String.toList_eq_nil_iff, String.toList_ofList, List.dropWhile_eq_nil_iff]
  simp

namespace Config

private theorem weightError?_eq_none_iff {w : Weights} : weightError? w = none ↔ ∀ e, w.weight e ≤ maxConfidence := by
  rw [weightError?, Option.map_eq_none_iff, List.find?_eq_none]
  constructor
  · intro h e
    exact Nat.not_lt.1 fun above => h e (mem_all_evidence e) (decide_eq_true above)
  · intro h e _
    simpa using h e

private theorem extensionError?_eq_none_iff {extensions : List String} :
    extensionError? extensions = none ↔ ∀ extension ∈ extensions, ∃ char ∈ extension.toList, char ≠ '.' := by
  rw [extensionError?, ite_eq_right_iff]
  simp [withoutDots_eq_empty_iff]

private theorem patternError?_eq_none_iff {read : PatternReader} {field : PatternField} {patterns : List String} :
    patternError? read field patterns = none ↔ ∀ pattern ∈ patterns, (read pattern).isSome = true := by
  rw [patternError?, Option.map_eq_none_iff, List.find?_eq_none]
  simp [Option.isSome_iff_ne_none]

/-- The policy of a configuration is valid if its values are. -/
private theorem isValid_policy_iff {c : Config} :
    c.policy.IsValid ↔ (∀ level, c.levelOf level ≤ maxConfidence) ∧
      c.levelOf .caseInsensitive ≤ c.levelOf .exact ∧ c.levelOf .fuzzy ≤ c.levelOf .caseInsensitive ∧
      c.levelOf .carryThreshold < c.levelOf .caseInsensitive := by
  simp only [← value_policy]
  constructor
  · rintro ⟨h1, h2, h3, h4, h5, h6, h7⟩
    exact ⟨fun level => by cases level <;> assumption, h5, h6, h7⟩
  · rintro ⟨h, h5, h6, h7⟩
    exact ⟨h .carryThreshold, h .exact, h .caseInsensitive, h .fuzzy, h5, h6, h7⟩

private theorem errorWith?_eq_none_iff {read : PatternReader} {c : Config} :
    c.errorWith? read = none ↔ (∀ e, c.weightOf e ≤ maxConfidence) ∧ c.policy.IsValid ∧
      (∀ extension ∈ c.documentationExtensions, ∃ char ∈ extension.toList, char ≠ '.') ∧
      ∀ pattern ∈ c.includes ++ c.excludes, (read pattern).isSome = true := by
  simp only [errorWith?, Option.or_eq_none_iff, weightError?_eq_none_iff, Option.map_eq_none_iff,
    Policy.error?_eq_none_iff, extensionError?_eq_none_iff, patternError?_eq_none_iff, weight_weights,
    List.forall_mem_append]

/-! ## Globs -/

private theorem globs_eq_ok_iff {read : PatternReader} {patterns : List String} {found : List Glob} :
    globs read patterns = .ok found ↔ patterns.map read = found.map some := by
  induction patterns generalizing found with
  | nil => cases found <;> simp [globs, pure_eq_ok]
  | cons pattern patterns ih =>
    rw [globs, List.mapM_cons, List.map_cons, bind_eq_ok]
    cases read pattern with
    | none => cases found <;> simp
    | some first =>
      simp only [Option.elim_some, Except.ok.injEq, exists_eq_left', bind_eq_ok, pure_eq_ok]
      cases found with
      | nil => simp
      | cons g found =>
        simp only [List.cons.injEq, List.map_cons, Option.some.injEq]
        constructor
        · rintro ⟨rest, hrest, rfl, rfl⟩
          exact ⟨rfl, ih.1 hrest⟩
        · rintro ⟨rfl, h⟩
          exact ⟨found, ih.2 h, rfl, rfl⟩

/-- Patterns have globs if each of them is read. -/
private theorem exists_globs_eq_ok_iff {read : PatternReader} {patterns : List String} :
    (∃ found, globs read patterns = .ok found) ↔ ∀ pattern ∈ patterns, (read pattern).isSome = true := by
  simp only [globs_eq_ok_iff]
  constructor
  · rintro ⟨found, h⟩ pattern mem
    have read : read pattern ∈ found.map some := h ▸ List.mem_map_of_mem mem
    obtain ⟨g, -, hg⟩ := List.mem_map.1 read
    rw [← hg]
    rfl
  · intro h
    refine ⟨patterns.filterMap read, ?_⟩
    induction patterns with
    | nil => rfl
    | cons pattern patterns ih =>
      obtain ⟨first, rest⟩ := List.forall_mem_cons.1 h
      obtain ⟨g, hg⟩ := Option.isSome_iff_exists.1 first
      rw [List.map_cons, ih rest, List.filterMap_cons_some hg, List.map_cons, hg]

end Config

/-! ## Settings -/

/-- Settings with the values of a configuration where it sets them, and with the defaults elsewhere. -/
structure Settings.IsResolutionOf (read : PatternReader) (c : Config) (s : Settings) : Prop where
  /-- Without patterns to include there is nothing that a path has to match. -/
  includes : (if c.includes = [] then none else some (c.includes.map read)) = s.includes.map (List.map some)
  excludes : c.excludedPatterns.map read = s.excludes.map some
  documentationExtensions : s.documentationExtensions =
    if c.documentationExtensions = [] then Source.defaultDocumentationExtensions
    else c.documentationExtensions.map withoutDots
  weights : ∀ e, s.weights.weight e = c.weightOf e
  policy : ∀ level, level.value s.policy = c.levelOf level
  parallel : s.parallel = c.parallel.getD false

namespace Config

variable {read : PatternReader} {c : Config} {s : Settings}

private theorem isValid_iff :
    c.IsValid read ↔
      c.errorWith? read = none ∧ ∀ pattern ∈ c.excludedPatterns, (read pattern).isSome = true := by
  rw [errorWith?_eq_none_iff, isValid_policy_iff]
  constructor
  · rintro ⟨h1, h2, h3, h4, h5, h6, patterns⟩
    obtain ⟨included, excluded⟩ := List.forall_mem_append.1 patterns
    refine ⟨⟨h1, ⟨h2, h3, h4, h5⟩, h6, List.forall_mem_append.2 ⟨included, fun pattern mem => ?_⟩⟩, excluded⟩
    -- patterns that are set are not replaced by the default
    refine excluded pattern ?_
    rwa [excludedPatterns, if_neg (List.ne_nil_of_mem mem)]
  · rintro ⟨⟨h1, ⟨h2, h3, h4, h5⟩, h6, patterns⟩, excluded⟩
    exact ⟨h1, h2, h3, h4, h5, h6, List.forall_mem_append.2 ⟨(List.forall_mem_append.1 patterns).1, excluded⟩⟩

private theorem includedGlobs_eq_ok_iff {patterns : List String} {found : Option (List Glob)} :
    includedGlobs read patterns = .ok found ↔
      (if patterns = [] then none else some (patterns.map read)) = found.map (List.map some) := by
  by_cases empty : patterns = []
  · rw [includedGlobs, empty, List.isEmpty_nil, if_pos rfl, if_pos rfl, Except.ok.injEq]
    cases found <;> simp
  · rw [includedGlobs, if_neg (by simpa using empty), if_neg empty, map_eq_ok]
    cases found <;> simp [globs_eq_ok_iff]

private theorem exists_includedGlobs {patterns : List String} (h : ∀ pattern ∈ patterns, (read pattern).isSome = true) :
    ∃ found, includedGlobs read patterns = .ok found := by
  obtain ⟨found, hfound⟩ := exists_globs_eq_ok_iff.2 h
  rw [includedGlobs, hfound]
  by_cases empty : patterns.isEmpty
  · exact ⟨none, if_pos empty⟩
  · exact ⟨some found, if_neg empty⟩

/-- The settings of a configuration are those that resolve it, provided that it is valid. -/
theorem resolveWith_eq_ok_iff : c.resolveWith read = .ok s ↔ c.IsValid read ∧ s.IsResolutionOf read c := by
  rw [resolveWith, isValid_iff]
  cases h : c.errorWith? read with
  | some error => simp
  | none =>
    simp only [bind_eq_ok, includedGlobs_eq_ok_iff, globs_eq_ok_iff, pure_eq_ok, List.isEmpty_iff, true_and]
    constructor
    · rintro ⟨includes, hincludes, excludes, hexcludes, rfl⟩
      exact ⟨exists_globs_eq_ok_iff.1 ⟨excludes, globs_eq_ok_iff.2 hexcludes⟩, hincludes, hexcludes, rfl,
        weight_weights c, value_policy c, rfl⟩
    · rintro ⟨-, r⟩
      refine ⟨s.includes, r.includes, s.excludes, r.excludes, ?_⟩
      rw [weights_eq_iff.2 r.weights, policy_eq_iff.2 r.policy, ← r.documentationExtensions, ← r.parallel]

/-- Nothing but its values keeps a configuration from having settings. -/
private theorem exists_resolveWith_eq_ok_iff : (∃ s, c.resolveWith read = .ok s) ↔ c.IsValid read := by
  constructor
  · rintro ⟨s, h⟩
    exact (resolveWith_eq_ok_iff.1 h).1
  · intro valid
    obtain ⟨includes, hincludes⟩ := exists_includedGlobs (List.forall_mem_append.1 valid.patterns).1
    obtain ⟨excludes, hexcludes⟩ := exists_globs_eq_ok_iff.2 (List.forall_mem_append.1 valid.patterns).2
    rw [includedGlobs_eq_ok_iff] at hincludes
    rw [globs_eq_ok_iff] at hexcludes
    exact ⟨⟨includes, excludes, _, c.weights, c.policy, c.parallel.getD false⟩,
      resolveWith_eq_ok_iff.2 ⟨valid, hincludes, hexcludes, rfl, weight_weights c, value_policy c, rfl⟩⟩

/-- With globs, a configuration in which nothing is found wrong has settings: the default patterns are well formed. -/
private theorem exists_resolve_eq_ok_iff : (∃ s, c.resolve = .ok s) ↔ c.error? = none := by
  refine exists_resolveWith_eq_ok_iff.trans (isValid_iff.trans (and_iff_left_of_imp fun valid => ?_))
  rw [excludedPatterns]
  split
  · decide +kernel
  · exact (List.forall_mem_append.1 (errorWith?_eq_none_iff.1 valid).2.2.2).2

end Config

/-! ## Bounds -/

/-- What an analysis goes by keeps within the bounds of a configuration. -/
structure IsBounded (options : Analysis.Options) : Prop where
  weights : ∀ e, options.weights.weight e ≤ maxConfidence
  policy : options.policy.IsValid

private theorem Settings.IsResolutionOf.isBounded_options {read : PatternReader} {c : Config} {s : Settings}
    (resolved : s.IsResolutionOf read c) (valid : c.IsValid read) : IsBounded s.options := by
  refine ⟨fun e => ?_, ?_⟩
  · show s.weights.weight e ≤ maxConfidence
    rw [resolved.weights]
    exact valid.weight_le e
  · show s.policy.IsValid
    rw [← Config.policy_eq_iff.2 resolved.policy, Config.isValid_policy_iff]
    exact ⟨valid.level_le, valid.caseInsensitive_le_exact, valid.fuzzy_le_caseInsensitive, valid.carryThreshold_lt⟩

/-- An extension as it is compared: it is not empty and has no dot in front. -/
def IsPlainExtension (extension : String) : Prop := extension ≠ "" ∧ extension.toList.head? ≠ some '.'

private theorem isPlainExtension_withoutDots {extension : String} (h : ∃ char ∈ extension.toList, char ≠ '.') :
    IsPlainExtension (withoutDots extension) := by
  refine ⟨fun empty => ?_, fun dotted => ?_⟩
  · obtain ⟨char, mem, other⟩ := h
    exact other (withoutDots_eq_empty_iff.1 empty char mem)
  · have stop := List.head?_dropWhile_not (· = '.') extension.toList
    rw [withoutDots, String.toList_ofList] at dotted
    rw [dotted] at stop
    cases stop

private theorem Settings.IsResolutionOf.isPlainExtension {read : PatternReader} {c : Config} {s : Settings}
    (resolved : s.IsResolutionOf read c) (valid : c.IsValid read) :
    ∀ extension ∈ s.documentationExtensions, IsPlainExtension extension := by
  intro extension mem
  rw [resolved.documentationExtensions] at mem
  split at mem
  · simp only [Source.defaultDocumentationExtensions, List.mem_cons, List.not_mem_nil, or_false] at mem
    rcases mem with rfl | rfl | rfl <;> exact ⟨by decide, by decide⟩
  · obtain ⟨given, hgiven, rfl⟩ := List.mem_map.1 mem
    exact isPlainExtension_withoutDots (valid.extensions given hgiven)

/-- A configuration has settings exactly if its values are valid with the defaults filled in; then each value is the one
that is set or else the default, extensions have no dots in front, and the options of an analysis are bounded. -/
theorem Config.resolveWith_resolves (read : PatternReader) (c : Config) :
    ((∃ s, c.resolveWith read = .ok s) ↔ c.IsValid read) ∧
      ∀ s, c.resolveWith read = .ok s →
        s.IsResolutionOf read c ∧ (∀ extension ∈ s.documentationExtensions, IsPlainExtension extension) ∧
          IsBounded s.options := by
  refine ⟨exists_resolveWith_eq_ok_iff, fun s h => ?_⟩
  obtain ⟨valid, resolved⟩ := resolveWith_eq_ok_iff.1 h
  exact ⟨resolved, resolved.isPlainExtension valid, resolved.isBounded_options valid⟩

/-- A configuration that sets a part of the policy and extensions with dots in front. -/
def dottedConfig : Config where
  documentationExtensions := [".md", "..rst"]
  matching := some { exact := some 91, fuzzy := some 90 }

/-- With 91 for `exact` the default of 90 between it and `fuzzy` is valid, with 89 it is not. -/
theorem Config.resolveWith_resolves_dotted :
    (∃ s, dottedConfig.resolve = .ok s ∧ s.documentationExtensions = ["md", "rst"] ∧ IsBounded s.options) ∧
      ¬ ∃ s, ({ matching := some { exact := some 89 } } : Config).resolve = .ok s := by
  obtain ⟨s, h⟩ : ∃ s, dottedConfig.resolve = .ok s := exists_resolve_eq_ok_iff.2 (by decide +kernel)
  obtain ⟨resolved, -, bounded⟩ := (resolveWith_resolves Glob.ofString? dottedConfig).2 s h
  refine ⟨⟨s, h, resolved.documentationExtensions.trans (by decide), bounded⟩, fun found => ?_⟩
  have valid := (resolveWith_resolves Glob.ofString? _).1.1 found
  exact absurd valid.caseInsensitive_le_exact (by decide)

end SpecCoverage.Configuration
