import SpecCoverage.Proofs.Configuration.Resolution
import SpecCoverage.Proofs.Files.Glob

/-!
# The patterns of settings

The patterns choose among paths by their text.  Settings may make no difference between a path and the path with `./`
in front, if none of their patterns does (`Settings.IgnoresCurrent.covers_current`).  The settings of a configuration
without patterns are of this kind (`ignoresCurrent_of_resolve`): what they exclude by default begins with `**/` and
either a name or any name with an extension.
-/

namespace SpecCoverage.Configuration

open Files

/-- The settings without patterns. -/
def Settings.withoutGlobs (s : Settings) : Settings := { s with includes := none, excludes := [] }

@[simp]
theorem Settings.covers_withoutGlobs (s : Settings) (path : String) : s.withoutGlobs.covers path = true := rfl

/-- No pattern makes a difference between a path and the path with `./` in front. -/
structure Settings.IgnoresCurrent (s : Settings) : Prop where
  includes : ∀ globs ∈ s.includes, ∀ g ∈ globs, g.IgnoresCurrent
  excludes : ∀ g ∈ s.excludes, g.IgnoresCurrent

private theorem any_covers_current {globs : List Glob} (h : ∀ g ∈ globs, g.IgnoresCurrent) (path : String) :
    (globs.any fun g => g.covers ("./" ++ path)) = globs.any fun g => g.covers path := by
  induction globs with
  | nil => rfl
  | cons g globs ih =>
    obtain ⟨hg, hglobs⟩ := List.forall_mem_cons.1 h
    rw [List.any_cons, List.any_cons, hg path, ih hglobs]

theorem Settings.IgnoresCurrent.covers_current {s : Settings} (h : s.IgnoresCurrent) (path : String) :
    s.covers ("./" ++ path) = s.covers path := by
  rw [covers, covers, any_covers_current h.excludes]
  cases hincludes : s.includes with
  | none => rfl
  | some globs => rw [Option.all_some, Option.all_some, any_covers_current (h.includes globs hincludes)]

private theorem ignoresCurrent_of_mem_defaultExcludes {g : Glob} (h : g ∈ defaultExcludes.filterMap Glob.ofString?) :
    g.IgnoresCurrent := by
  have read : defaultExcludes.filterMap Glob.ofString? =
      [⟨.leadingDirectories :: .literal 'n' :: "ode_modules".toList.map .literal ++ [.trailingDirectories]⟩,
       ⟨.leadingDirectories :: .literal 'd' :: "ist".toList.map .literal ++ [.trailingDirectories]⟩,
       ⟨.leadingDirectories :: .literal 'b' :: "uild".toList.map .literal ++ [.trailingDirectories]⟩,
       ⟨.leadingDirectories :: .anyText :: .literal '.' :: .literal 'm' :: "in.js".toList.map .literal⟩] := rfl
  rw [read] at h
  simp only [List.mem_cons, List.not_mem_nil, or_false] at h
  rcases h with rfl | rfl | rfl | rfl
  · exact ignoresCurrent_of_name (show String.utf8EncodeChar 'n' = [0x6E] by decide) (by decide) _
  · exact ignoresCurrent_of_name (show String.utf8EncodeChar 'd' = [0x64] by decide) (by decide) _
  · exact ignoresCurrent_of_name (show String.utf8EncodeChar 'b' = [0x62] by decide) (by decide) _
  · exact ignoresCurrent_of_extension (show String.utf8EncodeChar 'm' = [0x6D] by decide) (by decide) _

/-- A configuration without patterns covers a path with `./` in front as it covers the path. -/
theorem ignoresCurrent_of_resolve {c : Config} {settings : Settings} (h : c.resolve = .ok settings)
    (includes : c.includes = []) (excludes : c.excludes = []) : settings.IgnoresCurrent := by
  obtain ⟨-, resolved⟩ := Config.resolveWith_eq_ok_iff.1 h
  have noIncludes : settings.includes = none := by
    have same := resolved.includes
    rw [if_pos includes] at same
    exact Option.map_eq_none_iff.1 same.symm
  have defaults : defaultExcludes.map Glob.ofString? = settings.excludes.map some := by
    rw [← resolved.excludes, Config.excludedPatterns, if_pos excludes]
  refine ⟨by simp [noIncludes], fun g hg => ignoresCurrent_of_mem_defaultExcludes ?_⟩
  have read : some g ∈ defaultExcludes.map Glob.ofString? := defaults ▸ List.mem_map_of_mem hg
  exact List.mem_filterMap.2 (List.mem_map.1 read)

end SpecCoverage.Configuration
