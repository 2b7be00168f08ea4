import SpecCoverage.Analysis.Analysis
import SpecCoverage.Configuration.Config
import SpecCoverage.Files.Glob
import SpecCoverage.Source.Language

/-!
# Settings

Settings are a configuration with the defaults filled in and its patterns read.  `Config.resolveWith` makes
them with any reader of patterns, or says what is wrong with the configuration; `Config.resolve` reads the
patterns as globs.
-/

namespace SpecCoverage.Configuration

open Files Specifications

/-- Reads a pattern, or says that it is not well formed. -/
abbrev PatternReader := String → Option Glob

structure Settings where
  /-- If there are any, a path has to be covered by one of them. -/
  includes : Option (List Glob)
  excludes : List Glob
  documentationExtensions : List String
  weights : Weights
  policy : Policy
  parallel : Bool

inductive PatternField where
  | included
  | excluded
deriving DecidableEq, Repr

def PatternField.name : PatternField → String
  | included => "include"
  | excluded => "exclude"

inductive ConfigError where
  | weightTooHigh (evidence : Evidence) (weight : Nat)
  | policy (error : PolicyError)
  | emptyExtension
  | pattern (field : PatternField) (text : String)
  /-- A pattern that does not stand in the configuration is not well formed. -/
  | builtInPattern (text : String)
deriving DecidableEq, Repr

/-- What is excluded if a configuration excludes nothing. -/
def defaultExcludes : List String :=
  ["**/node_modules/**", "**/dist/**", "**/build/**", "**/*.min.js"]

/-- An extension without the dots in front of it. -/
def withoutDots (extension : String) : String :=
  String.ofList (extension.toList.dropWhile (· = '.'))

namespace Config

def weights (c : Config) : Weights :=
  let base : Weights := {}
  let given := c.evidence.getD {}
  { callSignature := given.callSignature.getD base.callSignature
    boldBullet := given.boldBullet.getD base.boldBullet
    codeBlock := given.codeBlock.getD base.codeBlock
    sectionMention := given.sectionMention.getD base.sectionMention }

def policy (c : Config) : Policy :=
  let base : Policy := {}
  let given := c.matching.getD {}
  { carryThreshold := given.carryThreshold.getD base.carryThreshold
    exact := given.exact.getD base.exact
    caseInsensitive := given.caseInsensitive.getD base.caseInsensitive
    fuzzy := given.fuzzy.getD base.fuzzy }

def weightError? (w : Weights) : Option ConfigError :=
  (Evidence.all.find? fun e => maxConfidence < w.weight e).map fun e => .weightTooHigh e (w.weight e)

def extensionError? (extensions : List String) : Option ConfigError :=
  if extensions.any fun extension => withoutDots extension = "" then some .emptyExtension else none

def patternError? (read : PatternReader) (field : PatternField) (patterns : List String) :
    Option ConfigError :=
  (patterns.find? fun pattern => (read pattern).isNone).map (.pattern field)

/-- The first thing that is wrong with a configuration, if anything is. -/
def errorWith? (read : PatternReader) (c : Config) : Option ConfigError :=
  (weightError? c.weights).or <| (c.policy.error?.map .policy).or <|
    (extensionError? c.documentationExtensions).or <|
      (patternError? read .included c.includes).or (patternError? read .excluded c.excludes)

def error? (c : Config) : Option ConfigError := c.errorWith? Glob.ofString?

/-- The globs of patterns, if all of them are well formed. -/
def globs (read : PatternReader) (patterns : List String) : Except ConfigError (List Glob) :=
  patterns.mapM fun pattern => (read pattern).elim (.error (.builtInPattern pattern)) .ok

/-- The globs of the patterns of which a path has to match one, if there are such patterns. -/
def includedGlobs (read : PatternReader) (patterns : List String) : Except ConfigError (Option (List Glob)) :=
  if patterns.isEmpty then .ok none else some <$> globs read patterns

def resolveWith (read : PatternReader) (c : Config) : Except ConfigError Settings :=
  match c.errorWith? read with
  | some error => .error error
  | none => do
    let includes ← includedGlobs read c.includes
    let excludes ← globs read (if c.excludes.isEmpty then defaultExcludes else c.excludes)
    return {
      includes, excludes
      documentationExtensions :=
        if c.documentationExtensions.isEmpty then Source.defaultDocumentationExtensions
        else c.documentationExtensions.map withoutDots
      weights := c.weights
      policy := c.policy
      parallel := c.parallel.getD false }

def resolve (c : Config) : Except ConfigError Settings := c.resolveWith Glob.ofString?

end Config

/-- What an analysis under these settings goes by. -/
def Settings.options (s : Settings) : Analysis.Options := { weights := s.weights, policy := s.policy }

/-- Whether a path is to be read: none of the excluding globs covers it, and one of the including ones
does if there are any. -/
def Settings.covers (s : Settings) (path : String) : Bool :=
  !(s.excludes.any fun g => g.covers path)
    && s.includes.all fun globs => globs.any fun g => g.covers path

end SpecCoverage.Configuration
