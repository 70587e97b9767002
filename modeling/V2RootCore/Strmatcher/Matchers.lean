import V2RootCore.Go.Io

/-!
# Matchers of one pattern
-/

namespace V2RootCore.Strmatcher

open Go

inductive MatcherType where
  | full
  | substr
  | domain
  | regex
  deriving DecidableEq

/-- `strings.HasSuffix`. -/
def hasSuffix (s suffix : Bytes) : Bool := suffix.isSuffixOf s

/-- `fullMatcher.Match`. -/
def fullMatcher (pattern s : Bytes) : Bool := decide (pattern = s)

/-- `substrMatcher.Match`. -/
def substrMatcher (pattern s : Bytes) : Bool := contains s pattern

/-- `domainMatcher.Match`. -/
def domainMatcher (pattern s : Bytes) : Bool :=
  if hasSuffix s pattern then
    s.length = pattern.length || s.getD (s.length - pattern.length - 1) 0 = 46
  else false

end V2RootCore.Strmatcher
