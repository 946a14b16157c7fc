/-!
# What can be wrong with a YAML text
-/

namespace BuildTool.Yaml

inductive Fault where
  /-- A character that no YAML text may hold. -/
  | forbiddenCharacter
  /-- A character that starts no lexeme where it stands. -/
  | unexpectedCharacter
  | badDirective
  | badName
  | badTag
  | badEscape
  | unclosedQuote
  | badBlockHeader
  | tabInIndentation
  | colonInFlow
  /-- An indicator where no key or item may start. -/
  | misplacedIndicator
  /-- A key that had to be one, without its colon. -/
  | unfinishedKey
  | repeatedDirective
  | unsupportedVersion
  | undefinedHandle
  | undefinedAlias
  /-- Lexemes in an order that makes no node. -/
  | unexpectedToken
  | severalDocuments
deriving DecidableEq

namespace Fault

def message : Fault → String
  | forbiddenCharacter => "control characters are not allowed"
  | unexpectedCharacter => "found character that cannot start any token"
  | badDirective => "malformed directive"
  | badName => "malformed anchor or alias"
  | badTag => "malformed tag"
  | badEscape => "unknown escape sequence"
  | unclosedQuote => "unclosed quoted scalar"
  | badBlockHeader => "malformed block scalar header"
  | tabInIndentation => "found a tab where indentation is expected"
  | colonInFlow => "unexpected colon in a flow collection"
  | misplacedIndicator => "an indicator is not allowed here"
  | unfinishedKey => "a key has no colon"
  | repeatedDirective => "a directive is repeated"
  | unsupportedVersion => "unsupported version of YAML"
  | undefinedHandle => "undefined tag handle"
  | undefinedAlias => "unknown anchor"
  | unexpectedToken => "unexpected token"
  | severalDocuments => "more than one document"

end Fault

end BuildTool.Yaml
