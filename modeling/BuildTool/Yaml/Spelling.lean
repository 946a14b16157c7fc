import BuildTool.Yaml.Numeral
/-!
# The spelling of a text as a scalar

A text of visible characters is written plainly when a reader takes it for that text again, and in
single quotes otherwise, with the quotes inside doubled.
-/

namespace BuildTool.Yaml.Spelling

def isNull (s : String) : Bool :=
  s ∈ ["~", "null", "Null", "NULL"]

def isTrue (s : String) : Bool :=
  s ∈ ["true", "True", "TRUE"]

def isFalse (s : String) : Bool :=
  s ∈ ["false", "False", "FALSE"]

/-- Whether a plain scalar of this text is read as something other than a text. -/
def isTyped (s : String) : Bool :=
  isNull s || isTrue s || isFalse s || Numeral.hasLeadingZero s.toList ||
    Numeral.isInteger s.toList || Numeral.isFloat s.toList

/-- Characters that mean something at the start of a scalar. -/
def indicators : List Char :=
  "#,[]\x7b\x7d&*!|>'\"%@\x60".toList

/-- Whether a plain scalar of this text is read as a scalar at all. -/
def isPlain (cs : List Char) : Bool :=
  match cs with
  | [] => false
  | c :: r =>
    !indicators.contains c && cs.getLast? != some ':' &&
      !(r.isEmpty && (c = '-' || c = '?')) &&
      cs.take 3 != ['-', '-', '-'] && cs.take 3 != ['.', '.', '.']

def doubleQuote (c : Char) : List Char :=
  if c = '\x27' then [c, c] else [c]

def quoted (cs : List Char) : List Char :=
  '\x27' :: cs.flatMap doubleQuote ++ ['\x27']

def write (s : String) : String :=
  if isPlain s.toList && !isTyped s then s else String.ofList (quoted s.toList)

end BuildTool.Yaml.Spelling
