import BuildTool.Text.AsciiSet
/-!
# The characters of a build file

Names are made of letters, parts of commands of everything printable that is neither a bracket, a
separator of commands nor a backquote. Blanks separate; a line feed separates too and ends a line.
-/

namespace BuildTool.Alphabet

def letters : AsciiSet :=
  .ofList "abcdefghijklmnopqrstuvwxyzABCDEFGHIJKLMNOPQRSTUVWXYZ".toList

def digits : AsciiSet :=
  .ofList "0123456789".toList

def punctuation : AsciiSet :=
  .ofList "~!@#$%^&*_+=-|\\]['\":/?.>,<".toList

/-- What a part of a command may hold. -/
def partChars : AsciiSet :=
  letters.union (digits.union punctuation)

/-- What the name of a dependency may hold: there the comma separates. -/
def dependencyChars : AsciiSet :=
  partChars.erase ','

def isBlank (c : Char) : Bool :=
  c = ' ' || c = '\t' || c = '\r'

end BuildTool.Alphabet
