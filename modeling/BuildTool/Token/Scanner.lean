import BuildTool.Text.Alphabet
import BuildTool.Diagnostic
/-!
# From text to tokens

The scanner takes the text one character at a time. What a character does depends only on where it
stands: between directives, in a list of dependencies or in a block of commands (`Place.reading`). A
word goes on as long as its characters do, so a token is always as long as it can be; the pending
characters of a word become a token when something else follows (`Scanner.flush`).

Because the scanner is a fold over the characters, scanning a text goes on where scanning the front of
it stopped (`Scanner.feed_append`).
-/

namespace BuildTool

/-- A bracketed stretch of words with separators between them. -/
inductive Block where
  | dependencies
  | commands
deriving DecidableEq

namespace Block

def separator : Block → Char
  | dependencies => ','
  | commands => ';'

def separatorKind : Block → Token.Kind
  | dependencies => .comma
  | commands => .semicolon

def closer : Block → Char
  | dependencies => ')'
  | commands => '\x7d'

def closerKind : Block → Token.Kind
  | dependencies => .rightParen
  | commands => .rightBrace

def wordChars : Block → AsciiSet
  | dependencies => Alphabet.dependencyChars
  | commands => Alphabet.partChars

def unclosed : Block → ScanError.Cause
  | dependencies => .unclosedDependencyList
  | commands => .unclosedCommandBlock

end Block

/-- Where in a build file a character stands. -/
inductive Place where
  | top
  | inside (block : Block)
deriving DecidableEq

/-- What a character is where it stands. -/
inductive Reading where
  | word
  | blank
  | newline
  /-- A token of its own, after which the text is at `next`. -/
  | delimiter (kind : Token.Kind) (next : Place)
  | illegal
deriving DecidableEq

namespace Place

def wordKind : Place → Token.Kind
  | top => .directiveName
  | inside _ => .commandPart

def reading : Place → Char → Reading
  | top, c =>
    if Alphabet.isBlank c then .blank
    else if c = '\n' then .newline
    else if Alphabet.letters.contains c then .word
    else if c = '\x7b' then .delimiter .leftBrace (inside .commands)
    else if c = '(' then .delimiter .leftParen (inside .dependencies)
    else .illegal
  | inside b, c =>
    if c = b.closer then .delimiter b.closerKind top
    else if Alphabet.isBlank c then .blank
    else if c = '\n' then .newline
    else if c = b.separator then .delimiter b.separatorKind (inside b)
    else if b.wordChars.contains c then .word
    else .illegal

end Place

/-- A text read up to some character. -/
structure Scanner where
  place : Place
  line : Nat
  /-- The pending word, empty between words. -/
  word : String
  tokens : Array Token

namespace Scanner

def start : Scanner :=
  ⟨.top, 1, "", #[]⟩

/-- The pending word becomes a token. -/
def flush (s : Scanner) : Scanner :=
  if s.word = "" then s
  else { s with word := "", tokens := s.tokens.push ⟨s.place.wordKind, s.word, s.line⟩ }

/-- A character becomes a token of its own. -/
def emit (s : Scanner) (kind : Token.Kind) (c : Char) (next : Place) : Scanner :=
  { s with place := next, tokens := s.tokens.push ⟨kind, c.toString, s.line⟩ }

def step (s : Scanner) (c : Char) : Except ScanError Scanner :=
  match s.place.reading c with
  | .word => .ok { s with word := s.word.push c }
  | .blank => .ok s.flush
  | .newline => .ok { s.flush with line := s.line + 1 }
  | .delimiter kind next => .ok (s.flush.emit kind c next)
  | .illegal => .error (.illegal c s.line)

def feed (s : Scanner) (cs : List Char) : Except ScanError Scanner :=
  cs.foldlM step s

/-- The text ends here. -/
def finish (s : Scanner) : Except ScanError (List Token) :=
  match s.place with
  | .top => .ok (s.flush.tokens.push (.endOfInput s.line)).toList
  | .inside b => .error (.unclosed b.unclosed s.line)

@[simp] theorem feed_nil (s : Scanner) : s.feed [] = .ok s := rfl

theorem feed_cons (s : Scanner) (c : Char) (cs : List Char) :
    s.feed (c :: cs) = s.step c >>= fun t => t.feed cs := by
  simp [feed, List.foldlM_cons]

theorem feed_append (s : Scanner) (cs ds : List Char) :
    s.feed (cs ++ ds) = s.feed cs >>= fun t => t.feed ds := by
  simp [feed, List.foldlM_append]

@[simp] theorem flush_line (s : Scanner) : s.flush.line = s.line := by
  unfold flush; split <;> rfl

@[simp] theorem flush_place (s : Scanner) : s.flush.place = s.place := by
  unfold flush; split <;> rfl

@[simp] theorem flush_word (s : Scanner) : s.flush.word = "" := by
  unfold flush; split <;> simp_all

end Scanner

namespace Token

/-- The tokens of a text, the last of them `endOfInput`. -/
def scan (source : String) : Except ScanError (List Token) :=
  Scanner.start.feed source.toList >>= Scanner.finish

end Token

end BuildTool
