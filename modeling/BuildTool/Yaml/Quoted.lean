import BuildTool.Yaml.Gap
import BuildTool.Yaml.Numeral
/-!
# Quoted scalars

The text of a quoted scalar and what follows it. In single quotes a quote is written twice. In double
quotes a backslash escapes: a letter stands for a character, a number of hexadecimal digits for the
character of that code, and a break in the text for nothing.
-/

namespace BuildTool.Yaml.Quoted

/-- Reads on behind the opening quote or a word, with the gap so far. A quote closes the scalar unless
another one follows. -/
def single : (closing : Bool) → Gap → List Char → TextResult
  | true, g, [] => .ok (g.text, [])
  | false, _, [] => .error .unclosedQuote
  | true, g, c :: r =>
    if c = '\x27' then TextResult.after (g.text ++ [c]) (single false .none r)
    else .ok (g.text, c :: r)
  | false, g, c :: r =>
    if isSpace c then single false (g.add c) r
    else if g.atLineStart && isDocumentMark (c :: r) then .error .unclosedQuote
    else if c = '\x27' then single true g r
    else TextResult.after (g.text ++ [c]) (single false .none r)

/-- What a letter behind a backslash stands for. -/
def escaped? : Char → Option Char
  | '0' => some '\x00'
  | 'a' => some '\x07'
  | 'b' => some '\x08'
  | 't' => some '\t'
  | '\t' => some '\t'
  | 'n' => some '\n'
  | 'v' => some '\x0b'
  | 'f' => some '\x0c'
  | 'r' => some '\r'
  | 'e' => some '\x1b'
  | ' ' => some ' '
  | '"' => some '"'
  | '/' => some '/'
  | '\\' => some '\\'
  | 'N' => some '\u0085'
  | '_' => some '\u00a0'
  | 'L' => some '\u2028'
  | 'P' => some '\u2029'
  | _ => none

/-- How many digits follow a letter behind a backslash. -/
def codeLength? : Char → Option Nat
  | 'x' => some 2
  | 'u' => some 4
  | 'U' => some 8
  | _ => none

/-- The character of a code; the codes of surrogates have none. -/
def char? (code : Nat) : Option Char :=
  if code.isValidChar then some (Char.ofNat code) else none

/-- Where in a double-quoted scalar a character stands. -/
inductive State where
  | text (gap : Gap)
  | escape
  /-- So many digits of a code are to come, and one more. -/
  | code (more : Nat) (value : Nat)

def double : State → List Char → TextResult
  | _, [] => .error .unclosedQuote
  | .text g, c :: r =>
    if isSpace c then double (.text (g.add c)) r
    else if g.atLineStart && isDocumentMark (c :: r) then .error .unclosedQuote
    else if c = '"' then .ok (g.text, r)
    else if c = '\\' then TextResult.after g.text (double .escape r)
    else TextResult.after (g.text ++ [c]) (double (.text .none) r)
  | .escape, c :: r =>
    if isBreak c then double (.text .join) r
    else match escaped? c, codeLength? c with
    | some d, _ => TextResult.after [d] (double (.text .none) r)
    | none, some n => double (.code (n - 1) 0) r
    | none, none => .error .badEscape
  | .code more value, c :: r =>
    match Numeral.digit? 16 c with
    | none => .error .badEscape
    | some d =>
      match more with
      | n + 1 => double (.code n (value * 16 + d)) r
      | 0 =>
        match char? (value * 16 + d) with
        | some d => TextResult.after [d] (double (.text .none) r)
        | none => .error .badEscape

end BuildTool.Yaml.Quoted
