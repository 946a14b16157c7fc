import BuildTool.Yaml.Character
import BuildTool.Yaml.Numeral
/-!
# Names, tags and directives

A tag is a handle and a suffix. Suffixes are written in the characters of an address, in which a percent
sign and two hexadecimal digits stand for an octet of a character in UTF-8; they are kept as octets. A
directive line says which version of YAML a text is in or what a handle stands for.
-/

namespace BuildTool.Yaml

abbrev Octets := List UInt8

namespace Octets

def ofString (s : String) : Octets :=
  s.toUTF8.data.toList

/-- The octets up to the first zero. -/
def untilZero (os : Octets) : Octets :=
  os.takeWhile (· ≠ 0)

end Octets

namespace Address

def isChar (verbatim : Bool) (c : Char) : Bool :=
  isWord c || ";/?:@&=+$.!~*'()".toList.contains c || (verbatim && ",[]".toList.contains c)

/-- How many octets follow the first one of a character. -/
def following? (octet : Nat) : Option Nat :=
  if octet < 0x80 then some 0
  else if 0xc0 ≤ octet && octet < 0xe0 then some 1
  else if 0xe0 ≤ octet && octet < 0xf0 then some 2
  else if 0xf0 ≤ octet && octet < 0xf8 then some 3
  else none

/-- Reads octets; `pending` of a character's are to come. -/
def read (verbatim : Bool) : (pending : Nat) → List Char → Except Fault (Octets × List Char)
  | pending, '%' :: a :: b :: r =>
    match Numeral.digit? 16 a, Numeral.digit? 16 b with
    | some x, some y =>
      let octet := x * 16 + y
      let next :=
        if pending = 0 then following? octet
        else if 0x80 ≤ octet && octet < 0xc0 then some (pending - 1)
        else none
      match next with
      | some n => (read verbatim n r).map fun (os, rest) => (octet.toUInt8 :: os, rest)
      | none => .error .badTag
    | _, _ => .error .badTag
  | pending, c :: r =>
    if c = '%' || pending ≠ 0 then .error .badTag
    else if isChar verbatim c then
      (read verbatim 0 r).map fun (os, rest) => (c.toNat.toUInt8 :: os, rest)
    else .ok ([], c :: r)
  | pending, [] => if pending = 0 then .ok ([], []) else .error .badTag

end Address

/-- A tag as it is written. -/
structure Tag where
  handle : String
  suffix : Octets
deriving DecidableEq

namespace Tag

/-- Reads a tag behind its exclamation mark. -/
def read (cs : List Char) : Except Fault (Tag × List Char) :=
  match cs with
  | '<' :: cs => do
    let (suffix, rest) ← Address.read true 0 cs
    match rest with
    | '>' :: rest => if suffix.isEmpty then .error .badTag else .ok (⟨"", suffix⟩, rest)
    | _ => .error .badTag
  | cs => do
    let word := cs.takeWhile isWord
    match cs.dropWhile isWord with
    | '!' :: cs =>
      let (suffix, rest) ← Address.read false 0 cs
      if suffix.isEmpty then .error .badTag
      else .ok (⟨String.ofList ('!' :: word ++ ['!']), suffix⟩, rest)
    | cs =>
      let (suffix, rest) ← Address.read false 0 cs
      let suffix := Octets.ofString (String.ofList word) ++ suffix
      if suffix.head?.all (· = 0) then .ok (⟨"", Octets.ofString "!"⟩, rest)
      else .ok (⟨"!", suffix⟩, rest)

/-- Whether a tag may end before these characters. -/
def endsHere (flow : Bool) (cs : List Char) : Bool :=
  atWordEnd cs || (flow && cs.head? = some ',')

end Tag

inductive DirectiveLine where
  | version (major minor : Nat)
  | tag (handle : String) (meaning : Octets)
deriving DecidableEq

namespace DirectiveLine

/-- A number of one to nine digits. -/
def number (cs : List Char) : Except Fault (Nat × List Char) :=
  let ds := cs.takeWhile Char.isDigit
  if ds.isEmpty || 9 < ds.length then .error .badDirective
  else .ok (ds.foldl (fun n d => n * 10 + (d.toNat - '0'.toNat)) 0, cs.dropWhile Char.isDigit)

def readVersion (cs : List Char) : Except Fault (DirectiveLine × List Char) := do
  let (major, cs) ← number cs
  match cs with
  | '.' :: cs =>
    let (minor, cs) ← number cs
    return (.version major minor, cs)
  | _ => .error .badDirective

/-- A handle: one or two exclamation marks, or a word between two. -/
def readHandle (cs : List Char) : Except Fault (String × List Char) :=
  match cs with
  | '!' :: cs =>
    let word := cs.takeWhile isWord
    match cs.dropWhile isWord with
    | '!' :: rest => .ok (String.ofList ('!' :: word ++ ['!']), rest)
    | rest => if word.isEmpty then .ok ("!", rest) else .error .badDirective
  | _ => .error .badDirective

def readTag (cs : List Char) : Except Fault (DirectiveLine × List Char) := do
  let (handle, cs) ← readHandle cs
  if cs.head?.any isBlank then
    let (meaning, cs) ← Address.read true 0 (cs.dropWhile isBlank)
    if meaning.isEmpty || !atWordEnd cs then .error .badDirective
    else return (.tag handle meaning, cs)
  else .error .badDirective

/-- Reads a directive behind its percent sign, to the end of its line. -/
def read (cs : List Char) : Except Fault (DirectiveLine × List Char) := do
  let name := String.ofList (cs.takeWhile isWord)
  let cs := cs.dropWhile isWord
  if !atWordEnd cs then .error .badDirective
  else
    let value := cs.dropWhile isBlank
    let (line, cs) ←
      if name = "YAML" then readVersion value
      else if name = "TAG" then readTag value
      else .error .badDirective
    let cs := cs.dropWhile isBlank
    let cs := if cs.head? = some '#' then cs.dropWhile (!isBreak ·) else cs
    match cs with
    | [] => return (line, [])
    | c :: r => if isBreak c then return (line, r) else .error .badDirective

end DirectiveLine

end BuildTool.Yaml
