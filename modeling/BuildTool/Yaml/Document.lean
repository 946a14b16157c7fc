import BuildTool.Yaml.Node
/-!
# Documents

A text holds at most one document: directives, the mark that starts it, its node, and marks that end
it. Without directives the mark in front may be missing, and without marks and a node there is no
document.
-/

namespace BuildTool.Yaml

structure Document where
  root : Node
  anchors : Anchors

namespace Document

/-- The handles that need no directive. -/
def standardHandles : Handles :=
  [("!", Octets.ofString "!"), ("!!", Octets.ofString "tag:yaml.org,2002:")]

/-- Reads the directives in front of a document. -/
def readDirectives (versioned : Bool) (hs : Handles) :
    List Token → Except Fault (Handles × List Token)
  | .directive (.version major minor) :: r =>
    if versioned then .error .repeatedDirective
    else if major = 1 && (minor = 1 || minor = 2) then readDirectives true hs r
    else .error .unsupportedVersion
  | .directive (.tag handle meaning) :: r =>
    if (hs.lookup handle).isSome then .error .repeatedDirective
    else readDirectives versioned ((handle, meaning) :: hs) r
  | ts => .ok (hs, ts)

/-- Whether a document has no content in front of these tokens. -/
def contentLeftOut : List Token → Bool
  | [] => true
  | .directive _ :: _ => true
  | t :: _ => t = .documentStart || t = .documentEnd

/-- Reads the node of a document behind its directives. -/
def readContent (hs : Handles) (directives : Bool) (ts : List Token) :
    Except Fault (Document × List Token) :=
  let read (ts : List Token) : Except Fault (Document × List Token) := do
    let p ← Node.read hs Node.inSequence .empty ts
    return (⟨p.value, p.anchors⟩, p.rest)
  match ts with
  | .documentStart :: r =>
    if contentLeftOut r then .ok (⟨.absent, .empty⟩, r) else read r
  | ts => if directives then .error .unexpectedToken else read ts

def ofTokens (ts : List Token) : Except Fault (Option Document) :=
  if ts.isEmpty then .ok none
  else do
    let (hs, content) ← readDirectives false [] ts
    let (document, rest) ←
      readContent (hs ++ standardHandles) (content.length < ts.length) content
    if rest.all (· = .documentEnd) then return some document else throw .severalDocuments

/-- The document of a text, if there is one. -/
def ofText (text : String) : Except Fault (Option Document) :=
  Token.ofText text >>= ofTokens

/-- The scalar that a node of the document is or is an alias of. -/
def scalar? (d : Document) : Node → Option Scalar
  | .scalar s => some s
  | .alias n => d.anchors.scalar? n
  | _ => none

end Document

end BuildTool.Yaml
