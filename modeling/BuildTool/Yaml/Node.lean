import BuildTool.Yaml.Token
/-!
# From tokens to nodes

A node is a scalar, a sequence, a mapping, or an alias of a node that was anchored before. Nodes are
read from the front of the tokens; every reading takes at least one token, so it ends.

A key or an item that is left out is an empty plain scalar.
-/

namespace BuildTool.Yaml

structure Scalar where
  tag : Option Octets
  style : ScalarStyle
  text : String
deriving DecidableEq

namespace Scalar

/-- What stands for a node that is left out. -/
def absent : Scalar :=
  ⟨none, .plain, ""⟩

end Scalar

inductive Node where
  | alias (anchor : Nat)
  | scalar (scalar : Scalar)
  | sequence (items : List Node)
  | mapping (entries : List (Node × Node))

/-- The anchors met so far. An anchored node has the number of names known before it; if that number
was given before, it means the new node from then on. -/
structure Anchors where
  /-- The names, each with the number it has now. -/
  numbers : List (String × Nat)
  /-- What was numbered, the last one first; a collection has no scalar. -/
  nodes : List (Nat × Option Scalar)

namespace Anchors

def empty : Anchors :=
  ⟨[], []⟩

def declare (as : Anchors) (name : String) (node : Option Scalar) : Anchors :=
  let n := as.numbers.length
  ⟨(name, n) :: as.numbers.filter (·.1 ≠ name), (n, node) :: as.nodes⟩

def declare? (as : Anchors) (name : Option String) (node : Option Scalar) : Anchors :=
  match name with
  | some name => as.declare name node
  | none => as

def number? (as : Anchors) (name : String) : Option Nat :=
  as.numbers.lookup name

/-- The scalar with a number, if it is one. -/
def scalar? (as : Anchors) (n : Nat) : Option Scalar :=
  (as.nodes.lookup n).join

end Anchors

/-- What the handles of tags stand for. -/
abbrev Handles := List (String × Octets)

namespace Handles

def resolve (hs : Handles) (t : Tag) : Except Fault Octets :=
  let suffix := t.suffix.untilZero
  if t.handle = "" then .ok suffix
  else match hs.lookup t.handle with
  | some meaning => .ok (meaning.untilZero ++ suffix)
  | none => .error .undefinedHandle

end Handles

/-- What was read from fewer than `n` tokens, the anchors behind it and the tokens left. -/
structure Piece (α : Type) (n : Nat) where
  value : α
  anchors : Anchors
  rest : List Token
  shorter : rest.length < n

namespace Piece

def map (f : α → β) (p : Piece α n) : Piece β n :=
  ⟨f p.value, p.anchors, p.rest, p.shorter⟩

def widen (h : n ≤ m) (p : Piece α n) : Piece α m :=
  ⟨p.value, p.anchors, p.rest, Nat.lt_of_lt_of_le p.shorter h⟩

end Piece

namespace Node

def absent : Node :=
  .scalar .absent

/-- An anchor and a tag, in either order. -/
def properties (ts : List Token) :
    Option String × Option Tag × { r : List Token // r.length ≤ ts.length } :=
  match ts with
  | .anchor a :: .tag t :: r => (some a, some t, ⟨r, by simp only [List.length_cons]; omega⟩)
  | .tag t :: .anchor a :: r => (some a, some t, ⟨r, by simp only [List.length_cons]; omega⟩)
  | .anchor a :: r => (some a, none, ⟨r, by simp⟩)
  | .tag t :: r => (none, some t, ⟨r, by simp⟩)
  | r => (none, none, ⟨r, Nat.le_refl _⟩)

/-- Where a node stands: in a block or in a flow collection, and whether a sequence there may go
without indentation. -/
structure Position where
  block : Bool
  indentless : Bool

def inFlow : Position := ⟨false, false⟩

def inSequence : Position := ⟨true, false⟩

def inMapping : Position := ⟨true, true⟩

/-- Whether no node is written in front of these tokens. -/
def leftOut (ends : List Token) (ts : List Token) : Bool :=
  ts.head?.any ends.contains

mutual

/-- Reads a node: an alias, or properties with the content they belong to. Properties may stand
alone; they belong to an absent scalar. -/
def read (hs : Handles) (pos : Position) (as : Anchors) (ts : List Token) :
    Except Fault (Piece Node ts.length) :=
  match ts with
  | .alias name :: r =>
    match as.number? name with
    | some n => .ok ⟨.alias n, as, r, by simp⟩
    | none => .error .undefinedAlias
  | ts => do
    let (anchor, tag, ⟨cs, hcs⟩) := properties ts
    let tag ← tag.mapM hs.resolve
    match cs, hcs, pos.block, pos.indentless with
    | .scalar style text :: r, hcs, _, _ =>
      let s : Scalar := ⟨tag, style, text⟩
      return ⟨.scalar s, as.declare? anchor (some s), r, hcs⟩
    | .flowSequenceStart :: r, hcs, _, _ =>
      return ((← readFlowSequence hs (as.declare? anchor none) r).map .sequence).widen
        (Nat.le_of_succ_le hcs)
    | .flowMappingStart :: r, hcs, _, _ =>
      return ((← readFlowMapping hs (as.declare? anchor none) r).map .mapping).widen
        (Nat.le_of_succ_le hcs)
    | .blockEntry :: r, hcs, _, true =>
      return ((← readIndentless hs (as.declare? anchor none) r).map .sequence).widen hcs
    | .blockSequenceStart :: r, hcs, true, _ =>
      return ((← readBlockSequence hs (as.declare? anchor none) r).map .sequence).widen
        (Nat.le_of_succ_le hcs)
    | .blockMappingStart :: r, hcs, true, _ =>
      return ((← readBlockMapping hs (as.declare? anchor none) r).map .mapping).widen
        (Nat.le_of_succ_le hcs)
    | cs, _, _, _ =>
      if h : cs.length < ts.length then
        let s : Scalar := { Scalar.absent with tag }
        return ⟨.scalar s, as.declare? anchor (some s), cs, h⟩
      else .error .unexpectedToken
termination_by (ts.length, 0)

/-- Reads a node unless it is left out, which shows at the token that follows. -/
def readOr (ends : List Token) (hs : Handles) (pos : Position) (as : Anchors) (ts : List Token) :
    Except Fault (Piece Node (ts.length + 1)) :=
  if leftOut ends ts then .ok ⟨absent, as, ts, Nat.lt_succ_self _⟩
  else return (← read hs pos as ts).widen (Nat.le_succ _)
termination_by (ts.length, 1)

/-- Reads the value behind a key. Without a colon it is left out. -/
def readValue (ends : List Token) (hs : Handles) (pos : Position) (as : Anchors)
    (ts : List Token) : Except Fault (Piece Node (ts.length + 1)) :=
  match ts with
  | .value :: r => return (← readOr ends hs pos as r).widen (Nat.le_succ _)
  | ts => .ok ⟨absent, as, ts, Nat.lt_succ_self _⟩
termination_by (ts.length, 2)

/-- Reads the items of a sequence without indentation, behind the first dash. -/
def readIndentless (hs : Handles) (as : Anchors) (ts : List Token) :
    Except Fault (Piece (List Node) (ts.length + 1)) := do
  let item ← readOr [.blockEntry, .key, .value, .blockEnd] hs inSequence as ts
  match _dash : item.rest with
  | .blockEntry :: r =>
    have : r.length + 1 < ts.length + 1 := by simpa [_dash] using item.shorter
    return ((← readIndentless hs item.anchors r).map (item.value :: ·)).widen (by omega)
  | _ => return item.map ([·])
termination_by (ts.length, 3)

def readBlockSequence (hs : Handles) (as : Anchors) (ts : List Token) :
    Except Fault (Piece (List Node) ts.length) :=
  match ts with
  | .blockEntry :: r => do
    let item ← readOr [.blockEntry, .blockEnd] hs inSequence as r
    have := item.shorter
    return ((← readBlockSequence hs item.anchors item.rest).map (item.value :: ·)).widen
      (by simp only [List.length_cons]; omega)
  | .blockEnd :: r => .ok ⟨[], as, r, Nat.lt_succ_self _⟩
  | _ => .error .unexpectedToken
termination_by (ts.length, 3)

def readBlockMapping (hs : Handles) (as : Anchors) (ts : List Token) :
    Except Fault (Piece (List (Node × Node)) ts.length) :=
  match ts with
  | .key :: r => do
    let ends := [.key, .value, .blockEnd]
    let key ← readOr ends hs inMapping as r
    have := key.shorter
    let value ← readValue ends hs inMapping key.anchors key.rest
    have := value.shorter
    return ((← readBlockMapping hs value.anchors value.rest).map
      ((key.value, value.value) :: ·)).widen (by simp only [List.length_cons]; omega)
  | .blockEnd :: r => .ok ⟨[], as, r, Nat.lt_succ_self _⟩
  | _ => .error .unexpectedToken
termination_by (ts.length, 3)

/-- Reads the key of an entry that stands as an item of a flow sequence. A key that is left out takes
the token that follows with it. -/
def readPairKey (hs : Handles) (as : Anchors) (ts : List Token) :
    Except Fault (Piece Node (ts.length + 1)) :=
  match ts with
  | t :: r =>
    if leftOut [.value, .flowEntry, .flowSequenceEnd] [t] then
      .ok ⟨absent, as, r, Nat.lt_of_lt_of_le (Nat.lt_succ_self _) (Nat.le_succ _)⟩
    else return (← read hs inFlow as (t :: r)).widen (Nat.le_succ _)
  | [] => .error .unexpectedToken
termination_by (ts.length, 1)

/-- Reads the items of a flow sequence, in front of an item or the end. A key there makes a mapping of
one entry. -/
def readFlowSequence (hs : Handles) (as : Anchors) (ts : List Token) :
    Except Fault (Piece (List Node) ts.length) :=
  match ts with
  | .flowSequenceEnd :: r => .ok ⟨[], as, r, Nat.lt_succ_self _⟩
  | .key :: r => do
    let key ← readPairKey hs as r
    have := key.shorter
    let value ← readValue [.flowEntry, .flowSequenceEnd] hs inFlow key.anchors key.rest
    have := value.shorter
    return ((← readFlowSequenceEnd hs value.anchors value.rest).map
      (.mapping [(key.value, value.value)] :: ·)).widen (by simp only [List.length_cons]; omega)
  | ts => do
    let item ← read hs inFlow as ts
    have := item.shorter
    return ((← readFlowSequenceEnd hs item.anchors item.rest).map (item.value :: ·)).widen
      (Nat.le_of_lt this)
termination_by (ts.length, 3)

/-- Reads on behind an item of a flow sequence. -/
def readFlowSequenceEnd (hs : Handles) (as : Anchors) (ts : List Token) :
    Except Fault (Piece (List Node) ts.length) :=
  match ts with
  | .flowEntry :: r => return (← readFlowSequence hs as r).widen (Nat.le_succ _)
  | .flowSequenceEnd :: r => .ok ⟨[], as, r, Nat.lt_succ_self _⟩
  | _ => .error .unexpectedToken
termination_by (ts.length, 4)

/-- Reads the entries of a flow mapping, in front of an entry or the end. -/
def readFlowMapping (hs : Handles) (as : Anchors) (ts : List Token) :
    Except Fault (Piece (List (Node × Node)) ts.length) :=
  match ts with
  | .flowMappingEnd :: r => .ok ⟨[], as, r, Nat.lt_succ_self _⟩
  | .key :: r => do
    let key ← readOr [.value, .flowEntry, .flowMappingEnd] hs inFlow as r
    have := key.shorter
    let value ← readValue [.flowEntry, .flowMappingEnd] hs inFlow key.anchors key.rest
    have := value.shorter
    return ((← readFlowMappingEnd hs value.anchors value.rest).map
      ((key.value, value.value) :: ·)).widen (by simp only [List.length_cons]; omega)
  | ts => do
    let key ← read hs inFlow as ts
    have := key.shorter
    return ((← readFlowMappingEnd hs key.anchors key.rest).map ((key.value, absent) :: ·)).widen
      (Nat.le_of_lt this)
termination_by (ts.length, 3)

/-- Reads on behind an entry of a flow mapping. -/
def readFlowMappingEnd (hs : Handles) (as : Anchors) (ts : List Token) :
    Except Fault (Piece (List (Node × Node)) ts.length) :=
  match ts with
  | .flowEntry :: r => return (← readFlowMapping hs as r).widen (Nat.le_succ _)
  | .flowMappingEnd :: r => .ok ⟨[], as, r, Nat.lt_succ_self _⟩
  | _ => .error .unexpectedToken
termination_by (ts.length, 4)

end

end Node

end BuildTool.Yaml
