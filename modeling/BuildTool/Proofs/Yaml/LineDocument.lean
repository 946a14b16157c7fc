import BuildTool.Yaml.Document
import BuildTool.Proofs.Yaml.LineRun
/-!
# The document of lines

The tokens of lines are those of one mapping, whose entries are the keys and the values in the order of
the lines (`Node.readBlockMapping_lines`). Main result: `Document.ofText_lines`.
-/

namespace BuildTool.Yaml

/-- The entry of the mapping. -/
def Line.entry (l : Line) : Node × Node :=
  (.scalar ⟨none, .plain, String.ofList l.key⟩, .scalar ⟨none, l.value.style, l.value.text⟩)

namespace Node

variable {style : ScalarStyle} {text : String} {r : List Token}

theorem readOr_scalar (hs : Handles) (as : Anchors) :
    readOr [.key, .value, .blockEnd] hs inMapping as (.scalar style text :: r) =
      .ok ⟨.scalar ⟨none, style, text⟩, as, r, by simp only [List.length_cons]; omega⟩ := by
  have hends : leftOut [.key, .value, .blockEnd] (.scalar style text :: r) = false := by
    simp [leftOut]
  have hread : read hs inMapping as (.scalar style text :: r) =
      .ok ⟨.scalar ⟨none, style, text⟩, as, r, by simp⟩ := by
    rw [read]
    · rfl
    · simp
  rw [readOr, hends, if_neg (by decide), hread]
  rfl

theorem read_blockMappingStart (hs : Handles) (as : Anchors) (r : List Token) :
    read hs inSequence as (.blockMappingStart :: r) =
      (readBlockMapping hs as r).map fun p => (p.map .mapping).widen (Nat.le_succ _) := by
  rw [read]
  · change (readBlockMapping hs as r >>= fun p =>
      Except.ok ((p.map Node.mapping).widen (Nat.le_succ _))) = _
    cases readBlockMapping hs as r <;> rfl
  · simp

theorem readBlockMapping_lines (hs : Handles) (as : Anchors) (ls : List Line) (r : List Token) :
    ∃ h, readBlockMapping hs as (ls.flatMap Line.tokens ++ .blockEnd :: r) =
      .ok ⟨ls.map Line.entry, as, r, h⟩ := by
  induction ls with
  | nil =>
    refine ⟨by simp, ?_⟩
    change readBlockMapping hs as (.blockEnd :: r) = _
    rw [readBlockMapping]
    rfl
  | cons l ls ih =>
    obtain ⟨h, ih⟩ := ih
    have hlength : r.length < ((l :: ls).flatMap Line.tokens ++ .blockEnd :: r).length := by
      simp only [List.length_append, List.length_cons]
      omega
    refine ⟨hlength, ?_⟩
    change readBlockMapping hs as (.key :: .scalar .plain (String.ofList l.key) :: .value ::
      .scalar l.value.style l.value.text ::
        (ls.flatMap Line.tokens ++ .blockEnd :: r)) = _
    rw [readBlockMapping]
    simp only [readOr_scalar, readValue, bind, Except.bind, Piece.widen, ih, pure, Except.pure]
    rfl

end Node

namespace Document

theorem ofTokens_lines (ls : List Line) :
    ofTokens (.blockMappingStart :: (ls.flatMap Line.tokens ++ [.blockEnd])) =
      .ok (some ⟨.mapping (ls.map Line.entry), .empty⟩) := by
  obtain ⟨h, hread⟩ := Node.readBlockMapping_lines standardHandles .empty ls []
  rw [ofTokens, List.isEmpty_cons, if_neg (by decide)]
  simp [readDirectives, readContent, Node.read_blockMappingStart, hread, bind, Except.bind, pure,
    Except.pure, Except.map, Piece.map, Piece.widen]

/-- A text of lines is read as the mapping of their keys to their values. -/
theorem ofText_lines {ending : List Char} (hending : ending = [] ∨ ending = ['\n']) {l : Line}
    {ls : List Line} (hls : ∀ k ∈ l :: ls, k.Proper) {text : String}
    (htext : text.toList = l.chars ++ Line.tail ending ls) :
    ofText text = .ok (some ⟨.mapping ((l :: ls).map Line.entry), .empty⟩) := by
  have hcharacters : characters text = .ok text.toList := by
    refine characters_of_isPrintable fun c hc => ?_
    rw [htext, List.mem_append] at hc
    rcases hc with hc | hc
    · exact .inl ((hls l List.mem_cons_self).isPrintable_of_mem c hc)
    · exact Line.isPrintable_of_mem_tail hending (fun k hk => hls k (List.mem_cons_of_mem l hk)) c hc
  rw [ofText, Token.ofText, hcharacters, htext]
  change (Layout.start (l.chars ++ Line.tail ending ls)).run >>= ofTokens = _
  rw [Layout.run_start hending hls]
  exact ofTokens_lines (l :: ls)

end Document

end BuildTool.Yaml
