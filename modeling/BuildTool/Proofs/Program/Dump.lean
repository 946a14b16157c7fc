import BuildTool.Program.Dump
import BuildTool.Proofs.Compile.Source
import BuildTool.Proofs.Yaml.Spelling
/-!
# Reading a dump back

The lines of a dump are told apart by their marks and by their scalars, and from its lines a program is
put together again, the last line first (`Program.restore_outline`). So two programs that compile have
the same dump only if they are the same. This holds of any way to spell scalars that is unambiguous.
Main result: `Compile.toYaml_parse_eq_iff`.
-/

namespace BuildTool

open Alphabet
open Yaml (Spelling.write Spelling.quoted Spelling.Unambiguous Spelling.unambiguous_write)

/-- A line of a dump. -/
inductive DumpLine where
  | nothing
  | name (name : String)
  | noCommands
  | commands
  | emptyCommand
  | firstPart (part : String)
  | part (part : String)

namespace DumpLine

def text (spell : String → String) : DumpLine → String
  | nothing => "[]"
  | name n => "- name: " ++ spell n
  | noCommands => "  commands: []"
  | commands => "  commands:"
  | emptyCommand => "  - []"
  | firstPart p => "  - - " ++ spell p
  | part p => "    - " ++ spell p

def scalar? : DumpLine → Option String
  | name n => some n
  | firstPart p => some p
  | part p => some p
  | nothing | noCommands | commands | emptyCommand => none

/-- The scalar, if the line has one, is a word. -/
def Spelled (l : DumpLine) : Prop :=
  ∀ w ∈ l.scalar?, ∀ c ∈ w.toList, isPart c = true

/-- What the lines of a dump from some line on say: parts that belong to a command further up, commands
that belong to a directive further up, and directives. -/
structure Below where
  parts : List String
  commands : List Command
  directives : List Directive

/-- What a line and those below it say. -/
def restore : DumpLine → Below → Below
  | name n, b => ⟨b.parts, [], ⟨n, b.commands⟩ :: b.directives⟩
  | emptyCommand, b => { b with commands := ⟨[]⟩ :: b.commands }
  | firstPart p, b => { b with parts := [], commands := ⟨p :: b.parts⟩ :: b.commands }
  | part p, b => { b with parts := p :: b.parts }
  | nothing, b | noCommands, b | commands, b => b

end DumpLine

open DumpLine (restore)

def Command.outline (c : Command) : List DumpLine :=
  match c.parts with
  | [] => [.emptyCommand]
  | p :: ps => .firstPart p :: ps.map .part

def Directive.outline (d : Directive) : List DumpLine :=
  .name d.name ::
    match d.commands with
    | [] => [.noCommands]
    | cs => .commands :: cs.flatMap Command.outline

namespace Program

def outline (p : Program) : List DumpLine :=
  match p.directives with
  | [] => [.nothing]
  | ds => ds.flatMap Directive.outline

/-- The dump of a program whose scalars are spelled in some way. -/
def yamlBy (spell : String → String) (p : Program) : String :=
  String.join ((p.outline.map (DumpLine.text spell)).map (· ++ "\n"))

end Program

/-! ## Dumps by their lines -/

theorem Command.yamlLines_eq (c : Command) :
    c.yamlLines = c.outline.map (DumpLine.text Spelling.write) := by
  obtain ⟨_ | ⟨p, ps⟩⟩ := c
  · rfl
  · simp [yamlLines, outline, DumpLine.text]

theorem Directive.yamlLines_eq (d : Directive) :
    d.yamlLines = d.outline.map (DumpLine.text Spelling.write) := by
  obtain ⟨name, _ | ⟨c, cs⟩⟩ := d
  · rfl
  · simp [yamlLines, outline, DumpLine.text, List.map_flatMap,
      List.flatMap_congr fun (c : Command) _ => c.yamlLines_eq]

theorem Program.toYaml_eq (p : Program) : p.toYaml = p.yamlBy Spelling.write := by
  have hlines : p.yamlLines = p.outline.map (DumpLine.text Spelling.write) := by
    obtain ⟨_ | ⟨d, ds⟩⟩ := p
    · rfl
    · simp only [yamlLines, outline, List.map_flatMap]
      exact List.flatMap_congr fun d _ => d.yamlLines_eq
  rw [toYaml, yamlBy, hlines]

/-! ## Programs from lines -/

section

variable (cs : List Command) (ds : List Directive)

theorem Command.foldr_restore (c : Command) :
    c.outline.foldr restore ⟨[], cs, ds⟩ = ⟨[], c :: cs, ds⟩ := by
  obtain ⟨_ | ⟨p, ps⟩⟩ := c
  · rfl
  · have hparts : (ps.map DumpLine.part).foldr restore ⟨[], cs, ds⟩ = ⟨ps, cs, ds⟩ := by
      induction ps with
      | nil => rfl
      | cons q ps ih => rw [List.map_cons, List.foldr_cons, ih]; rfl
    rw [outline, List.foldr_cons, hparts]
    rfl

theorem Command.foldr_restore_flatMap :
    (cs.flatMap Command.outline).foldr restore ⟨[], [], ds⟩ = ⟨[], cs, ds⟩ := by
  induction cs with
  | nil => rfl
  | cons c cs ih => rw [List.flatMap_cons, List.foldr_append, ih, Command.foldr_restore]

theorem Directive.foldr_restore (d : Directive) :
    d.outline.foldr restore ⟨[], [], ds⟩ = ⟨[], [], d :: ds⟩ := by
  obtain ⟨name, commands⟩ := d
  have hcommands := Command.foldr_restore_flatMap commands ds
  cases commands with
  | nil => rfl
  | cons c cs =>
    rw [outline, List.foldr_cons, List.foldr_cons, hcommands]
    rfl

end

theorem Program.restore_outline (p : Program) :
    p.outline.foldr restore ⟨[], [], []⟩ = ⟨[], [], p.directives⟩ := by
  have hdirectives : ∀ ds : List Directive,
      (ds.flatMap Directive.outline).foldr restore ⟨[], [], []⟩ = ⟨[], [], ds⟩ := by
    intro ds
    induction ds with
    | nil => rfl
    | cons d ds ih => rw [List.flatMap_cons, List.foldr_append, ih, Directive.foldr_restore]
  obtain ⟨_ | ⟨d, ds⟩⟩ := p
  · rfl
  · exact hdirectives (d :: ds)

theorem Program.outline_injective {p q : Program} (h : p.outline = q.outline) : p = q := by
  have hrestored := congrArg (List.foldr restore ⟨[], [], []⟩) h
  rw [p.restore_outline, q.restore_outline] at hrestored
  obtain ⟨ps⟩ := p
  obtain ⟨qs⟩ := q
  exact congrArg Program.mk (DumpLine.Below.mk.inj hrestored).2.2

/-! ## Lines from a text -/

/-- A text is divided into its lines again. -/
theorem splitOnP_join_lines {lines : List String} (h : ∀ l ∈ lines, '\n' ∉ l.toList) :
    (String.join (lines.map (· ++ "\n"))).toList.splitOnP (· = '\n') =
      lines.map String.toList ++ [[]] := by
  induction lines with
  | nil => rfl
  | cons l lines ih =>
    obtain ⟨hl, hlines⟩ := List.forall_mem_cons.1 h
    have hchars : (String.join ((l :: lines).map (· ++ "\n"))).toList =
        l.toList ++ '\n' :: (String.join (lines.map (· ++ "\n"))).toList := by
      rw [List.map_cons, String.join_cons, String.toList_append, String.toList_append,
        List.append_assoc]
      rfl
    have hfree : ∀ c ∈ l.toList, decide (c = '\n') = false := by
      intro c hc
      rw [decide_eq_false_iff_not]
      rintro rfl
      exact hl hc
    rw [hchars, List.splitOnP_append_cons_of_forall_mem hfree '\n' rfl, ih hlines]
    rfl

namespace DumpLine

variable {spell : String → String} {a b : DumpLine}

theorem lineFeed_not_mem_text (h : Spelling.Unambiguous spell) (ha : a.Spelled) :
    '\n' ∉ (a.text spell).toList := by
  have hword : ∀ w, a.scalar? = some w → '\n' ∉ (spell w).toList :=
    fun w hw => h.lineFeed_not_mem (ha w hw)
  cases a with
  | nothing | noCommands | commands | emptyCommand => simp [text]
  | name w | firstPart w | part w =>
    have hspelled := hword w rfl
    rw [text, String.toList_append, List.mem_append, not_or]
    exact ⟨by decide, hspelled⟩

/-- No two lines read the same. -/
theorem eq_of_text_eq (h : Spelling.Unambiguous spell) (ha : a.Spelled) (hb : b.Spelled)
    (hab : a.text spell = b.text spell) : a = b := by
  have hchars := congrArg String.toList hab
  -- The marks of different lines differ; what is left are lines of one kind.
  cases a <;> cases b <;> simp [text] at hchars
  case nothing.nothing | noCommands.noCommands | commands.commands | emptyCommand.emptyCommand => rfl
  case name.name v w | firstPart.firstPart v w | part.part v w =>
    have hscalars : spell v = spell w := by simpa [text] using hab
    rw [h.eq_of_eq (ha v rfl) (hb w rfl) hscalars]

/-- Lines are read back from the text that they make. -/
theorem eq_of_join_eq (h : Spelling.Unambiguous spell) {as bs : List DumpLine}
    (has : ∀ a ∈ as, a.Spelled) (hbs : ∀ b ∈ bs, b.Spelled)
    (heq : String.join ((as.map (text spell)).map (· ++ "\n")) =
      String.join ((bs.map (text spell)).map (· ++ "\n"))) : as = bs := by
  have hfree : ∀ {ls : List DumpLine}, (∀ l ∈ ls, l.Spelled) →
      ∀ t ∈ ls.map (text spell), '\n' ∉ t.toList := by
    intro ls hls t ht
    obtain ⟨l, hl, rfl⟩ := List.mem_map.1 ht
    exact lineFeed_not_mem_text h (hls l hl)
  have htexts : as.map (text spell) = bs.map (text spell) := by
    have hsplit := congrArg (fun t => t.toList.splitOnP (· = '\n')) heq
    simp only [splitOnP_join_lines (hfree has), splitOnP_join_lines (hfree hbs)] at hsplit
    exact (List.map_inj_right fun _ _ => String.toList_inj.1).1 (List.append_cancel_right hsplit)
  clear heq
  induction as generalizing bs with
  | nil => exact (List.map_eq_nil_iff.1 htexts.symm).symm
  | cons a as ih =>
    obtain ⟨b, bs, rfl, hb, htail⟩ := List.map_eq_cons_iff.1 htexts.symm
    obtain ⟨ha', has⟩ := List.forall_mem_cons.1 has
    obtain ⟨hb', hbs⟩ := List.forall_mem_cons.1 hbs
    rw [eq_of_text_eq h ha' hb' hb.symm, ih has hbs htail.symm]

end DumpLine

/-! ## Programs that compile -/

theorem Command.Spelled.outline {c : Command} (h : c.Spelled) : ∀ l ∈ c.outline, l.Spelled := by
  intro l hl w hw
  have hmem : w ∈ c.parts := by
    obtain ⟨_ | ⟨p, ps⟩⟩ := c
    · obtain rfl := List.mem_singleton.1 hl
      cases hw
    · rcases List.mem_cons.1 hl with rfl | hl
      · cases hw
        exact List.mem_cons_self ..
      · obtain ⟨q, hq, rfl⟩ := List.mem_map.1 hl
        cases hw
        exact List.mem_cons_of_mem _ hq
  exact (h w hmem).2

theorem Directive.Spelled.outline {d : Directive} (h : d.Spelled) :
    ∀ l ∈ d.outline, l.Spelled := by
  obtain ⟨name, commands⟩ := d
  have hname : (DumpLine.name name).Spelled := by
    rintro w ⟨⟩ c hc
    exact isPart_of_isAlpha (h.name.2 c hc)
  have hcommands : ∀ l ∈ commands.flatMap Command.outline, l.Spelled := by
    intro l hl
    obtain ⟨c, hc, hl⟩ := List.mem_flatMap.1 hl
    exact (h.commands c hc).outline l hl
  intro l hl
  rcases List.mem_cons.1 hl with rfl | hl
  · exact hname
  · cases commands with
    | nil =>
      obtain rfl := List.mem_singleton.1 hl
      rintro w ⟨⟩
    | cons c cs =>
      rcases List.mem_cons.1 hl with rfl | hl
      · rintro w ⟨⟩
      · exact hcommands l hl

theorem Program.outline_spelled {p : Program} (h : ∀ d ∈ p.directives, d.Spelled) :
    ∀ l ∈ p.outline, l.Spelled := by
  obtain ⟨_ | ⟨d, ds⟩⟩ := p
  · intro l hl
    obtain rfl := List.mem_singleton.1 hl
    rintro w ⟨⟩
  · intro l hl
    obtain ⟨e, he, hl⟩ := List.mem_flatMap.1 hl
    exact (h e he).outline l hl

theorem Program.yamlBy_eq_iff {spell : String → String} (h : Spelling.Unambiguous spell)
    {p q : Program} (hp : ∀ d ∈ p.directives, d.Spelled) (hq : ∀ d ∈ q.directives, d.Spelled) :
    p.yamlBy spell = q.yamlBy spell ↔ p = q := by
  refine ⟨fun heq => ?_, fun heq => by rw [heq]⟩
  exact outline_injective (DumpLine.eq_of_join_eq h (outline_spelled hp) (outline_spelled hq) heq)

namespace Compile

/-- Two texts, with errors or without, are dumped alike if and only if they compile to the same program,
and it does not matter which of the scalars are quoted beyond those that start with a quote. -/
theorem toYaml_parse_eq_iff (source other : String) :
    ((parse source).value.program.toYaml = (parse other).value.program.toYaml ↔
      (parse source).value.program = (parse other).value.program) ∧
    ∀ spell, Spelling.Unambiguous spell →
      ((parse source).value.program.yamlBy spell = (parse other).value.program.yamlBy spell ↔
        (parse source).value.program = (parse other).value.program) := by
  have hspelled : ∀ text, ∀ d ∈ (parse text).value.program.directives, d.Spelled :=
    fun text d hd => spelled_of_mem_parse hd
  have hiff : ∀ spell, Spelling.Unambiguous spell →
      ((parse source).value.program.yamlBy spell = (parse other).value.program.yamlBy spell ↔
        (parse source).value.program = (parse other).value.program) :=
    fun spell h => Program.yamlBy_eq_iff h (hspelled source) (hspelled other)
  refine ⟨?_, hiff⟩
  rw [Program.toYaml_eq, Program.toYaml_eq]
  exact hiff _ Spelling.unambiguous_write

theorem toYaml_parse_eq_iff_of_quoted :
    let spell : String → String := fun w => String.ofList (Spelling.quoted w.toList)
    Spelling.Unambiguous spell ∧
      (parse "a\x7b[];\x7d").value.program.yamlBy spell ≠
        (parse "a\x7b;\x7d").value.program.yamlBy spell := by
  intro spell
  have hspell : Spelling.Unambiguous spell := ⟨fun _ _ => .inr rfl, fun _ _ _ => rfl⟩
  refine ⟨hspell, fun heq => ?_⟩
  have hprograms := ((toYaml_parse_eq_iff "a\x7b[];\x7d" "a\x7b;\x7d").2 spell hspell).1 heq
  exact absurd hprograms (by decide +kernel)

end Compile

end BuildTool
