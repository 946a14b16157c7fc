import BuildTool.Proofs.Token.Reading
/-!
# The verdict of the scanner

Whether a text can be divided into tokens is decided by an automaton with three states, the places of a
character (`Place.next?`, `Place.walk`). The scanner fails at the character at which the automaton is
stuck, fails at the end of a text in an open block, and succeeds otherwise (`Token.scan_cases`).
-/

namespace BuildTool

open Alphabet

namespace Place

/-- The place behind a character, if the character may stand there. -/
def next? : Place → Char → Option Place
  | top, c =>
    if isSpace c || c.isAlpha then some top
    else if c = '(' then some (inside .dependencies)
    else if c = '\x7b' then some (inside .commands)
    else none
  | inside .dependencies, c =>
    if c = ')' then some top
    else if isSpace c || isPart c then some (inside .dependencies)
    else none
  | inside .commands, c =>
    if c = '\x7d' then some top
    else if isSpace c || c = ';' || isPart c then some (inside .commands)
    else none

/-- The place behind a text. -/
def walk (p : Place) (cs : List Char) : Option Place :=
  cs.foldlM next? p

theorem walk_cons (p : Place) (c : Char) (cs : List Char) :
    p.walk (c :: cs) = (p.next? c).bind fun q => q.walk cs := by
  simp [walk, List.foldlM_cons]

theorem walk_append (p : Place) (cs ds : List Char) :
    p.walk (cs ++ ds) = (p.walk cs).bind fun q => q.walk ds := by
  simp [walk, List.foldlM_append]

/-- A text is walked to its end, or the automaton is stuck at some character. -/
theorem walk_or_stuck (p : Place) (cs : List Char) :
    (∃ q, p.walk cs = some q) ∨
    ∃ before c after q, cs = before ++ c :: after ∧ p.walk before = some q ∧
      q.next? c = none := by
  induction cs generalizing p with
  | nil => exact .inl ⟨p, rfl⟩
  | cons c cs ih =>
    cases hc : p.next? c with
    | none => exact .inr ⟨[], c, cs, p, rfl, rfl, hc⟩
    | some r =>
      rcases ih r with ⟨q, hq⟩ | ⟨before, d, after, q, hcs, hq, hd⟩
      · exact .inl ⟨q, by rw [walk_cons, hc]; exact hq⟩
      · refine .inr ⟨c :: before, d, after, q, by rw [hcs]; rfl, ?_, hd⟩
        rw [walk_cons, hc]
        exact hq

/-! ## The automaton and the readings -/

/-- Inside a block the automaton stays but at the closer: the comma of a list is a part character. -/
theorem next?_inside (b : Block) (c : Char) :
    (inside b).next? c =
      if c = b.closer then some top
      else if isSpace c || c = b.separator || isPart c then some (inside b)
      else none := by
  cases b with
  | commands => rfl
  | dependencies =>
    by_cases hcomma : c = ','
    · subst hcomma; rfl
    · simp [next?, Block.closer, Block.separator, hcomma]

theorem next?_of_isSpace {p : Place} {c : Char} (h : isSpace c = true) : p.next? c = some p := by
  cases p with
  | top => simp [next?, h]
  | inside b =>
    rw [next?_inside, if_neg (closer_ne_of_isSpace h), h]
    rfl

theorem next?_of_wordChar {p : Place} {c : Char} (h : p.wordChar c = true) :
    p.next? c = some p := by
  cases p with
  | top =>
    have halpha : c.isAlpha = true := h
    simp [next?, halpha]
  | inside b =>
    simp only [wordChar, Bool.and_eq_true] at h
    rw [next?_inside, if_neg (closer_ne_of_isPart h.1), h.1, Bool.or_true]
    rfl

theorem next?_of_delimits {p q : Place} {c : Char} {k : Token.Kind} (h : p.Delimits c k q) :
    p.next? c = some q := by
  cases h with
  | parenthesis => rfl
  | brace => rfl
  | closer b => cases b <;> rfl
  | separator b => cases b <;> rfl

theorem next?_eq_none {p : Place} {c : Char} (hspace : isSpace c = false)
    (hword : p.wordChar c = false) (hdelim : ∀ k q, ¬ p.Delimits c k q) : p.next? c = none := by
  cases p with
  | top =>
    have halpha : c.isAlpha = false := hword
    obtain ⟨hparen, hbrace⟩ := ne_of_not_delimits_top hdelim
    simp [next?, hspace, halpha, hparen, hbrace]
  | inside b =>
    obtain ⟨hclose, hsep⟩ := ne_of_not_delimits_inside hdelim
    have hpart : isPart c = false := by simpa [wordChar, hsep] using hword
    simp [next?_inside, hclose, hsep, hspace, hpart]

end Place

/-! ## Runs of the scanner -/

namespace Scanner

theorem step_of_next? {s : Scanner} {c : Char} {q : Place} (h : s.place.next? c = some q) :
    ∃ t, s.step c = .ok t ∧ t.place = q ∧ t.line = s.line + [c].count '\n' := by
  rcases s.place.reading_cases c with ⟨hc, -⟩ | ⟨hc, -⟩ | ⟨k, r, hc, -⟩ | ⟨hs, hw, hd, -⟩
  · rw [Place.next?_of_isSpace hc] at h
    exact ⟨_, step_of_isSpace hc, by simpa using h, rfl⟩
  · rw [Place.next?_of_wordChar hc] at h
    refine ⟨_, step_of_wordChar hc, Option.some.inj h, ?_⟩
    have hline : c ≠ '\n' := ne_lineFeed (Place.isSpace_of_wordChar hc)
    simp [hline]
  · rw [Place.next?_of_delimits hc] at h
    refine ⟨_, step_of_delimits hc, Option.some.inj h, ?_⟩
    have hline : c ≠ '\n' := ne_lineFeed (Place.isSpace_of_delimits hc)
    simp [emit, hline]
  · rw [Place.next?_eq_none hs hw hd] at h
    cases h

theorem step_of_stuck {s : Scanner} {c : Char} (h : s.place.next? c = none) :
    s.step c = .error (.illegal c s.line) := by
  rcases s.place.reading_cases c with ⟨hc, -⟩ | ⟨hc, -⟩ | ⟨k, r, hc, -⟩ | ⟨-, -, -, hr⟩
  · rw [Place.next?_of_isSpace hc] at h; cases h
  · rw [Place.next?_of_wordChar hc] at h; cases h
  · rw [Place.next?_of_delimits hc] at h; cases h
  · rw [step, hr]

/-- A scanner reads every text the automaton walks, and counts its line feeds. -/
theorem feed_of_walk {s : Scanner} {cs : List Char} {q : Place} (h : s.place.walk cs = some q) :
    ∃ t, s.feed cs = .ok t ∧ t.place = q ∧ t.line = s.line + cs.count '\n' := by
  induction cs generalizing s with
  | nil => exact ⟨s, rfl, Option.some.inj h, rfl⟩
  | cons c cs ih =>
    rw [Place.walk_cons, Option.bind_eq_some_iff] at h
    obtain ⟨r, hr, hcs⟩ := h
    obtain ⟨t, hstep, hplace, hline⟩ := step_of_next? hr
    rw [← hplace] at hcs
    obtain ⟨u, hfeed, huplace, huline⟩ := ih hcs
    refine ⟨u, ?_, huplace, ?_⟩
    · rw [feed_cons, hstep]
      exact hfeed
    · have hcount : (c :: cs).count '\n' = [c].count '\n' + cs.count '\n' := by
        rw [← List.count_append, List.singleton_append]
      rw [huline, hline, hcount, Nat.add_assoc]

/-- Where the automaton is stuck the scanner stops, on the line it has come to. -/
theorem feed_of_stuck {s : Scanner} {before after : List Char} {c : Char} {q : Place}
    (hwalk : s.place.walk before = some q) (hstuck : q.next? c = none) :
    s.feed (before ++ c :: after) = .error (.illegal c (s.line + before.count '\n')) := by
  obtain ⟨t, hfeed, hplace, hline⟩ := feed_of_walk hwalk
  rw [← hplace] at hstuck
  rw [feed_append, hfeed, ← hline]
  change t.feed (c :: after) = _
  rw [feed_cons, step_of_stuck hstuck]
  rfl

theorem walk_of_feed {s t : Scanner} {cs : List Char} (h : s.feed cs = .ok t) :
    s.place.walk cs = some t.place ∧ t.line = s.line + cs.count '\n' := by
  rcases s.place.walk_or_stuck cs with ⟨q, hwalk⟩ | ⟨before, c, after, q, rfl, hwalk, hstuck⟩
  · obtain ⟨u, hfeed, hplace, hline⟩ := feed_of_walk hwalk
    obtain rfl : u = t := Except.ok.inj (hfeed.symm.trans h)
    exact ⟨by rw [hwalk, hplace], hline⟩
  · rw [feed_of_stuck hwalk hstuck] at h
    cases h

end Scanner

/-! ## Whole texts -/

namespace Token

variable {source : String}

theorem scan_of_stuck {before after : List Char} {c : Char} {p : Place}
    (hsplit : source.toList = before ++ c :: after) (hwalk : Place.top.walk before = some p)
    (hstuck : p.next? c = none) :
    scan source = .error (.illegal c (1 + before.count '\n')) := by
  rw [scan, hsplit, Scanner.feed_of_stuck (s := .start) hwalk hstuck]
  rfl

theorem scan_of_walk_inside {b : Block}
    (hwalk : Place.top.walk source.toList = some (.inside b)) :
    scan source = .error (.unclosed b.unclosed (1 + source.toList.count '\n')) := by
  obtain ⟨t, hfeed, hplace, hline⟩ := Scanner.feed_of_walk (s := .start) hwalk
  rw [scan, hfeed]
  change t.finish = _
  rw [Scanner.finish, hplace, hline]
  rfl

theorem scan_of_walk_top (hwalk : Place.top.walk source.toList = some .top) :
    ∃ ts, scan source = .ok ts := by
  obtain ⟨t, hfeed, hplace, -⟩ := Scanner.feed_of_walk (s := .start) hwalk
  refine ⟨(t.flush.tokens.push (.endOfInput t.line)).toList, ?_⟩
  rw [scan, hfeed]
  change t.finish = _
  rw [Scanner.finish, hplace]

/-- What the automaton does with a text, beside what the scanner makes of it. -/
theorem scan_cases (source : String) :
    (Place.top.walk source.toList = some .top ∧ ∃ ts, scan source = .ok ts) ∨
    (∃ b, Place.top.walk source.toList = some (.inside b) ∧
      scan source = .error (.unclosed b.unclosed (1 + source.toList.count '\n'))) ∨
    (Place.top.walk source.toList = none ∧
      ∃ before c after p, source.toList = before ++ c :: after ∧
        Place.top.walk before = some p ∧ p.next? c = none ∧
        scan source = .error (.illegal c (1 + before.count '\n'))) := by
  rcases Place.top.walk_or_stuck source.toList with ⟨p, hwalk⟩ | ⟨before, c, after, p, hs, hp, hc⟩
  · cases p with
    | top => exact .inl ⟨hwalk, scan_of_walk_top hwalk⟩
    | inside b => exact .inr (.inl ⟨b, hwalk, scan_of_walk_inside hwalk⟩)
  · have hnone : Place.top.walk source.toList = none := by
      rw [hs, Place.walk_append, hp]
      change p.walk (c :: after) = none
      rw [Place.walk_cons, hc]
      rfl
    exact .inr (.inr ⟨hnone, before, c, after, p, hs, hp, hc, scan_of_stuck hs hp hc⟩)

theorem scan_eq_illegal_iff {c : Char} {line : Nat} :
    scan source = .error (.illegal c line) ↔
      ∃ before after p, source.toList = before ++ c :: after ∧ Place.top.walk before = some p ∧
        p.next? c = none ∧ line = 1 + before.count '\n' := by
  constructor
  · intro h
    rcases scan_cases source with ⟨-, ts, hts⟩ | ⟨b, -, hb⟩ | ⟨-, before, d, after, p, hs, hp, hd, he⟩
    · rw [hts] at h; cases h
    · rw [hb] at h; cases b <;> cases h
    · rw [he] at h; cases h
      exact ⟨before, after, p, hs, hp, hd, rfl⟩
  · intro h
    obtain ⟨before, after, p, hs, hp, hc, hline⟩ := h
    rw [hline]
    exact scan_of_stuck hs hp hc

theorem scan_eq_unclosed_iff {b : Block} {line : Nat} :
    scan source = .error (.unclosed b.unclosed line) ↔
      Place.top.walk source.toList = some (.inside b) ∧ line = 1 + source.toList.count '\n' := by
  constructor
  · intro h
    rcases scan_cases source with ⟨-, ts, hts⟩ | ⟨d, hd, he⟩ | ⟨-, before, d, after, p, -, -, -, he⟩
    · rw [hts] at h; cases h
    · rw [he] at h
      cases b <;> cases d <;> cases h <;> exact ⟨hd, rfl⟩
    · rw [he] at h; cases b <;> cases h
  · intro h
    rw [h.2]
    exact scan_of_walk_inside h.1

theorem scan_eq_ok_iff_walk :
    (∃ ts, scan source = .ok ts) ↔ Place.top.walk source.toList = some .top := by
  constructor
  · intro h
    obtain ⟨ts, hts⟩ := h
    rcases scan_cases source with ⟨hwalk, -⟩ | ⟨b, -, hb⟩ | ⟨-, before, d, after, p, -, -, -, he⟩
    · exact hwalk
    · rw [hts] at hb; cases hb
    · rw [hts] at he; cases he
  · exact scan_of_walk_top

/-- A text is illegal at the first character at which the automaton is stuck. If the automaton comes
to the end of the text, an open block is the error, and outside of blocks there is none. Lines are
counted by the line feeds before the place of the error. -/
theorem scan_verdict (source : String) :
    (∀ c line, scan source = .error (.illegal c line) ↔
      ∃ before after p, source.toList = before ++ c :: after ∧ Place.top.walk before = some p ∧
        p.next? c = none ∧ line = 1 + before.count '\n') ∧
    (∀ line, scan source = .error (.unclosed .unclosedDependencyList line) ↔
      Place.top.walk source.toList = some (.inside .dependencies) ∧
        line = 1 + source.toList.count '\n') ∧
    (∀ line, scan source = .error (.unclosed .unclosedCommandBlock line) ↔
      Place.top.walk source.toList = some (.inside .commands) ∧
        line = 1 + source.toList.count '\n') ∧
    ((∃ ts, scan source = .ok ts) ↔ Place.top.walk source.toList = some .top) := by
  refine ⟨fun c line => scan_eq_illegal_iff, fun line => ?_, fun line => ?_, scan_eq_ok_iff_walk⟩
  · exact scan_eq_unclosed_iff (b := .dependencies)
  · exact scan_eq_unclosed_iff (b := .commands)

end Token

end BuildTool
