import BuildTool.Proofs.Token.LayoutSplit
import BuildTool.Proofs.Token.Shift
/-!
# White space between words

White space that cuts no word moves the tokens behind it some lines further down and changes nothing
else (`Token.scan_insert`). An error keeps its place in the text, which decides about its line
(`ScanError.Stands.insert`). A carriage return before a line feed is not even seen
(`Token.scan_of_returns`).
-/

namespace BuildTool

open Alphabet

/-- No word goes on from one text to the other. -/
def Alphabet.Seam (u v : List Char) : Prop :=
  ∀ c ∈ u.getLast?, ∀ d ∈ v.head?, isPart c = true → isPart d = false

theorem Alphabet.seam_of_head? {v : List Char} {d : Char} (h : v.head? = some d)
    (hd : isPart d = false) (u : List Char) : Seam u v := by
  intro c _ e he _
  obtain rfl : d = e := Option.some.inj (h.symm.trans he)
  exact hd

theorem Alphabet.Seam.of_append {u v t : List Char} (h : Seam u (v ++ t)) : Seam u v := by
  cases v with
  | nil => simp [Seam]
  | cons d v => exact h

/-- Two texts joined and cut before a character. -/
theorem Alphabet.append_eq_cut {u v before after : List Char} {c : Char}
    (h : u ++ v = before ++ c :: after) :
    (∃ mid, u = before ++ c :: mid ∧ after = mid ++ v) ∨
    (∃ mid, before = u ++ mid ∧ v = mid ++ c :: after) := by
  rcases List.append_eq_append_iff.1 h with ⟨mid, hbefore, hv⟩ | ⟨mid, hu, hc⟩
  · exact .inr ⟨mid, hbefore, hv⟩
  · cases mid with
    | nil =>
      refine .inr ⟨[], ?_, hc.symm⟩
      rw [hu, List.append_nil, List.append_nil]
    | cons d mid =>
      obtain ⟨rfl, hafter⟩ := List.cons.inj hc
      exact .inl ⟨mid, hu, hafter⟩

/-! ## Words that end -/

theorem Place.isPart_of_wordChar {p : Place} {c : Char} (h : p.wordChar c = true) :
    isPart c = true := by
  cases p with
  | top => exact isPart_of_isAlpha h
  | inside b => exact (Bool.and_eq_true_iff.1 h).1

namespace Scanner

theorem complete_ne_nil {s : Scanner} {cs : List Char} {ts : List Token}
    (h : s.complete cs = .ok ts) : ts ≠ [] := by
  obtain ⟨t, -, hfinish⟩ := exists_of_complete h
  obtain ⟨-, rfl⟩ := finish_eq_ok_iff.1 hfinish
  simp

theorem finish_flush (s : Scanner) : s.flush.finish = s.finish := by
  rw [finish, finish, flush_place, flush_line, flush_of_word_eq (flush_word s)]

/-- Only a word character can tell whether a word is pending. -/
theorem step_flush {s : Scanner} {c : Char} (h : s.place.wordChar c = false) :
    s.flush.step c = s.step c := by
  have hflush : s.flush.flush = s.flush := flush_of_word_eq (flush_word s)
  rw [step, step, flush_place, hflush, flush_line]
  rcases s.place.reading_cases c with ⟨-, hr⟩ | ⟨hc, -⟩ | ⟨k, q, -, hr⟩ | ⟨-, -, -, hr⟩
  · rw [hr]
    by_cases hline : c = '\n' <;> simp [hline]
  · rw [hc] at h
    cases h
  · rw [hr]
  · rw [hr]

theorem complete_flush {s : Scanner} {cs : List Char}
    (h : s.word ≠ "" → ∀ c ∈ cs.head?, s.place.wordChar c = false) :
    s.flush.complete cs = s.complete cs := by
  by_cases hword : s.word = ""
  · rw [flush_of_word_eq hword]
  · cases cs with
    | nil => exact finish_flush s
    | cons c cs =>
      have hc : s.place.wordChar c = false := h hword c rfl
      rw [complete, complete, feed_cons, feed_cons, step_flush hc]

/-- A pending word is the end of the text so far. -/
theorem exists_getLast?_of_word_ne {s t : Scanner} {cs : List Char} (hfeed : s.feed cs = .ok t)
    (hs : s.word = "") (ht : t.word ≠ "") :
    ∃ c, cs.getLast? = some c ∧ t.place.wordChar c = true := by
  rcases List.eq_nil_or_concat cs with rfl | ⟨front, c, rfl⟩
  · cases hfeed
    exact absurd hs ht
  · rw [List.concat_eq_append] at hfeed
    obtain ⟨r, -, hlast⟩ := exists_of_feed_append hfeed
    obtain ⟨u, hstep, hu⟩ := exists_of_feed_cons hlast
    obtain rfl : u = t := Except.ok.inj hu
    refine ⟨c, by simp, ?_⟩
    rcases step_cases hstep with ⟨-, rfl⟩ | ⟨hc, rfl⟩ | ⟨k, q, -, rfl⟩
    · exact absurd (flush_word r) ht
    · exact hc
    · exact absurd (flush_word r) ht

/-- Between two words the scanner knows its place and its line alone. -/
def between (s : Scanner) : Scanner :=
  ⟨s.place, s.line, "", #[]⟩

theorem flush_eq_after (s : Scanner) (n : Nat) :
    { s.flush with line := s.line + n } = s.between.after s.flush.tokens n := by
  simp [between, after]

/-- What follows a seam is scanned by itself, as many lines further down as white space stands
there. -/
theorem complete_of_seam {s : Scanner} {u v gap : List Char} (hfeed : start.feed u = .ok s)
    (hseam : Seam u v) (hgap : ∀ c ∈ gap, isSpace c = true) :
    start.complete (u ++ gap ++ v) =
      ((s.between.complete v).map fun us =>
        s.flush.tokens.toList ++ us.map (Token.shift (gap.count '\n'))).mapError
          (.shift (gap.count '\n')) := by
  have hends : s.word ≠ "" → ∀ d ∈ v.head?, s.place.wordChar d = false := by
    intro hword d hd
    obtain ⟨c, hc, hlast⟩ := exists_getLast?_of_word_ne hfeed rfl hword
    have hpart := hseam c hc d hd (Place.isPart_of_wordChar hlast)
    by_contra hne
    rw [Place.isPart_of_wordChar (eq_true_of_ne_false hne)] at hpart
    cases hpart
  -- A word still pending ends at the seam, so it may as well end before the gap.
  rw [List.append_assoc, complete_append_of_feed hfeed, ← complete_after, ← flush_eq_after]
  by_cases hnil : gap = []
  · have hflush : { s.flush with line := s.line + [].count '\n' } = s.flush := by
      rw [List.count_nil, Nat.add_zero, ← flush_line s]
    rw [hnil, List.nil_append, hflush, complete_flush hends]
  · exact complete_append_of_feed (feed_gap hgap hnil) v

end Scanner

/-! ## Tokens on both sides -/

theorem Token.shift_zero : Token.shift 0 = id := rfl

namespace Token

variable {u w v : String} {ts : List Token}

/-- White space between two words moves the tokens behind it. The tokens before it are those that
spell the text before it. -/
theorem scan_insert (hw : ∀ c ∈ w.toList, isSpace c = true) (hseam : Seam u.toList v.toList)
    (h : scan (u ++ v) = .ok ts) :
    ∃ front back, ts = front ++ back ∧ back ≠ [] ∧
      front.flatMap (fun t => t.lexeme.toList) = u.toList.filter (!isSpace ·) ∧
      scan (u ++ w ++ v) = .ok (front ++ back.map (shift (w.toList.count '\n'))) := by
  rw [scan_eq_complete, String.toList_append] at h
  obtain ⟨t, hall, -⟩ := Scanner.exists_of_complete h
  obtain ⟨s, hfeed, -⟩ := Scanner.exists_of_feed_append hall
  have hjoined := Scanner.complete_of_seam hfeed hseam (List.forall_mem_nil _)
  have hinserted := Scanner.complete_of_seam hfeed hseam hw
  rw [List.append_nil, h] at hjoined
  rw [← String.toList_append, ← String.toList_append] at hinserted
  cases hback : s.between.complete v.toList with
  | error e => rw [hback] at hjoined; cases hjoined
  | ok back =>
    rw [hback] at hjoined hinserted
    have hsplit : ts = s.flush.tokens.toList ++ back.map (shift 0) := Except.ok.inj hjoined
    refine ⟨s.flush.tokens.toList, back, ?_, Scanner.complete_ne_nil hback, ?_, hinserted⟩
    · rw [hsplit, shift_zero, List.map_id]
    · obtain ⟨l, hchars, -, htokens⟩ := Scanner.exists_layout_of_feed hfeed
      rw [htokens, l.flatMap_tokens, hchars]

end Token

/-! ## The place of an error -/

/-- Where an error in the characters of a text stands: behind which of them. -/
inductive ScanError.Stands (source : String) : ScanError → List Char → Prop
  | illegal {before after : List Char} {c : Char} {p : Place}
      (hsplit : source.toList = before ++ c :: after) (hwalk : Place.top.walk before = some p)
      (hstuck : p.next? c = none) :
      Stands source (.illegal c (1 + before.count '\n')) before
  | unclosed {b : Block} (hwalk : Place.top.walk source.toList = some (.inside b)) :
      Stands source (.unclosed b.unclosed (1 + source.toList.count '\n')) source.toList

theorem Token.scan_eq_error_iff {source : String} {e : ScanError} :
    scan source = .error e ↔ ∃ before, e.Stands source before := by
  constructor
  · intro h
    rcases scan_cases source with ⟨-, ts, hts⟩ | ⟨b, hwalk, hb⟩ |
      ⟨-, before, c, after, p, hsplit, hwalk, hstuck, hc⟩
    · rw [hts] at h
      cases h
    · obtain rfl := Except.error.inj (hb.symm.trans h)
      exact ⟨_, .unclosed hwalk⟩
    · obtain rfl := Except.error.inj (hc.symm.trans h)
      exact ⟨_, .illegal hsplit hwalk hstuck⟩
  · rintro ⟨before, hbefore⟩
    cases hbefore with
    | illegal hsplit hwalk hstuck => exact scan_of_stuck hsplit hwalk hstuck
    | unclosed hwalk => exact scan_of_walk_inside hwalk

namespace Place

variable {w : List Char}

theorem walk_space (p : Place) (hw : ∀ c ∈ w, isSpace c = true) : p.walk w = some p := by
  induction w with
  | nil => rfl
  | cons c w ih =>
    rw [walk_cons, next?_of_isSpace (hw c (List.mem_cons_self ..))]
    exact ih fun d hd => hw d (List.mem_cons_of_mem _ hd)

theorem walk_insert (p : Place) (u v : List Char) (hw : ∀ c ∈ w, isSpace c = true) :
    p.walk (u ++ w ++ v) = p.walk (u ++ v) := by
  rw [List.append_assoc, walk_append, walk_append]
  congr 1
  funext q
  rw [walk_append, q.walk_space hw]
  rfl

end Place

/-- White space before an error moves it, and none behind it does. -/
theorem ScanError.Stands.insert {u w v : String} {e : ScanError} {before : List Char}
    (hw : ∀ c ∈ w.toList, isSpace c = true) (h : e.Stands (u ++ v) before) :
    ∃ moved, (e.shift (if before.length < u.toList.length then 0 else w.toList.count '\n')).Stands
      (u ++ w ++ v) moved := by
  cases h with
  | @illegal _ after c p hsplit hwalk hstuck =>
    rw [String.toList_append] at hsplit
    rcases append_eq_cut hsplit with ⟨mid, hu, -⟩ | ⟨mid, rfl, hv⟩
    · have hfront : before.length < u.toList.length := by
        rw [hu]
        simp
      have hcut : (u ++ w ++ v).toList = before ++ c :: (mid ++ w.toList ++ v.toList) := by
        simp [hu]
      rw [if_pos hfront]
      exact ⟨before, .illegal hcut hwalk hstuck⟩
    · have hcut : (u ++ w ++ v).toList = u.toList ++ w.toList ++ mid ++ c :: after := by
        simp [hv]
      rw [← Place.walk_insert _ _ _ hw] at hwalk
      have hline : 1 + (u.toList ++ w.toList ++ mid).count '\n' =
          1 + (u.toList ++ mid).count '\n' + w.toList.count '\n' := by
        simp only [List.count_append]
        omega
      have hstands := Stands.illegal hcut hwalk hstuck
      rw [hline] at hstands
      rw [if_neg (by simp)]
      exact ⟨_, hstands⟩
  | @unclosed b hwalk =>
    rw [String.toList_append, ← Place.walk_insert _ _ _ hw, ← String.toList_append,
      ← String.toList_append] at hwalk
    have hline : 1 + (u ++ w ++ v).toList.count '\n' =
        1 + (u ++ v).toList.count '\n' + w.toList.count '\n' := by
      simp only [String.toList_append, List.count_append]
      omega
    have hstands := Stands.unclosed hwalk
    rw [hline] at hstands
    rw [if_neg (by simp)]
    exact ⟨_, hstands⟩

/-! ## Carriage returns -/

/-- Some line feeds of a text get a carriage return. -/
inductive Alphabet.Returns : List Char → List Char → Prop
  | nil : Returns [] []
  | keep {cs ds : List Char} (c : Char) (h : Returns cs ds) : Returns (c :: cs) (c :: ds)
  | convert {cs ds : List Char} (h : Returns cs ds) : Returns ('\n' :: cs) ('\r' :: '\n' :: ds)

theorem Scanner.feed_of_returns {cs ds : List Char} (h : Returns cs ds) (s : Scanner) :
    s.feed ds = s.feed cs := by
  induction h generalizing s with
  | nil => rfl
  | keep c _ ih =>
    rw [feed_cons, feed_cons]
    simp only [ih]
  | @convert cs ds _ ih =>
    have hreturn : ∀ c ∈ ['\r', '\n'], isSpace c = true := by simp [isSpace, isBlank]
    have hfeed : ∀ c ∈ ['\n'], isSpace c = true := by simp [isSpace]
    change s.feed (['\r', '\n'] ++ ds) = s.feed (['\n'] ++ cs)
    rw [feed_append, feed_append, feed_gap hreturn (by simp), feed_gap hfeed (by simp)]
    exact ih _

theorem Token.scan_of_returns {s t : String} (h : Returns s.toList t.toList) : scan t = scan s := by
  rw [scan, scan, Scanner.feed_of_returns h]

end BuildTool
