import Lc3.Proofs.SourceLines

/-! # The scanner of lines

A source can be read line by line with nothing but a count of the bytes that have been read: the
rest of the source is sliced off at the count, and the line off the rest. `Scanner.next?` does so,
and fails if a slice does not lie between characters. It never comes to that, because the count is
that of whole pieces with their newlines (`Scanner.yields_ofPieces`), and it ends with the lines
that are made of the pieces all at once. What is said about them here is read off the pieces by
`induct_lines`: a text has no newline, or goes on after its first. -/

namespace Lc3.Text

/-- The source from byte `start` to before byte `stop`, if both lie between characters. -/
def slice? (source : String) (start stop : Nat) : Option String :=
  if start ≤ stop ∧ String.Pos.Raw.IsValid source ⟨start⟩ ∧
      String.Pos.Raw.IsValid source ⟨stop⟩ then
    some (String.Pos.Raw.extract source ⟨start⟩ ⟨stop⟩)
  else none

/-- A source of which `offset` bytes have been read, or one more if its last line has no newline. -/
structure Scanner where
  source : String
  offset : Nat

namespace Scanner

/-- The next line, if there is one, and the scanner after it; nothing at all if a slice fails. -/
def next? (s : Scanner) : Option (Option (Line × Scanner)) :=
  if s.source.utf8ByteSize ≤ s.offset then some none
  else do
    let rest ← slice? s.source s.offset s.source.utf8ByteSize
    let length := utf8Length (rest.toList.takeWhile (· ≠ '\n'))
    let piece ← slice? rest 0 length
    return some (Line.ofPiece s.offset piece.toList, ⟨s.source, s.offset + length + 1⟩)

/-- The scanner gives the lines one after the other, and then there are no more. -/
inductive Yields : Scanner → List Line → Prop
  | done {s : Scanner} (h : s.next? = some none) : Yields s []
  | line {s t : Scanner} {l : Line} {ls : List Line} (h : s.next? = some (some (l, t)))
    (hls : Yields t ls) : Yields s (l :: ls)

end Scanner

/-- What stands between the newlines, but for nothing after the last one. -/
def between (cs : List Char) : List (List Char) :=
  let ps := cs.splitOn '\n'
  if ps.getLast? = some [] then ps.dropLast else ps

/-! ### Pieces -/

theorem pieces_eq_between (cs : List Char) : pieces cs = between cs := by
  induction cs using induct_lines with
  | last p hp =>
    rw [between, List.splitOn_eq_singleton hp]
    rcases eq_or_ne p [] with rfl | hne
    · rfl
    · simp [pieces_of_notMem hp hne, hne]
  | line p cs hp ih =>
    obtain ⟨q, qs, hqs⟩ := List.exists_cons_of_ne_nil (List.splitOn_ne_nil '\n' cs)
    rw [pieces_append_newline hp, ih, between, between, List.splitOn_append_cons_self,
      List.splitOn_eq_singleton hp, hqs, List.singleton_append, List.getLast?_cons_cons]
    split <;> rfl

/-! ### Slices -/

theorem utf8ByteSize_eq (source : String) : source.utf8ByteSize = utf8Length source.toList := by
  rw [utf8Length_eq_utf8Len, ← String.utf8ByteSize_ofList, String.ofList_toList]

theorem slice?_of_cut {source : String} {before cs after : List Char}
    (h : source.toList = before ++ cs ++ after) :
    slice? source (utf8Length before) (utf8Length before + utf8Length cs) =
      some (String.ofList cs) := by
  have hstart := isValid_utf8Length (h.trans (List.append_assoc ..))
  have hstop := isValid_utf8Length h
  rw [utf8Length_append] at hstop
  rw [slice?, if_pos ⟨Nat.le_add_right _ _, hstart, hstop⟩, extract_utf8Length h]

namespace Scanner
variable {source : String}

theorem next?_of_le {offset : Nat} (h : source.utf8ByteSize ≤ offset) :
    next? ⟨source, offset⟩ = some none :=
  if_pos h

/-- At the start of a piece the scanner gives the line of this piece and moves past it. -/
theorem next?_of_cut {before p after : List Char} (h : source.toList = before ++ p ++ after)
    (hne : p ++ after ≠ []) (hp : '\n' ∉ p) (hafter : after = [] ∨ after.head? = some '\n') :
    next? ⟨source, utf8Length before⟩ = some (some (Line.ofPiece (utf8Length before) p,
      ⟨source, utf8Length before + utf8Length p + 1⟩)) := by
  have hsize : source.utf8ByteSize = utf8Length before + utf8Length (p ++ after) := by
    rw [utf8ByteSize_eq, h, List.append_assoc, utf8Length_append]
  have hpos : 0 < utf8Length (p ++ after) := by
    obtain ⟨c, cs, hcs⟩ := List.exists_cons_of_ne_nil hne
    rw [hcs, utf8Length_cons]
    exact Nat.add_pos_left c.utf8Size_pos _
  have hrest : slice? source (utf8Length before) source.utf8ByteSize =
      some (String.ofList (p ++ after)) := by
    have hcut : source.toList = before ++ (p ++ after) ++ [] := by
      rw [h, List.append_assoc, List.append_nil]
    rw [hsize]
    exact slice?_of_cut hcut
  have htake : (p ++ after).takeWhile (· ≠ '\n') = p := by
    have hall : ∀ c ∈ p, decide (c ≠ '\n') = true :=
      fun c hc => decide_eq_true fun heq => hp (heq ▸ hc)
    rw [List.takeWhile_append_of_pos hall]
    rcases hafter with rfl | hafter
    · simp
    · obtain ⟨cs, rfl⟩ := List.head?_eq_some_iff.1 hafter
      simp
  have hpiece : slice? (String.ofList (p ++ after)) 0 (utf8Length p) = some (String.ofList p) := by
    have hcut : (String.ofList (p ++ after)).toList = [] ++ p ++ after := String.toList_ofList
    simpa using slice?_of_cut hcut
  rw [next?, if_neg (by dsimp only; omega)]
  simp only [hrest, Option.bind_eq_bind, Option.bind_some, String.toList_ofList, htake, hpiece]
  rfl

theorem yields_ofPieces {before cs : List Char} (h : source.toList = before ++ cs) :
    Yields ⟨source, utf8Length before⟩ (Line.ofPieces (utf8Length before) [] (pieces cs)) := by
  induction cs using induct_lines generalizing before with
  | last p hp =>
    have hsize : source.utf8ByteSize = utf8Length before + utf8Length p := by
      rw [utf8ByteSize_eq, h, utf8Length_append]
    rcases eq_or_ne p [] with rfl | hne
    · exact .done (next?_of_le hsize.le)
    · rw [pieces_of_notMem hp hne, Line.ofPieces_cons, Line.ofPieces_nil]
      have hcut : source.toList = before ++ p ++ [] := by rw [h, List.append_nil]
      exact .line (next?_of_cut hcut (by simpa using hne) hp (.inl rfl))
        (.done (next?_of_le (by omega)))
  | line p cs hp ih =>
    have hcut : source.toList = before ++ p ++ '\n' :: cs := by rw [h, List.append_assoc]
    have hnext : source.toList = (before ++ p ++ ['\n']) ++ cs := by
      rw [hcut, List.append_assoc (before ++ p)]
      rfl
    have hlength : utf8Length (before ++ p ++ ['\n']) = utf8Length before + utf8Length p + 1 := by
      rw [utf8Length_append, utf8Length_append]
      rfl
    have hls := ih hnext
    rw [hlength] at hls
    rw [pieces_append_newline hp, Line.ofPieces_cons]
    exact .line (next?_of_cut hcut (by simp) hp (.inr rfl)) hls

theorem Yields.unique {s : Scanner} {ls ls' : List Line} (h : Yields s ls) (h' : Yields s ls') :
    ls = ls' := by
  induction h generalizing ls' with
  | done h =>
    cases h' with
    | done => rfl
    | line h' => simp [h] at h'
  | line h hls ih =>
    cases h' with
    | done h' => simp [h] at h'
    | line h' hls' =>
      obtain ⟨rfl, rfl⟩ : _ ∧ _ := by simpa [h] using h'
      rw [ih hls']

theorem yields_iff {ls : List Line} :
    Yields ⟨source, 0⟩ ls ↔ ls = lines source.toList := by
  have hcut : source.toList = [] ++ source.toList := rfl
  have h : Yields ⟨source, 0⟩ (lines source.toList) := yields_ofPieces hcut
  constructor
  · exact fun h' => h'.unique h
  · rintro rfl
    exact h

end Scanner

/-! ### Lines and pieces -/

/-- The byte lies within the span. -/
def Span.Covers (span : Span) (byte : Nat) : Prop :=
  span.start ≤ byte ∧ byte < span.start + span.length

instance (span : Span) (byte : Nat) : Decidable (span.Covers byte) :=
  inferInstanceAs (Decidable (_ ∧ _))

/-- The line is what is left of the piece `p` after stripping, and its span is where that stands in
the source: within the piece, which comes after the pieces `above`, and at its end if nothing is
left. -/
structure IsLineOf (source : String) (above : List (List Char)) (p : List Char) (l : Line) :
    Prop where
  cut : ∃ after, source.toList = joinLines above ++ p ++ after ∧
    (after = [] ∨ after.head? = some '\n')
  text_eq : l.text = strip p
  slice?_eq : slice? source l.span.start (l.span.start + l.span.length) =
    some (String.ofList l.text)
  le_start : utf8Length (joinLines above) ≤ l.span.start
  stop_le : l.span.start + l.span.length ≤ utf8Length (joinLines above) + utf8Length p
  of_blank : (∀ c ∈ p, c.toNat ∈ whiteSpace) →
    l.text = [] ∧ l.span = ⟨utf8Length (joinLines above) + utf8Length p, 0⟩

theorem Line.ofPieces_append (offset : Nat) (above ps : List (List Char)) :
    ofPieces offset [] (above ++ ps) = ofPieces offset [] above ++
      ofPieces (offset + utf8Length (joinLines above)) [] ps := by
  induction above generalizing offset with
  | nil => rfl
  | cons p above ih =>
    rw [List.cons_append, ofPieces_cons, ofPieces_cons, ih, utf8Length_joinLines_cons,
      List.cons_append, ← Nat.add_assoc, ← Nat.add_assoc]

theorem Line.length_ofPieces (offset : Nat) (ps : List (List Char)) :
    (ofPieces offset [] ps).length = ps.length := by
  rw [← List.length_map Line.text, map_text_ofPieces, List.length_map]

theorem Line.exists_cut (offset : Nat) (p : List Char) : ∃ lead trail,
    p = lead ++ (ofPiece offset p).text ++ trail ∧ (∀ c ∈ lead ++ trail, c.toNat ∈ whiteSpace) ∧
      (ofPiece offset p).span.start = offset + utf8Length lead ∧
      (ofPiece offset p).span.length = utf8Length (ofPiece offset p).text := by
  obtain ⟨lead, trail, hp, hblank, hstart⟩ := exists_trim p offset
  exact ⟨lead, trail, hp, hblank, hstart, rfl⟩

theorem Line.span_ofPiece (offset : Nat) (p : List Char) :
    offset ≤ (ofPiece offset p).span.start ∧
      (ofPiece offset p).span.start + (ofPiece offset p).span.length ≤ offset + utf8Length p := by
  obtain ⟨lead, trail, hp, -, hstart, hlength⟩ := exists_cut offset p
  have htotal := congrArg utf8Length hp
  rw [utf8Length_append, utf8Length_append] at htotal
  omega

theorem isLineOf_ofPiece {source : String} {above : List (List Char)} {p after : List Char}
    (h : source.toList = joinLines above ++ p ++ after)
    (hafter : after = [] ∨ after.head? = some '\n') :
    IsLineOf source above p (Line.ofPiece (utf8Length (joinLines above)) p) := by
  obtain ⟨lead, trail, hp, -, hstart, hlength⟩ := Line.exists_cut (utf8Length (joinLines above)) p
  obtain ⟨hle, hstop⟩ := Line.span_ofPiece (utf8Length (joinLines above)) p
  refine ⟨⟨after, h, hafter⟩, congrFun trim_eq_strip p, ?_, hle, hstop, fun hblank => ?_⟩
  · have hcut : source.toList = (joinLines above ++ lead) ++
        (Line.ofPiece (utf8Length (joinLines above)) p).text ++ (trail ++ after) := by
      rw [h]
      nth_rewrite 1 [hp]
      simp only [List.append_assoc]
    rw [hstart, hlength, ← utf8Length_append]
    exact slice?_of_cut hcut
  · simp [Line.span, Line.ofPiece, trim, trimStart_eq_nil hblank, trimEnd]

theorem exists_isLineOf {source : String} {above below : List (List Char)} {p : List Char}
    (h : between source.toList = above ++ p :: below) : ∃ before l after,
      lines source.toList = before ++ l :: after ∧ before.length = above.length ∧
        IsLineOf source above p l := by
  rw [← pieces_eq_between] at h
  obtain ⟨after, hsource, hafter⟩ := exists_eq_joinLines_append h
  refine ⟨Line.ofPieces 0 [] above, Line.ofPiece (utf8Length (joinLines above)) p,
    Line.ofPieces (utf8Length (joinLines above) + utf8Length p + 1) [] below, ?_,
    Line.length_ofPieces 0 above, isLineOf_ofPiece hsource hafter⟩
  rw [lines, h, Line.ofPieces_append, Line.ofPieces_cons, Nat.zero_add]

/-! ### Spans -/

theorem Line.le_start_of_mem_ofPieces {ps : List (List Char)} {offset : Nat} {l : Line}
    (h : l ∈ ofPieces offset [] ps) : offset ≤ l.span.start := by
  induction ps generalizing offset with
  | nil => cases h
  | cons p ps ih =>
    rw [ofPieces_cons] at h
    rcases List.mem_cons.1 h with rfl | h
    · exact (span_ofPiece offset p).1
    · have hle := ih h
      omega

/-- Between the ends of two lines there is at least the newline after the first. -/
theorem Line.pairwise_ofPieces (offset : Nat) (ps : List (List Char)) :
    (ofPieces offset [] ps).Pairwise fun k l => k.span.start + k.span.length < l.span.start := by
  induction ps generalizing offset with
  | nil => exact .nil
  | cons p ps ih =>
    rw [ofPieces_cons, List.pairwise_cons]
    refine ⟨fun l hl => ?_, ih _⟩
    have hstop := (span_ofPiece offset p).2
    have hstart := le_start_of_mem_ofPieces hl
    omega

theorem cut_of_append_eq {α : Type} {xs ys before after : List α} {a : α}
    (h : xs ++ ys = before ++ a :: after) :
    (∃ rest, xs = before ++ a :: rest) ∨ ∃ passed, before = xs ++ passed ∧
      ys = passed ++ a :: after := by
  rcases List.append_eq_append_iff.1 h with ⟨passed, hbefore, hys⟩ | ⟨rest, hxs, hrest⟩
  · exact .inr ⟨passed, hbefore, hys⟩
  · cases rest with
    | nil => exact .inr ⟨[], by simpa using hxs.symm, by simpa using hrest.symm⟩
    | cons b rest =>
      obtain ⟨rfl, -⟩ := List.cons_eq_cons.1 hrest
      exact .inl ⟨rest, hxs⟩

theorem Line.blank_of_not_covers {offset : Nat} {p before after : List Char} {c : Char}
    (h : p = before ++ c :: after)
    (hout : ¬ (ofPiece offset p).span.Covers (offset + utf8Length before)) :
    c.toNat ∈ whiteSpace := by
  obtain ⟨lead, trail, hp, hblank, hstart, hlength⟩ := exists_cut offset p
  rw [Span.Covers, hstart, hlength] at hout
  rcases cut_of_append_eq (hp.symm.trans h) with ⟨rest, hleft⟩ | ⟨passed, -, htrail⟩
  · rcases cut_of_append_eq hleft with ⟨rest, hlead⟩ | ⟨passed, hbefore, htext⟩
    · exact hblank c (by simp [hlead])
    · have hpos := c.utf8Size_pos
      rw [hbefore, htext, utf8Length_append, utf8Length_append, utf8Length_cons] at hout
      omega
  · exact hblank c (by simp [htrail])

theorem blank_of_not_covers {cs before after : List Char} {c : Char} {offset : Nat}
    (h : cs = before ++ c :: after)
    (hout : ∀ l ∈ Line.ofPieces offset [] (pieces cs),
      ¬ l.span.Covers (offset + utf8Length before)) : c.toNat ∈ whiteSpace := by
  induction cs using induct_lines generalizing before offset with
  | last p hp =>
    have hne : p ≠ [] := by simp [h]
    rw [pieces_of_notMem hp hne, Line.ofPieces_cons] at hout
    exact Line.blank_of_not_covers h (hout _ List.mem_cons_self)
  | line p cs hp ih =>
    rw [pieces_append_newline hp, Line.ofPieces_cons] at hout
    rcases cut_of_append_eq h with ⟨rest, hcut⟩ | ⟨passed, rfl, hpassed⟩
    · exact Line.blank_of_not_covers hcut (hout _ List.mem_cons_self)
    · cases passed with
      | nil =>
        obtain ⟨rfl, -⟩ := List.cons_eq_cons.1 hpassed
        exact newline_mem_whiteSpace
      | cons d passed =>
        obtain ⟨rfl, hcs⟩ := List.cons_eq_cons.1 hpassed
        have hnewline : '\n'.utf8Size = 1 := rfl
        have hrest : ∀ l ∈ Line.ofPieces (offset + utf8Length p + 1) [] (pieces cs),
            ¬ l.span.Covers (offset + utf8Length p + 1 + utf8Length passed) := by
          intro l hl
          have hl := hout l (List.mem_cons_of_mem _ hl)
          rwa [utf8Length_append, utf8Length_cons, hnewline, ← Nat.add_assoc,
            ← Nat.add_assoc] at hl
        exact ih hcs hrest

/-- On every source the scanner comes to an end and no slice that it takes fails. It gives a line
for each piece between newlines, with a span that slices just the line off the source. -/
theorem scanner_yields_lines (source : String) :
    (∀ ls, Scanner.Yields ⟨source, 0⟩ ls ↔ ls = lines source.toList) ∧
    (lines source.toList).length = (between source.toList).length ∧
    (∀ above p below, between source.toList = above ++ p :: below →
      ∃ before l after, lines source.toList = before ++ l :: after ∧
        before.length = above.length ∧ IsLineOf source above p l) ∧
    (lines source.toList).Pairwise
      (fun k l => k.span.start + k.span.length < l.span.start) ∧
    ∀ before c after, source.toList = before ++ c :: after →
      (∀ l ∈ lines source.toList, ¬ l.span.Covers (utf8Length before)) →
      c.toNat ∈ whiteSpace := by
  refine ⟨fun ls => Scanner.yields_iff, ?_, fun above p below => exists_isLineOf,
    Line.pairwise_ofPieces 0 _, fun before c after h hout => ?_⟩
  · rw [lines, Line.length_ofPieces, pieces_eq_between]
  · have hzero : ∀ l ∈ Line.ofPieces 0 [] (pieces source.toList),
        ¬ l.span.Covers (0 + utf8Length before) := by
      rwa [Nat.zero_add]
    exact blank_of_not_covers h hzero

/-- Blanks of three bytes, a carriage return, and a last line without a newline. -/
theorem scanner_yields_wide_blanks :
    let source := "\u3000é \r\n\u3000\nx"
    Scanner.Yields ⟨source, 0⟩ [⟨3, ['é']⟩, ⟨11, []⟩, ⟨12, ['x']⟩] ∧
    between source.toList = [['\u3000', 'é', ' ', '\r'], ['\u3000'], ['x']] ∧
    (∃ l ∈ lines source.toList, l.text = [] ∧ l.span = ⟨11, 0⟩) ∧
    (∀ l ∈ lines source.toList, ¬ l.span.Covers 5) ∧ ' '.toNat ∈ whiteSpace := by
  intro source
  obtain ⟨hyields, -, hpiece, -, hblank⟩ := scanner_yields_lines source
  have hbetween : between source.toList = [['\u3000', 'é', ' ', '\r'], ['\u3000'], ['x']] := by
    decide
  have hout : ∀ l ∈ lines source.toList, ¬ l.span.Covers 5 := by decide
  obtain ⟨before, l, after, hlines, -, hl⟩ :=
    hpiece [['\u3000', 'é', ' ', '\r']] ['\u3000'] [['x']] hbetween
  refine ⟨(hyields _).2 (by decide), hbetween, ⟨l, ?_, hl.of_blank (by simp [whiteSpace])⟩, hout,
    hblank ['\u3000', 'é'] ' ' "\r\n\u3000\nx".toList (by decide) hout⟩
  simp [hlines]

end Lc3.Text
