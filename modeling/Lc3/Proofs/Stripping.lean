import Lc3.Proofs.Escapes
import Mathlib.Data.List.Infix

/-! # What is stripped

`Strips` says what a text is without its escape sequences by cutting it at them, from the left: a
run without escape characters, then a segment from an escape character to the next `m`, and so on.
The scanner goes through the characters one by one instead and finds the same
(`strips_iff`), so that it leaves a sequence open just where the last segment has no end. Where
styles are turned off within a painted text, `resume` puts a sequence of its own; `exists_parts`
finds the parts of the text between these places. -/

namespace Lc3.Terminal

/-- What is left of the text without its segments, each from an escape character to the next `m`;
`isOpen` tells whether the last one has no `m` and goes to the end. -/
inductive Strips : (text plain : List Char) → (isOpen : Bool) → Prop
  | plain {cs : List Char} (h : escape ∉ cs) : Strips cs cs false
  | cut {before body : List Char} (hbefore : escape ∉ before) (hbody : 'm' ∉ body) :
    Strips (before ++ escape :: body) before true
  | segment {before body after plain : List Char} {isOpen : Bool} (hbefore : escape ∉ before)
    (hbody : 'm' ∉ body) (h : Strips after plain isOpen) :
    Strips (before ++ escape :: (body ++ 'm' :: after)) (before ++ plain) isOpen

/-! ### Segments -/

section
variable {before body : List Char}

theorem stripFrom_true_of_notMem (h : 'm' ∉ body) (after : List Char) :
    stripFrom true (body ++ after) = stripFrom true after := by
  induction body with
  | nil => rfl
  | cons c body ih =>
    obtain ⟨hc, hbody⟩ := not_or.1 (mt List.mem_cons.2 h)
    rw [List.cons_append, stripFrom, if_neg (Ne.symm hc), ih hbody]

theorem endsInside_true_of_notMem (h : 'm' ∉ body) (after : List Char) :
    endsInside true (body ++ after) = endsInside true after := by
  induction body with
  | nil => rfl
  | cons c body ih =>
    obtain ⟨hc, hbody⟩ := not_or.1 (mt List.mem_cons.2 h)
    have hfirst : endsInside true [c] = true := decide_eq_true (Ne.symm hc)
    rw [List.cons_append, ← List.singleton_append, endsInside_append, hfirst, ih hbody]

theorem stripFrom_append_escape (h : escape ∉ before) (cs : List Char) :
    stripFrom false (before ++ escape :: cs) = before ++ stripFrom true cs := by
  rw [stripFrom_append, stripFrom_of_notMem h, endsInside_of_notMem h, stripFrom, if_pos rfl]

theorem endsInside_append_escape (h : escape ∉ before) (cs : List Char) :
    endsInside false (before ++ escape :: cs) = endsInside true cs := by
  rw [endsInside_append, endsInside_of_notMem h, ← List.singleton_append, endsInside_append]
  rfl

end

theorem Strips.scanned {cs plain : List Char} {isOpen : Bool} (h : Strips cs plain isOpen) :
    stripFrom false cs = plain ∧ endsInside false cs = isOpen := by
  induction h with
  | plain h => exact ⟨stripFrom_of_notMem h, endsInside_of_notMem h⟩
  | @cut before body hbefore hbody =>
    rw [stripFrom_append_escape hbefore, endsInside_append_escape hbefore,
      ← List.append_nil body, stripFrom_true_of_notMem hbody, endsInside_true_of_notMem hbody,
      stripFrom_nil, List.append_nil]
    exact ⟨rfl, rfl⟩
  | @segment before body after plain isOpen hbefore hbody _ ih =>
    obtain ⟨rfl, rfl⟩ := ih
    rw [stripFrom_append_escape hbefore, endsInside_append_escape hbefore,
      stripFrom_true_of_notMem hbody, endsInside_true_of_notMem hbody]
    exact ⟨rfl, rfl⟩

/-- A text is cut at its first escape character and at the first `m` after that. -/
theorem exists_strips (cs : List Char) : ∃ plain isOpen, Strips cs plain isOpen := by
  by_cases hescape : escape ∈ cs
  · obtain ⟨before, rest, hcs, hbefore⟩ := List.eq_append_cons_of_mem hescape
    by_cases hm : 'm' ∈ rest
    · obtain ⟨body, after, rfl, hbody⟩ := List.eq_append_cons_of_mem hm
      have hlength : after.length < cs.length := by
        simp [hcs]
        omega
      obtain ⟨plain, isOpen, h⟩ := exists_strips after
      rw [hcs]
      exact ⟨before ++ plain, isOpen, .segment hbefore hbody h⟩
    · rw [hcs]
      exact ⟨before, true, .cut hbefore hm⟩
  · exact ⟨cs, false, .plain hescape⟩
termination_by cs.length

theorem strips_iff {cs plain : List Char} {isOpen : Bool} :
    Strips cs plain isOpen ↔ stripFrom false cs = plain ∧ endsInside false cs = isOpen := by
  refine ⟨Strips.scanned, ?_⟩
  rintro ⟨rfl, rfl⟩
  obtain ⟨plain, isOpen, h⟩ := exists_strips cs
  obtain ⟨hplain, hopen⟩ := h.scanned
  rwa [hplain, hopen]

theorem stripEscapes_eq_iff {text plain : String} :
    stripEscapes text = plain ↔ ∃ isOpen, Strips text.toList plain.toList isOpen := by
  simp only [strips_iff, exists_and_left, exists_eq', and_true]
  rw [stripEscapes, ← String.toList_inj, String.toList_ofList]

theorem isClosed_iff {text : String} :
    IsClosed text ↔ ∃ plain, Strips text.toList plain false := by
  simp only [strips_iff, exists_and_right, exists_eq', true_and]
  rfl

/-! ### Painting -/

/-- A text between the points where styles are turned off, and what painting makes of it. -/
theorem exists_parts (color : Color) (cs : List Char) : ∃ parts : List (List Char), parts ≠ [] ∧
    cs = reset.intercalate parts ∧ (∀ p ∈ parts, ¬ reset <:+: p) ∧
      resume color cs = (reset ++ color.start).intercalate parts := by
  induction cs using resume.induct with
  | case1 cs ih =>
    obtain ⟨parts, hne, hcs, hparts, hresume⟩ := ih
    refine ⟨[] :: parts, List.cons_ne_nil _ _, ?_, List.forall_mem_cons.2 ⟨by decide, hparts⟩, ?_⟩
    · rw [List.intercalate_cons_of_ne_nil hne, ← hcs]
      rfl
    · rw [List.intercalate_cons_of_ne_nil hne, ← hresume]
      rfl
  | case2 c cs hc ih =>
    obtain ⟨parts, hne, hcs, hparts, hresume⟩ := ih
    obtain ⟨p, ps, rfl⟩ := List.exists_cons_of_ne_nil hne
    obtain ⟨hp, hps⟩ := List.forall_mem_cons.1 hparts
    have hprefix : p <+: cs := by
      rw [hcs]
      cases ps with
      | nil => simp
      | cons q qs => simp [List.append_assoc]
    have hpart : ¬ reset <:+: c :: p := by
      intro h
      rcases List.infix_cons_iff.1 h with h | h
      · obtain ⟨rest, hrest⟩ := h.trans (List.cons_prefix_cons.2 ⟨rfl, hprefix⟩)
        obtain ⟨hfirst, hrest⟩ := List.cons_eq_cons.1 hrest
        exact hc rest hfirst.symm hrest.symm
      · exact hp h
    refine ⟨(c :: p) :: ps, List.cons_ne_nil _ _, ?_, List.forall_mem_cons.2 ⟨hpart, hps⟩, ?_⟩
    · rw [List.intercalate_cons_cons_left, ← hcs]
    · rw [List.intercalate_cons_cons_left, ← hresume]
      exact resume.eq_2 color c cs hc
  | case3 => exact ⟨[[]], List.cons_ne_nil _ _, rfl, by decide, rfl⟩

/-- Stripping a text removes its segments and nothing else. A painted trace is the text with the
color turned on at its start and after each end of styles, and stripping it leaves what a plain
display shows. -/
theorem stripEscapes_removes_segments (text : String) :
    (∀ plain, stripEscapes text = plain ↔ ∃ isOpen, Strips text.toList plain.toList isOpen) ∧
    escape ∉ (stripEscapes text).toList ∧
    (escape ∉ text.toList → stripEscapes text = text) ∧
    (IsClosed text ↔ ∃ plain, Strips text.toList plain false) ∧
    (IsClosed text → ∀ b, stripEscapes (text ++ b) = stripEscapes text ++ stripEscapes b) ∧
    (∃ parts, text.toList = reset.intercalate parts ∧ (∀ p ∈ parts, ¬ reset <:+: p) ∧
      (Display.render { painted := true } .trace text).toList =
        Color.blue.start ++ (reset ++ Color.blue.start).intercalate parts ++ reset) ∧
    ∀ d : Display, d.isPlain = true →
      stripEscapes (Display.render { painted := true } .trace text) = d.render .trace text := by
  refine ⟨fun plain => stripEscapes_eq_iff, escape_notMem_stripEscapes text, stripEscapes_of_notMem,
    isClosed_iff, fun h => stripEscapes_append h, ?_, fun d hd => ?_⟩
  · obtain ⟨parts, -, htext, hparts, hresume⟩ := exists_parts .blue text.toList
    refine ⟨parts, htext, hparts, ?_⟩
    show (Color.blue.paint text).toList = _
    rw [Color.paint, String.toList_ofList, hresume]
  · rw [Display.stripEscapes_render, Display.render, if_pos hd]

/-- A segment within which styles are turned off, one right after it, and one without an end. -/
theorem stripEscapes_of_nested :
    let text := "R\x1b[1\x1b[0m\x1b[2m0"
    let minimal : Display := { minimal := true }
    (IsClosed text ∧ escape ∉ "R0".toList ∧ minimal.isPlain = true) ∧
    stripEscapes text = "R0" ∧ stripEscapes "R0" = "R0" ∧
    stripEscapes (text ++ " \x1b[0") = "R0 " ∧
    stripEscapes (Display.render { painted := true } .trace (text ++ " \x1b[0")) =
      minimal.render .trace (text ++ " \x1b[0") := by
  intro text minimal
  have hclosed : IsClosed text := by decide
  have hplain : escape ∉ "R0".toList := by decide
  obtain ⟨hsegments, -, -, -, happend, -, -⟩ := stripEscapes_removes_segments text
  obtain ⟨-, -, hsame, -, -, -, -⟩ := stripEscapes_removes_segments "R0"
  obtain ⟨-, -, -, -, -, -, hdisplay⟩ := stripEscapes_removes_segments (text ++ " \x1b[0")
  have hlast : Strips "\x1b[2m0".toList "0".toList false :=
    @Strips.segment [] "[2".toList "0".toList "0".toList false (by decide) (by decide)
      (.plain (by decide))
  have hstrips : Strips "R\x1b[1\x1b[0m\x1b[2m0".toList "R0".toList false :=
    @Strips.segment ['R'] "[1\x1b[0".toList "\x1b[2m0".toList "0".toList false (by decide)
      (by decide) hlast
  have htext : stripEscapes text = "R0" := (hsegments "R0").2 ⟨false, hstrips⟩
  refine ⟨⟨hclosed, hplain, rfl⟩, htext, hsame hplain, ?_, hdisplay minimal rfl⟩
  rw [happend hclosed, htext]
  decide

end Lc3.Terminal
