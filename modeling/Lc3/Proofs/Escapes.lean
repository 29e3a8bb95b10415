import Lc3.Terminal.Display

/-! # Stripping escape sequences

How much of a text is stripped depends on what stands before it only by whether that has left a
sequence open. `endsInside` tells this of a text, and a text is closed if it leaves none open when
it starts outside of all. So pieces that are closed can be stripped one by one or all at once
(`stripEscapes_join`). Painting a text adds to it only what is stripped again, even where the text
has open sequences of its own (`stripFrom_resume`), and so whatever a display does to closed pieces,
the same plain text is left of them (`Display.stripEscapes_renderAll`). -/

namespace Lc3.Terminal

/-- Whether a text ends within an escape sequence; `inside` tells whether it starts within one. -/
def endsInside (inside : Bool) (cs : List Char) : Bool :=
  cs.foldl (fun inside c => if inside then c ≠ 'm' else c = escape) inside

theorem endsInside_append (inside : Bool) (cs ds : List Char) :
    endsInside inside (cs ++ ds) = endsInside (endsInside inside cs) ds :=
  List.foldl_append

theorem stripFrom_append (inside : Bool) (cs ds : List Char) :
    stripFrom inside (cs ++ ds) = stripFrom inside cs ++ stripFrom (endsInside inside cs) ds := by
  induction cs generalizing inside with
  | nil => simp [endsInside]
  | cons c cs ih =>
    cases inside
    · by_cases hc : c = escape <;> simp [stripFrom, endsInside, hc, ih]
    · by_cases hc : c = 'm' <;> simp [stripFrom, endsInside, hc, ih]

section
variable {cs : List Char} (h : escape ∉ cs)
include h

theorem stripFrom_of_notMem : stripFrom false cs = cs := by
  induction cs with
  | nil => rfl
  | cons c cs ih =>
    obtain ⟨hc, hcs⟩ := not_or.1 (mt List.mem_cons.2 h)
    rw [stripFrom, if_neg (Ne.symm hc), ih hcs]

theorem endsInside_of_notMem : endsInside false cs = false := by
  induction cs with
  | nil => rfl
  | cons c cs ih =>
    obtain ⟨hc, hcs⟩ := not_or.1 (mt List.mem_cons.2 h)
    have hfirst : endsInside false [c] = false := decide_eq_false (Ne.symm hc)
    rw [← List.singleton_append, endsInside_append, hfirst, ih hcs]

end

/-! ### Painting -/

/-- The sequence that turns styles off ends any sequence that is open before it. -/
theorem stripFrom_reset_append (inside : Bool) (cs : List Char) :
    stripFrom inside (reset ++ cs) = stripFrom false cs := by
  cases inside <;> rfl

theorem endsInside_reset_append (inside : Bool) (cs : List Char) :
    endsInside inside (reset ++ cs) = endsInside false cs := by
  cases inside <;> rfl

theorem stripFrom_start_append (color : Color) (cs : List Char) :
    stripFrom false (color.start ++ cs) = stripFrom false cs := by
  cases color <;> rfl

theorem stripFrom_resume (color : Color) (inside : Bool) (cs : List Char) :
    stripFrom inside (resume color cs) = stripFrom inside cs := by
  induction cs using resume.induct generalizing inside with
  | case1 cs ih =>
    show stripFrom inside (reset ++ color.start ++ resume color cs) = stripFrom inside (reset ++ cs)
    rw [List.append_assoc, stripFrom_reset_append, stripFrom_start_append, ih,
      stripFrom_reset_append]
  | case2 c cs hc ih =>
    have hcons : resume color (c :: cs) = [c] ++ resume color cs := resume.eq_2 color c cs hc
    have hsplit : c :: cs = [c] ++ cs := rfl
    rw [hcons, hsplit, stripFrom_append, ih, ← stripFrom_append]
  | case3 => rfl

/-! ### Texts -/

/-- The text leaves no sequence open. -/
def IsClosed (text : String) : Prop :=
  endsInside false text.toList = false

instance (text : String) : Decidable (IsClosed text) :=
  inferInstanceAs (Decidable (_ = _))

theorem isClosed_of_notMem {text : String} (h : escape ∉ text.toList) : IsClosed text :=
  endsInside_of_notMem h

theorem escape_notMem_append {a b : String} (ha : escape ∉ a.toList) (hb : escape ∉ b.toList) :
    escape ∉ (a ++ b).toList := by
  rw [String.toList_append, List.mem_append, not_or]
  exact ⟨ha, hb⟩

theorem escape_notMem_around {a text b : String} (ha : escape ∉ a.toList)
    (h : escape ∉ text.toList) (hb : escape ∉ b.toList) : escape ∉ (a ++ text ++ b).toList :=
  escape_notMem_append (escape_notMem_append ha h) hb

theorem IsClosed.append {a b : String} (ha : IsClosed a) (hb : IsClosed b) : IsClosed (a ++ b) := by
  rw [IsClosed, String.toList_append, endsInside_append, ha, hb]

theorem isClosed_around {a text b : String} (ha : IsClosed a) (h : escape ∉ text.toList)
    (hb : IsClosed b) : IsClosed (a ++ text ++ b) :=
  (ha.append (isClosed_of_notMem h)).append hb

theorem isClosed_join {pieces : List String} (h : ∀ p ∈ pieces, IsClosed p) :
    IsClosed (String.join pieces) := by
  induction pieces with
  | nil => rfl
  | cons p pieces ih =>
    rw [String.join_cons]
    exact (h p (by simp)).append (ih fun q hq => h q (by simp [hq]))

theorem isClosed_paint (color : Color) (text : String) : IsClosed (color.paint text) := by
  rw [IsClosed, Color.paint, String.toList_ofList, endsInside_append, ← List.append_nil reset,
    endsInside_reset_append]
  rfl

theorem escape_notMem_stripEscapes (text : String) : escape ∉ (stripEscapes text).toList := by
  rw [stripEscapes, String.toList_ofList]
  exact escape_notMem_stripFrom false text.toList

theorem stripEscapes_of_notMem {text : String} (h : escape ∉ text.toList) :
    stripEscapes text = text := by
  rw [stripEscapes, stripFrom_of_notMem h, String.ofList_toList]

theorem stripEscapes_append {a : String} (ha : IsClosed a) (b : String) :
    stripEscapes (a ++ b) = stripEscapes a ++ stripEscapes b := by
  rw [stripEscapes, String.toList_append, stripFrom_append, ha, String.ofList_append]
  rfl

theorem stripEscapes_join {pieces : List String} (h : ∀ p ∈ pieces, IsClosed p) :
    stripEscapes (String.join pieces) = String.join (pieces.map stripEscapes) := by
  induction pieces with
  | nil => rfl
  | cons p pieces ih =>
    rw [List.map_cons, String.join_cons, String.join_cons, stripEscapes_append (h p (by simp)),
      ih fun q hq => h q (by simp [hq])]

theorem stripEscapes_paint (color : Color) (text : String) :
    stripEscapes (color.paint text) = stripEscapes text := by
  rw [stripEscapes, Color.paint, String.toList_ofList, List.append_assoc, stripFrom_start_append,
    stripFrom_append, stripFrom_resume, ← List.append_nil reset, stripFrom_reset_append,
    stripFrom_nil, List.append_nil, stripEscapes]

namespace Display

/-- The display that shows the same without color. -/
def withoutColor (d : Display) : Display :=
  { d with color := false, painted := false }

variable (d : Display) (channel : Channel)

theorem stripEscapes_render (piece : String) :
    stripEscapes (d.render channel piece) = stripEscapes piece := by
  unfold render
  split
  · exact stripEscapes_of_notMem (escape_notMem_stripEscapes piece)
  · cases channel with
    | result => rfl
    | trace =>
      dsimp only
      split
      · exact stripEscapes_paint _ piece
      · rfl

theorem isClosed_render {piece : String} (h : IsClosed piece) :
    IsClosed (d.render channel piece) := by
  unfold render
  split
  · exact isClosed_of_notMem (escape_notMem_stripEscapes piece)
  · cases channel with
    | result => exact h
    | trace =>
      dsimp only
      split
      · exact isClosed_paint _ piece
      · exact h

theorem renderAll_of_isPlain (hd : d.isPlain = true) (pieces : List String) :
    d.renderAll channel pieces = String.join (pieces.map stripEscapes) := by
  have hrender : d.render channel = stripEscapes := funext fun piece => if_pos hd
  rw [renderAll, hrender]

theorem renderAll_of_minimal (hd : d.minimal = true) {pieces : List String}
    (h : ∀ p ∈ pieces, escape ∉ p.toList) : d.renderAll channel pieces = String.join pieces := by
  have hplain : d.isPlain = true := by simp [isPlain, hd]
  have hsame : pieces.map stripEscapes = pieces :=
    (List.map_congr_left fun p hp => stripEscapes_of_notMem (h p hp)).trans (List.map_id pieces)
  rw [d.renderAll_of_isPlain channel hplain, hsame]

section
variable {pieces : List String} (h : ∀ p ∈ pieces, IsClosed p)
include h

theorem isClosed_of_mem_map_render : ∀ p ∈ pieces.map (d.render channel), IsClosed p :=
  List.forall_mem_map.2 fun p hp => d.isClosed_render channel (h p hp)

theorem isClosed_renderAll : IsClosed (d.renderAll channel pieces) :=
  isClosed_join (d.isClosed_of_mem_map_render channel h)

/-- Closed pieces that are shown in any way leave, after stripping, what is shown without color. -/
theorem stripEscapes_renderAll :
    stripEscapes (d.renderAll channel pieces) = d.withoutColor.renderAll channel pieces := by
  have hplain : d.withoutColor.isPlain = true := by simp [withoutColor, isPlain]
  rw [renderAll_of_isPlain _ _ hplain, renderAll,
    stripEscapes_join (d.isClosed_of_mem_map_render channel h), List.map_map]
  congr 2
  exact funext fun piece => d.stripEscapes_render channel piece

end

end Display
end Lc3.Terminal
