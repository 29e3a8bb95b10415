import Lc3.Proofs.ImageGrammar
import Mathlib.Data.String.Basic

/-! # Where entries stand

A line knows the byte at which it starts from what the reader has counted so far. `EntryAt` says
where an entry stands by cutting the characters of the source instead: whole lines, the blanks
around the entry, the entry itself, and the rest. `entryAt_of_entries` compares the two. Between
characters a count of bytes is a position of the source, and the bytes of an entry are its
characters (`EntryAt.slice`), however many bytes the characters before it take up. -/

namespace Lc3
namespace Text

/-- The lines one after the other, each with the newline that ends it. -/
def joinLines (ls : List (List Char)) : List Char :=
  ls.flatMap (· ++ ['\n'])

theorem joinLines_cons (l : List Char) (ls : List (List Char)) :
    joinLines (l :: ls) = l ++ '\n' :: joinLines ls := by
  rw [joinLines, List.flatMap_cons, List.append_assoc]
  rfl

theorem utf8Length_joinLines_cons (l : List Char) (ls : List (List Char)) :
    utf8Length (joinLines (l :: ls)) = utf8Length l + 1 + utf8Length (joinLines ls) := by
  have hnewline : '\n'.utf8Size = 1 := rfl
  rw [joinLines_cons, utf8Length_append, utf8Length_cons, hnewline, Nat.add_assoc]

/-! ### Pieces -/

theorem exists_mem_pieces_iff {cs : List Char} {c : Char} :
    (∃ p ∈ pieces cs, c ∈ p) ↔ c ∈ cs ∧ c ≠ '\n' := by
  induction cs using induct_lines with
  | last p hp =>
    have hne : c ∈ p → c ≠ '\n' := fun hc h => hp (h ▸ hc)
    rcases eq_or_ne p [] with rfl | hp'
    · simp
    · simpa [pieces_of_notMem hp hp'] using hne
  | line p cs hp ih =>
    have hne : c ∈ p → c ≠ '\n' := fun hc h => hp (h ▸ hc)
    rw [pieces_append_newline hp, List.exists_mem_cons_iff, ih, List.mem_append, List.mem_cons]
    tauto

theorem newline_notMem_of_mem_pieces {cs p : List Char} (h : p ∈ pieces cs) : '\n' ∉ p :=
  fun hn => (exists_mem_pieces_iff.1 ⟨p, h, hn⟩).2 rfl

theorem newline_notMem_of_mem_splitOn {cs l : List Char} (h : l ∈ cs.splitOn '\n') : '\n' ∉ l := by
  rcases splitOn_newline cs with hcs | hcs <;> rw [hcs] at h
  · exact newline_notMem_of_mem_pieces h
  · rcases List.mem_append.1 h with h | h
    · exact newline_notMem_of_mem_pieces h
    · rw [List.mem_singleton.1 h]
      exact List.not_mem_nil

theorem exists_eq_joinLines_append {cs p : List Char} {above below : List (List Char)}
    (h : pieces cs = above ++ p :: below) :
    ∃ after, cs = joinLines above ++ p ++ after ∧ (after = [] ∨ after.head? = some '\n') := by
  induction cs using induct_lines generalizing above with
  | last q hq =>
    rcases eq_or_ne q [] with rfl | hne
    · simp at h
    · rw [pieces_of_notMem hq hne] at h
      obtain ⟨rfl, rfl, rfl⟩ : above = [] ∧ p = q ∧ below = [] := by
        simpa [List.singleton_eq_append_iff] using h
      exact ⟨[], (List.append_nil p).symm, .inl rfl⟩
  | line q cs hq ih =>
    rw [pieces_append_newline hq] at h
    cases above with
    | nil =>
      obtain ⟨rfl, -⟩ := List.cons_eq_cons.1 h
      exact ⟨'\n' :: cs, rfl, .inr rfl⟩
    | cons q' above =>
      obtain ⟨rfl, hrest⟩ := List.cons_eq_cons.1 h
      obtain ⟨after, rfl, hafter⟩ := ih hrest
      exact ⟨after, by simp [joinLines_cons], hafter⟩

/-! ### Blanks around an entry -/

theorem trimEnd_append (cs : List Char) :
    trimEnd cs ++ (cs.reverse.takeWhile isBlank).reverse = cs := by
  rw [trimEnd, ← List.reverse_append, List.takeWhile_append_dropWhile, List.reverse_reverse]

/-- A piece is what is left of it after trimming, and blanks. -/
theorem exists_trim (p : List Char) (offset : Nat) : ∃ lead trail,
    p = lead ++ trim p ++ trail ∧ (∀ c ∈ lead ++ trail, c.toNat ∈ whiteSpace) ∧
      (Line.ofPiece offset p).start = offset + utf8Length lead := by
  have hp : p.takeWhile isBlank ++ trimStart p = p := List.takeWhile_append_dropWhile
  refine ⟨p.takeWhile isBlank, ((trimStart p).reverse.takeWhile isBlank).reverse, ?_, ?_, ?_⟩
  · rw [trim, List.append_assoc, trimEnd_append, hp]
  · simp only [← isBlank_iff, List.forall_mem_append, List.mem_reverse]
    exact ⟨fun c hc => List.mem_takeWhile_imp hc, fun c hc => List.mem_takeWhile_imp hc⟩
  · have hlength := congrArg utf8Length hp
    rw [utf8Length_append] at hlength
    rw [Line.ofPiece, ← hlength, Nat.add_sub_cancel_right]

theorem trimStart_eq_nil {p : List Char} (h : ∀ c ∈ p, c.toNat ∈ whiteSpace) : trimStart p = [] :=
  List.dropWhile_eq_nil_iff.2 fun c hc => (isBlank_iff c).2 (h c hc)

theorem trim_eq_nil_iff {p : List Char} : trim p = [] ↔ ∀ c ∈ p, c.toNat ∈ whiteSpace := by
  constructor
  · intro h
    obtain ⟨lead, trail, hp, hblank, -⟩ := exists_trim p 0
    rw [h, List.append_nil] at hp
    rw [hp]
    exact hblank
  · intro h
    rw [trim, trimStart_eq_nil h]
    rfl

/-! ### Lines -/

theorem exists_of_filter_ofPieces {ps : List (List Char)} {offset : Nat} {before after : List Line}
    {l : Line}
    (h : (Line.ofPieces offset [] ps).filter (!·.text.isEmpty) = before ++ l :: after) :
    ∃ above p below, ps = above ++ p :: below ∧
      l = Line.ofPiece (offset + utf8Length (joinLines above)) p ∧ l.text ≠ [] ∧
      (above.map strip).filter (· ≠ []) = before.map Line.text := by
  induction ps generalizing offset before with
  | nil => simp at h
  | cons p ps ih =>
    have htext : (Line.ofPiece offset p).text = strip p := congrFun trim_eq_strip p
    rw [Line.ofPieces_cons] at h
    by_cases hp : strip p = []
    · -- A blank line is no entry, but the offset counts its bytes.
      rw [List.filter_cons_of_neg (by simp [htext, hp])] at h
      obtain ⟨above, q, below, rfl, rfl, hq, hbefore⟩ := ih h
      refine ⟨p :: above, q, below, rfl, ?_, hq, ?_⟩
      · rw [utf8Length_joinLines_cons, Nat.add_assoc, Nat.add_assoc, Nat.add_assoc]
      · rw [List.map_cons, List.filter_cons_of_neg (by simp [hp]), hbefore]
    · rw [List.filter_cons_of_pos (by simp [htext, hp])] at h
      cases before with
      | nil =>
        obtain ⟨rfl, -⟩ := List.cons_eq_cons.1 h
        exact ⟨[], p, ps, rfl, rfl, htext ▸ hp, rfl⟩
      | cons k before =>
        obtain ⟨rfl, hrest⟩ := List.cons_eq_cons.1 h
        obtain ⟨above, q, below, rfl, rfl, hq, hbefore⟩ := ih hrest
        refine ⟨p :: above, q, below, rfl, ?_, hq, ?_⟩
        · rw [utf8Length_joinLines_cons, Nat.add_assoc, Nat.add_assoc, Nat.add_assoc]
        · rw [List.map_cons, List.filter_cons_of_pos (by simp [hp]), hbefore, List.map_cons, htext]

/-! ### Bytes and characters -/

theorem utf8Length_eq_utf8Len (cs : List Char) : utf8Length cs = String.utf8Len cs := by
  induction cs with
  | nil => rfl
  | cons c cs ih => rw [utf8Length_cons, ih, Nat.add_comm, String.utf8Len_cons]

section
variable {source : String} {before cs after : List Char}

/-- After some of its characters a source has a position. -/
theorem isValid_utf8Length (h : source.toList = before ++ after) :
    String.Pos.Raw.IsValid source ⟨utf8Length before⟩ := by
  refine String.Pos.Raw.isValid_iff_exists_append.2 ⟨.ofList before, .ofList after, ?_, ?_⟩
  · rw [← String.ofList_append, ← h, String.ofList_toList]
  · rw [utf8Length_eq_utf8Len, ← String.utf8ByteSize_ofList]
    rfl

theorem extract_utf8Length (h : source.toList = before ++ cs ++ after) :
    String.Pos.Raw.extract source ⟨utf8Length before⟩ ⟨utf8Length before + utf8Length cs⟩ =
      String.ofList cs := by
  rw [← String.ofList_toList (s := source), h, utf8Length_eq_utf8Len, utf8Length_eq_utf8Len]
  exact String.extract_of_valid before cs after

end

/-! ### Entries -/

/-- The entry `text` stands in the bytes `span` of the source, and the entries before it are
`earlier`. Above it there are whole lines, and around it on its own line there are blanks. -/
def EntryAt (source : String) (earlier : List (List Char)) (text : List Char) (span : Span) :
    Prop :=
  ∃ above lead trail after,
    source.toList = joinLines above ++ (lead ++ text ++ trail) ++ after ∧
    (∀ l ∈ above, '\n' ∉ l) ∧ '\n' ∉ lead ++ text ++ trail ∧
    (after = [] ∨ after.head? = some '\n') ∧
    (above.map strip).filter (· ≠ []) = earlier ∧
    strip (lead ++ text ++ trail) = text ∧ text ≠ [] ∧
    (∀ c ∈ lead ++ trail, c.toNat ∈ whiteSpace) ∧
    span = ⟨utf8Length (joinLines above ++ lead), utf8Length text⟩

namespace EntryAt
variable {source : String} {earlier : List (List Char)} {text : List Char} {span : Span}

theorem ne_nil (h : EntryAt source earlier text span) : text ≠ [] := by
  obtain ⟨_, _, _, _, -, -, -, -, -, -, htext, -⟩ := h
  exact htext

theorem newline_notMem (h : EntryAt source earlier text span) : '\n' ∉ text := by
  obtain ⟨_, _, _, _, -, -, hline, -⟩ := h
  simp only [List.mem_append, not_or] at hline
  exact hline.1.2

/-- The bytes of an entry are whole characters, and these are its text. -/
theorem slice (h : EntryAt source earlier text span) :
    String.Pos.Raw.IsValid source ⟨span.start⟩ ∧
      String.Pos.Raw.IsValid source ⟨span.start + span.length⟩ ∧
      String.Pos.Raw.extract source ⟨span.start⟩ ⟨span.start + span.length⟩ =
        String.ofList text := by
  obtain ⟨above, lead, trail, after, hsource, -, -, -, -, -, -, -, rfl⟩ := h
  have hcut : source.toList = joinLines above ++ lead ++ text ++ (trail ++ after) := by
    rw [hsource]
    simp only [List.append_assoc]
  refine ⟨isValid_utf8Length (hcut.trans (List.append_assoc ..)), ?_, extract_utf8Length hcut⟩
  rw [← utf8Length_append]
  exact isValid_utf8Length hcut

end EntryAt
end Text

namespace Image
open Text

/-- Each line that is not blank is the entry that stands there. -/
theorem entryAt_of_entries {source : String} {before after : List Line} {l : Line}
    (h : entries source = before ++ l :: after) :
    EntryAt source (before.map Line.text) l.text l.span := by
  obtain ⟨above, p, below, hpieces, rfl, hl, hbefore⟩ := exists_of_filter_ofPieces h
  obtain ⟨rest, hsource, hrest⟩ := exists_eq_joinLines_append hpieces
  obtain ⟨lead, trail, hp, hblank, hstart⟩ := exists_trim p (0 + utf8Length (joinLines above))
  have hnewline : ∀ q ∈ pieces source.toList, '\n' ∉ q :=
    fun _ => newline_notMem_of_mem_pieces
  rw [hpieces] at hnewline
  refine ⟨above, lead, trail, rest, ?_, fun q hq => hnewline q (by simp [hq]), ?_, hrest, hbefore,
    ?_, hl, hblank, ?_⟩
  · rw [hsource]
    exact congrArg (fun q => joinLines above ++ q ++ rest) hp
  · exact hp ▸ hnewline p (by simp)
  · rw [← trim_eq_strip]
    exact congrArg trim hp.symm
  · rw [Line.span, hstart, utf8Length_append, Nat.zero_add]

theorem entries_eq_nil_iff {source : String} :
    entries source = [] ↔ ∀ c ∈ source.toList, c.toNat ∈ whiteSpace := by
  have htexts : entries source = [] ↔ ∀ p ∈ pieces source.toList, trim p = [] := by
    rw [← List.forall_mem_map (f := trim) (P := (· = [])), ← map_text_lines, List.forall_mem_map,
      entries, List.filter_eq_nil_iff]
    simp
  simp only [htexts, trim_eq_nil_iff]
  constructor
  · intro h c hc
    by_cases hn : c = '\n'
    · rw [hn]
      exact newline_mem_whiteSpace
    · obtain ⟨p, hp, hmem⟩ := exists_mem_pieces_iff.2 ⟨hc, hn⟩
      exact h p hp c hmem
  · intro h p hp c hc
    exact h c (exists_mem_pieces_iff.1 ⟨p, hp, hc⟩).1

end Image
end Lc3
