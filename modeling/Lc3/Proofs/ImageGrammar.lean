import Lc3.Image
import Lc3.Proofs.BinaryNumbers
import Mathlib.Data.List.DropRight

/-! # The grammar of load images

A source is a load image if what stands between its newlines, without white space at the ends and as
far as anything is left, is an address of up to 16 binary digits and after it words of exactly 16.
The grammar is said here with `List.splitOn` and the code points of `White_Space` one by one, and
`Image.parse_follows_grammar` compares it with the reader, which goes through lines that know their
place in the source. -/

namespace Lc3
open Bits

namespace Text

/-- The code points of the characters with the Unicode property `White_Space`. -/
def whiteSpace : List Nat :=
  [0x09, 0x0A, 0x0B, 0x0C, 0x0D, 0x20, 0x85, 0xA0, 0x1680, 0x2000, 0x2001, 0x2002, 0x2003, 0x2004,
    0x2005, 0x2006, 0x2007, 0x2008, 0x2009, 0x200A, 0x2028, 0x2029, 0x202F, 0x205F, 0x3000]

def strip (cs : List Char) : List Char :=
  (cs.dropWhile (·.toNat ∈ whiteSpace)).rdropWhile (·.toNat ∈ whiteSpace)

/-- What stands between the newlines of `source`, stripped, without what is then empty. -/
def stripped (source : String) : List (List Char) :=
  ((source.toList.splitOn '\n').map strip).filter (· ≠ [])

theorem isBlank_iff (c : Char) : isBlank c = true ↔ c.toNat ∈ whiteSpace := by
  simp only [isBlank, blankRanges, whiteSpace, List.any_cons, List.any_nil, List.mem_cons,
    List.not_mem_nil, Bool.or_eq_true, Bool.and_eq_true, decide_eq_true_eq, Bool.false_eq_true,
    or_false]
  omega

theorem newline_mem_whiteSpace : '\n'.toNat ∈ whiteSpace :=
  (isBlank_iff '\n').1 isBlank_newline

theorem trim_eq_strip : trim = strip := by
  have hblank : isBlank = fun c => decide (c.toNat ∈ whiteSpace) := by
    funext c
    rw [Bool.eq_iff_iff, isBlank_iff, decide_eq_true_iff]
  funext cs
  rw [trim, trimStart, hblank, trimEnd, hblank]
  rfl

/-- A text has no newline, or goes on after its first. -/
theorem induct_lines {P : List Char → Prop} (last : ∀ p, '\n' ∉ p → P p)
    (line : ∀ p cs, '\n' ∉ p → P cs → P (p ++ '\n' :: cs)) (cs : List Char) : P cs := by
  by_cases h : '\n' ∈ cs
  · obtain ⟨p, rest, hcs, hp⟩ := List.eq_append_cons_of_mem h
    have hlength : rest.length < cs.length := by
      simp [hcs]
      omega
    rw [hcs]
    exact line p rest hp (induct_lines last line rest)
  · exact last cs h
termination_by cs.length

theorem pieces_append_newline {p : List Char} (hp : '\n' ∉ p) (cs : List Char) :
    pieces (p ++ '\n' :: cs) = p :: pieces cs := by
  induction p with
  | nil => exact pieces_newline cs
  | cons c p ih =>
    obtain ⟨hc, hp⟩ := not_or.1 (mt List.mem_cons.2 hp)
    rw [List.cons_append, pieces_cons_of_ne (Ne.symm hc), ih hp]
    rfl

theorem pieces_of_notMem {p : List Char} (hp : '\n' ∉ p) (hne : p ≠ []) : pieces p = [p] := by
  induction p with
  | nil => exact absurd rfl hne
  | cons c p ih =>
    obtain ⟨hc, hp⟩ := not_or.1 (mt List.mem_cons.2 hp)
    rw [pieces_cons_of_ne (Ne.symm hc)]
    cases p with
    | nil => rfl
    | cons d p =>
      rw [ih hp (List.cons_ne_nil d p)]
      rfl

/-- The pieces are what stands between newlines, but for nothing after the last one. -/
theorem splitOn_newline (cs : List Char) :
    cs.splitOn '\n' = pieces cs ∨ cs.splitOn '\n' = pieces cs ++ [[]] := by
  induction cs using induct_lines with
  | last p hp =>
    rw [List.splitOn_eq_singleton hp]
    rcases eq_or_ne p [] with rfl | hne
    · exact .inr rfl
    · exact .inl (pieces_of_notMem hp hne).symm
  | line p cs hp ih =>
    rw [List.splitOn_append_cons_self, List.splitOn_eq_singleton hp, pieces_append_newline hp]
    exact ih.imp (congrArg _) (congrArg _)

theorem Line.map_text_ofPieces (offset : Nat) (ps : List (List Char)) :
    (ofPieces offset [] ps).map Line.text = ps.map trim := by
  induction ps generalizing offset with
  | nil => rfl
  | cons p ps ih => rw [ofPieces_cons, List.map_cons, ih]; rfl

theorem map_text_lines (cs : List Char) : (lines cs).map Line.text = (pieces cs).map trim :=
  Line.map_text_ofPieces 0 _

end Text

namespace Image
open Text

theorem map_text_entries (source : String) : (entries source).map Line.text = stripped source := by
  have hfilter : (entries source).map Line.text =
      ((pieces source.toList).map strip).filter (· ≠ []) := by
    rw [← trim_eq_strip, ← map_text_lines, List.filter_map, entries]
    congr 2
    funext l
    show (!l.text.isEmpty) = decide (l.text ≠ [])
    cases l.text <;> rfl
  rcases splitOn_newline source.toList with h | h
  · rw [hfilter, stripped, h]
  · rw [hfilter, stripped, h, List.map_append, List.filter_append]
    simp [strip]

theorem parse_eq_ok_iff {source : String} {image : Image} :
    parse source = .ok image ↔ ∃ head rest, stripped source = head :: rest ∧
      Word.ofSignedDigits head = .ok image.origin ∧
      List.Forall₂ (fun t w => Word.ofDigits t = .ok w) rest image.words := by
  rw [← map_text_entries, parse]
  cases entries source with
  | nil => simp
  | cons l ls =>
    simp only [Except.bind_eq_ok_iff, Except.mapError_eq_ok_iff, Except.mapM_eq_ok_iff]
    constructor
    · rintro ⟨origin, horigin, words, hwords, h⟩
      cases h
      exact ⟨_, _, rfl, horigin, List.forall₂_map_left_iff.2 hwords⟩
    · rintro ⟨head, rest, h, horigin, hwords⟩
      cases h
      exact ⟨_, horigin, _, List.forall₂_map_left_iff.1 hwords, rfl⟩

/-! ### The grammar -/

def IsAddress (text : List Char) : Prop :=
  (0 < text.length ∧ text.length ≤ 16) ∧ IsBinary text

def IsWord (text : List Char) : Prop :=
  text.length = 16 ∧ IsBinary text

theorem forall₂_ofDigits_iff {texts : List (List Char)} {ws : List Word} :
    List.Forall₂ (fun t w => Word.ofDigits t = .ok w) texts ws ↔
      (∀ t ∈ texts, IsWord t) ∧ ws.map BitVec.toNat = texts.map fun t => unsigned (bitsOf t) := by
  have hword : (fun t w => Word.ofDigits t = .ok w) =
      fun t (w : Word) => IsWord t ∧ unsigned (bitsOf t) = w.toNat := by
    funext t w
    rw [Word.ofDigits_eq_ok_iff, IsWord, and_assoc, eq_comm (a := w.toNat)]
  rw [hword, List.forall₂_and_left, eq_comm (a := ws.map _), ← List.forall₂_eq_eq_eq,
    List.forall₂_map_left_iff, List.forall₂_map_right_iff]

theorem exists_map_toNat_eq {texts : List (List Char)} (h : ∀ t ∈ texts, IsWord t) :
    ∃ ws : List Word, ws.map BitVec.toNat = texts.map fun t => unsigned (bitsOf t) := by
  refine ⟨texts.map fun t => BitVec.ofNat 16 (unsigned (bitsOf t)), ?_⟩
  rw [List.map_map]
  refine List.map_congr_left fun t ht => ?_
  exact (BitVec.toNat_ofNat _ _).trans (Nat.mod_eq_of_lt (unsigned_bitsOf_lt (h t ht).1.le))

theorem parse_eq_ok_iff_grammar {source : String} {image : Image} :
    parse source = .ok image ↔ ∃ head rest, stripped source = head :: rest ∧
      (IsAddress head ∧ ∀ t ∈ rest, IsWord t) ∧ image.origin.toInt = signed (bitsOf head) ∧
      image.words.map BitVec.toNat = rest.map fun t => unsigned (bitsOf t) := by
  rw [parse_eq_ok_iff]
  refine exists_congr fun head => exists_congr fun rest => and_congr_right fun _ => ?_
  rw [Word.ofSignedDigits_eq_ok_iff, forall₂_ofDigits_iff]
  constructor
  · rintro ⟨⟨hlen, hbin, horigin⟩, hrest, hwords⟩
    exact ⟨⟨⟨hlen, hbin⟩, hrest⟩, horigin, hwords⟩
  · rintro ⟨⟨⟨hlen, hbin⟩, hrest⟩, horigin, hwords⟩
    exact ⟨⟨hlen, hbin, horigin⟩, hrest, hwords⟩

/-- A source is read as an image exactly if it is one by the grammar, and then as the one whose
origin and words its texts write. -/
theorem parse_follows_grammar (source : String) :
    ((∃ image, parse source = .ok image) ↔ ∃ head rest, stripped source = head :: rest ∧
      (IsAddress head ∧ ∀ t ∈ rest, IsWord t)) ∧
    ∀ image, parse source = .ok image ↔ ∃ head rest, stripped source = head :: rest ∧
      (IsAddress head ∧ ∀ t ∈ rest, IsWord t) ∧ image.origin.toInt = signed (bitsOf head) ∧
      image.words.map BitVec.toNat = rest.map fun t => unsigned (bitsOf t) := by
  refine ⟨⟨?_, ?_⟩, fun image => parse_eq_ok_iff_grammar⟩
  · rintro ⟨image, h⟩
    obtain ⟨head, rest, hs, hgrammar, -⟩ := parse_eq_ok_iff_grammar.1 h
    exact ⟨head, rest, hs, hgrammar⟩
  · rintro ⟨head, rest, hs, hgrammar⟩
    obtain ⟨origin, horigin⟩ := Word.exists_toInt_eq hgrammar.1.1.2
    obtain ⟨words, hwords⟩ := exists_map_toNat_eq hgrammar.2
    exact ⟨⟨origin, words⟩,
      parse_eq_ok_iff_grammar.2 ⟨head, rest, hs, hgrammar, horigin, hwords⟩⟩

example : parse "\n  11\r\n\n0000000000000101" = .ok ⟨0xFFFF, [5]⟩ := rfl

end Image
end Lc3
