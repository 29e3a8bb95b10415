import Lc3.Proofs.SourceLines

/-! # Layouts of load images

An image is written with its address and its words on lines of their own, and the rest is layout:
white space around an entry, blank lines anywhere, a newline at the end or none. `LaidOut` says
which lines hold which entries, and `stripped_eq_iff` that undoing the layout, by cutting at
newlines and stripping, gives just those entries back. So an image is read from its layouts and from
nothing else (`Image.parse_reads_layouts`). -/

namespace Lc3
open Bits

namespace Text

/-- White space that does not end the line. -/
def IsPadding (cs : List Char) : Prop :=
  (∀ c ∈ cs, c.toNat ∈ whiteSpace) ∧ '\n' ∉ cs

/-- The lines hold the entries in order. Each has a line of its own, with padding around it, and all
other lines are padding. -/
inductive LaidOut : (lines entries : List (List Char)) → Prop
  | nil : LaidOut [] []
  | blank {line lines entries} : IsPadding line → LaidOut lines entries →
    LaidOut (line :: lines) entries
  | entry {lead entry trail lines entries} : IsPadding lead → IsPadding trail →
    LaidOut lines entries → LaidOut ((lead ++ entry ++ trail) :: lines) (entry :: entries)

/-- The source is made of the lines, the last of which may end with a newline too. -/
def ConsistsOf (source : String) (lines : List (List Char)) : Prop :=
  source.toList = ['\n'].intercalate lines ∨ source.toList = joinLines lines

/-- A text that can stand on a line and is not changed by stripping it. -/
def IsEntry (cs : List Char) : Prop :=
  cs ≠ [] ∧ ∀ c ∈ cs, c.toNat ∉ whiteSpace

/-! ### Stripping -/

theorem dropWhile_entry_append {entry : List Char} (h : IsEntry entry) (rest : List Char) :
    (entry ++ rest).dropWhile (·.toNat ∈ whiteSpace) = entry ++ rest := by
  obtain ⟨c, cs, rfl⟩ := List.exists_cons_of_ne_nil h.1
  exact List.dropWhile_cons_of_neg (by simpa using h.2 c List.mem_cons_self)

theorem rdropWhile_entry {entry : List Char} (h : IsEntry entry) :
    entry.rdropWhile (·.toNat ∈ whiteSpace) = entry := by
  rw [List.rdropWhile_eq_self_iff]
  intro hne
  simpa using h.2 _ (List.getLast_mem hne)

theorem rdropWhile_append_of_forall {p : Char → Bool} {trail : List Char}
    (h : ∀ c ∈ trail, p c = true) (cs : List Char) :
    (cs ++ trail).rdropWhile p = cs.rdropWhile p := by
  rw [List.rdropWhile, List.reverse_append,
    List.dropWhile_append_of_pos fun c hc => h c (List.mem_reverse.1 hc)]
  rfl

theorem strip_padded {lead entry trail : List Char} (hlead : IsPadding lead)
    (h : IsEntry entry) (htrail : IsPadding trail) : strip (lead ++ entry ++ trail) = entry := by
  have hlead : ∀ c ∈ lead, decide (c.toNat ∈ whiteSpace) = true :=
    fun c hc => decide_eq_true (hlead.1 c hc)
  have htrail : ∀ c ∈ trail, decide (c.toNat ∈ whiteSpace) = true :=
    fun c hc => decide_eq_true (htrail.1 c hc)
  rw [strip, List.append_assoc, List.dropWhile_append_of_pos hlead, dropWhile_entry_append h,
    rdropWhile_append_of_forall htrail, rdropWhile_entry h]

theorem IsEntry.strip_eq {entry : List Char} (h : IsEntry entry) : strip entry = entry := by
  have hempty : IsPadding [] := by simp [IsPadding]
  simpa using strip_padded hempty h hempty

theorem IsEntry.newline_notMem {entry : List Char} (h : IsEntry entry) : '\n' ∉ entry :=
  fun hn => h.2 _ hn newline_mem_whiteSpace

theorem strip_eq_nil_iff {cs : List Char} : strip cs = [] ↔ ∀ c ∈ cs, c.toNat ∈ whiteSpace := by
  rw [← trim_eq_strip]
  exact trim_eq_nil_iff

/-- What stripping takes off a line is padding. -/
theorem exists_padding {line : List Char} (h : '\n' ∉ line) : ∃ lead trail,
    line = lead ++ strip line ++ trail ∧ IsPadding lead ∧ IsPadding trail := by
  obtain ⟨lead, trail, hline, hblank, -⟩ := exists_trim line 0
  rw [trim_eq_strip] at hline
  have hnewline : '\n' ∉ lead ++ strip line ++ trail := by rwa [← hline]
  simp only [List.mem_append, not_or] at hnewline
  exact ⟨lead, trail, hline, ⟨fun c hc => hblank c (List.mem_append_left _ hc), hnewline.1.1⟩,
    ⟨fun c hc => hblank c (List.mem_append_right _ hc), hnewline.2⟩⟩

/-! ### Lines and entries -/

namespace LaidOut
variable {lines entries : List (List Char)}

theorem newline_notMem (h : LaidOut lines entries) (hentries : ∀ e ∈ entries, IsEntry e) :
    ∀ l ∈ lines, '\n' ∉ l := by
  induction h with
  | nil => exact fun _ => False.elim ∘ List.not_mem_nil
  | blank hline _ ih => exact List.forall_mem_cons.2 ⟨hline.2, ih hentries⟩
  | entry hlead htrail _ ih =>
    obtain ⟨hentry, hentries⟩ := List.forall_mem_cons.1 hentries
    refine List.forall_mem_cons.2 ⟨?_, ih hentries⟩
    simp only [List.mem_append, not_or]
    exact ⟨⟨hlead.2, hentry.newline_notMem⟩, htrail.2⟩

theorem filter_strip (h : LaidOut lines entries) (hentries : ∀ e ∈ entries, IsEntry e) :
    (lines.map strip).filter (· ≠ []) = entries := by
  induction h with
  | nil => rfl
  | blank hline _ ih =>
    rw [List.map_cons, strip_eq_nil_iff.2 hline.1, List.filter_cons_of_neg (by simp), ih hentries]
  | entry hlead htrail _ ih =>
    obtain ⟨hentry, hentries⟩ := List.forall_mem_cons.1 hentries
    rw [List.map_cons, strip_padded hlead hentry htrail,
      List.filter_cons_of_pos (by simpa using hentry.1), ih hentries]

theorem of_strip (h : ∀ l ∈ lines, '\n' ∉ l) :
    LaidOut lines ((lines.map strip).filter (· ≠ [])) := by
  induction lines with
  | nil => exact .nil
  | cons l lines ih =>
    obtain ⟨hl, hlines⟩ := List.forall_mem_cons.1 h
    by_cases hstrip : strip l = []
    · rw [List.map_cons, hstrip, List.filter_cons_of_neg (by simp)]
      exact .blank ⟨strip_eq_nil_iff.1 hstrip, hl⟩ (ih hlines)
    · rw [List.map_cons, List.filter_cons_of_pos (by simpa using hstrip)]
      obtain ⟨lead, trail, hcut, hlead, htrail⟩ := exists_padding hl
      have hentry : LaidOut ((lead ++ strip l ++ trail) :: lines)
          (strip l :: (lines.map strip).filter (· ≠ [])) := .entry hlead htrail (ih hlines)
      rwa [← hcut] at hentry

end LaidOut

/-! ### Sources -/

section
variable {source : String} {lines entries : List (List Char)}

theorem joinLines_eq_intercalate (ls : List (List Char)) :
    joinLines ls = ['\n'].intercalate (ls ++ [[]]) := by
  induction ls with
  | nil => rfl
  | cons l ls ih =>
    obtain ⟨k, ks, hks⟩ := List.exists_cons_of_ne_nil (List.append_ne_nil_of_right_ne_nil ls
      (List.cons_ne_nil [] []))
    rw [joinLines_cons, ih, List.cons_append, hks, List.intercalate_cons_cons, List.append_assoc]
    rfl

theorem ConsistsOf.stripped (h : ConsistsOf source lines) (hne : lines ≠ [])
    (hlines : ∀ l ∈ lines, '\n' ∉ l) :
    stripped source = (lines.map strip).filter (· ≠ []) := by
  rcases h with h | h
  · rw [Text.stripped, h, List.splitOn_intercalate '\n' hlines hne]
  · have hlines' : ∀ l ∈ lines ++ [[]], '\n' ∉ l :=
      List.forall_mem_append.2 ⟨hlines, List.forall_mem_singleton.2 List.not_mem_nil⟩
    rw [Text.stripped, h, joinLines_eq_intercalate, List.splitOn_intercalate '\n' hlines' (by simp),
      List.map_append, List.filter_append]
    simp [strip]

/-- The entries that are left of a source are those that it is a layout of. -/
theorem stripped_eq_iff (hne : entries ≠ []) (hentries : ∀ e ∈ entries, IsEntry e) :
    stripped source = entries ↔ ∃ lines, LaidOut lines entries ∧ ConsistsOf source lines := by
  constructor
  · rintro rfl
    exact ⟨_, .of_strip fun _ => newline_notMem_of_mem_splitOn,
      .inl (List.intercalate_splitOn '\n').symm⟩
  · rintro ⟨lines, hlaid, hsource⟩
    have hne' : lines ≠ [] := by
      rintro rfl
      cases hlaid
      exact hne rfl
    rw [hsource.stripped hne' (hlaid.newline_notMem hentries), hlaid.filter_strip hentries]

end
end Text

theorem IsBinary.isEntry {cs : List Char} (h : IsBinary cs) (hlen : 0 < cs.length) :
    Text.IsEntry cs := by
  refine ⟨List.ne_nil_of_length_pos hlen, fun c hc => ?_⟩
  rcases h c hc with rfl | rfl <;> decide

namespace Image
open Text

/-- The text is one of the binary numbers that say where an image starts. -/
def WritesOrigin (text : List Char) (origin : Word) : Prop :=
  IsAddress text ∧ origin.toInt = signed (bitsOf text)

theorem ofSignedDigits_eq_ok_iff_writesOrigin {text : List Char} {origin : Word} :
    Word.ofSignedDigits text = .ok origin ↔ WritesOrigin text origin := by
  rw [Word.ofSignedDigits_eq_ok_iff]
  exact and_assoc.symm

theorem writesOrigin_toBinary (origin : Word) :
    WritesOrigin origin.toBinary.toList origin := by
  have hdigits : origin.toBinary.toList = digitsOf (origin.slice 0 16) :=
    String.toList_ofList.trans (Word.binaryDigits_eq_digitsOf origin)
  rw [hdigits]
  refine ⟨⟨?_, isBinary_digitsOf _⟩, ?_⟩
  · rw [digitsOf, List.length_map, Word.length_slice]
    decide
  · rw [bitsOf_digitsOf, Word.signed_slice_all]

theorem isEntry_toBinary (w : Word) : IsEntry w.toBinary.toList :=
  (writesOrigin_toBinary w).1.2.isEntry (writesOrigin_toBinary w).1.1.1

theorem forall₂_ofDigits_iff_eq_map {texts : List (List Char)} {ws : List Word} :
    List.Forall₂ (fun t w => Word.ofDigits t = .ok w) texts ws ↔
      texts = ws.map (·.toBinary.toList) := by
  have hword : (fun t w => Word.ofDigits t = .ok w) =
      fun t (w : Word) => t = w.toBinary.toList := by
    funext t w
    rw [Word.ofDigits_eq_ok_iff_eq_toBinary]
  rw [hword, ← List.forall₂_map_right_iff (R := Eq), List.forall₂_eq_eq_eq]

/-- The entries that an image is written with, of which `address` is the first. -/
def entryTexts (image : Image) (address : List Char) : List (List Char) :=
  address :: image.words.map (·.toBinary.toList)

theorem isEntry_of_mem_entryTexts {image : Image} {address : List Char}
    (h : WritesOrigin address image.origin) : ∀ e ∈ image.entryTexts address, IsEntry e := by
  refine List.forall_mem_cons.2 ⟨h.1.2.isEntry h.1.1.1, List.forall_mem_map.2 fun w _ => ?_⟩
  exact isEntry_toBinary w

theorem parse_eq_ok_iff_stripped {source : String} {image : Image} :
    parse source = .ok image ↔
      ∃ address, WritesOrigin address image.origin ∧
        stripped source = image.entryTexts address := by
  simp only [parse_eq_ok_iff, ofSignedDigits_eq_ok_iff_writesOrigin, forall₂_ofDigits_iff_eq_map]
  constructor
  · rintro ⟨address, _, hsource, horigin, rfl⟩
    exact ⟨address, horigin, hsource⟩
  · rintro ⟨address, horigin, hsource⟩
    exact ⟨address, _, hsource, horigin, rfl⟩

/-- A source is read as an image exactly if it is a layout of it: a binary number for the origin and
then the words as they are written, each on a line of its own among white space. -/
theorem parse_reads_layouts (image : Image) :
    (∀ source, parse source = .ok image ↔ ∃ address lines, WritesOrigin address image.origin ∧
      LaidOut lines (image.entryTexts address) ∧ ConsistsOf source lines) ∧
    WritesOrigin image.origin.toBinary.toList image.origin := by
  refine ⟨fun source => ?_, writesOrigin_toBinary image.origin⟩
  rw [parse_eq_ok_iff_stripped]
  refine exists_congr fun address => ?_
  rw [exists_and_left]
  refine and_congr_right fun horigin => ?_
  exact stripped_eq_iff (List.cons_ne_nil _ _) (isEntry_of_mem_entryTexts horigin)

/-- Carriage returns and a wide blank, between two blank lines. -/
theorem parse_padded_layout :
    let source := "\r\n 110\r\n\u3000\t0000000000000101 \n \n"
    let lines := ["\r".toList, " 110\r".toList, "\u3000\t0000000000000101 ".toList, " ".toList]
    let image : Image := ⟨0xFFFE, [5]⟩
    WritesOrigin "110".toList image.origin ∧ LaidOut lines (image.entryTexts "110".toList) ∧
      ConsistsOf source lines ∧ parse source = .ok image := by
  intro source lines image
  have horigin : WritesOrigin "110".toList image.origin :=
    ⟨⟨by decide, by simp [IsBinary]⟩, by decide⟩
  have hreturn : IsPadding "\r".toList := by simp [IsPadding, whiteSpace]
  have hblank : IsPadding " ".toList := by simp [IsPadding, whiteSpace]
  have hwide : IsPadding "\u3000\t".toList := by simp [IsPadding, whiteSpace]
  have hend : LaidOut [" ".toList] [] := .blank hblank .nil
  have hlines : LaidOut lines (image.entryTexts "110".toList) :=
    .blank hreturn (@LaidOut.entry _ "110".toList _ _ _ hblank hreturn
      (@LaidOut.entry _ "0000000000000101".toList _ _ _ hwide hblank hend))
  have hsource : ConsistsOf source lines := .inr (by decide)
  exact ⟨horigin, hlines, hsource,
    ((parse_reads_layouts image).1 source).2 ⟨_, lines, horigin, hlines, hsource⟩⟩

end Image
end Lc3
