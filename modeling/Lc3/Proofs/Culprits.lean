import Lc3.Proofs.SourceLines

/-! # Rejected sources

A source that is no image is rejected for one of its entries, or for having none.
`parse_eq_error_iff` finds the entry among the lines that the reader has made, and
`rejection_points_at_culprit` in the source itself: it is the first that is malformed, whatever
comes after it, the label of the failure covers just its characters, and the message ends with what
is wrong with them, word for word (`Explains`). -/

namespace Lc3
open Text

/-- The failure has one label, which covers the characters `text` of the source. -/
structure Failure.PointsAt (failure : Failure) (source : String) (span : Span) (text : List Char) :
    Prop where
  source_eq : failure.source = some source
  labels_eq : ∃ note, failure.labels = [⟨span, note⟩]
  isValid_start : String.Pos.Raw.IsValid source ⟨span.start⟩
  isValid_end : String.Pos.Raw.IsValid source ⟨span.start + span.length⟩
  extract_eq : String.Pos.Raw.extract source ⟨span.start⟩ ⟨span.start + span.length⟩ =
    String.ofList text
  ne_nil : text ≠ []
  newline_notMem : '\n' ∉ text

/-- The words tell why the text is not a number: its length, unless that is an admitted one, or else
its first character that is no digit, and how many stand before it. -/
inductive Explains (admitted : Nat → Prop) (text : List Char) : String → Prop
  | wrongLength (hlen : ¬ admitted text.length) :
    Explains admitted text ("Expected 16 binary digits, found " ++ text.length.repr)
  | invalidDigit {digits rest : List Char} {c : Char} (hlen : admitted text.length)
    (heq : text = digits ++ c :: rest) (hdigits : ∀ d ∈ digits, d = '0' ∨ d = '1')
    (hc : ¬ (c = '0' ∨ c = '1')) :
    Explains admitted text
      ("Invalid binary digit `" ++ String.singleton c ++ "` at position " ++ digits.length.repr)

theorem BinaryError.Describes.explains {admitted : Nat → Prop} {text : List Char}
    {cause : BinaryError} (h : cause.Describes admitted text) :
    Explains admitted text cause.message := by
  cases cause with
  | wrongLength found =>
    obtain ⟨hlen, rfl⟩ := h
    exact .wrongLength hlen
  | invalidDigit c index =>
    obtain ⟨hlen, digits, rest, heq, hdigits, hc, rfl⟩ := h
    exact .invalidDigit hlen heq hdigits hc

theorem Text.EntryAt.pointsAt {source : String} {earlier : List (List Char)} {text : List Char}
    {span : Span} (h : EntryAt source earlier text span) {failure : Failure} {note : String}
    (hsource : failure.source = some source) (hlabels : failure.labels = [⟨span, note⟩]) :
    failure.PointsAt source span text := by
  obtain ⟨hstart, hend, hslice⟩ := h.slice
  exact ⟨hsource, ⟨note, hlabels⟩, hstart, hend, hslice, h.ne_nil, h.newline_notMem⟩

namespace Image

theorem isWord_iff {text : List Char} : IsWord text ↔ ∃ w, Word.ofDigits text = .ok w :=
  Word.exists_ofDigits_eq_ok_iff.symm

theorem isAddress_iff {text : List Char} :
    IsAddress text ↔ ∃ w, Word.ofSignedDigits text = .ok w :=
  Word.exists_ofSignedDigits_eq_ok_iff.symm

theorem not_isWord_iff {text : List Char} : ¬ IsWord text ↔ ∃ e, Word.ofDigits text = .error e := by
  rw [isWord_iff, Except.exists_error_iff]

theorem not_isAddress_iff {text : List Char} :
    ¬ IsAddress text ↔ ∃ e, Word.ofSignedDigits text = .error e := by
  rw [isAddress_iff, Except.exists_error_iff]

section
variable {source : String} {failure : Failure}

theorem parse_eq_error_iff : parse source = .error failure ↔
    (entries source = [] ∧ failure = .emptyImage) ∨
    (∃ l after cause, entries source = l :: after ∧ Word.ofSignedDigits l.text = .error cause ∧
      failure = .badOrigin l.span source cause) ∨
    ∃ head before l after cause, entries source = head :: before ++ l :: after ∧
      IsAddress head.text ∧ (∀ k ∈ before, IsWord k.text) ∧
      Word.ofDigits l.text = .error cause ∧ failure = .badWord l.span source cause := by
  rw [parse]
  cases entries source with
  | nil => simp [eq_comm]
  | cons head rest =>
    simp only [Except.bind_eq_error_iff, Except.mapError_eq_error_iff, Except.mapError_eq_ok_iff,
      Except.mapM_eq_error_iff, isAddress_iff, isWord_iff]
    constructor
    · rintro (⟨cause, hcause, rfl⟩ | ⟨origin, horigin,
        ⟨before, l, after, rfl, hbefore, cause, hcause, rfl⟩ | ⟨_, -, h⟩⟩)
      · exact .inr (.inl ⟨head, rest, cause, rfl, hcause, rfl⟩)
      · exact .inr (.inr ⟨head, before, l, after, cause, rfl, ⟨origin, horigin⟩, hbefore, hcause,
          rfl⟩)
      · cases h
    · rintro (⟨h, -⟩ | ⟨l, after, cause, h, hcause, rfl⟩ |
        ⟨head', before, l, after, cause, h, ⟨origin, horigin⟩, hbefore, hcause, rfl⟩)
      · cases h
      · obtain ⟨rfl, rfl⟩ := List.cons_eq_cons.1 h
        exact .inl ⟨cause, hcause, rfl⟩
      · obtain ⟨rfl, rfl⟩ := List.cons_eq_cons.1 h
        exact .inr ⟨origin, horigin, .inl ⟨before, l, after, rfl, hbefore, cause, hcause, rfl⟩⟩

/-! ### Which failure -/

theorem exists_empty_iff :
    (∃ failure, parse source = .error failure ∧ failure.code = some "image::empty") ↔
      ∀ c ∈ source.toList, c.toNat ∈ whiteSpace := by
  rw [← entries_eq_nil_iff]
  constructor
  · rintro ⟨failure, hparse, hcode⟩
    rcases parse_eq_error_iff.1 hparse with ⟨h, -⟩ | ⟨_, _, _, -, -, rfl⟩ |
      ⟨_, _, _, _, _, -, -, -, -, rfl⟩
    · exact h
    · simp [Failure.code] at hcode
    · simp [Failure.code] at hcode
  · intro h
    exact ⟨.emptyImage, parse_eq_error_iff.2 (.inl ⟨h, rfl⟩), rfl⟩

theorem exists_bad_origin_iff :
    (∃ failure, parse source = .error failure ∧ failure.code = some "image::bad_orig") ↔
      ∃ text later, stripped source = text :: later ∧ ¬ IsAddress text := by
  rw [← map_text_entries]
  constructor
  · rintro ⟨failure, hparse, hcode⟩
    rcases parse_eq_error_iff.1 hparse with ⟨-, rfl⟩ | ⟨l, after, cause, h, hcause, -⟩ |
      ⟨_, _, _, _, _, -, -, -, -, rfl⟩
    · simp [Failure.code] at hcode
    · exact ⟨l.text, after.map Line.text, congrArg _ h, not_isAddress_iff.2 ⟨cause, hcause⟩⟩
    · simp [Failure.code] at hcode
  · rintro ⟨text, later, h, htext⟩
    obtain ⟨l, after, hentries, rfl, -⟩ := List.map_eq_cons_iff.1 h
    obtain ⟨cause, hcause⟩ := not_isAddress_iff.1 htext
    exact ⟨_, parse_eq_error_iff.2 (.inr (.inl ⟨l, after, cause, hentries, hcause, rfl⟩)), rfl⟩

theorem exists_bad_word_iff :
    (∃ failure, parse source = .error failure ∧ failure.code = some "image::bad_word") ↔
      ∃ head rest text later, stripped source = head :: rest ++ text :: later ∧ IsAddress head ∧
        (∀ t ∈ rest, IsWord t) ∧ ¬ IsWord text := by
  rw [← map_text_entries]
  constructor
  · rintro ⟨failure, hparse, hcode⟩
    rcases parse_eq_error_iff.1 hparse with ⟨-, rfl⟩ | ⟨_, _, _, -, -, rfl⟩ |
      ⟨head, before, l, after, cause, h, hhead, hbefore, hcause, -⟩
    · simp [Failure.code] at hcode
    · simp [Failure.code] at hcode
    · refine ⟨head.text, before.map Line.text, l.text, after.map Line.text, ?_, hhead,
        List.forall_mem_map.2 hbefore, not_isWord_iff.2 ⟨cause, hcause⟩⟩
      rw [h, List.map_append, List.map_cons, List.map_cons]
  · rintro ⟨head, rest, text, later, h, hhead, hrest, htext⟩
    obtain ⟨l, ls, hentries, rfl, hls⟩ := List.map_eq_cons_iff.1 h
    obtain ⟨before, ls', rfl, rfl, hls'⟩ := List.map_eq_append_iff.1 hls
    obtain ⟨k, after, rfl, rfl, -⟩ := List.map_eq_cons_iff.1 hls'
    obtain ⟨cause, hcause⟩ := not_isWord_iff.1 htext
    exact ⟨_, parse_eq_error_iff.2 (.inr (.inr ⟨l, before, k, after, cause, hentries, hhead,
      List.forall_mem_map.1 hrest, hcause, rfl⟩)), rfl⟩

end

/-- A source is rejected for being blank, or for its first entry if that is no address, or else for
the first of the others that is no word. -/
theorem rejection_points_at_culprit (source : String) :
    ((∃ failure, parse source = .error failure ∧ failure.code = some "image::empty") ↔
      ∀ c ∈ source.toList, c.toNat ∈ whiteSpace) ∧
    ((∃ failure, parse source = .error failure ∧ failure.code = some "image::bad_orig") ↔
      ∃ text later, stripped source = text :: later ∧ ¬ IsAddress text) ∧
    ((∃ failure, parse source = .error failure ∧ failure.code = some "image::bad_word") ↔
      ∃ head rest text later, stripped source = head :: rest ++ text :: later ∧ IsAddress head ∧
        (∀ t ∈ rest, IsWord t) ∧ ¬ IsWord text) ∧
    ∀ failure, parse source = .error failure →
      (failure = .emptyImage ∧ failure.code = some "image::empty" ∧ failure.labels = [] ∧
        failure.source = none) ∨
      (∃ text span cause words, failure = .badOrigin span source cause ∧
        failure.code = some "image::bad_orig" ∧ EntryAt source [] text span ∧ ¬ IsAddress text ∧
        failure.PointsAt source span text ∧ cause.Describes (fun n => 0 < n ∧ n ≤ 16) text ∧
        Explains (fun n => 0 < n ∧ n ≤ 16) text words ∧
        failure.message = "Encountered a malformed start address: " ++ words) ∨
      ∃ head rest text span cause words, failure = .badWord span source cause ∧
        failure.code = some "image::bad_word" ∧ EntryAt source (head :: rest) text span ∧
        IsAddress head ∧ (∀ t ∈ rest, IsWord t) ∧ ¬ IsWord text ∧
        failure.PointsAt source span text ∧ cause.Describes (· = 16) text ∧
        Explains (· = 16) text words ∧
        failure.message = "Encountered a malformed word: " ++ words := by
  refine ⟨exists_empty_iff, exists_bad_origin_iff, exists_bad_word_iff, fun failure hparse => ?_⟩
  rcases parse_eq_error_iff.1 hparse with ⟨-, rfl⟩ | ⟨l, after, cause, h, hcause, rfl⟩ |
    ⟨head, before, l, after, cause, h, hhead, hbefore, hcause, rfl⟩
  · exact .inl ⟨rfl, rfl, rfl, rfl⟩
  · have hentry : EntryAt source [] l.text l.span :=
      entryAt_of_entries (show entries source = [] ++ l :: after from h)
    have hdescribes := Word.ofSignedDigits_eq_error_iff.1 hcause
    exact .inr (.inl ⟨l.text, l.span, cause, cause.message, rfl, rfl, hentry,
      not_isAddress_iff.2 ⟨cause, hcause⟩, hentry.pointsAt rfl rfl, hdescribes,
      hdescribes.explains, rfl⟩)
  · have hentry := entryAt_of_entries h
    have hdescribes := Word.ofDigits_eq_error_iff.1 hcause
    exact .inr (.inr ⟨head.text, before.map Line.text, l.text, l.span, cause, cause.message, rfl,
      rfl, hentry, hhead, List.forall_mem_map.2 hbefore, not_isWord_iff.2 ⟨cause, hcause⟩,
      hentry.pointsAt rfl rfl, hdescribes, hdescribes.explains, rfl⟩)

/-- A character of two bytes in a word, behind a blank of three and above a malformed line. -/
theorem culprit_after_wide_blank :
    let source := "\r\n0011\r\n0001000000100001\n\u3000000100000010000é\r\n2"
    let text := "000100000010000é".toList
    let failure : Failure := .badWord ⟨28, 17⟩ source (.invalidDigit 'é' 15)
    parse source = .error failure ∧ failure.PointsAt source ⟨28, 17⟩ text ∧
      failure.message =
        "Encountered a malformed word: Invalid binary digit `é` at position 15" ∧
      ∃ head rest, EntryAt source (head :: rest) text ⟨28, 17⟩ ∧ IsAddress head ∧
        (∀ t ∈ rest, IsWord t) ∧ ¬ IsWord text := by
  intro source text failure
  have hparse : parse source = .error failure := by decide +kernel
  have hslice : String.Pos.Raw.extract source ⟨28⟩ ⟨28 + 17⟩ = String.ofList text := by
    decide +kernel
  obtain ⟨-, -, -, hfailure⟩ := rejection_points_at_culprit source
  rcases hfailure failure hparse with ⟨h, -⟩ | ⟨_, _, _, _, h, -⟩ |
    ⟨head, rest, text', span, cause, words, -, -, hentry, hhead, hrest, hword, hpoints, -⟩
  · simp [failure] at h
  · simp [failure] at h
  · obtain ⟨note, hlabels⟩ := hpoints.labels_eq
    cases hlabels
    obtain rfl : text' = text := String.ofList_injective (hpoints.extract_eq.symm.trans hslice)
    exact ⟨hparse, hpoints, by decide, head, rest, hentry, hhead, hrest, hword⟩

end Image
end Lc3
