import Lc3.Proofs.MemoryWrites
import Mathlib.Data.List.Induction
import Mathlib.Order.Bounds.Basic

/-! # Where the words of an image end up

The word of index `i` goes to the address `i` after the origin, modulo the size of memory, so that
the indices of the words that go to one address lie whole memories apart. The last of them is the
one that counts (`lastTo_writes_cases`). Among 65536 indices in a row there is one for each
address (`existsUnique_place_eq`), so that every word of an image that fits into memory stays, and
of a longer image the last 65536. -/

namespace Lc3
namespace Image

/-- The address that the word of index `i` goes to. -/
def place (image : Image) (i : Nat) : Word :=
  image.origin + BitVec.ofNat 16 i

/-- The indices of the words that go to `a`. -/
def indicesAt (image : Image) (a : Word) : Set Nat :=
  {i | i < image.words.length ∧ image.place i = a}

variable {image : Image} {a : Word}

/-! ### The last word for an address -/

theorem mem_indicesAt {i : Nat} :
    i ∈ image.indicesAt a ↔ i < image.words.length ∧ image.place i = a := Iff.rfl

theorem writes_concat (origin : Word) (words : List Word) (w : Word) :
    writes ⟨origin, words ++ [w]⟩ =
      writes ⟨origin, words⟩ ++ [(place ⟨origin, words⟩ words.length, w)] := by
  rw [writes, List.mapIdx_concat]
  rfl

theorem lastTo_writes_concat (origin : Word) (words : List Word) (w : Word) :
    lastTo a (writes ⟨origin, words ++ [w]⟩) =
      if place ⟨origin, words⟩ words.length = a then some w
      else lastTo a (writes ⟨origin, words⟩) := by
  rw [writes_concat, lastTo_append, lastTo_singleton]
  split <;> rfl

theorem mem_indicesAt_concat {origin : Word} {words : List Word} {w : Word} {i : Nat} :
    i ∈ indicesAt ⟨origin, words ++ [w]⟩ a ↔
      i ∈ indicesAt ⟨origin, words⟩ a ∨
        i = words.length ∧ place ⟨origin, words⟩ words.length = a := by
  have hlength : i < (words ++ [w]).length ↔ i < words.length ∨ i = words.length := by
    rw [List.length_append, List.length_singleton, Nat.lt_succ_iff_lt_or_eq]
  rw [mem_indicesAt, hlength, or_and_right]
  refine or_congr_right (and_congr_right ?_)
  rintro rfl
  exact Iff.rfl

theorem lastTo_writes_cases (image : Image) (a : Word) :
    (image.indicesAt a = ∅ ∧ lastTo a image.writes = none) ∨
      ∃ i w, IsGreatest (image.indicesAt a) i ∧ image.words[i]? = some w ∧
        lastTo a image.writes = some w := by
  obtain ⟨origin, words⟩ := image
  induction words using List.reverseRecOn with
  | nil =>
    exact .inl ⟨Set.eq_empty_of_forall_notMem fun i hi => absurd hi.1 (Nat.not_lt_zero i), rfl⟩
  | append_singleton words w ih =>
    rw [lastTo_writes_concat]
    by_cases hlast : place ⟨origin, words⟩ words.length = a
    · refine .inr ⟨words.length, w, ⟨mem_indicesAt_concat.2 (.inr ⟨rfl, hlast⟩), ?_⟩,
        List.getElem?_concat_length, if_pos hlast⟩
      intro i hi
      rcases mem_indicesAt_concat.1 hi with hi | ⟨rfl, -⟩
      · exact hi.1.le
      · exact le_rfl
    · have hsame : indicesAt ⟨origin, words ++ [w]⟩ a = indicesAt ⟨origin, words⟩ a := by
        ext i
        rw [mem_indicesAt_concat, or_iff_left fun h => hlast h.2]
      rw [hsame, if_neg hlast]
      refine ih.imp id ?_
      rintro ⟨i, v, hi, hv, h⟩
      exact ⟨i, v, hi, (List.getElem?_append_left hi.1.1).trans hv, h⟩

theorem readMemory_load_cases (image : Image) (m : Machine) (a : Word) :
    (image.indicesAt a = ∅ ∧ (image.load m).readMemory a = m.readMemory a) ∨
      ∃ i, IsGreatest (image.indicesAt a) i ∧
        image.words[i]? = some ((image.load m).readMemory a) := by
  rw [readMemory_load]
  rcases image.lastTo_writes_cases a with ⟨hempty, h⟩ | ⟨i, w, hi, hw, h⟩ <;> rw [h]
  · exact .inl ⟨hempty, rfl⟩
  · exact .inr ⟨i, hi, hw⟩

/-! ### Indices and addresses -/

theorem place_eq_place_iff {i j : Nat} :
    image.place i = image.place j ↔ i % 65536 = j % 65536 := by
  rw [place, place, BitVec.add_right_inj, ← BitVec.toNat_inj, BitVec.toNat_ofNat,
    BitVec.toNat_ofNat]

theorem eq_of_place_eq (first : Nat) {i j : Nat} (h : image.place i = image.place j)
    (hi : first ≤ i ∧ i < first + 65536) (hj : first ≤ j ∧ j < first + 65536) : i = j := by
  rw [place_eq_place_iff] at h
  omega

/-- Among as many indices in a row as there are addresses there is one for each. -/
theorem existsUnique_place_eq (image : Image) (first : Nat) (a : Word) :
    ∃! i, (first ≤ i ∧ i < first + 65536) ∧ image.place i = a := by
  obtain ⟨d, hd⟩ : ∃ d, image.place first + d = a :=
    ⟨a - image.place first, (BitVec.add_comm ..).trans (BitVec.sub_add_cancel ..)⟩
  have hplace : image.place (first + d.toNat) = a := by
    rw [place, BitVec.ofNat_add, ← BitVec.add_assoc, BitVec.ofNat_toNat, BitVec.setWidth_eq]
    exact hd
  have hwindow : first ≤ first + d.toNat ∧ first + d.toNat < first + 65536 :=
    ⟨Nat.le_add_right .., Nat.add_lt_add_left d.isLt first⟩
  refine ⟨first + d.toNat, ⟨hwindow, hplace⟩, ?_⟩
  rintro i ⟨hi, ha⟩
  exact eq_of_place_eq first (ha.trans hplace.symm) hi hwindow

/-- No later word takes the place of one of the last 65536. -/
theorem isGreatest_indicesAt_place {i : Nat} (hi : i < image.words.length)
    (hlast : image.words.length ≤ i + 65536) : IsGreatest (image.indicesAt (image.place i)) i := by
  refine ⟨⟨hi, rfl⟩, fun j ⟨hj, hplace⟩ => ?_⟩
  by_contra hlt
  have := eq_of_place_eq i hplace ⟨by omega, by omega⟩ ⟨le_rfl, by omega⟩
  omega

theorem readMemory_load_place (m : Machine) {i : Nat} (hi : i < image.words.length)
    (hlast : image.words.length ≤ i + 65536) :
    (image.load m).readMemory (image.place i) = image.words[i] := by
  have hgreatest := isGreatest_indicesAt_place hi hlast
  rcases image.readMemory_load_cases m (image.place i) with ⟨hempty, -⟩ | ⟨j, hj, hw⟩
  · exact absurd hgreatest.1 (hempty ▸ Set.notMem_empty i)
  · rw [hj.unique hgreatest, List.getElem?_eq_getElem hi] at hw
    exact (Option.some.inj hw).symm

theorem readMemory_load_of_ne (m : Machine) (h : ∀ i < image.words.length, image.place i ≠ a) :
    (image.load m).readMemory a = m.readMemory a := by
  rcases image.readMemory_load_cases m a with ⟨-, hsame⟩ | ⟨i, hi, -⟩
  · exact hsame
  · exact absurd hi.1.2 (h i hi.1.1)

/-- Loading an image puts at each address the last of its words that go there and changes nothing
else but the program counter. If it is longer than memory, its last 65536 words are found. -/
theorem load_places_words (image : Image) (m : Machine) :
    (∀ a, (image.indicesAt a = ∅ ∧ (image.load m).readMemory a = m.readMemory a) ∨
      ∃ i, IsGreatest (image.indicesAt a) i ∧
        image.words[i]? = some ((image.load m).readMemory a)) ∧
    (image.load m).pc = image.origin ∧
    (∀ r, (image.load m).readRegister r = m.readRegister r) ∧
    (image.load m).condition = m.condition ∧ (image.load m).supervisor = m.supervisor ∧
    (image.words.length ≤ 65536 →
      (∀ (i : Nat) (hi : i < image.words.length),
        (image.load m).readMemory (image.place i) = image.words[i]) ∧
      ∀ a, (∀ i < image.words.length, image.place i ≠ a) →
        (image.load m).readMemory a = m.readMemory a) ∧
    (65536 < image.words.length →
      (∀ (i : Nat) (hi : i < image.words.length), image.words.length ≤ i + 65536 →
        (image.load m).readMemory (image.place i) = image.words[i]) ∧
      ∀ a, ∃! i, (image.words.length ≤ i + 65536 ∧ i < image.words.length) ∧
        image.place i = a) := by
  refine ⟨image.readMemory_load_cases m, rfl, fun _ => rfl, rfl, rfl, fun hlength => ?_,
    fun hlength => ?_⟩
  · exact ⟨fun i hi => readMemory_load_place m hi (by omega), fun a => readMemory_load_of_ne m⟩
  · refine ⟨fun i => readMemory_load_place m, fun a => ?_⟩
    have hwindow : ∀ i, image.words.length ≤ i + 65536 ∧ i < image.words.length ↔
        image.words.length - 65536 ≤ i ∧ i < image.words.length - 65536 + 65536 := by
      omega
    simp only [hwindow]
    exact image.existsUnique_place_eq _ a

/-- An image around the end of memory, and one that is longer than memory by a word. -/
theorem load_around_memory :
    let short : Image := ⟨0xFFFE, [1, 2, 3]⟩
    let long : Image := ⟨0x3000, List.replicate 65536 1 ++ [2]⟩
    (short.words.length ≤ 65536 ∧ (short.load .initial).readMemory 0 = 3) ∧
      65536 < long.words.length ∧ (long.load .initial).readMemory 0x3000 = 2 := by
  intro short long
  have hshort : short.words.length ≤ 65536 := by decide
  have hlong : long.words.length = 65537 := by
    rw [List.length_append, List.length_replicate, List.length_singleton]
  have hlast : long.words[65536]? = some 2 := by
    rw [List.getElem?_append_right (by rw [List.length_replicate]), List.length_replicate]
    rfl
  obtain ⟨-, -, -, -, -, hfits, -⟩ := load_places_words short .initial
  obtain ⟨-, -, -, -, -, -, hexceeds⟩ := load_places_words long .initial
  have hzero : short.place 2 = 0 := by decide
  have horigin : long.place 65536 = 0x3000 := by decide
  have hwrapped := (hfits hshort).1 2 (by decide)
  have hover := (hexceeds (by omega)).1 65536 (by omega) (by omega)
  rw [hzero] at hwrapped
  rw [horigin] at hover
  refine ⟨⟨hshort, hwrapped⟩, by omega, hover.trans ?_⟩
  exact (List.getElem_eq_iff _).2 hlast

end Image
end Lc3
