import Mathlib.Data.List.DropRight
import Wordstream.Source.Line

/-!
# Lines by number

Splitting a text at its line feeds gives its pieces. The index of offsets has one entry for each
piece, namely the number of bytes in front of it, so a line that is looked up by its number is the
piece with that number.

## Main results

* `SourceText.stands_of_piece` — where a piece stands, and which offsets the index has for it
* `SourceText.slice?_append` — a slice between the ends of a stretch is that stretch
* `SourceText.line?_eq_piece` — looking up a line is splitting the text
-/

namespace Wordstream.SourceText

/-! ### Offsets -/

@[simp]
theorem byteLength_append (a b : List Char) :
    byteLength (a ++ b) = byteLength a + byteLength b := by
  induction a with
  | nil => simp [byteLength]
  | cons c rest ih => simp [byteLength, ih, Nat.add_assoc]

theorem byteLength_eq_utf8ByteSize (cs : List Char) :
    byteLength cs = (String.ofList cs).utf8ByteSize := by
  induction cs with
  | nil => rfl
  | cons c rest ih =>
    rw [byteLength, ih, String.ofList_cons, String.utf8ByteSize_append,
      String.utf8ByteSize_singleton]

/-- The number of bytes of a front part is a boundary between two characters. -/
theorem isValid_byteLength (front rear : List Char) :
    (⟨byteLength front⟩ : String.Pos.Raw).IsValid (String.ofList (front ++ rear)) := by
  refine String.Pos.Raw.isValid_iff_exists_append.2
    ⟨String.ofList front, String.ofList rear, String.ofList_append, ?_⟩
  rw [byteLength_eq_utf8ByteSize]
  rfl

/-- A text is cut behind a front part by the number of its bytes. -/
theorem cut?_append (front rear : List Char) :
    cut? (front ++ rear) (byteLength front) = some (front, rear) := by
  induction front with
  | nil => cases rear <;> rfl
  | cons c front ih =>
    obtain ⟨offset, sum⟩ : ∃ offset, c.utf8Size + byteLength front = offset + 1 :=
      Nat.exists_eq_add_one.2 (Nat.add_pos_left c.utf8Size_pos _)
    have fits : c.utf8Size ≤ offset + 1 := by omega
    have left : offset + 1 - c.utf8Size = byteLength front := by omega
    rw [byteLength, sum, List.cons_append, cut?, if_pos fits, left, ih]
    rfl

/-- What stands between the two ends of a stretch is the stretch. -/
theorem slice?_append (front inner rear : List Char) :
    slice? (front ++ inner ++ rear) (byteLength front) (byteLength (front ++ inner)) =
      some inner := by
  have ordered : ¬ byteLength front + byteLength inner < byteLength front := by omega
  simp [slice?, cut?_append, ordered]

/-! ### Pieces -/

theorem splitOn_lineFeed (rest : List Char) :
    ('\n' :: rest).splitOn '\n' = [] :: rest.splitOn '\n' := by
  simp [List.splitOn_cons_eq_if_modifyHead]

theorem splitOn_cons {c : Char} (other : c ≠ '\n') (rest : List Char) :
    (c :: rest).splitOn '\n' = (rest.splitOn '\n').modifyHead (c :: ·) := by
  simp [List.splitOn_cons_eq_if_modifyHead, other]

theorem eq_nil_of_byteLength {cs : List Char} (none : byteLength cs = 0) : cs = [] := by
  cases cs with
  | nil => rfl
  | cons c rest => exact absurd none (Nat.ne_of_gt (Nat.add_pos_left c.utf8Size_pos _))

/-- The index has as many entries as the text has pieces. -/
theorem length_behindLineFeeds (offset : Nat) (cs : List Char) :
    (behindLineFeeds offset cs).length + 1 = (cs.splitOn '\n').length := by
  fun_induction behindLineFeeds offset cs with
  | case1 => rfl
  | case2 offset rest ih => rw [splitOn_lineFeed, List.length_cons, List.length_cons, ih]
  | case3 offset c rest other ih => rw [splitOn_cons other, List.length_modifyHead, ih]

/-- A piece stands in the text where the index puts it, and the next entry is one behind the line
feed that ends the piece. The text may start at any offset. -/
theorem stands_of_piece (offset : Nat) {cs : List Char} {i : Nat} {piece : List Char}
    (found : (cs.splitOn '\n')[i]? = some piece) :
    let starts := offset :: behindLineFeeds offset cs
    ∃ front rear, cs = front ++ piece ++ rear ∧ starts[i]? = some (offset + byteLength front) ∧
      (starts[i + 1]?.map (· - 1)).getD (offset + byteLength cs) =
        offset + byteLength (front ++ piece) := by
  induction cs generalizing offset i piece with
  | nil =>
    obtain ⟨rfl, rfl⟩ : i = 0 ∧ piece = [] := by
      cases i <;> simp_all
    exact ⟨[], [], rfl, rfl, rfl⟩
  | cons c rest ih =>
    by_cases feed : c = '\n'
    · subst feed
      rw [splitOn_lineFeed] at found
      have one : ('\n' : Char).utf8Size = 1 := by decide
      cases i with
      | zero =>
        obtain rfl : [] = piece := by simpa using found
        exact ⟨[], '\n' :: rest, rfl, rfl, by simp [behindLineFeeds, byteLength]⟩
      | succ i =>
        obtain ⟨front, rear, rfl, start, stop⟩ := ih (offset + 1) (by simpa using found)
        refine ⟨'\n' :: front, rear, by simp, ?_, ?_⟩
        · simpa [behindLineFeeds, byteLength, one, Nat.add_assoc] using start
        · simpa [behindLineFeeds, byteLength, one, Nat.add_assoc] using stop
    · rw [splitOn_cons feed, List.getElem?_modifyHead] at found
      cases i with
      | zero =>
        obtain ⟨inner, first, rfl⟩ := Option.map_eq_some_iff.1 (by simpa using found)
        obtain ⟨front, rear, rfl, start, stop⟩ := ih (offset + c.utf8Size) first
        -- The first piece has nothing in front of it.
        obtain rfl : front = [] := eq_nil_of_byteLength (by simpa using start)
        refine ⟨[], rear, by simp, rfl, ?_⟩
        simpa [behindLineFeeds, feed, byteLength, Nat.add_assoc] using stop
      | succ i =>
        obtain ⟨front, rear, rfl, start, stop⟩ := ih (offset + c.utf8Size) (by simpa using found)
        refine ⟨c :: front, rear, by simp, ?_, ?_⟩
        · simpa [behindLineFeeds, feed, byteLength, Nat.add_assoc] using start
        · simpa [behindLineFeeds, feed, byteLength, Nat.add_assoc] using stop

/-! ### Looking up a line -/

section Lookup

variable {source : SourceText} {number : Nat}

/-- The offsets of a line are those around the piece with its number. -/
theorem extent?_of_piece {piece : List Char} (counted : 0 < number)
    (found : (source.chars.splitOn '\n')[number - 1]? = some piece) :
    ∃ front rear, source.chars = front ++ piece ++ rear ∧
      source.extent? number = some (byteLength front, byteLength (front ++ piece)) := by
  obtain ⟨front, rear, split, start, stop⟩ := stands_of_piece 0 found
  refine ⟨front, rear, split, ?_⟩
  rw [Nat.sub_add_cancel counted] at stop
  simp only [Nat.zero_add] at start stop
  rw [extent?, if_neg (Nat.ne_of_gt counted), lineStarts, start, Option.map_some, stop]

theorem line?_of_piece {piece : List Char} (counted : 0 < number)
    (found : (source.chars.splitOn '\n')[number - 1]? = some piece) :
    source.line? number = some (String.ofList (trimEnd piece)) := by
  obtain ⟨front, rear, split, extent⟩ := extent?_of_piece counted found
  have slice := slice?_append front piece rear
  rw [← split] at slice
  rw [line?, extent]
  dsimp only [bind, Option.bind]
  rw [slice]

/-- A number that no piece has is none of the index either. -/
theorem extent?_eq_none (missing : number = 0 ∨ (source.chars.splitOn '\n').length < number) :
    source.extent? number = none := by
  rcases missing with rfl | behind
  · rfl
  · have counted : number ≠ 0 := Nat.ne_of_gt (Nat.zero_lt_of_lt behind)
    rw [extent?, if_neg counted, Option.map_eq_none_iff, List.getElem?_eq_none_iff, lineStarts,
      List.length_cons, length_behindLineFeeds]
    omega

/-- Every number is that of a piece, or too small or too large. -/
theorem piece_cases (source : SourceText) (number : Nat) :
    (0 < number ∧ ∃ piece, (source.chars.splitOn '\n')[number - 1]? = some piece) ∨
      (number = 0 ∨ (source.chars.splitOn '\n').length < number) := by
  by_cases missing : number = 0 ∨ (source.chars.splitOn '\n').length < number
  · exact Or.inr missing
  · have within : number - 1 < (source.chars.splitOn '\n').length := by omega
    exact Or.inl ⟨by omega, _, List.getElem?_eq_getElem within⟩

/-- Trimming takes carriage returns away and leaves none at the end. -/
theorem exists_trimEnd (piece : List Char) :
    (∃ returns, piece = trimEnd piece ++ List.replicate returns '\r') ∧
      (trimEnd piece).getLast? ≠ some '\r' := by
  have kept : trimEnd piece = piece.rdropWhile (· = '\r') := rfl
  constructor
  · have returns : piece.rtakeWhile (· = '\r') =
        List.replicate (piece.rtakeWhile (· = '\r')).length '\r' :=
      List.eq_replicate_of_mem fun c mem => by simpa using List.mem_rtakeWhile_imp mem
    exact ⟨_, by rw [← returns, kept, List.rdropWhile_append_rtakeWhile]⟩
  · intro last
    have nonempty : piece.rdropWhile (· = '\r') ≠ [] := by
      rintro empty
      simp [kept, empty] at last
    rw [kept, List.getLast?_eq_some_getLast nonempty] at last
    exact List.rdropWhile_last_not _ _ nonempty (by simp [Option.some.inj last])

end Lookup

/-- Looking up a line is splitting the text at its line feeds. The line with a number is the piece
with that number, less all carriage returns at its end. There is none just for zero and for
numbers larger than the number of pieces. The offsets between which a line is cut out are in
order, and both are boundaries between characters. -/
theorem line?_eq_piece (source : SourceText) (number : Nat) :
    (∀ piece, 0 < number → (source.chars.splitOn '\n')[number - 1]? = some piece →
      ∃ line returns, piece = line ++ List.replicate returns '\r' ∧ line.getLast? ≠ some '\r' ∧
        source.line? number = some (String.ofList line)) ∧
    (source.line? number = none ↔ number = 0 ∨ (source.chars.splitOn '\n').length < number) ∧
    ∀ start stop, source.extent? number = some (start, stop) →
      start ≤ stop ∧ (⟨start⟩ : String.Pos.Raw).IsValid (String.ofList source.chars) ∧
        (⟨stop⟩ : String.Pos.Raw).IsValid (String.ofList source.chars) := by
  refine ⟨fun piece counted found => ?_, ⟨fun none => ?_, fun missing => ?_⟩,
    fun start stop extent => ?_⟩
  · obtain ⟨⟨returns, split⟩, last⟩ := exists_trimEnd piece
    exact ⟨trimEnd piece, returns, split, last, line?_of_piece counted found⟩
  · rcases piece_cases source number with ⟨counted, piece, found⟩ | missing
    · exact absurd (none.symm.trans (line?_of_piece counted found)) (Option.some_ne_none _).symm
    · exact missing
  · simp [line?, extent?_eq_none missing]
  · rcases piece_cases source number with ⟨counted, piece, found⟩ | missing
    · obtain ⟨front, rear, split, around⟩ := extent?_of_piece counted found
      obtain ⟨rfl, rfl⟩ := Prod.mk.inj (Option.some.inj (extent.symm.trans around))
      refine ⟨?_, ?_, ?_⟩
      · rw [byteLength_append]
        exact Nat.le_add_right _ _
      · rw [split, List.append_assoc]
        exact isValid_byteLength front (piece ++ rear)
      · rw [split]
        exact isValid_byteLength (front ++ piece) rear
    · exact absurd (extent.symm.trans (extent?_eq_none missing)) (Option.some_ne_none _)

/-- Three lines: one with characters of several bytes and two carriage returns at its end, an
empty one, and one that ends with the text. -/
def threeLines : SourceText := .ofString "lines" "ä€𝄞\r\r\n\nb"

theorem line?_eq_piece_of_threeLines :
    threeLines.chars.splitOn '\n' = [['ä', '€', '𝄞', '\r', '\r'], [], ['b']] ∧
      threeLines.extent? 1 = some (0, 11) ∧
      (∃ line returns, ['ä', '€', '𝄞', '\r', '\r'] = line ++ List.replicate returns '\r' ∧
        line.getLast? ≠ some '\r' ∧ threeLines.line? 1 = some (String.ofList line)) ∧
      threeLines.line? 3 ≠ none ∧ threeLines.line? 4 = none ∧
      (⟨11⟩ : String.Pos.Raw).IsValid (String.ofList threeLines.chars) := by
  have split : threeLines.chars.splitOn '\n' = [['ä', '€', '𝄞', '\r', '\r'], [], ['b']] := by
    decide +kernel
  have extent : threeLines.extent? 1 = some (0, 11) := by decide +kernel
  obtain ⟨found, -, offsets⟩ := line?_eq_piece threeLines 1
  refine ⟨split, extent, found _ Nat.one_pos (by rw [split]; rfl), ?_, ?_,
    (offsets 0 11 extent).2.2⟩
  · rw [Ne, (line?_eq_piece threeLines 3).2.1, split]
    decide
  · rw [(line?_eq_piece threeLines 4).2.1, split]
    decide

end Wordstream.SourceText
