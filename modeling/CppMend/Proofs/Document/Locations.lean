import CppMend.Location
import CppMend.Proofs.Document.Places

/-!
# Locations and positions

People are shown locations, which count lines and columns from one, and editors use positions, which
count them from zero. Each is found in its own way: a location by what is before an offset, or by the
lines before a line, and a position by the starts of the lines. They are the same places.

* `Text.lines_before`                what is before a line;
* `Location.ofOffset?_eq_some_iff`   the location of an offset is that of a place;
* `Location.ofLineColumn?_spec`      the location of a line and a column is that of a place as well;
* `Location.Agrees`                  how the locations of a text go with the positions of a document;
* `Location.agrees`                  they do so for every text that 32 bits can address;
* `Location.not_always_agrees`       but not for every text of more than 4 GiB.
-/

namespace CppMend

/-- Before what is left of a text from a line on, there are the lines before it and their line
feeds. -/
theorem Text.lines_before {n : Nat} {cs rest : Text} (h : dropLines n cs = some rest) :
    cs = ((lines cs).take n).flatMap (· ++ ['\n']) ++ rest := by
  induction cs generalizing n with
  | nil =>
    cases n with
    | zero => exact Option.some.inj h
    | succ n => cases h
  | cons c cs ih =>
    cases n with
    | zero =>
      rw [dropLines] at h
      exact Option.some.inj h
    | succ n =>
      rw [dropLines] at h
      rw [lines]
      by_cases hc : c = '\n'
      · rw [if_pos hc] at h ⊢
        show c :: cs = '\n' :: (((lines cs).take n).flatMap (· ++ ['\n']) ++ rest)
        rw [← ih h, hc]
      · rw [if_neg hc] at h ⊢
        have hcs := ih h
        cases hl : lines cs with
        | nil =>
          -- no text is without a line
          have hfirst := lines_getElem? cs 0
          rw [hl] at hfirst
          cases cs <;> cases hfirst
        | cons l ls =>
          rw [hl] at hcs
          show c :: cs = c :: ((l :: ls).take (n + 1)).flatMap (· ++ ['\n']) ++ rest
          rw [List.cons_append, ← hcs]

namespace Location

variable {file : String} {source : Text} {offset line column : Nat} {l : Location}

/-- the location of a place -/
def ofPlace (file : String) (offset : Nat) (p : Position) : Location :=
  ⟨file, p.line + 1, p.character + 1, offset⟩

/-- A place has no more lines and columns before it than bytes, so that there is a number behind each. -/
theorem place_lt (h : Text.byteSize source + 1 < Word.count) {p : Position}
    (hp : Text.Place source offset p) :
    offset < Word.count ∧ p.line + 1 < Word.count ∧ p.character + 1 < Word.count := by
  obtain ⟨front, rest, rfl, rfl, rfl⟩ := hp
  have hfeeds := Text.lineFeeds_le_byteSize front
  have hunits := Text.units_le_byteSize (Text.lastLine front)
  have hlast := Text.byteSize_lastLine_le front
  rw [Text.byteSize_append] at h
  refine ⟨by omega, ?_, ?_⟩
  · show Text.lineFeeds front + 1 < Word.count
    omega
  · show Text.units (Text.lastLine front) + 1 < Word.count
    omega

/-- Of a text that 32 bits can address, the location of an offset is that of the place there. -/
theorem ofOffset?_eq_some_iff (h : Text.byteSize source + 1 < Word.count) :
    ofOffset? file source offset = some l ↔
      ∃ p, Text.Place source offset p ∧ l = ofPlace file offset p := by
  have hfront {front rest : Text} (hsource : source = front ++ rest)
      (hsize : Text.byteSize front = offset) :
      Location.mk file (Word.wrapped (Text.lineFeeds front + 1))
        (Word.wrapped (Text.units (Text.lastLine front) + 1)) offset
        = ofPlace file offset (Text.endOf front) := by
    obtain ⟨-, hline, hcolumn⟩ := place_lt h ⟨front, rest, hsource, hsize, rfl⟩
    show Location.mk file (Word.wrapped ((Text.endOf front).line + 1))
      (Word.wrapped ((Text.endOf front).character + 1)) offset = _
    rw [Word.wrapped_eq hline, Word.wrapped_eq hcolumn, ofPlace]
  rw [ofOffset?, Option.map_eq_some_iff]
  constructor
  · rintro ⟨⟨front, rest⟩, hsplit, rfl⟩
    obtain ⟨hsource, hsize⟩ := Text.splitAt?_eq_some_iff.mp hsplit
    exact ⟨Text.endOf front, ⟨front, rest, hsource, hsize, rfl⟩, hfront hsource hsize⟩
  · rintro ⟨p, ⟨front, rest, hsource, hsize, rfl⟩, rfl⟩
    exact ⟨(front, rest), Text.splitAt?_eq_some_iff.mpr ⟨hsource, hsize⟩, hfront hsource hsize⟩

/-- The location of a line and a column, by what is left of the text from the line on. -/
theorem ofLineColumn?_eq {n : Nat} {rest : Text} (hd : Text.dropLines n source = some rest) (k : Nat) :
    ofLineColumn? file source (n + 1) (k + 1) = some
      ⟨file, n + 1, Word.wrapped (Text.units (Text.countUnits (k + 1) 1 (rest.takeWhile (· ≠ '\n'))) + 1),
        Word.wrapped (Text.byteSize source - Text.byteSize rest
          + Text.byteSize (Text.countUnits (k + 1) 1 (rest.takeWhile (· ≠ '\n'))))⟩ := by
  have hstart : Text.byteSize (((Text.lines source).take n).flatMap (· ++ ['\n']))
      = Text.byteSize source - Text.byteSize rest := by
    conv => rhs; lhs; rw [Text.lines_before hd]
    rw [Text.byteSize_append, Nat.add_sub_cancel]
  rw [ofLineColumn?, if_neg (by omega), ← hstart]
  show ((Text.lines source)[n]?).map _ = _
  rw [Text.lines_getElem?, hd]
  rfl

/-- Of a text that 32 bits can address, the location of a line and a column is that of a place of the
line, at the offset of the position that they are. -/
theorem ofLineColumn?_spec (h : Text.byteSize source + 1 < Word.count) (n k : Nat) :
    ofLineColumn? file source (n + 1) (k + 1) = (Text.offsetOf? source ⟨n, k⟩).bind
      (ofOffset? file source) := by
  rw [Text.offsetOf?]
  cases hd : Text.dropLines n source with
  | none =>
    rw [ofLineColumn?, if_neg (by omega)]
    show ((Text.lines source)[n]?).map _ = none
    rw [Text.lines_getElem?, hd]
    rfl
  | some rest =>
    obtain ⟨above, habove⟩ := Text.dropLines_suffix hd
    have hsize : Text.byteSize source = Text.byteSize above + Text.byteSize rest := by
      rw [habove, Text.byteSize_append]
    have hline := Text.byteSize_le_of_front (List.takeWhile_prefix (l := rest) (· ≠ '\n'))
    have hunits := Text.units_le_byteSize (rest.takeWhile (· ≠ '\n'))
    have hcount : Text.countUnits (k + 1) 1 (rest.takeWhile (· ≠ '\n'))
        = Text.takeUnits k (rest.takeWhile (· ≠ '\n')) := Text.countUnits_eq (by omega)
    have htaken := Text.takeUnits_front k (rest.takeWhile (· ≠ '\n'))
    have htakenSize := Text.byteSize_le_of_front htaken
    have htakenUnits := Text.units_le_byteSize (Text.takeUnits k (rest.takeWhile (· ≠ '\n')))
    have hplace := (Text.place_iff_front hd _ _).mpr ⟨_, htaken, rfl, rfl⟩
    rw [ofLineColumn?_eq hd, hcount, Word.wrapped_eq (by omega), Word.wrapped_eq (by omega)]
    exact ((ofOffset?_eq_some_iff h).mpr ⟨_, hplace, rfl⟩).symm

/-- The locations of a text go together with the positions of a document. -/
structure Agrees (file : String) (source : Text) (d : IndexedDocument) : Prop where
  /-- An offset has a location just if it cuts the text between characters. -/
  located : ∀ offset, (ofOffset? file source offset).isSome = true ↔
    ∃ front rest, source = front ++ rest ∧ Text.byteSize front = offset
  /-- The location is at its offset. Counted from zero, it is the position of the offset. -/
  position : ∀ offset l, ofOffset? file source offset = some l →
    l.file = file ∧ l.offset = offset ∧ 1 ≤ l.line ∧ 1 ≤ l.column
      ∧ d.positionOf? offset = some l.position
  /-- A line and a column have a location just if the position that they are has an offset, and it is
  at this offset. -/
  offset : ∀ line column, 1 ≤ line → 1 ≤ column →
    (ofLineColumn? file source line column).map Location.offset = d.offsetOf? ⟨line - 1, column - 1⟩
  /-- Whatever column was asked for, the location is that of its offset. -/
  same : ∀ line column l, ofLineColumn? file source line column = some l →
    ofOffset? file source l.offset = some l
  /-- A location comes back from its line and column. -/
  back : ∀ offset l, ofOffset? file source offset = some l →
    ofLineColumn? file source l.line l.column = some l

/-- Locations and positions say the same of every text that 32 bits can address, with a number left for
the column behind it. -/
theorem agrees (file : String) (source : Text) (uri : Uri) (version : Int)
    (h : Text.byteSize source + 1 < Word.count) :
    Agrees file source (IndexedDocument.ofText uri source version) where
  located offset := by
    rw [ofOffset?, Option.isSome_map]
    exact Text.isBoundary_iff
  position offset l hl := by
    obtain ⟨p, hp, rfl⟩ := (ofOffset?_eq_some_iff h).mp hl
    obtain ⟨hoffset, hline, hcolumn⟩ := place_lt h hp
    have hposition : (ofPlace file offset p).position = p := by
      show Position.mk (Word.before (p.line + 1)) (Word.before (p.character + 1)) = p
      rw [Word.before_succ (by omega), Word.before_succ (by omega)]
    refine ⟨rfl, rfl, Nat.succ_pos _, Nat.succ_pos _, ?_⟩
    rw [IndexedDocument.positionOf?_ofText, hp.wordPositionOf_eq hoffset, hposition]
  offset line column hline hcolumn := by
    obtain ⟨n, rfl⟩ := Nat.exists_eq_add_of_le' hline
    obtain ⟨k, rfl⟩ := Nat.exists_eq_add_of_le' hcolumn
    rw [ofLineColumn?_spec h, IndexedDocument.offsetOf?_ofText, Text.wordOffsetOf?_eq (by omega),
      Nat.add_sub_cancel, Nat.add_sub_cancel]
    cases ho : Text.offsetOf? source ⟨n, k⟩ with
    | none => rfl
    | some o =>
      obtain ⟨column, hplace⟩ := (Text.nearest_of_offsetOf? ho).place
      rw [Option.bind_some, (ofOffset?_eq_some_iff h).mpr ⟨_, hplace, rfl⟩]
      rfl
  same line column l hl := by
    cases line with
    | zero => cases hl
    | succ n =>
      cases column with
      | zero =>
        rw [ofLineColumn?, if_pos (.inr rfl)] at hl
        cases hl
      | succ k =>
        rw [ofLineColumn?_spec h] at hl
        obtain ⟨o, -, ho⟩ := Option.bind_eq_some_iff.mp hl
        obtain ⟨p, -, rfl⟩ := (ofOffset?_eq_some_iff h).mp ho
        exact ho
  back offset l hl := by
    obtain ⟨p, hp, rfl⟩ := (ofOffset?_eq_some_iff h).mp hl
    show ofLineColumn? file source (p.line + 1) (p.character + 1) = _
    rw [ofLineColumn?_spec h, hp.offsetOf?_eq, Option.bind_some, hl]

/-- The second unit of the last character of a line: the location asked for is the one behind it. -/
theorem agrees_unit :
    Text.byteSize "a\nb😀\r\nc".toList + 1 < Word.count
      ∧ ofLineColumn? "f" "a\nb😀\r\nc".toList 2 3 = some ⟨"f", 2, 4, 7⟩
      ∧ ofOffset? "f" "a\nb😀\r\nc".toList 7 = some ⟨"f", 2, 4, 7⟩ := by
  have h : Text.byteSize "a\nb😀\r\nc".toList + 1 < Word.count := by decide
  have hl : ofLineColumn? "f" "a\nb😀\r\nc".toList 2 3 = some ⟨"f", 2, 4, 7⟩ := by decide
  exact ⟨h, hl, (agrees "f" _ default 1 h).same 2 3 _ hl⟩

/-- a second line behind a line of 4 GiB -/
def farText : Text := List.replicate Word.count 'a' ++ ['\n', 'b']

/-- The offset of a location starts again at zero behind 4 GiB, and that of a position does not. -/
theorem not_always_agrees :
    (ofLineColumn? "f" farText 2 1).map Location.offset = some 1
      ∧ (IndexedDocument.ofText default farText 1).offsetOf? ⟨1, 0⟩ = some (Word.count + 1) := by
  obtain ⟨hbytes, -, hfeeds⟩ := Text.replicate_sizes Word.count
  have hsize : Text.byteSize farText = Word.count + 2 := by
    rw [farText, Text.byteSize_append, hbytes]
    rfl
  have hd : Text.dropLines 1 farText = some ['b'] := by
    have hsplit : farText = (List.replicate Word.count 'a' ++ ['\n']) ++ ['b'] := by
      rw [List.append_assoc]
      rfl
    have hone : Text.lineFeeds (List.replicate Word.count 'a' ++ ['\n']) = 1 := by
      rw [Text.lineFeeds_append, hfeeds]
      rfl
    have hlast : Text.lastLine (List.replicate Word.count 'a' ++ ['\n']) = [] := by
      rw [Text.lastLine, List.reverse_append]
      rfl
    have hdrop := Text.dropLines_lineFeeds (List.replicate Word.count 'a' ++ ['\n']) ['b']
    rw [hone, hlast, ← hsplit] at hdrop
    exact hdrop
  constructor
  · rw [ofLineColumn?_eq hd, hsize]
    rfl
  · rw [IndexedDocument.offsetOf?_ofText, Text.wordOffsetOf?, hd, hsize]
    rfl

end Location

end CppMend
