import CppMend.Document.Indexed
import CppMend.Proofs.Document.Edits
import CppMend.Proofs.Text.LineStarts

/-!
# Keeping up with an editor

An editor reports what it does to a text by lines and columns, each change in terms of the text that
the one before it left. A document that carries the changes out, one after the other, ends with the
text of the editor and with an index that is that of the text.

* `IndexedDocument.offsetOf?_ofText`, `positionOf?_ofText`, `line?_ofText`   with the starts of its
  own lines, a document answers by them as it does by its text;
* `IndexedDocument.applyChange_ofText`     a change keeps the starts those of the text;
* `Revision.applyChange_change`            a change that is reported is carried out;
* `IndexedDocument.applyChanges_synced`    so are any number of them.
-/

namespace CppMend

namespace IndexedDocument

variable (uri : Uri) (text : Text) (version : Int)

/-! ## look-ups by the starts -/

theorem fullLine?_ofText (n : Nat) : (ofText uri text version).fullLine? n
    = (Text.dropLines n text).map fun rest => (Text.byteSize text - Text.byteSize rest,
        rest.takeWhile (· ≠ '\n') ++ (rest.dropWhile (· ≠ '\n')).take 1) :=
  Text.lineEnds_slice? text n

theorem offsetOf?_ofText (p : Position) :
    (ofText uri text version).offsetOf? p = Text.wordOffsetOf? text p := by
  rw [offsetOf?, fullLine?_ofText, Text.wordOffsetOf?, Option.map_map]
  congr 1
  funext rest
  show _ + Text.byteSize (Text.countUnits p.character 0 (List.takeWhile (· ≠ '\n')
    (rest.takeWhile (· ≠ '\n') ++ (rest.dropWhile (· ≠ '\n')).take 1))) = _
  rw [Text.takeWhile_line]

theorem positionOf?_ofText (offset : Nat) :
    (ofText uri text version).positionOf? offset = some (Text.wordPositionOf text offset) := by
  obtain ⟨front, rest, htext, hfront⟩ := Text.floorBoundary_parts offset text
  have hpos : Text.positionOf text offset = ⟨Text.lineFeeds front, Text.units (Text.lastLine front)⟩ := by
    rw [Text.positionOf, Text.before, ← hfront, htext, Text.splitAt?_append]
  -- the place cuts the text behind the last line of what is before it
  obtain ⟨above, habove⟩ : ∃ above, front = above ++ Text.lastLine front := by
    have hd := Text.dropLines_lineFeeds front []
    rw [List.append_nil, List.append_nil] at hd
    exact Text.dropLines_suffix hd
  have hstart : Text.byteSize front - Text.byteSize (Text.lastLine front) = Text.byteSize above := by
    conv => lhs; lhs; rw [habove]
    rw [Text.byteSize_append, Nat.add_sub_cancel]
  have hslice : Text.slice? (Text.byteSize above) (Text.byteSize front) (front ++ rest)
      = some (Text.lastLine front) := by
    have h := Text.slice?_append above (Text.lastLine front) rest
    rw [← List.append_assoc, ← Text.byteSize_append, ← habove] at h
    exact h
  show ((Text.lineStarts text)[Text.lineOf (Text.lineStarts text)
      (Text.floorBoundary offset text)]?).bind (fun start =>
        (Text.slice? start (Text.floorBoundary offset text) text).map fun l =>
          Position.mk
            (Word.wrapped (Text.lineOf (Text.lineStarts text) (Text.floorBoundary offset text)))
            (Word.wrapped (Text.units l))) = _
  rw [Text.wordPositionOf, hpos, ← hfront, htext, Text.lineOf_lineStarts, Text.lineStarts_lineFeeds, hstart,
    Option.bind_some, hslice]
  rfl

theorem line?_ofText (n : Nat) :
    (ofText uri text version).line? n = Document.line? ⟨uri, text, version⟩ n := by
  rw [line?, fullLine?_ofText, Document.line?, Text.lines_getElem?, Option.map_map, Option.map_map]
  congr 1
  funext rest
  show Text.trimEnd '\r' (Text.trimEnd '\n'
    (rest.takeWhile (· ≠ '\n') ++ (rest.dropWhile (· ≠ '\n')).take 1)) = _
  rw [Text.trimEnd_line]
  rfl

theorem lineCount_ofText :
    (ofText uri text version).lineCount = Document.lineCount ⟨uri, text, version⟩ :=
  Text.length_lineStarts text

theorem stretchOf?_ofText (r : PositionRange) :
    (ofText uri text version).stretchOf? r = Text.stretchOf? text r := by
  rw [stretchOf?, offsetOf?_ofText, offsetOf?_ofText]
  rfl

theorem spanOf?_ofText (r : PositionRange) :
    (ofText uri text version).spanOf? r = Text.spanOf? text r := by
  rw [spanOf?, stretchOf?_ofText]
  rfl

theorem rangeOf?_ofText (s : Span) :
    (ofText uri text version).rangeOf? s = some (Text.rangeOf text s) := by
  rw [rangeOf?, positionOf?_ofText, positionOf?_ofText]
  rfl

/-! ## changes keep the starts -/

theorem applyChange_ofText (c : TextChange) : (ofText uri text version).applyChange c
    = ofText uri (Document.applyChange text c) version := by
  obtain ⟨range, new⟩ := c
  cases range with
  | none => rfl
  | some r =>
    simp only [applyChange, Document.applyChange, stretchOf?_ofText]
    cases Text.stretchOf? text r <;> rfl

theorem foldl_applyChange_ofText (changes : List TextChange) :
    changes.foldl applyChange (ofText uri text version)
      = ofText uri (changes.foldl Document.applyChange text) version := by
  induction changes generalizing text with
  | nil => rfl
  | cons c changes ih => rw [List.foldl_cons, List.foldl_cons, applyChange_ofText, ih]

theorem applyChanges_ofText (changes : List TextChange) (next : Int) :
    (ofText uri text version).applyChanges changes next
      = ofText uri (changes.foldl Document.applyChange text) next := by
  rw [applyChanges, foldl_applyChange_ofText]
  rfl

section
variable {d : IndexedDocument} {c : ChangeSet}

/-- A change set that fits gives the document its text, with the starts of that text. -/
theorem run_update_ok {text : Text} (h : c.apply d.text = .ok text) (next : Int) :
    (update c next).run d = .ok () (ofText d.uri text next) := by
  simp [update, h, setContent, ofText]

/-- One that does not fit leaves the document. -/
theorem run_update_error {cause : EditError} (h : c.apply d.text = .error cause) (next : Int) :
    (update c next).run d = .error cause d := by
  simp [update, h]

end

end IndexedDocument

/-! ## what an editor does -/

/-- What an editor does to a text: it puts a text in the place of a stretch, or of everything. The
ends of the stretch may be reported in either order. -/
inductive Revision where
  | part (start stop : Nat) (text : Text) (backwards : Bool)
  | whole (text : Text)
  deriving DecidableEq, Repr

namespace Revision

/-- the text after a revision: what is before the stretch, the new text, what is behind the stretch -/
def revise (cs : Text) : Revision → Text
  | part start stop text _ => (Text.cut start cs).1 ++ text ++ (Text.cut stop cs).2
  | whole text => text

/-- The stretch has both its ends between characters, and its offsets are numbers of 32 bits as those
of every stretch that is reported. -/
def Fits (cs : Text) : Revision → Prop
  | part start stop _ _ =>
    start ≤ stop ∧ stop < Word.count
      ∧ Text.isBoundary start cs = true ∧ Text.isBoundary stop cs = true
  | whole _ => True

/-- each revision fits the text that the one before it left -/
def AllFit : Text → List Revision → Prop
  | _, [] => True
  | cs, r :: rs => r.Fits cs ∧ AllFit (r.revise cs) rs

def final (cs : Text) (rs : List Revision) : Text := rs.foldl revise cs

/-- the change that an editor reports to a document -/
def change? (d : IndexedDocument) : Revision → Option TextChange
  | part start stop text backwards =>
    (d.rangeOf? (Span.between start stop)).map fun r =>
      ⟨some (if backwards then ⟨r.stop, r.start⟩ else r), text⟩
  | whole text => some ⟨none, text⟩

/-- the changes that an editor reports, each in terms of the text at that moment -/
def changes? (uri : Uri) (version : Int) : Text → List Revision → Option (List TextChange)
  | _, [] => some []
  | cs, r :: rs =>
    (r.change? (IndexedDocument.ofText uri cs version)).bind fun c =>
      (changes? uri version (r.revise cs) rs).map (c :: ·)

variable {cs : Text} {r : Revision}

/-- A stretch that fits cuts the text into three parts, and its revision exchanges the middle one. -/
theorem parts_of_fits {start stop : Nat} {new : Text} {backwards : Bool}
    (h : (part start stop new backwards).Fits cs) :
    ∃ a b c, cs = a ++ (b ++ c) ∧ Text.byteSize a = start ∧ Text.byteSize (a ++ b) = stop
      ∧ (part start stop new backwards).revise cs = a ++ (new ++ c) := by
  obtain ⟨hle, -, hstart, hstop⟩ := h
  -- such a stretch is that of an edit
  have hb : (Span.between start stop).stop = stop := Nat.add_sub_of_le hle
  have hfit : ChangeSet.misfit? cs ⟨Span.between start stop, new⟩ = none :=
    ChangeSet.misfit?_eq_none hstart (by rw [hb, hstop])
  obtain ⟨a, b, c, hcs, ha, hb⟩ := ChangeSet.parts_of_fit hfit
  have ha : Text.byteSize a = start := ha
  have hb : Text.byteSize b = stop - start := hb
  have hab : Text.byteSize (a ++ b) = stop := by
    rw [Text.byteSize_append, ha, hb]
    omega
  refine ⟨a, b, c, hcs, ha, hab, ?_⟩
  have hcut : Text.cut stop cs = (a ++ b, c) := by
    rw [hcs, ← List.append_assoc, ← hab, Text.cut_append]
  rw [revise, hcut, hcs, ← ha, Text.cut_append, List.append_assoc]

/-- the stretch between two positions does not depend on their order -/
theorem stretchOf?_swap (cs : Text) (r : PositionRange) :
    Text.stretchOf? cs ⟨r.stop, r.start⟩ = Text.stretchOf? cs r := by
  rw [Text.stretchOf?, Text.stretchOf?]
  cases Text.wordOffsetOf? cs r.start with
  | none => cases Text.wordOffsetOf? cs r.stop <;> rfl
  | some a =>
    cases Text.wordOffsetOf? cs r.stop with
    | none => rfl
    | some b =>
      show some (Span.between (min b a) (max b a)) = some (Span.between (min a b) (max a b))
      rw [Nat.min_comm, Nat.max_comm]

/-- A revision that fits can be reported, and what is reported is carried out. -/
theorem applyChange_change (uri : Uri) (version : Int) (h : r.Fits cs) :
    ∃ c, r.change? (IndexedDocument.ofText uri cs version) = some c
      ∧ Document.applyChange cs c = r.revise cs := by
  cases r with
  | whole new => exact ⟨⟨none, new⟩, rfl, rfl⟩
  | part start stop new backwards =>
    obtain ⟨a, b, c, hcs, ha, hab, hrev⟩ := parts_of_fits h
    have hspan : Span.between start stop = ⟨Text.byteSize a, Text.byteSize b⟩ := by
      rw [Text.byteSize_append] at hab
      rw [Span.between, ← ha, ← hab, Nat.add_sub_cancel_left]
    have hplain : Document.applyChange cs ⟨some (Text.rangeOf cs (Span.between start stop)), new⟩
        = a ++ (new ++ c) := by
      rw [hspan, hcs]
      exact Document.applyChange_rangeOf a b c c new (by rw [hab]; exact h.2.1)
    have hchange : (part start stop new backwards).change? (IndexedDocument.ofText uri cs version)
        = some ⟨some (if backwards then
            ⟨Text.wordPositionOf cs (Span.between start stop).stop, Text.wordPositionOf cs start⟩
          else Text.rangeOf cs (Span.between start stop)), new⟩ := by
      rw [change?, IndexedDocument.rangeOf?_ofText]
      rfl
    refine ⟨_, hchange, ?_⟩
    rw [hrev, ← hplain]
    cases backwards with
    | false => rfl
    | true =>
      have hswap := stretchOf?_swap cs (Text.rangeOf cs (Span.between start stop))
      simp only [Document.applyChange, if_true]
      rw [← hswap]
      rfl

/-- By induction on the revisions, of which the first one leaves the text of the others. -/
theorem foldl_changes (uri : Uri) (version : Int) {rs : List Revision} (h : AllFit cs rs) :
    ∃ changes, changes? uri version cs rs = some changes
      ∧ changes.foldl Document.applyChange cs = final cs rs := by
  induction rs generalizing cs with
  | nil => exact ⟨[], rfl, rfl⟩
  | cons r rs ih =>
    obtain ⟨c, hc, happ⟩ := applyChange_change uri version h.1
    obtain ⟨changes, hcs, hfold⟩ := ih h.2
    refine ⟨c :: changes, ?_, ?_⟩
    · rw [changes?, hc, Option.bind_some, hcs]
      rfl
    · rw [List.foldl_cons, happ, hfold]
      rfl

end Revision

/-- A document keeps up with an editor. Any number of revisions, each of which fits the text that the
one before it left, can be reported by lines and columns; carried out in one call, what is reported
leaves the revised text, the version that was given, and the index of that text, as in a document
that was just made of it. It answers by its index as any document does by its text. -/
theorem IndexedDocument.applyChanges_synced (uri : Uri) (text : Text) (version next : Int)
    (rs : List Revision) (h : Revision.AllFit text rs) :
    ∃ changes, Revision.changes? uri version text rs = some changes
      ∧ (ofText uri text version).applyChanges changes next
        = ofText uri (Revision.final text rs) next
      ∧ (⟨uri, text, version⟩ : Document).applyChanges changes next
        = ⟨uri, Revision.final text rs, next⟩
      ∧ ∀ d : IndexedDocument, d = (ofText uri text version).applyChanges changes next →
          (∀ line, d.line? line = d.document.line? line)
          ∧ (∀ p, d.offsetOf? p = d.document.offsetOf? p)
          ∧ (∀ offset, d.positionOf? offset = some (d.document.positionOf offset))
          ∧ d.lineCount = d.document.lineCount := by
  obtain ⟨changes, hc, hfold⟩ := Revision.foldl_changes uri version h
  have hsync : (ofText uri text version).applyChanges changes next
      = ofText uri (Revision.final text rs) next := by
    rw [applyChanges_ofText, hfold]
  refine ⟨changes, hc, hsync, ?_, ?_⟩
  · rw [Document.applyChanges, hfold]
    rfl
  · rintro d rfl
    rw [hsync]
    exact ⟨line?_ofText _ _ _, offsetOf?_ofText _ _ _, positionOf?_ofText _ _ _,
      lineCount_ofText _ _ _⟩

/-- a stretch with a character of two units, reported from its end, then one that spans lines, then
everything, then an insertion -/
theorem IndexedDocument.applyChanges_synced_greeting :
    Revision.AllFit "hi 😀\nyou".toList
        [.part 3 7 "there\n".toList true, .part 8 10 [] false, .whole "bye".toList,
          .part 3 3 ['!'] false]
      ∧ ∃ changes, (ofText default "hi 😀\nyou".toList 1).applyChanges changes 2
        = ofText default "bye!".toList 2 := by
  have h : Revision.AllFit "hi 😀\nyou".toList
      [.part 3 7 "there\n".toList true, .part 8 10 [] false, .whole "bye".toList,
        .part 3 3 ['!'] false] := by
    refine ⟨⟨?_, ?_, ?_, ?_⟩, ⟨?_, ?_, ?_, ?_⟩, trivial, ⟨?_, ?_, ?_, ?_⟩, trivial⟩ <;> decide
  obtain ⟨changes, -, hsync, -⟩ := applyChanges_synced default "hi 😀\nyou".toList 1 2 _ h
  refine ⟨h, changes, hsync.trans ?_⟩
  decide

end CppMend
