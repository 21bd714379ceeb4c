import CppMend.Proofs.Document.Sync

/-!
# Offsets and positions of a document

Whatever was done to a document, it finds the position of an offset and the offset of a position, and
the two undo each other wherever that can be: at the places between characters. That is so as long as
its offsets are numbers of 32 bits, since the numbers of a position are.

* `IndexedDocument.Step`       what may be done to a document;
* `IndexedDocument.Surveyed`   how its offsets and its positions go together;
* `IndexedDocument.surveyed_of_reached`   they do so after any number of steps;
* `IndexedDocument.not_always_surveyed`   but not in a text of more than 4 GiB.
-/

namespace CppMend

namespace IndexedDocument

/-! ## steps -/

/-- What may be done to a document: a new text, what an editor reports, or the edits of a fix. -/
inductive Step where
  | content (text : Text) (version : Int)
  | changes (changes : List TextChange) (version : Int)
  | fix (c : ChangeSet) (version : Int)
  deriving DecidableEq, Repr

/-- the document after a step, which for a fix may have failed -/
def step (d : IndexedDocument) : Step → IndexedDocument
  | .content text version => d.setContent text version
  | .changes changes version => d.applyChanges changes version
  | .fix c version =>
    match (update c version).run d with
    | .ok _ d | .error _ d => d

/-- A step keeps the starts those of the text. -/
theorem step_ofText (uri : Uri) (text : Text) (version : Int) (s : Step) :
    ∃ text' version', (ofText uri text version).step s = ofText uri text' version' := by
  cases s with
  | content text' version' => exact ⟨text', version', rfl⟩
  | changes changes version' => exact ⟨_, version', applyChanges_ofText uri text version changes version'⟩
  | fix c version' =>
    cases happly : c.apply text with
    | error cause =>
      rw [step, run_update_error happly version']
      exact ⟨text, version, rfl⟩
    | ok text' =>
      rw [step, run_update_ok happly version']
      exact ⟨text', version', rfl⟩

/-- Whatever was done to a document, its index is that of its text. -/
theorem foldl_step_ofText (uri : Uri) (text : Text) (version : Int) (steps : List Step) :
    ∃ text' version', steps.foldl step (ofText uri text version) = ofText uri text' version' := by
  induction steps generalizing text version with
  | nil => exact ⟨text, version, rfl⟩
  | cons s steps ih =>
    obtain ⟨text', version', hs⟩ := step_ofText uri text version s
    rw [List.foldl_cons, hs]
    exact ih text' version'

/-! ## offsets and positions -/

/-- The offsets of a document and its positions go together. -/
structure Surveyed (d : IndexedDocument) : Prop where
  /-- A place between characters has the line and the column of what is before it, and these give
  the place. -/
  places : ∀ offset, Text.isBoundary offset d.text = true →
    ∃ p, Text.Place d.text offset p ∧ d.positionOf? offset = some p ∧ d.offsetOf? p = some offset
  order : ∀ a b p q, Text.Place d.text a p → Text.Place d.text b q → (a ≤ b ↔ p ≤ q)
  /-- Any other offset stands for the last place that is not past it. -/
  offsets : ∀ offset, ∃ place,
    IsGreatest {b | b ≤ offset ∧ Text.isBoundary b d.text = true} place
      ∧ d.positionOf? offset = d.positionOf? place
  /-- Only positions past the last line have no offset. -/
  pastEnd : ∀ p, d.offsetOf? p = none ↔ (Text.lines d.text).length ≤ p.line
  /-- The places of a line are those behind its fronts, its line feed left out. -/
  line : ∀ n line, (Text.lines d.text)[n]? = some line → ∃ start, d.offsetOf? ⟨n, 0⟩ = some start
    ∧ ∀ offset column, Text.Place d.text offset ⟨n, column⟩ ↔ ∃ front, front <+: line
      ∧ offset = start + Text.byteSize front ∧ column = Text.units front
  /-- Any other position stands for the next place of its line, or for the last one. -/
  positions : ∀ p offset, d.offsetOf? p = some offset → Text.Nearest d.text p offset
  /-- A position comes back from its offset just if it is that of a place. -/
  returns : ∀ p line, (Text.lines d.text)[p.line]? = some line →
    ((d.offsetOf? p).bind d.positionOf? = some p ↔ ∃ front, front <+: line
      ∧ Text.units front = p.character)
  positionOf_mono : ∀ a b, a ≤ b →
    ∃ p q, d.positionOf? a = some p ∧ d.positionOf? b = some q ∧ p ≤ q
  offsetOf_mono : ∀ p q a b, p ≤ q → d.offsetOf? p = some a → d.offsetOf? q = some b → a ≤ b
  /-- A span between places comes back from its range. -/
  spans : ∀ s : Span, Text.isBoundary s.start d.text = true → Text.isBoundary s.stop d.text = true →
    (d.rangeOf? s).bind d.spanOf? = some s

theorem surveyed_ofText (uri : Uri) (text : Text) (version : Int)
    (h : Text.byteSize text < Word.count) : (ofText uri text version).Surveyed :=
  -- in such a text, positions are not cut off and no count starts again
  have hpositionOf (offset : Nat) : (ofText uri text version).positionOf? offset
      = some (Text.positionOf text offset) := by
    rw [positionOf?_ofText, Text.wordPositionOf_eq h]
  have hoffsetOf (p : Position) : (ofText uri text version).offsetOf? p = Text.offsetOf? text p := by
    rw [offsetOf?_ofText, Text.wordOffsetOf?_eq h]
  { places := fun offset hb => by
      have hp := Text.place_of_isBoundary hb
      exact ⟨_, hp, hpositionOf offset, (hoffsetOf _).trans hp.offsetOf?_eq⟩
    order := fun a b p q hp hq => hp.le_iff hq
    offsets := fun offset => by
      refine ⟨_, Text.floorBoundary_isGreatest offset text, ?_⟩
      rw [hpositionOf, hpositionOf, Text.positionOf_floorBoundary]
    pastEnd := fun p => by
      rw [hoffsetOf, Text.offsetOf?_eq_none_iff]
      rfl
    line := fun n line hl => by
      obtain ⟨rest, hd, hline⟩ :=
        Option.map_eq_some_iff.mp ((Text.lines_getElem? text n).symm.trans hl)
      subst hline
      refine ⟨_, ?_, Text.place_iff_front hd⟩
      rw [hoffsetOf, Text.offsetOf?, hd, Option.map_some, Text.takeUnits]
      rfl
    positions := fun p offset ho => by
      rw [hoffsetOf] at ho
      exact Text.nearest_of_offsetOf? ho
    returns := fun p line hl => by
      have hback : ((ofText uri text version).offsetOf? p).bind (ofText uri text version).positionOf?
          = (Text.offsetOf? text p).map (Text.positionOf text) := by
        rw [hoffsetOf, funext hpositionOf, Option.map_eq_bind]
        rfl
      rw [hback]
      exact Text.positionOf_offsetOf?_iff hl
    positionOf_mono := fun a b hab =>
      ⟨_, _, hpositionOf a, hpositionOf b, Text.positionOf_mono text hab⟩
    offsetOf_mono := fun p q a b hpq ha hb => by
      rw [hoffsetOf] at ha hb
      exact (Text.nearest_of_offsetOf? ha).mono (Text.nearest_of_offsetOf? hb) hpq
    spans := fun s hstart hstop => by
      have hfit : ChangeSet.misfit? text ⟨s, []⟩ = none := ChangeSet.misfit?_eq_none hstart hstop
      obtain ⟨a, b, c, rfl, ha, hb⟩ := ChangeSet.parts_of_fit hfit
      have hs : s = ⟨Text.byteSize a, Text.byteSize b⟩ := by rw [ha, hb]
      have hab : Text.byteSize (a ++ b) < Word.count := by
        rw [← List.append_assoc, Text.byteSize_append] at h
        omega
      rw [rangeOf?_ofText, Option.bind_some, spanOf?_ofText, hs, Text.spanOf?_rangeOf a b c hab] }

/-- After any number of steps, the offsets of a document and its positions go together, if 32 bits can
address its text. -/
theorem surveyed_of_reached (uri : Uri) (text : Text) (version : Int) (steps : List Step)
    (h : Text.byteSize (steps.foldl step (ofText uri text version)).text < Word.count) :
    (steps.foldl step (ofText uri text version)).Surveyed := by
  obtain ⟨text', version', hreached⟩ := foldl_step_ofText uri text version steps
  rw [hreached] at h ⊢
  exact surveyed_ofText uri text' version' h

/-- the line `b😀` between two others, which a change has put there -/
def widened : List Step := [.changes [⟨some ⟨⟨1, 1⟩, ⟨1, 1⟩⟩, ['😀', '\r']⟩] 2]

/-- The second unit of the last character, which has a carriage return behind it. -/
theorem surveyed_of_reached_widened :
    Text.byteSize (widened.foldl step (ofText default "a\nb\nc".toList 1)).text < Word.count
      ∧ Text.Nearest (widened.foldl step (ofText default "a\nb\nc".toList 1)).text ⟨1, 2⟩ 7 := by
  have h : Text.byteSize (widened.foldl step (ofText default "a\nb\nc".toList 1)).text
      < Word.count := by decide
  exact ⟨h, (surveyed_of_reached default _ 1 widened h).positions ⟨1, 2⟩ 7 (by decide)⟩

/-! ## what 32 bits cannot address -/

/-- A place in a text of one line of letters. -/
theorem place_replicate {n k : Nat} (h : k ≤ n) : Text.Place (List.replicate n 'a') k ⟨0, k⟩ := by
  obtain ⟨hsize, hunits, hfeeds⟩ := Text.replicate_sizes k
  have hsplit : List.replicate n 'a' = List.replicate k 'a' ++ List.replicate (n - k) 'a' := by
    rw [List.replicate_append_replicate, Nat.add_sub_cancel' h]
  refine ⟨_, _, hsplit, hsize, ?_⟩
  rw [Text.endOf, hfeeds, Text.lastLine_eq_self hfeeds, hunits]

/-- a line of 4 GiB and one more letter -/
def overlong : IndexedDocument :=
  ofText default (List.replicate (Word.count + 1) 'a') 1

/-- Behind 4 GiB in one line, columns start again at zero, and so the position there is the one of the
start of the line. And to a look-up a line ends at its line feed, so that a carriage return in front of
it can be behind the text of the line. -/
theorem not_always_surveyed :
    (Text.isBoundary Word.count overlong.text = true
        ∧ overlong.positionOf? Word.count = some ⟨0, 0⟩ ∧ overlong.offsetOf? ⟨0, 0⟩ = some 0)
      ∧ (ofText default "a\r\nb".toList 1).line? 0 = some ['a']
      ∧ (ofText default "a\r\nb".toList 1).offsetOf? ⟨0, 9⟩ = some 2 := by
  have hplace : Text.Place overlong.text Word.count ⟨0, Word.count⟩ :=
    place_replicate (Nat.le_succ _)
  have hstart : Text.Place overlong.text 0 ⟨0, 0⟩ :=
    place_replicate (Nat.zero_le _)
  refine ⟨⟨?_, ?_, ?_⟩, by decide⟩
  · obtain ⟨front, rest, hd, hsize, -⟩ := hplace
    exact Text.isBoundary_iff.mpr ⟨front, rest, hd, hsize⟩
  · have hposition : Text.wordPositionOf overlong.text Word.count = ⟨0, 0⟩ := by
      rw [Text.wordPositionOf, hplace.positionOf_eq]
      rfl
    exact (positionOf?_ofText ..).trans (congrArg some hposition)
  · exact (offsetOf?_ofText ..).trans (hstart.wordOffsetOf?_eq (by decide))

end IndexedDocument

end CppMend
