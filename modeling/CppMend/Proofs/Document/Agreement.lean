import CppMend.Proofs.Document.Places
import CppMend.Proofs.Edit.Arrangement

/-!
# One fix in two forms

An editor is told the edits of a fix by lines and columns and carries them out itself; the fix is also
carried out at once, by offsets. In whichever way a document came to its text, both leave the same text
in it, or both are refused and leave it as it was.

* `ChangeSet.Worded`                the offsets of a change set are numbers of 32 bits;
* `IndexedDocument.afterEdits`      a document after edits by lines and columns, one at a time;
* `IndexedDocument.textEdits_agree` the edits of a change set mean the same in both forms.
-/

namespace CppMend

/-- The offsets of the edits are numbers of 32 bits, as those of every span that is handed out. -/
def ChangeSet.Worded (c : ChangeSet) : Prop := ∀ e ∈ c.edits, e.span.stop < Word.count

instance (c : ChangeSet) : Decidable c.Worded :=
  inferInstanceAs (Decidable (∀ e ∈ c.edits, e.span.stop < Word.count))

namespace IndexedDocument

/-- The document after edits are carried out one at a time, from the last to the first, each as one
change that an editor reports. -/
def afterEdits (d : IndexedDocument) (edits : List TextEdit) (versions : TextEdit → Int) :
    IndexedDocument :=
  edits.reverse.foldl (fun d e => d.applyChanges [e.change] (versions e)) d

/-- The edits leave the text that they give as changes of a text, with its own starts. -/
theorem afterEdits_ofText (uri : Uri) (text : Text) (version : Int) (edits : List TextEdit)
    (versions : TextEdit → Int) : ∃ version',
    (ofText uri text version).afterEdits edits versions
      = ofText uri (edits.foldr (fun e t => Document.applyChange t e.change) text) version' := by
  rw [afterEdits, List.foldl_reverse]
  induction edits with
  | nil => exact ⟨version, rfl⟩
  | cons e es ih =>
    obtain ⟨version', hes⟩ := ih
    refine ⟨versions e, ?_⟩
    rw [List.foldr_cons, List.foldr_cons, hes, applyChanges_ofText]
    rfl

/-- The edits of a fix are found by the starts as they are found by the text. -/
theorem textEdits_ofText (uri : Uri) (text : Text) (version : Int) (c : ChangeSet) :
    (ofText uri text version).textEdits c
      = (Document.textEdits ⟨uri, text, version⟩ c).map some := by
  have hedit (e : Edit) : ((ofText uri text version).rangeOf? e.span).map (TextEdit.mk · e.text)
      = some ⟨Text.rangeOf text e.span, e.text⟩ := by
    rw [rangeOf?_ofText]
    rfl
  rw [textEdits, Document.textEdits, funext hedit]
  show (c.sorted text).map _ = ((c.sorted text).map _).map some
  cases c.sorted text with
  | error cause => rfl
  | ok es => exact congrArg Except.ok (List.mapM_pure)

section

variable (uri : Uri) (text : Text) (version : Int) (next : Int) {c : ChangeSet}

theorem refused_ofText {cause : EditError} (hs : c.sorted text = .error cause) :
    (ofText uri text version).textEdits c = .error cause ∧ c.apply text = .error cause
      ∧ (update c next).run (ofText uri text version) = .error cause (ofText uri text version) := by
  have happly : c.apply text = .error cause := by
    rw [ChangeSet.apply, hs]
    rfl
  refine ⟨?_, happly, run_update_error happly next⟩
  show (c.sorted text).map _ = _
  rw [hs]
  rfl

theorem carriedOut_ofText {order : List Edit} (versions : TextEdit → Int) (h : c.Worded)
    (hs : c.sorted text = .ok order) :
    ∃ edits text', (ofText uri text version).textEdits c = .ok (some edits)
      ∧ c.apply text = .ok text'
      ∧ (update c next).run (ofText uri text version) = .ok () (ofText uri text' next)
      ∧ ∃ version', (ofText uri text version).afterEdits edits versions = ofText uri text' version' := by
  obtain ⟨hfit, hov, horder⟩ := ChangeSet.sorted_eq_ok_iff.mp hs
  have hwords : ∀ e ∈ order, e.span.stop < Word.count := fun e he => by
    rw [horder, List.mem_mergeSort] at he
    exact h e he
  have hedits : (ofText uri text version).textEdits c
      = .ok (some (order.map fun e => ⟨Text.rangeOf text e.span, e.text⟩)) := by
    rw [textEdits_ofText, Document.textEdits]
    show ((c.sorted text).map _).map some = _
    rw [hs]
    rfl
  have happly : c.apply text = .ok (ChangeSet.weave 0 text order) := by
    rw [ChangeSet.apply, hs]
    rfl
  have hupdate : (update c next).run (ofText uri text version)
      = .ok () (ofText uri (ChangeSet.weave 0 text order) next) := run_update_ok happly next
  have hfold : order.foldr
      (fun e t => Document.applyChange t ⟨some (Text.rangeOf text e.span), e.text⟩) text
      = ChangeSet.weave 0 text order :=
    Document.foldr_applyChange hfit hov hwords (List.nil_append _).symm fun _ _ => Nat.zero_le _
  obtain ⟨last, hafter⟩ := afterEdits_ofText uri text version
    (order.map fun e => ⟨Text.rangeOf text e.span, e.text⟩) versions
  rw [List.foldr_map] at hafter
  exact ⟨_, _, hedits, happly, hupdate, last, hafter.trans (congrArg (ofText uri · last) hfold)⟩

end

/-- The edits of a change set mean the same by lines and columns as by offsets, in a document after any
number of steps. Where the change set fits the text, its edits carried out from the last to the first,
each as one reported change, leave the text that it gives at once, and that the document gets; either
way the document has the index of that text. Where it does not fit, all of them report the same cause,
and the document stays as it was. -/
theorem textEdits_agree (uri : Uri) (text : Text) (version : Int) (steps : List Step)
    (c : ChangeSet) (next : Int) (versions : TextEdit → Int) (h : c.Worded) :
    ∀ d, d = steps.foldl step (ofText uri text version) →
      (∀ order, c.sorted d.text = .ok order →
        ∃ edits text', d.textEdits c = .ok (some edits) ∧ c.apply d.text = .ok text'
          ∧ (update c next).run d = .ok () (ofText d.uri text' next)
          ∧ ∃ version', d.afterEdits edits versions = ofText d.uri text' version')
      ∧ ∀ cause, c.sorted d.text = .error cause →
        d.textEdits c = .error cause ∧ c.apply d.text = .error cause
          ∧ (update c next).run d = .error cause d := by
  rintro d rfl
  obtain ⟨text', version', hreached⟩ := foldl_step_ofText uri text version steps
  rw [hreached]
  exact ⟨fun _ hs => carriedOut_ofText uri text' version' next versions h hs,
    fun _ hs => refused_ofText uri text' version' next hs⟩

/-- the character of two units replaced, and another line put in before it -/
def respaced : ChangeSet := ⟨[⟨⟨3, 4⟩, ['-']⟩, ⟨⟨1, 0⟩, ['\n', '\n']⟩]⟩

/-- Two edits of a text that an editor has changed before, of which the first one moves the line that the
second one names. -/
theorem textEdits_agree_respaced : respaced.Worded ∧ ∃ edits version',
    (widened.foldl step (ofText default "a\nb\nc".toList 1)).textEdits respaced = .ok (some edits)
      ∧ (widened.foldl step (ofText default "a\nb\nc".toList 1)).afterEdits edits (fun _ => 3)
        = ofText default "a\n\n\nb-\r\nc".toList version' := by
  have h : respaced.Worded := by decide
  have hd : widened.foldl step (ofText default "a\nb\nc".toList 1)
      = ofText default "a\nb😀\r\nc".toList 2 := by decide
  have hf : respaced.Fits "a\nb😀\r\nc".toList := by constructor <;> decide
  have ha : ChangeSet.Arranged respaced.edits [⟨⟨1, 0⟩, ['\n', '\n']⟩, ⟨⟨3, 4⟩, ['-']⟩] :=
    ⟨.swap _ _ _, by decide, ChangeSet.filter_insertions_eq (.swap _ _ _) (by decide)⟩
  have happly : respaced.apply "a\nb😀\r\nc".toList = .ok "a\n\n\nb-\r\nc".toList :=
    ChangeSet.apply_of_arranged hf ha
  obtain ⟨edits, text', hedits, htext, -, version', hafter⟩ :=
    (textEdits_agree default "a\nb\nc".toList 1 widened respaced 3 (fun _ => 3) h _ hd.symm).1 _
      (ChangeSet.sorted_ok_iff.mpr ⟨hf, ha⟩)
  have htext : "a\n\n\nb-\r\nc".toList = text' := Except.ok.inj (happly.symm.trans htext)
  rw [hd, htext]
  exact ⟨h, edits, version', hedits, hafter⟩

end IndexedDocument

end CppMend
