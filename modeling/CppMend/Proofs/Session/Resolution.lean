import CppMend.Proofs.Edit.Weaving
import CppMend.Proofs.Session.Eager
import CppMend.Proofs.Session.Offers
import CppMend.Proofs.Uri.Files

/-!
# Resolution

An action that a lazy session sends names its fix. The edit that it gets later is the one that an
eager session would have sent at once, or the action comes back as it was sent.

* `FixName.ofValue?_toValue`    a name is read back from an action;
* `offered?_eq_some_iff`        which names lead to a fix;
* `resolved_unnamed`            an action that does not name the last answer stays as it is;
* `LastAnswer.resolved`         one that does gets the edit of the eager answer;
* `Coherent.resolved_at_once`   all actions of an answer, resolved right after it;
* `resolved_as_eager`           the three of them, after any calls;
* `not_always_resolved_as_eager`   what becomes of a URI that is not read back from its text.
-/

namespace CppMend

/-! ## names -/

/-- A name is read back from its value, if its URI is read back from its text and its numbers have
64 bits. -/
theorem FixName.ofValue?_toValue {n : FixName} (huri : Uri.parse? n.uri.render = some n.uri)
    (hrequest : n.request < 1 <<< 64) (hindex : n.index < 1 <<< 64) :
    FixName.ofValue? n.toValue = some n := by
  have hbits : ∀ m : Nat, m < 1 <<< 64 → Value.asNat? 64 (.ofNat m) = some m :=
    fun m hm => if_pos hm
  have hread : Uri.ofValue? n.uri.toValue = some n.uri := huri
  have hget : n.toValue.get? "uri" = some n.uri.toValue
      ∧ n.toValue.get? "requestId" = some (.ofNat n.request)
      ∧ n.toValue.get? "index" = some (.ofNat n.index) := ⟨rfl, rfl, rfl⟩
  obtain ⟨hget, hgetRequest, hgetIndex⟩ := hget
  have hnamed : n.toValue.named keys = n.toValue := rfl
  simp [ofValue?, hnamed, Value.required, hget, hgetRequest, hgetIndex, hread,
    hbits _ hrequest, hbits _ hindex]

/-- The action of a fix has the edit of the fix. -/
@[simp] theorem CodeAction.ofFix?_edit (d : Document) (f : Fix) :
    (CodeAction.ofFix? d f).bind (·.edit) = d.editOf? f := by
  unfold ofFix?
  cases d.editOf? f <;> rfl

namespace Session

theorem offered?_eq_some_iff {s : Session} {name : FixName} {d : Document} {f : Fix} :
    s.offered? name = some (d, f)
      ↔ s.documents.find? name.uri = some d
        ∧ ∃ o, s.offers.find? name.uri = some o ∧ o.fixes[name.index]? = some f
          ∧ o.request = name.request ∧ o.version = d.version := by
  unfold offered?
  constructor
  · intro h
    obtain ⟨d', hd, h⟩ := Option.bind_eq_some_iff.mp h
    obtain ⟨o, ho, h⟩ := Option.bind_eq_some_iff.mp h
    obtain ⟨f', hf, h⟩ := Option.bind_eq_some_iff.mp h
    split at h
    · next hcurrent =>
      cases h
      exact ⟨hd, o, ho, hf, hcurrent⟩
    · cases h
  · rintro ⟨hd, o, ho, hf, hcurrent⟩
    simp [hd, ho, hf, hcurrent]

theorem resolved_of_offered {s : Session} {a : CodeAction} {name : FixName} {d : Document}
    {f : Fix} (hname : a.data.bind FixName.ofValue? = some name)
    (h : s.offered? name = some (d, f)) : s.resolved a = { a with edit := d.editOf? f } := by
  simp [resolved, hname, h]

/-! ## one action -/

/-- the action names a fix of the last answer about some document -/
def NamesLast (registry : Registry) (calls : List Call) (a : CodeAction) : Prop :=
  ∃ before r actions index, LastAnswer registry calls before r actions
    ∧ a.data.bind FixName.ofValue? = some ⟨r.uri, (ran registry before).nextRequest, index⟩
    ∧ index < actions.length

/-- An action that does not name a fix of a last answer comes back as it is. -/
theorem resolved_unnamed {registry : Registry} {calls : List Call} {a : CodeAction}
    (h : ¬NamesLast registry calls a) : (ran registry calls).resolved a = a := by
  unfold resolved
  split
  · next d f hoffered =>
    obtain ⟨name, hname, hoffered⟩ := Option.bind_eq_some_iff.mp hoffered
    obtain ⟨hd, o, ho, hf, hrequest, -⟩ := offered?_eq_some_iff.mp hoffered
    obtain ⟨before, r, actions, huri, hlast⟩ := exists_lastAnswer ho
    obtain ⟨d', p, hp, hactions, hd', ho'⟩ := hlast.offer
    rw [huri, ho] at ho'
    cases ho'
    refine absurd ⟨before, r, actions, name.index, hlast, ?_, ?_⟩ h
    · have hrequest : (ran registry before).nextRequest = name.request := hrequest
      rw [hname, huri, hrequest]
    · simpa [hactions] using (List.getElem?_eq_some_iff.mp hf).1
  · rfl

/-- An action that names a fix of a last answer gets the edit that the action of the fix has in
the eager answer to the same request. -/
theorem LastAnswer.resolved {registry : Registry} {calls before : List Call} {r : ActionRequest}
    {actions : List CodeAction} (h : LastAnswer registry calls before r actions) {a : CodeAction}
    {index : Nat} (hindex : index < actions.length)
    (hname : a.data.bind FixName.ofValue?
      = some ⟨r.uri, (ran registry before).nextRequest, index⟩) :
    ∃ d p f, (ran registry before).proposal? r = some (d, p) ∧ p.fixes[index]? = some f
      ∧ (actions[index]?).map (·.title) = some f.title
      ∧ ((ran registry (before.map Call.eager)).actions r).2
        = some (p.fixes.filterMap (CodeAction.ofFix? d))
      ∧ (ran registry calls).resolved a
        = { a with edit := (CodeAction.ofFix? d f).bind (·.edit) } := by
  obtain ⟨d, p, hp, hactions, hd, ho⟩ := h.offer
  have hfix : index < p.fixes.length := by simpa [hactions] using hindex
  have hf : p.fixes[index]? = some p.fixes[index] := List.getElem?_eq_getElem hfix
  refine ⟨d, p, p.fixes[index], hp, hf, ?_, ?_, ?_⟩
  · rw [hactions, List.getElem?_mapIdx, hf]
    rfl
  · rw [← eager_ran, eager_actions, hp]
    rfl
  · rw [CodeAction.ofFix?_edit]
    refine resolved_of_offered hname ?_
    exact offered?_eq_some_iff.mpr ⟨hd, _, ho, hf, rfl, rfl⟩

/-! ## all actions of an answer -/

theorem nextRequest_called {s : Session} (h : s.nextRequest < requestCount) (c : Call) :
    (s.called c).nextRequest < requestCount := by
  have hcount : 0 < requestCount := by decide
  cases c with
  | asked r =>
    rw [Session.called, actions]
    split
    · exact h
    · exact Nat.mod_lt _ hcount
  | configured settings =>
    rw [Session.called, configured]
    split <;> exact h
  | changed text =>
    rw [Session.called, changed]
    split <;> exact h
  | scanned files place =>
    obtain ⟨index, scans, nextToken, hwrites⟩ := scanStep_writes files s place
    rw [Session.called, hwrites]
    exact h
  | _ => exact h

theorem nextRequest_ran (registry : Registry) (calls : List Call) :
    (ran registry calls).nextRequest < requestCount := by
  induction calls using List.reverseRecOn with
  | nil => exact (by decide : 1 < requestCount)
  | append_singleton calls c ih =>
    rw [ran_snoc]
    exact nextRequest_called ih c

/-- An action of a lazy answer, resolved right after it, has the edit of its fix. -/
theorem Coherent.resolved_naming {s : Session} (h : Coherent s) (hlazy : s.lazy = true)
    (hrequest : s.nextRequest < requestCount) {r : ActionRequest} {d : Document} {p : Proposal}
    (hp : s.proposal? r = some (d, p)) (huri : Uri.parse? r.uri.render = some r.uri)
    {i : Nat} {f : Fix} (hi : i < 1 <<< 64) (hf : p.fixes[i]? = some f) :
    (s.actions r).1.resolved (.naming f ⟨d.uri, s.nextRequest, i⟩)
      = { CodeAction.naming f ⟨d.uri, s.nextRequest, i⟩ with edit := d.editOf? f } := by
  obtain ⟨hd, -⟩ := proposal?_some hp
  have hkey : d.uri = r.uri := h.keyed _ _ hd
  have hname : (CodeAction.naming f ⟨d.uri, s.nextRequest, i⟩).data.bind FixName.ofValue?
      = some ⟨d.uri, s.nextRequest, i⟩ :=
    FixName.ofValue?_toValue (by rw [hkey, huri]) hrequest hi
  refine resolved_of_offered hname ?_
  rw [actions_lazy hlazy hp]
  refine offered?_eq_some_iff.mpr ⟨?_, ⟨s.nextRequest, d.version, p.fixes⟩, ?_, hf, rfl, rfl⟩
  · rw [hkey]
    exact hd
  · simp [hkey, Table.find?_insert]

/-- what an editor shows of an action, and what choosing it does -/
def shown (a : CodeAction) : Text × Option Value := (a.title, a.edit)

/-- The actions of an eager answer are the fixes that have an edit. -/
theorem shown_filterMap_ofFix? (d : Document) (fixes : List Fix) :
    (fixes.filterMap (CodeAction.ofFix? d)).map shown
      = (fixes.map fun f => (f.title, d.editOf? f)).filter (·.2.isSome) := by
  induction fixes with
  | nil => rfl
  | cons f fixes ih =>
    cases he : d.editOf? f with
    | none => simp [CodeAction.ofFix?, he, ih]
    | some edit => simp [CodeAction.ofFix?, he, ih, shown, CodeAction.titled]

/-- The actions of a lazy answer, all resolved right after it, show the titles and edits of the
fixes. -/
theorem Coherent.shown_resolved {s : Session} (h : Coherent s) (hlazy : s.lazy = true)
    (hrequest : s.nextRequest < requestCount) {r : ActionRequest} {d : Document} {p : Proposal}
    (hp : s.proposal? r = some (d, p)) (huri : Uri.parse? r.uri.render = some r.uri)
    (hcount : p.fixes.length ≤ 1 <<< 64) :
    ((p.fixes.mapIdx fun i f => CodeAction.naming f ⟨d.uri, s.nextRequest, i⟩).map
        (s.actions r).1.resolved).map shown
      = p.fixes.map fun f => (f.title, d.editOf? f) := by
  apply List.ext_getElem?
  intro i
  cases hf : p.fixes[i]? with
  | none => simp [hf]
  | some f =>
    have hi : i < 1 <<< 64 := Nat.lt_of_lt_of_le (List.getElem?_eq_some_iff.mp hf).1 hcount
    have hresolved := h.resolved_naming hlazy hrequest hp huri hi hf
    simp only [List.getElem?_map, List.getElem?_mapIdx, hf, Option.map_some, hresolved]
    rfl

/-- The eager answer shows what the lazy one does once all of its actions are resolved and those
without an edit are left out. -/
theorem Coherent.resolved_at_once {s : Session} (h : Coherent s) (hlazy : s.lazy = true)
    (hrequest : s.nextRequest < requestCount) {r : ActionRequest}
    (huri : Uri.parse? r.uri.render = some r.uri)
    (hcount : ∀ actions, (s.actions r).2 = some actions → actions.length ≤ 1 <<< 64) :
    (s.eager.actions r).2.map (·.map shown)
      = (s.actions r).2.map fun actions =>
        ((actions.map (s.actions r).1.resolved).filter (·.edit.isSome)).map shown := by
  rw [eager_actions]
  cases hp : s.proposal? r with
  | none => rw [actions_none hp]; rfl
  | some answer =>
    obtain ⟨d, p⟩ := answer
    have hactions : (s.actions r).2
        = some (p.fixes.mapIdx fun i f => .naming f ⟨d.uri, s.nextRequest, i⟩) := by
      rw [actions_lazy hlazy hp]
    have hlength : p.fixes.length ≤ 1 <<< 64 := by simpa using hcount _ hactions
    have hshown := h.shown_resolved hlazy hrequest hp huri hlength
    rw [hactions]
    simp only [Option.map_some, Option.some.injEq]
    rw [shown_filterMap_ofFix?, ← hshown, List.filter_map]
    rfl

/-- After any calls: an action that does not name a fix of the last lazy answer about its document,
or names it after that became void, comes back as it was sent; one that does gets the edit of the
eager answer to the same request; and a lazy answer whose actions are all resolved at once shows
what the eager answer shows, without the actions that have no edit.

An action gives the URI of its document as a text, so the last part asks that the URI is read back
from its text, as that of a file is (`Uri.parse?_ofFile`). Not every URI is: see
`not_always_resolved_as_eager`. -/
theorem resolved_as_eager (registry : Registry) (calls : List Call) :
    (∀ a, ¬NamesLast registry calls a → (ran registry calls).resolved a = a)
      ∧ (∀ before r actions, LastAnswer registry calls before r actions →
        ∀ (a : CodeAction) (index : Nat), index < actions.length →
        a.data.bind FixName.ofValue? = some ⟨r.uri, (ran registry before).nextRequest, index⟩ →
        ∃ d p f, (ran registry before).proposal? r = some (d, p) ∧ p.fixes[index]? = some f
          ∧ (actions[index]?).map (·.title) = some f.title
          ∧ ((ran registry (before.map Call.eager)).actions r).2
            = some (p.fixes.filterMap (CodeAction.ofFix? d))
          ∧ (ran registry calls).resolved a
            = { a with edit := (CodeAction.ofFix? d f).bind (·.edit) })
      ∧ (∀ r, (ran registry calls).lazy = true → Uri.parse? r.uri.render = some r.uri →
        (∀ actions, ((ran registry calls).actions r).2 = some actions →
          actions.length ≤ 1 <<< 64) →
        ((ran registry (calls.map Call.eager)).actions r).2.map (·.map shown)
          = ((ran registry calls).actions r).2.map fun actions =>
            ((actions.map ((ran registry calls).called (.asked r)).resolved).filter
              (·.edit.isSome)).map shown) := by
  refine ⟨fun a h => resolved_unnamed h, ?_, ?_⟩
  · intro before r actions hlast a index hindex hname
    exact hlast.resolved hindex hname
  · intro r hlazy huri hcount
    rw [← eager_ran]
    exact (coherent_ran registry calls).resolved_at_once hlazy (nextRequest_ran registry calls)
      huri hcount

/-! ### a document with one fix -/

def greetingChanges : ChangeSet := ⟨[⟨⟨0, 0⟩, "hello ".toList⟩]⟩

/-- a source that offers to greet wherever it is asked -/
def greeter : Registry where
  sources := [⟨"greet".toList, fun _ => .ok [.ofEdits "Greet".toList greetingChanges.edits]⟩]
  distinct := by simp

/-- The editor resolves edits, and opens a document. -/
def greeting (u : Uri) : List Call := [.started ⟨none, [], true⟩, .opened ⟨u, "x".toList, 1⟩]

/-- the fixes at the start of a document -/
def greetings (u : Uri) : ActionRequest := ⟨u, ⟨⟨0, 0⟩, ⟨0, 0⟩⟩, none, .explicit⟩

/-- the edit that greets in a document -/
def greetingEdit (u : Uri) : Value := u.workspaceEdit [⟨⟨⟨0, 0⟩, ⟨0, 0⟩⟩, "hello ".toList⟩]

theorem editOf?_greeting (u : Uri) {f : Fix} (h : f.changes = greetingChanges) :
    Document.editOf? ⟨u, "x".toList, 1⟩ f = some (greetingEdit u) := by
  have hsorted : greetingChanges.sorted "x".toList = .ok greetingChanges.edits :=
    ChangeSet.sorted_eq_ok_iff.mpr ⟨by decide, rfl, (List.mergeSort_singleton _).symm⟩
  have hedits : Document.textEdits ⟨u, "x".toList, 1⟩ f.changes
      = .ok [⟨⟨⟨0, 0⟩, ⟨0, 0⟩⟩, "hello ".toList⟩] := by
    rw [h, Document.textEdits, hsorted]
    rfl
  rw [Document.editOf?, hedits]
  rfl

section

variable {u : Uri}

/-- The greeter has its offer accepted at the start of the document. -/
def Greets (u : Uri) : Prop :=
  (((ran greeter (greeting u)).proposal? (greetings u)).map fun (d, p) =>
    (d, p.fixes.map fun f => (f.title, f.changes)))
      = some (⟨u, "x".toList, 1⟩, [("Greet".toList, greetingChanges)])

instance : Decidable (Greets u) := inferInstanceAs (Decidable (_ = _))

theorem Greets.proposal (h : Greets u) :
    ∃ p f, (ran greeter (greeting u)).proposal? (greetings u) = some (⟨u, "x".toList, 1⟩, p)
      ∧ p.fixes = [f] ∧ f.title = "Greet".toList ∧ f.changes = greetingChanges := by
  obtain ⟨⟨d, p⟩, hp, h⟩ := Option.map_eq_some_iff.mp h
  obtain ⟨rfl, hfixes⟩ := Prod.mk.inj h
  obtain ⟨f, hf, h⟩ := List.map_eq_singleton_iff.mp hfixes
  obtain ⟨htitle, hchanges⟩ := Prod.mk.inj h
  exact ⟨p, f, hp, hf, htitle, hchanges⟩

/-- Eagerly, the edit is there at once. -/
theorem Greets.eager (h : Greets u) :
    ((ran greeter ((greeting u).map Call.eager)).actions (greetings u)).2.map (·.map shown)
      = some [("Greet".toList, some (greetingEdit u))] := by
  obtain ⟨p, f, hp, hf, htitle, hchanges⟩ := h.proposal
  rw [← eager_ran, eager_actions, hp, Option.map_some, Option.map_some, shown_filterMap_ofFix?, hf,
    List.map_singleton, editOf?_greeting u hchanges, htitle]
  rfl

/-- A lazy answer names the fix. -/
theorem Greets.lazy (h : Greets u) : ∃ a : CodeAction, a.title = "Greet".toList ∧ a.edit = none
    ∧ a.data = some (FixName.mk u 1 0).toValue
    ∧ ((ran greeter (greeting u)).actions (greetings u)).2 = some [a] := by
  obtain ⟨p, f, hp, hf, htitle, -⟩ := h.proposal
  refine ⟨.naming f ⟨u, 1, 0⟩, htitle, rfl, rfl, ?_⟩
  rw [actions_lazy rfl hp, hf]
  rfl

end

def greeted : Uri := .ofFile [.ofString "a.cpp"]

theorem resolved_as_eager_greeting :
    (∃ actions, LastAnswer greeter (greeting greeted ++ [.asked (greetings greeted)])
        (greeting greeted) (greetings greeted) actions
      ∧ ∀ a : CodeAction, a.data = some (FixName.mk greeted 1 0).toValue →
        (ran greeter (greeting greeted ++ [.asked (greetings greeted)])).resolved a
          = { a with edit := some (greetingEdit greeted) })
      ∧ (((ran greeter (greeting greeted)).actions (greetings greeted)).2.map fun actions =>
        ((actions.map ((ran greeter (greeting greeted)).called
          (.asked (greetings greeted))).resolved).filter (·.edit.isSome)).map shown)
        = some [("Greet".toList, some (greetingEdit greeted))] := by
  have hgreets : Greets greeted := by decide +kernel
  obtain ⟨p, f, hp, hf, htitle, hchanges⟩ := hgreets.proposal
  obtain ⟨action, -, -, -, hactions⟩ := hgreets.lazy
  have huri : Uri.parse? greeted.render = some greeted := Uri.parse?_ofFile (by decide)
  constructor
  · have hlast : LastAnswer greeter (greeting greeted ++ [.asked (greetings greeted)])
        (greeting greeted) (greetings greeted) [action] :=
      ⟨⟨rfl, hactions, List.cons_ne_nil _ _⟩, [], rfl, trivial⟩
    refine ⟨_, hlast, fun a ha => ?_⟩
    have hname : a.data.bind FixName.ofValue?
        = some ⟨(greetings greeted).uri, (ran greeter (greeting greeted)).nextRequest, 0⟩ := by
      rw [ha]
      exact FixName.ofValue?_toValue huri (by decide) (by decide)
    have hindex : 0 < [action].length := Nat.one_pos
    obtain ⟨d, p', f', hp', hf', -, -, hresolved⟩ := (resolved_as_eager greeter
      (greeting greeted ++ [.asked (greetings greeted)])).2.1 _ _ _ hlast a 0 hindex hname
    rw [hp] at hp'
    cases hp'
    rw [hf] at hf'
    cases hf'
    rw [hresolved, CodeAction.ofFix?_edit, editOf?_greeting greeted hchanges]
  · have hlater := (resolved_as_eager greeter (greeting greeted)).2.2 (greetings greeted) rfl huri
      fun actions h => by
        rw [hactions] at h
        cases h
        show 1 ≤ 1 <<< 64
        decide
    exact hlater.symm.trans hgreets.eager

/-! ### a document whose URI is not read back -/

/-- the URI that is read from `file://h//c|/a.cpp`, a file on a drive of some host -/
def driven : Uri where
  scheme := "file".toList
  authority := some ⟨[], ['h'], none⟩
  path := .rooted ["c|".toList, "a.cpp".toList]
  query := none
  fragment := none

/-- The text of such a URI is that of a file on a drive of this host. So a lazy answer does not name the
document that it is about, and its actions come back as they were sent; the eager one has the edit. -/
theorem not_always_resolved_as_eager :
    Uri.parse? "file://h//c|/a.cpp".toList = some driven
      ∧ ((ran greeter ((greeting driven).map Call.eager)).actions (greetings driven)).2.map
          (·.map shown) = some [("Greet".toList, some (greetingEdit driven))]
      ∧ (((ran greeter (greeting driven)).actions (greetings driven)).2.map fun actions =>
        ((actions.map ((ran greeter (greeting driven)).called
          (.asked (greetings driven))).resolved).filter (·.edit.isSome)).map shown) = some [] := by
  have hgreets : Greets driven := by decide +kernel
  have hread : Uri.parse? "file://h//c|/a.cpp".toList = some driven := by decide +kernel
  refine ⟨hread, hgreets.eager, ?_⟩
  obtain ⟨action, -, hedit, hdata, hactions⟩ := hgreets.lazy
  have hnone : ((FixName.ofValue? (FixName.mk driven 1 0).toValue).bind
      ((ran greeter (greeting driven)).called (.asked (greetings driven))).offered?).isNone = true := by
    decide +kernel
  have hresolved : ((ran greeter (greeting driven)).called (.asked (greetings driven))).resolved action
      = action := by
    rw [resolved, hdata, Option.bind_some, Option.isNone_iff_eq_none.mp hnone]
  have hleft : [action].filter (·.edit.isSome) = [] := by
    rw [List.filter_eq_nil_iff]
    simp [hedit]
  rw [hactions, Option.map_some, List.map_singleton, hresolved, hleft]
  rfl

end Session

end CppMend
