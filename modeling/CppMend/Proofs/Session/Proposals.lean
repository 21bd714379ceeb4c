import CppMend.Session.Actions

/-!
# Proposals

What is known of the fixes at a range: the document is open, and the sources of fixes saw its
current version and the parse that the session has for it.

* `Editor.context?_some`            a context is that of the current version;
* `Assistant.propose_fixes`         the fixes of a proposal come from such a context;
* `Session.proposal?_some`          so do those that a session offers;
* `Session.actions_none`, `actions_eager`, `actions_lazy`   the answer, and the session after it;
* `Session.actions_writes`          what a request writes.
-/

namespace CppMend

/-- A context is for the version of its editor, with a parse of that version. -/
theorem Editor.context?_some {e : Editor} {symbols : Snapshot} {reason : Reason} {c : FixContext}
    (h : e.context? symbols reason = some c) :
    c.uri = e.uri ∧ c.version = e.version ∧ e.parsed = some ⟨e.version, c.parsed⟩ := by
  unfold context? current? at h
  split at h
  · next v hv =>
    split at h
    · next hversion =>
      cases h
      refine ⟨rfl, rfl, ?_⟩
      rw [hv, ← hversion]
    · cases h
  · cases h

namespace Assistant

variable (a : Assistant) (e : Editor) (reason : Reason) (options : FixOptions)

@[simp] theorem propose_uri : (a.propose e reason options).uri = e.uri := by
  unfold propose
  split
  · rfl
  · split <;> rfl

@[simp] theorem propose_version : (a.propose e reason options).version = e.version := by
  unfold propose
  split
  · rfl
  · split <;> rfl

/-- The fixes that are proposed are collected in the context of the editor. -/
theorem propose_fixes (h : (a.propose e reason options).fixes ≠ []) :
    ∃ c enabled, e.context? a.symbols reason = some c
      ∧ (a.propose e reason options).fixes = (a.registry.collect c enabled).1 := by
  unfold propose at h ⊢
  split at h
  · exact absurd rfl h
  · next hwanted =>
    rw [if_neg hwanted]
    split at h
    · exact absurd rfl h
    · next c hc => exact ⟨c, _, hc, rfl⟩

end Assistant

namespace Session

theorem editor?_some {s : Session} {r : ActionRequest} {d : Document} {e : Editor}
    (h : s.editor? r = some (d, e)) :
    s.documents.find? r.uri = some d ∧ e.uri = r.uri ∧ e.version = d.version
      ∧ e.parsed = s.parses.find? r.uri := by
  unfold editor? at h
  obtain ⟨d', hd, h⟩ := Option.bind_eq_some_iff.mp h
  obtain ⟨cursor, hcursor, h⟩ := Option.bind_eq_some_iff.mp h
  cases h
  exact ⟨hd, rfl, rfl, rfl⟩

/-- What a session offers is made for the document as it is, with the parse that it has. -/
theorem proposal?_some {s : Session} {r : ActionRequest} {d : Document} {p : Proposal}
    (h : s.proposal? r = some (d, p)) :
    s.documents.find? r.uri = some d ∧ p.uri = r.uri ∧ p.version = d.version ∧ p.fixes ≠ []
      ∧ ∃ c enabled, c.uri = r.uri ∧ c.version = d.version
        ∧ s.parses.find? r.uri = some ⟨d.version, c.parsed⟩
        ∧ p.fixes = (s.registry.collect c enabled).1 := by
  unfold proposal? at h
  split at h
  · split at h
    · next d' e he =>
      dsimp only at h
      split at h
      · cases h
      · next hsome =>
        cases h
        obtain ⟨hd, heuri, heversion, heparsed⟩ := editor?_some he
        have hfixes : (s.assistant.propose e r.reason s.settings.fixOptions).fixes ≠ [] := by
          intro hnil
          apply hsome
          simp [Proposal.isEmpty, hnil]
        obtain ⟨c, enabled, hc, hcollect⟩ := s.assistant.propose_fixes _ _ _ hfixes
        obtain ⟨huri, hversion, hparsed⟩ := Editor.context?_some hc
        rw [heuri] at huri
        rw [heversion] at hversion
        rw [heparsed, heversion] at hparsed
        exact ⟨hd, by simp [heuri], by simp [heversion], hfixes, c, enabled, huri, hversion, hparsed,
          hcollect⟩
    · cases h
  · cases h

variable {s : Session} {r : ActionRequest}

theorem actions_none (h : s.proposal? r = none) : s.actions r = (s, none) := by
  simp [actions, h]

/-- The answer of a session that is not lazy, which keeps nothing but the number of the answer. -/
theorem actions_eager {d : Document} {p : Proposal} (hlazy : s.lazy = false)
    (h : s.proposal? r = some (d, p)) :
    s.actions r = ({ s with nextRequest := (s.nextRequest + 1) % requestCount },
      some (p.fixes.filterMap (CodeAction.ofFix? d))) := by
  simp [actions, h, hlazy]

/-- The answer of a lazy session, which keeps the fixes. -/
theorem actions_lazy {d : Document} {p : Proposal} (hlazy : s.lazy = true)
    (h : s.proposal? r = some (d, p)) :
    s.actions r =
      ({ s with
          offers := s.offers.insert r.uri ⟨s.nextRequest, d.version, p.fixes⟩
          nextRequest := (s.nextRequest + 1) % requestCount },
        some (p.fixes.mapIdx fun i f => .naming f ⟨d.uri, s.nextRequest, i⟩)) := by
  obtain ⟨-, huri, hversion, -⟩ := proposal?_some h
  simp [actions, h, hlazy, offering, huri, hversion]

/-- A request writes nothing but what is on offer and the number of the next answer. -/
theorem actions_writes (s : Session) (r : ActionRequest) :
    ∃ offers nextRequest, (s.actions r).1 = { s with offers, nextRequest } := by
  cases hp : s.proposal? r with
  | none =>
    rw [actions_none hp]
    exact ⟨_, _, rfl⟩
  | some answer =>
    cases hlazy : s.lazy with
    | false =>
      rw [actions_eager hlazy hp]
      exact ⟨_, _, by rw [← hlazy]⟩
    | true =>
      rw [actions_lazy hlazy hp]
      exact ⟨_, _, by rw [← hlazy]⟩

end Session

end CppMend
