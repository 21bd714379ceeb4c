import CppMend.Proofs.Session.Coherence

/-!
# What is on offer

The fixes that a session keeps for a document are those of the last lazy answer about it, and only
as long as nothing was done to the document since.

* `Call.Voids`                 calls that make an offer void;
* `Answers`                    a request that is answered with actions to be resolved;
* `Keeps`                      calls after which an offer is still the same;
* `LastAnswer`                 the last answer about a document, still good after some calls;
* `Coherent.offers_voided`, `Coherent.offers_kept`   what one call does to an offer;
* `LastAnswer.offer`           a last answer is still on offer;
* `exists_lastAnswer`          nothing else is on offer.
-/

namespace CppMend

namespace Session

/-- the call makes void what was offered for a document -/
def Call.Voids (u : Uri) : Call → Prop
  | opened text => text.uri = u
  | changed text => text.uri = u
  | closed _ uri => uri = u
  | shutdown => True
  | _ => False

/-- a lazy session answers a request with some actions -/
def Answers (s : Session) (r : ActionRequest) (actions : List CodeAction) : Prop :=
  s.lazy = true ∧ (s.actions r).2 = some actions ∧ actions ≠ []

/-- the call replaces what was offered for a document by another offer -/
def Renews (s : Session) (u : Uri) (c : Call) : Prop :=
  ∃ r actions, c = .asked r ∧ r.uri = u ∧ Answers s r actions

/-- none of the calls makes void or replaces what was offered for a document -/
def Keeps (u : Uri) (s : Session) : List Call → Prop
  | [] => True
  | c :: calls => ¬c.Voids u ∧ ¬Renews s u c ∧ Keeps u (s.called c) calls

/-- Of the requests about its document, the one after `before` is the last that was answered with
actions, and no call since makes the answer void. -/
def LastAnswer (registry : Registry) (calls before : List Call) (r : ActionRequest)
    (actions : List CodeAction) : Prop :=
  Answers (ran registry before) r actions ∧ ∃ after, calls = before ++ .asked r :: after
    ∧ Keeps r.uri ((ran registry before).called (.asked r)) after

/-! ## one call -/

/-- A lazy answer names the fixes of a proposal one by one. -/
theorem Answers.proposal {s : Session} {r : ActionRequest} {actions : List CodeAction}
    (h : Answers s r actions) :
    ∃ d p, s.proposal? r = some (d, p)
      ∧ actions = p.fixes.mapIdx fun i f => .naming f ⟨d.uri, s.nextRequest, i⟩ := by
  obtain ⟨hlazy, hactions, -⟩ := h
  cases hp : s.proposal? r with
  | none =>
    rw [actions_none hp] at hactions
    cases hactions
  | some answer =>
    obtain ⟨d, p⟩ := answer
    rw [actions_lazy hlazy hp] at hactions
    exact ⟨d, p, rfl, (Option.some.inj hactions).symm⟩

/-- A proposal has fixes, so a lazy session answers with some actions. -/
theorem answers_of_proposal {s : Session} {r : ActionRequest} {d : Document} {p : Proposal}
    (hlazy : s.lazy = true) (hp : s.proposal? r = some (d, p)) :
    ∃ actions, Answers s r actions := by
  obtain ⟨-, -, -, hne, -⟩ := proposal?_some hp
  refine ⟨_, hlazy, by rw [actions_lazy hlazy hp], ?_⟩
  simpa using hne

/-- A document stays as it is under calls that void no offer for it. -/
theorem Coherent.documents_called {s : Session} (h : Coherent s) {u : Uri} {c : Call}
    (hv : ¬c.Voids u) : (s.called c).documents.find? u = s.documents.find? u := by
  by_cases hu : c.target = some u
  · cases c with
    | opened text => exact absurd (Option.some.inj hu) hv
    | changed text => exact absurd (Option.some.inj hu) hv
    | closed files uri => exact absurd (Option.some.inj hu) hv
    | asked r =>
      obtain ⟨offers, nextRequest, hwrites⟩ := actions_writes s r
      rw [Session.called, hwrites]
    | _ => cases hu
  · exact (h.frame hu).1

/-- What was offered for a document is void after the calls that make it so. A document that is
not open has no offer, so this is true of changes that do not matter too. -/
theorem Coherent.offers_voided {s : Session} (h : Coherent s) {u : Uri} {c : Call}
    (hv : c.Voids u) : (s.called c).offers.find? u = none := by
  cases c with
  | opened text =>
    have hu : text.uri = u := hv
    rw [Session.called, opened_eq, find?_replaced_offers, if_pos hu.symm]
  | changed text =>
    have hu : text.uri = u := hv
    rw [Session.called]
    rcases h.changed_eq text with ⟨hnone, hc⟩ | ⟨d, hd, hc⟩
    · rw [hc, ← hu]
      cases ho : s.offers.find? text.uri with
      | none => rfl
      | some o =>
        obtain ⟨d, hd, -⟩ := h.offered _ o ho
        rw [hnone] at hd
        cases hd
    · rw [hc, find?_replaced_offers, hd, if_pos hu.symm]
  | closed files uri =>
    have hu : uri = u := hv
    simp [Session.called, Session.closed, Table.find?_erase, hu]
  | shutdown => rfl
  | _ => exact absurd hv id

/-- An offer stays as it is under all other calls. -/
theorem Coherent.offers_kept {s : Session} (h : Coherent s) {u : Uri} {c : Call}
    (hv : ¬c.Voids u) (hr : ¬Renews s u c) :
    (s.called c).offers.find? u = s.offers.find? u := by
  by_cases hu : c.target = some u
  · cases c with
    | opened text => exact absurd (Option.some.inj hu) hv
    | changed text => exact absurd (Option.some.inj hu) hv
    | closed files uri => exact absurd (Option.some.inj hu) hv
    | asked r =>
      rw [Session.called]
      cases hp : s.proposal? r with
      | none => rw [actions_none hp]
      | some answer =>
        cases hlazy : s.lazy with
        | false => rw [actions_eager hlazy hp]
        | true =>
          obtain ⟨actions, ha⟩ := answers_of_proposal hlazy hp
          exact absurd ⟨r, actions, rfl, Option.some.inj hu, ha⟩ hr
    | _ => cases hu
  · refine (h.frame hu).2.2 ?_
    intro hs
    rw [hs] at hv
    exact hv trivial

/-- The offer of a lazy answer, right after it. -/
theorem offers_answered {s : Session} {r : ActionRequest} {d : Document} {p : Proposal}
    (hlazy : s.lazy = true) (hp : s.proposal? r = some (d, p)) :
    (s.called (.asked r)).offers.find? r.uri = some ⟨s.nextRequest, d.version, p.fixes⟩ := by
  rw [Session.called, actions_lazy hlazy hp]
  simp [Table.find?_insert]

/-! ## runs -/

theorem keeps_snoc (u : Uri) (s : Session) (calls : List Call) (c : Call) :
    Keeps u s (calls ++ [c])
      ↔ Keeps u s calls ∧ ¬c.Voids u ∧ ¬Renews (calls.foldl called s) u c := by
  induction calls generalizing s with
  | nil => simp [Keeps]
  | cons b calls ih => simp [Keeps, ih, and_assoc]

/-- Over calls that keep an offer, the document and its offer stay as they are. -/
theorem Coherent.kept {s : Session} (h : Coherent s) {u : Uri} {calls : List Call}
    (hk : Keeps u s calls) :
    (calls.foldl Session.called s).documents.find? u = s.documents.find? u
      ∧ (calls.foldl Session.called s).offers.find? u = s.offers.find? u := by
  induction calls generalizing s with
  | nil => exact ⟨rfl, rfl⟩
  | cons c calls ih =>
    obtain ⟨hv, hr, hk⟩ := hk
    obtain ⟨hdocuments, hoffers⟩ := ih (h.called c) hk
    rw [List.foldl_cons]
    exact ⟨hdocuments.trans (h.documents_called hv), hoffers.trans (h.offers_kept hv hr)⟩

/-- What the last answer offered is still on offer, for a document that is still the same. -/
theorem LastAnswer.offer {registry : Registry} {calls before : List Call} {r : ActionRequest}
    {actions : List CodeAction} (h : LastAnswer registry calls before r actions) :
    ∃ d p, (ran registry before).proposal? r = some (d, p)
      ∧ actions = (p.fixes.mapIdx fun i f =>
        .naming f ⟨d.uri, (ran registry before).nextRequest, i⟩)
      ∧ (ran registry calls).documents.find? r.uri = some d
      ∧ (ran registry calls).offers.find? r.uri
        = some ⟨(ran registry before).nextRequest, d.version, p.fixes⟩ := by
  obtain ⟨hanswers, after, rfl, hkeeps⟩ := h
  obtain ⟨d, p, hp, rfl⟩ := hanswers.proposal
  have hcoherent : Coherent (ran registry before) := coherent_ran registry before
  obtain ⟨hdocuments, hoffers⟩ := (hcoherent.called (.asked r)).kept hkeeps
  refine ⟨d, p, hp, rfl, ?_, ?_⟩
  · rw [ran_split, hdocuments, hcoherent.documents_called (c := .asked r) id]
    exact (proposal?_some hp).1
  · rw [ran_split, hoffers]
    exact offers_answered hanswers.1 hp

/-- What is on offer was offered in a last answer. By induction on the calls from the last one on:
the last call renews the offer, voids it, or keeps the one before. -/
theorem exists_lastAnswer {registry : Registry} {calls : List Call} {u : Uri} {o : Offer}
    (ho : (ran registry calls).offers.find? u = some o) :
    ∃ before r actions, r.uri = u ∧ LastAnswer registry calls before r actions := by
  induction calls using List.reverseRecOn with
  | nil => simp [fresh] at ho
  | append_singleton calls c ih =>
    have hcoherent : Coherent (ran registry calls) := coherent_ran registry calls
    rw [ran_snoc] at ho
    by_cases hr : Renews (ran registry calls) u c
    · obtain ⟨r, actions, rfl, hu, ha⟩ := hr
      exact ⟨calls, r, actions, hu, ha, [], rfl, trivial⟩
    · by_cases hv : c.Voids u
      · rw [hcoherent.offers_voided hv] at ho
        cases ho
      · rw [hcoherent.offers_kept hv hr] at ho
        obtain ⟨before, r, actions, hu, ha, after, hcalls, hkeeps⟩ := ih ho
        refine ⟨before, r, actions, hu, ha, after ++ [c], by simp [hcalls], ?_⟩
        rw [keeps_snoc, hu]
        rw [hu] at hkeeps
        refine ⟨hkeeps, hv, ?_⟩
        rw [← ran_split, ← hcalls]
        exact hr

end Session

end CppMend
