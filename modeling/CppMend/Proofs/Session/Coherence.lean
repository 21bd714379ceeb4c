import CppMend.Proofs.Session.Calls
import CppMend.Proofs.Session.Proposals
import Mathlib.Data.List.Induction

/-!
# Coherence

A session keeps its documents, their parses and the fixes that it offered in three tables, and each
call writes some of them. After any calls, the open documents are those with a parse, a parse is
that of the text and version of its document, and fixes are kept only for the text that they were
made for.

* `Coherent`              what holds between the tables after every call;
* `Alike`                 the tables of two sessions are the same;
* `called_alike`          what a call that is about no document writes;
* `Coherent.called`       a call keeps the tables coherent;
* `Coherent.frame`        a call about one document leaves the others alone;
* `ran_coherent`          both, after any calls.
-/

namespace CppMend

namespace Session

/-- the fixes were collected for a document as it is -/
def MadeFor (registry : Registry) (d : Document) (o : Offer) : Prop :=
  o.version = d.version ∧ ∃ (c : FixContext) (enabled : Text → Bool),
    c.uri = d.uri ∧ c.version = d.version ∧ c.parsed = parse d.text
      ∧ o.fixes = (registry.collect c enabled).1

structure Coherent (s : Session) : Prop where
  /-- a document is found under its own URI -/
  keyed : ∀ u d, s.documents.find? u = some d → d.uri = u
  parsed : ∀ u, s.parses.find? u
    = (s.documents.find? u).map fun d => ⟨d.version, parse d.text⟩
  offered : ∀ u o, s.offers.find? u = some o →
    ∃ d, s.documents.find? u = some d ∧ MadeFor s.registry d o

theorem fresh_coherent (registry : Registry) : Coherent (fresh registry) := by
  constructor
  · intro u d h
    simp [fresh] at h
  · intro u
    simp [fresh]
  · intro u o h
    simp [fresh] at h

/-! ## calls that write none of the tables -/

/-- the tables of two sessions are the same -/
structure Alike (s t : Session) : Prop where
  registry : t.registry = s.registry
  documents : t.documents = s.documents
  parses : t.parses = s.parses
  offers : t.offers = s.offers

theorem Alike.refl (s : Session) : Alike s s := ⟨rfl, rfl, rfl, rfl⟩

theorem Alike.coherent {s t : Session} (ha : Alike s t) (h : Coherent s) : Coherent t := by
  constructor
  · rw [ha.documents]
    exact h.keyed
  · rw [ha.parses, ha.documents]
    exact h.parsed
  · rw [ha.offers, ha.documents, ha.registry]
    exact h.offered

theorem scanWanted_alike (s : Session) : Alike s s.scanWanted := ⟨rfl, rfl, rfl, rfl⟩

theorem configured_alike (s : Session) (payload : Value) : Alike s (s.configured payload) := by
  unfold configured
  dsimp only
  split
  · exact ⟨rfl, rfl, rfl, rfl⟩
  · exact ⟨rfl, rfl, rfl, rfl⟩

theorem step_writes (files : FileTree) (s : Session) (scan : Scan) :
    ∃ index nextToken, (scan.step files s).1 = { s with index, nextToken } := by
  cases scan with
  | waiting number roots =>
    rw [Scan.step]
    split <;> exact ⟨_, _, rfl⟩
  | looking number token roots options => exact ⟨_, _, rfl⟩
  | running number token places summary => cases places <;> exact ⟨_, _, rfl⟩

/-- A step of a scan writes the index, the queue and the next token. -/
theorem scanStep_writes (files : FileTree) (s : Session) (place : Nat) :
    ∃ index scans nextToken,
      (s.scanStep files place).1 = { s with index, scans, nextToken } := by
  cases h : s.scans[place]? with
  | none =>
    rw [scanStep_none files h]
    exact ⟨_, _, _, rfl⟩
  | some scan =>
    obtain ⟨index, nextToken, hwrites⟩ := step_writes files s scan
    rw [scanStep_some files h, hwrites]
    exact ⟨index, _, nextToken, rfl⟩

theorem scanStep_alike (files : FileTree) (s : Session) (place : Nat) :
    Alike s (s.scanStep files place).1 := by
  obtain ⟨index, scans, nextToken, hwrites⟩ := scanStep_writes files s place
  rw [hwrites]
  exact ⟨rfl, rfl, rfl, rfl⟩

/-- A call that is about no document writes no table, unless it ends the session. -/
theorem called_alike (s : Session) {c : Call} (hc : c.target = none) (hs : c ≠ .shutdown) :
    Alike s (s.called c) := by
  cases c with
  | started p => exact ⟨rfl, rfl, rfl, rfl⟩
  | ready => exact scanWanted_alike s
  | configured settings => exact configured_alike s settings
  | chosen a => exact .refl s
  | scanned files place => exact scanStep_alike files s place
  | ended => exact ⟨rfl, rfl, rfl, rfl⟩
  | shutdown => exact absurd rfl hs
  | opened text => cases hc
  | changed text => cases hc
  | closed files uri => cases hc
  | asked r => cases hc

/-! ## calls about documents -/

/-- the session with another text of a document, or with another document -/
def replaced (s : Session) (d : Document) : Session :=
  { s with documents := s.documents.insert d.uri d }.reparsed d

theorem opened_eq (s : Session) (o : OpenedText) :
    s.opened o = s.replaced ⟨o.uri, o.text, o.version⟩ := rfl

/-- Changes give an open document another text, and do nothing to one that is not open. -/
theorem Coherent.changed_eq {s : Session} (h : Coherent s) (c : ChangedText) :
    s.documents.find? c.uri = none ∧ s.changed c = s
      ∨ ∃ d : Document, d.uri = c.uri ∧ s.changed c = s.replaced d := by
  unfold changed Documents.changed?
  cases hd : s.documents.find? c.uri with
  | none => exact .inl ⟨rfl, rfl⟩
  | some d =>
    have hkey : (d.applyChanges c.changes c.version).uri = c.uri := h.keyed c.uri d hd
    refine .inr ⟨d.applyChanges c.changes c.version, hkey, ?_⟩
    simp [replaced, hkey]

section
variable (s : Session) (d : Document) (u : Uri)

theorem find?_replaced_documents :
    (s.replaced d).documents.find? u = if u = d.uri then some d else s.documents.find? u :=
  Table.find?_insert ..

theorem find?_replaced_parses : (s.replaced d).parses.find? u
    = if u = d.uri then some ⟨d.version, parse d.text⟩ else s.parses.find? u :=
  Table.find?_insert ..

theorem find?_replaced_offers :
    (s.replaced d).offers.find? u = if u = d.uri then none else s.offers.find? u :=
  Table.find?_erase ..

end

theorem Coherent.replaced {s : Session} (h : Coherent s) (d : Document) :
    Coherent (s.replaced d) := by
  constructor
  · intro u e he
    rw [find?_replaced_documents] at he
    split at he
    · next hu => rw [hu, Option.some.inj he]
    · exact h.keyed u e he
  · intro u
    rw [find?_replaced_documents, find?_replaced_parses]
    split
    · rfl
    · exact h.parsed u
  · intro u o ho
    rw [find?_replaced_offers] at ho
    split at ho
    · cases ho
    · next hu =>
      rw [find?_replaced_documents, if_neg hu]
      exact h.offered u o ho

theorem Coherent.closed {s : Session} (h : Coherent s) (files : FileTree) (uri : Uri) :
    Coherent (s.closed files uri) := by
  constructor
  · intro u d hd
    simp only [Session.closed, Table.find?_erase] at hd
    split at hd
    · cases hd
    · exact h.keyed u d hd
  · intro u
    simp only [Session.closed, Table.find?_erase]
    split
    · rfl
    · exact h.parsed u
  · intro u o ho
    simp only [Session.closed, Table.find?_erase] at ho ⊢
    split at ho
    · cases ho
    · next hu =>
      rw [if_neg hu]
      exact h.offered u o ho

/-- What an answer keeps was made for the document, for its parse is the one of its text. -/
theorem Coherent.madeFor {s : Session} (h : Coherent s) {r : ActionRequest} {d : Document}
    {p : Proposal} (hp : s.proposal? r = some (d, p)) (request : Nat) :
    MadeFor s.registry d ⟨request, d.version, p.fixes⟩ := by
  obtain ⟨hd, -, -, -, c, enabled, huri, hversion, hparsed, hfixes⟩ := proposal?_some hp
  refine ⟨rfl, c, enabled, ?_, hversion, ?_, hfixes⟩
  · rw [huri, h.keyed _ _ hd]
  · rw [h.parsed, hd, Option.map_some, Option.some.injEq, Versioned.mk.injEq] at hparsed
    exact hparsed.2.symm

theorem Coherent.asked {s : Session} (h : Coherent s) (r : ActionRequest) :
    Coherent (s.actions r).1 := by
  cases hp : s.proposal? r with
  | none =>
    rw [actions_none hp]
    exact h
  | some answer =>
    obtain ⟨d, p⟩ := answer
    cases hlazy : s.lazy with
    | false =>
      rw [actions_eager hlazy hp]
      exact ⟨h.keyed, h.parsed, h.offered⟩
    | true =>
      rw [actions_lazy hlazy hp]
      refine ⟨h.keyed, h.parsed, ?_⟩
      intro u o ho
      simp only [Table.find?_insert] at ho
      split at ho
      · next hu =>
        rw [hu, ← Option.some.inj ho]
        exact ⟨d, (proposal?_some hp).1, h.madeFor hp _⟩
      · exact h.offered u o ho

theorem Coherent.shutdown {s : Session} (h : Coherent s) : Coherent (s.called .shutdown) := by
  refine ⟨h.keyed, h.parsed, ?_⟩
  intro u o ho
  simp [Session.called] at ho

/-! ## runs -/

theorem Coherent.called {s : Session} (h : Coherent s) (c : Call) : Coherent (s.called c) := by
  cases c with
  | opened text =>
    rw [Session.called, opened_eq]
    exact h.replaced _
  | changed text =>
    rw [Session.called]
    rcases h.changed_eq text with ⟨-, hc⟩ | ⟨d, -, hc⟩
    · rw [hc]
      exact h
    · rw [hc]
      exact h.replaced d
  | closed files uri => exact h.closed files uri
  | asked r => exact h.asked r
  | shutdown => exact h.shutdown
  | _ => exact (called_alike s (by rfl) (by simp)).coherent h

@[simp] theorem called_registry (s : Session) (c : Call) : (s.called c).registry = s.registry := by
  cases c with
  | opened text => rfl
  | changed text =>
    rw [Session.called, changed]
    split <;> rfl
  | closed files uri => rfl
  | asked r =>
    obtain ⟨offers, nextRequest, hwrites⟩ := actions_writes s r
    rw [Session.called, hwrites]
  | shutdown => rfl
  | _ => exact (called_alike s (by rfl) (by simp)).registry

/-- A call leaves every document alone that it is not about, with its parse and its offer. Only the
end of a session takes all offers away. -/
theorem Coherent.frame {s : Session} (h : Coherent s) {c : Call} {u : Uri}
    (hu : c.target ≠ some u) :
    (s.called c).documents.find? u = s.documents.find? u
      ∧ (s.called c).parses.find? u = s.parses.find? u
      ∧ (c ≠ .shutdown → (s.called c).offers.find? u = s.offers.find? u) := by
  have hreplaced : ∀ d : Document, u ≠ d.uri →
      (s.replaced d).documents.find? u = s.documents.find? u
        ∧ (s.replaced d).parses.find? u = s.parses.find? u
        ∧ (c ≠ .shutdown → (s.replaced d).offers.find? u = s.offers.find? u) := by
    intro d hd
    rw [find?_replaced_documents, find?_replaced_parses, find?_replaced_offers]
    simp [hd]
  by_cases hnone : c.target = none
  · by_cases hs : c = .shutdown
    · rw [hs]
      exact ⟨rfl, rfl, fun h => absurd rfl h⟩
    · have ha := called_alike s hnone hs
      simp [ha.documents, ha.parses, ha.offers]
  · cases c with
    | opened text =>
      have hne : u ≠ text.uri := fun e => hu (congrArg some e.symm)
      exact hreplaced ⟨text.uri, text.text, text.version⟩ hne
    | changed text =>
      have hne : u ≠ text.uri := fun e => hu (congrArg some e.symm)
      rw [Session.called]
      rcases h.changed_eq text with ⟨-, hc⟩ | ⟨d, hd, hc⟩
      · simp [hc]
      · rw [hc]
        exact hreplaced d (hd ▸ hne)
    | closed files uri =>
      have hne : u ≠ uri := fun e => hu (congrArg some e.symm)
      simp [Session.called, Session.closed, Table.find?_erase, hne]
    | asked r =>
      have hne : u ≠ r.uri := fun e => hu (congrArg some e.symm)
      rw [Session.called]
      cases hp : s.proposal? r with
      | none => simp [actions_none hp]
      | some answer =>
        cases hlazy : s.lazy with
        | false => simp [actions_eager hlazy hp]
        | true => simp [actions_lazy hlazy hp, Table.find?_insert, hne]
    | _ => exact absurd rfl hnone

theorem ran_registry (registry : Registry) (calls : List Call) :
    (ran registry calls).registry = registry := by
  induction calls using List.reverseRecOn with
  | nil => rfl
  | append_singleton calls c ih => rw [ran_snoc, called_registry, ih]

theorem coherent_ran (registry : Registry) (calls : List Call) :
    Coherent (ran registry calls) := by
  induction calls using List.reverseRecOn with
  | nil => exact fresh_coherent registry
  | append_singleton calls c ih =>
    rw [ran_snoc]
    exact ih.called c

/-- a document that no call is about is not open -/
theorem closed_of_untouched {registry : Registry} {calls : List Call} {u : Uri}
    (h : ∀ c ∈ calls, c.target ≠ some u) : (ran registry calls).documents.find? u = none := by
  refine (ran_keeps registry [] (P := fun s => Coherent s ∧ s.documents.find? u = none)
    ⟨fresh_coherent registry, rfl⟩ ?_).2
  rintro s c hc ⟨hs, hu⟩
  exact ⟨hs.called c, ((hs.frame (h c hc)).1).trans hu⟩

/-- After any calls a document is open if and only if it has a parse, which is one of its text and
version; what was offered for it was made for that text and version; and another call leaves all
documents alone that it is not about. -/
theorem ran_coherent (registry : Registry) (calls : List Call) :
    let s := ran registry calls
    (∀ u, s.documents.contains u = s.parses.contains u)
      ∧ (∀ u d v, s.documents.find? u = some d → s.parses.find? u = some v →
        v.version = d.version ∧ v.parsed = parse d.text ∧ v.parsed.source = d.text)
      ∧ (∀ u o, s.offers.find? u = some o →
        ∃ (d : Document) (c : FixContext) (enabled : Text → Bool),
          s.documents.find? u = some d ∧ o.version = d.version ∧ c.uri = u
            ∧ c.version = d.version ∧ c.parsed = parse d.text ∧ c.source = d.text
            ∧ o.fixes = (registry.collect c enabled).1)
      ∧ (∀ (c : Call) (u : Uri), c.target ≠ some u →
        (s.called c).documents.find? u = s.documents.find? u
          ∧ (s.called c).parses.find? u = s.parses.find? u
          ∧ (c ≠ .shutdown → (s.called c).offers.find? u = s.offers.find? u)) := by
  intro s
  have h : Coherent s := coherent_ran registry calls
  refine ⟨?_, ?_, ?_, fun c u hu => h.frame hu⟩
  · intro u
    simp [Table.contains, h.parsed u]
  · intro u d v hd hv
    rw [h.parsed u, hd] at hv
    cases hv
    exact ⟨rfl, rfl, rfl⟩
  · intro u o ho
    obtain ⟨d, hd, hversion, c, enabled, huri, hc, hparsed, hfixes⟩ := h.offered u o ho
    have hregistry : s.registry = registry := ran_registry registry calls
    refine ⟨d, c, enabled, hd, hversion, ?_, hc, hparsed, ?_, ?_⟩
    · rw [huri, h.keyed u d hd]
    · rw [FixContext.source, hparsed]
      rfl
    · rw [hfixes, hregistry]

end Session

end CppMend
