import CppMend.Proofs.Session.Coherence
import CppMend.Proofs.Symbol.Provider

/-!
# Records of the index

The editor and the scans write the same index, in whatever order their calls come. What the index
holds of a file is what the last of them wrote.

* `Record`               what is written of a file, and by whom;
* `Session.writes?`       what one call writes;
* `Session.recorded`     what some calls write, in order;
* `latest`               the last record of a file;
* `Session.find?_ran`    the symbols of a file are those of its last record;
* `Session.text_ran`     an open text is the last record of the editor.
-/

namespace CppMend

/-- What is written of a file, and by whom. -/
inductive Record where
  /-- the text that the editor has open -/
  | buffer (text : Text)
  /-- the text of the file, when its document was closed -/
  | saved (text : Text)
  /-- there was no such text when the document was closed -/
  | dropped
  /-- the text of the file at a place, when the scan with a number came to it -/
  | scanned (number : Nat) (place : List Bytes) (text : Text)
  deriving DecidableEq, Repr

namespace Record

def text? : Record → Option Text
  | buffer text | saved text | scanned _ _ text => some text
  | dropped => none

/-- the symbols that the index has after the record -/
def symbols? (r : Record) : Option (List Symbol) :=
  r.text?.map fun text => (parse text).root.symbols

/-- the text that the editor has open after a record of its own -/
def buffer? : Record → Option Text
  | buffer text => some text
  | _ => none

/-- the number of the scan that made the record -/
def scan? : Record → Option Nat
  | scanned number _ _ => some number
  | _ => none

end Record

/-- the last record of a file -/
def latest (records : List (Uri × Record)) (u : Uri) : Option Record := records.reverse.lookup u

section
variable {records : List (Uri × Record)} {u v : Uri} {r : Record}

@[simp] theorem latest_nil : latest [] u = none := rfl

@[simp] theorem latest_snoc :
    latest (records ++ [(v, r)]) u = if v = u then some r else latest records u := by
  rw [latest, List.reverse_append, List.reverse_singleton, List.singleton_append, List.lookup_cons]
  by_cases h : v = u
  · simp [h]
  · have hne : (u == v) = false := by simpa using Ne.symm h
    simp only [hne, h, if_false, latest]

/-- After the last record of a file there is none. -/
theorem latest_eq_some_iff : latest records u = some r
    ↔ ∃ old new, records = old ++ (u, r) :: new ∧ ∀ e ∈ new, e.1 ≠ u := by
  rw [latest, List.lookup_eq_some_iff]
  constructor
  · rintro ⟨new, old, hrecords, hnew⟩
    refine ⟨old.reverse, new.reverse, ?_, ?_⟩
    · simpa using congrArg List.reverse hrecords
    · intro e he
      have hne : u ≠ e.1 := by simpa using hnew e (List.mem_reverse.mp he)
      exact hne.symm
  · rintro ⟨old, new, rfl, hnew⟩
    refine ⟨new.reverse, old.reverse, by simp, ?_⟩
    intro e he
    have hne : u ≠ e.1 := (hnew e (List.mem_reverse.mp he)).symm
    simpa using hne

theorem mem_of_latest (h : latest records u = some r) : (u, r) ∈ records := by
  obtain ⟨old, new, rfl, -⟩ := latest_eq_some_iff.mp h
  simp

end

namespace Session

/-- what a call writes to the index, and of which file -/
def writes? (s : Session) : Call → Option (Uri × Record)
  | .opened o => some (o.uri, .buffer o.text)
  | .changed c =>
    (s.documents.find? c.uri).map fun d =>
      (c.uri, .buffer (d.applyChanges c.changes c.version).text)
  | .closed files uri =>
    match saved? files uri with
    | some text => some (uri, .saved text)
    | none => some (uri, .dropped)
  | .scanned files place =>
    match s.scans[place]? with
    | some (.running number _ (p :: _) _) =>
      match files.readAt p with
      | .ok text => some (Uri.ofFile p, .scanned number p text)
      | .error _ => none
    | _ => none
  | _ => none

/-- what some calls write to the index, in order -/
def records (s : Session) : List Call → List (Uri × Record)
  | [] => []
  | c :: calls => (s.writes? c).toList ++ (s.called c).records calls

def recorded (registry : Registry) (calls : List Call) : List (Uri × Record) :=
  (fresh registry).records calls

theorem records_append (s : Session) (calls later : List Call) :
    s.records (calls ++ later) = s.records calls ++ (calls.foldl called s).records later := by
  induction calls generalizing s with
  | nil => rfl
  | cons c calls ih =>
    rw [List.cons_append, records, records, ih, List.append_assoc]
    rfl

section
variable (registry : Registry) (calls : List Call) (c : Call)

@[simp] theorem recorded_nil : recorded registry [] = [] := rfl

theorem recorded_split (after : List Call) : recorded registry (calls ++ c :: after)
    = recorded registry calls ++ (((ran registry calls).writes? c).toList
      ++ ((ran registry calls).called c).records after) :=
  records_append _ calls (c :: after)

@[simp] theorem recorded_snoc : recorded registry (calls ++ [c])
    = recorded registry calls ++ ((ran registry calls).writes? c).toList := by
  rw [recorded_split, records, List.append_nil]

end

/-! ## one call -/

/-- A scan records the file that it comes to, if that has a text. -/
theorem writes?_scanned {s : Session} {files : FileTree} {place : Nat} {e : Uri × Record}
    (h : s.writes? (.scanned files place) = some e) :
    ∃ number token p rest summary text,
      s.scans[place]? = some (.running number token (p :: rest) summary)
        ∧ files.readAt p = .ok text ∧ e = (Uri.ofFile p, .scanned number p text) := by
  rw [writes?] at h
  split at h
  · next number token p rest summary hscan =>
    split at h
    · next text htext =>
      exact ⟨number, token, p, rest, summary, text, hscan, htext, (Option.some.inj h).symm⟩
    · cases h
  · cases h

/-- Only the scans record files for themselves. -/
theorem scan?_of_writes? {s : Session} {c : Call} {e : Uri × Record} (h : s.writes? c = some e)
    (hc : ∀ files place, c ≠ .scanned files place) : e.2.scan? = none := by
  cases c with
  | opened o =>
    cases h
    rfl
  | changed c =>
    obtain ⟨d, -, rfl⟩ := Option.map_eq_some_iff.mp h
    rfl
  | closed files uri =>
    rw [writes?] at h
    split at h <;> cases h <;> rfl
  | scanned files place => exact absurd rfl (hc files place)
  | _ => cases h

/-- Only a document that is closed takes its file away. -/
theorem closed_of_dropped {s : Session} {c : Call} {u : Uri}
    (h : s.writes? c = some (u, .dropped)) : ∃ files, c = .closed files u := by
  cases c with
  | opened o => cases h
  | changed c =>
    obtain ⟨d, -, hd⟩ := Option.map_eq_some_iff.mp h
    cases hd
  | closed files uri =>
    rw [writes?] at h
    split at h <;> cases h
    exact ⟨files, rfl⟩
  | scanned files place =>
    obtain ⟨_, _, _, _, _, _, -, -, he⟩ := writes?_scanned h
    cases he
  | _ => cases h

/-- A call changes what the index has of a file as its record says. -/
theorem Coherent.find?_called {s : Session} (h : Coherent s) (c : Call) (u : Uri) :
    (s.called c).index.files.find? u = match s.writes? c with
      | some (v, r) => if v = u then r.symbols? else s.index.files.find? u
      | none => s.index.files.find? u := by
  cases c with
  | opened o => exact Provider.find?_scan s.index o.uri u (parse o.text)
  | changed c =>
    rw [Session.called, changed, Documents.changed?, writes?]
    cases hd : s.documents.find? c.uri with
    | none => rfl
    | some d =>
      -- the index has the document under its own URI, the call names the one it is found under
      have hkey : (d.applyChanges c.changes c.version).uri = c.uri := h.keyed c.uri d hd
      have hscan := Provider.find?_scan s.index c.uri u
        (parse (d.applyChanges c.changes c.version).text)
      rw [← hkey] at hscan ⊢
      exact hscan
  | closed files uri =>
    rw [Session.called, Session.closed, writes?]
    cases saved? files uri with
    | some text => exact Provider.find?_scan s.index uri u (parse text)
    | none => exact Provider.find?_remove s.index uri u
  | scanned files place =>
    rw [Session.called, writes?]
    cases hscan : s.scans[place]? with
    | none => rw [scanStep_none files hscan]
    | some scan =>
      rw [scanStep_some files hscan]
      cases scan with
      | waiting number roots =>
        rw [Scan.step]
        split <;> rfl
      | looking number token roots options => rfl
      | running number token places summary =>
        cases places with
        | nil => rfl
        | cons p rest =>
          dsimp only [Scan.step, Workspace.scanPlace]
          cases files.readAt p with
          | error _ => rfl
          | ok text => exact Provider.find?_scan s.index (Uri.ofFile p) u (parse text)
  | asked r =>
    obtain ⟨offers, nextRequest, hwrites⟩ := actions_writes s r
    rw [Session.called, hwrites]
    rfl
  | configured settings =>
    rw [Session.called, configured]
    split <;> rfl
  | _ => rfl

/-- A call changes the text that is open as its record says, unless a scan makes the record. -/
theorem text_called (s : Session) (c : Call) (u : Uri) :
    ((s.called c).documents.find? u).map (·.text) = match s.writes? c with
      | some (v, r) =>
        if v = u ∧ r.scan? = none then r.buffer? else (s.documents.find? u).map (·.text)
      | none => (s.documents.find? u).map (·.text) := by
  cases c with
  | opened o =>
    rw [Session.called, opened_eq, find?_replaced_documents, writes?]
    by_cases hu : o.uri = u
    · simp [hu, Record.scan?, Record.buffer?]
    · simp [hu, Ne.symm hu]
  | changed c =>
    rw [Session.called, changed, Documents.changed?, writes?]
    cases hd : s.documents.find? c.uri with
    | none => rfl
    | some d =>
      show ((s.documents.insert c.uri _).find? u).map (·.text) = _
      rw [Table.find?_insert]
      by_cases hu : c.uri = u
      · simp [hu, Record.scan?, Record.buffer?]
      · simp [hu, Ne.symm hu]
  | closed files uri =>
    have hclosed : ∀ r : Record, r.scan? = none → r.buffer? = none →
        ((s.documents.erase uri).find? u).map (·.text)
          = if uri = u ∧ r.scan? = none then r.buffer? else (s.documents.find? u).map (·.text) := by
      intro r hscan hbuffer
      rw [Table.find?_erase, hscan, hbuffer]
      by_cases hu : uri = u
      · simp [hu]
      · simp [hu, Ne.symm hu]
    rw [Session.called, writes?]
    cases saved? files uri with
    | some text => exact hclosed (.saved text) rfl rfl
    | none => exact hclosed .dropped rfl rfl
  | scanned files place =>
    rw [Session.called, (scanStep_alike files s place).documents]
    cases hwritten : s.writes? (.scanned files place) with
    | none => rfl
    | some e =>
      obtain ⟨number, token, p, rest, summary, text, -, -, rfl⟩ := writes?_scanned hwritten
      simp [Record.scan?]
  | asked r =>
    obtain ⟨offers, nextRequest, hwrites⟩ := actions_writes s r
    rw [Session.called, hwrites]
    rfl
  | configured settings =>
    rw [Session.called, (configured_alike s settings).documents]
    rfl
  | _ => rfl

/-! ## runs -/

/-- Every record was made by a call. -/
theorem mem_recorded {registry : Registry} {calls : List Call} {e : Uri × Record} :
    e ∈ recorded registry calls ↔ ∃ before c after,
      calls = before ++ c :: after ∧ (ran registry before).writes? c = some e := by
  constructor
  · intro h
    induction calls using List.reverseRecOn with
    | nil => cases h
    | append_singleton calls c ih =>
      rw [recorded_snoc, List.mem_append, Option.mem_toList] at h
      rcases h with h | h
      · obtain ⟨before, b, after, rfl, hwritten⟩ := ih h
        exact ⟨before, b, after ++ [c], by simp, hwritten⟩
      · exact ⟨calls, c, [], rfl, h⟩
  · rintro ⟨before, c, after, rfl, hwritten⟩
    simp [recorded_split, hwritten]

/-- what a scan writes is about the file that it read -/
theorem scanned_file {registry : Registry} {calls : List Call} {u : Uri} {r : Record}
    (h : (u, r) ∈ recorded registry calls) (hscan : r.scan? ≠ none) :
    ∃ number p text files place, r = .scanned number p text ∧ u = Uri.ofFile p
      ∧ .scanned files place ∈ calls ∧ files.readAt p = .ok text := by
  obtain ⟨before, c, after, rfl, hwritten⟩ := mem_recorded.mp h
  by_cases hc : ∀ files place, c ≠ .scanned files place
  · exact absurd (scan?_of_writes? hwritten hc) hscan
  · push Not at hc
    obtain ⟨files, place, rfl⟩ := hc
    obtain ⟨number, token, p, rest, summary, text, -, htext, he⟩ := writes?_scanned hwritten
    cases he
    exact ⟨number, p, text, files, place, rfl, rfl, by simp, htext⟩

/-- What the index holds of a file are the symbols of its last record. -/
theorem find?_ran (registry : Registry) (calls : List Call) (u : Uri) :
    (ran registry calls).index.files.find? u
      = (latest (recorded registry calls) u).bind Record.symbols? := by
  induction calls using List.reverseRecOn with
  | nil => rfl
  | append_singleton calls c ih =>
    rw [ran_snoc, (coherent_ran registry calls).find?_called, recorded_snoc, ih]
    cases (ran registry calls).writes? c with
    | none => simp
    | some e =>
      obtain ⟨v, r⟩ := e
      by_cases hu : v = u
      · simp [hu]
      · simp [hu]

/-- the last record of a file that is the editor's own -/
def lastEdit (registry : Registry) (calls : List Call) (u : Uri) : Option Record :=
  latest ((recorded registry calls).filter (·.2.scan? = none)) u

theorem lastEdit_of_latest {registry : Registry} {calls : List Call} {u : Uri} {r : Record}
    (h : latest (recorded registry calls) u = some r) (hr : r.scan? = none) :
    lastEdit registry calls u = some r := by
  obtain ⟨old, new, hrecords, hnew⟩ := latest_eq_some_iff.mp h
  refine latest_eq_some_iff.mpr
    ⟨old.filter (·.2.scan? = none), new.filter (·.2.scan? = none), ?_, ?_⟩
  · simp [hrecords, hr]
  · intro e he
    exact hnew e (List.mem_filter.mp he).1

/-- The text that is open is the one of the editor's last record. -/
theorem text_ran (registry : Registry) (calls : List Call) (u : Uri) :
    ((ran registry calls).documents.find? u).map (·.text)
      = (lastEdit registry calls u).bind Record.buffer? := by
  induction calls using List.reverseRecOn with
  | nil => rfl
  | append_singleton calls c ih =>
    rw [ran_snoc, text_called, lastEdit, recorded_snoc,
      List.filter_append, ih]
    cases (ran registry calls).writes? c with
    | none => simp [lastEdit]
    | some e =>
      obtain ⟨v, r⟩ := e
      by_cases hscan : r.scan? = none
      · by_cases hu : v = u
        · simp [hscan, hu]
        · simp [hscan, hu, lastEdit]
      · simp [hscan, lastEdit]

end Session

end CppMend
