import CppMend.Proofs.Session.Records
import CppMend.Proofs.Workspace.Discovery

/-!
# Whose symbols an open document has

An open document has the symbols of the text that the editor gave it last, until a scan of the
workspace comes to its file. A scan does not ask which documents are open, so from then on the
symbols are those of the copy on disk, and they stay so until the editor changes the document.

* `lastEdit_eq_some`    the last record of the editor, and what is written after it;
* `open_symbols`        the symbols of an open document;
* `not_always_buffer`   they are not always those of its text.
-/

namespace CppMend

namespace Session

/-- After the last record of the editor there are only those of scans. -/
theorem lastEdit_eq_some {registry : Registry} {calls : List Call} {u : Uri} {r : Record}
    (h : lastEdit registry calls u = some r) :
    ∃ old new, recorded registry calls = old ++ (u, r) :: new
      ∧ ∀ e ∈ new, e.1 = u → e.2.scan? ≠ none := by
  obtain ⟨edits, rest, hedits, hrest⟩ := latest_eq_some_iff.mp h
  obtain ⟨old, tail, hrecords, -, htail⟩ := List.filter_eq_append_iff.mp hedits
  obtain ⟨skipped, new, rfl, -, -, hnew⟩ := List.filter_eq_cons_iff.mp htail
  refine ⟨old ++ skipped, new, by simp [hrecords], ?_⟩
  intro e he hu hscan
  have hmem : e ∈ rest := hnew ▸ List.mem_filter.mpr ⟨he, by simpa using hscan⟩
  exact hrest e hmem hu

/-- The editor's last record of an open document is the text of the document, and only scans can
have written about its file since. If none has, the symbols are those of the text; else they are
those of the copy on disk that the last of the scans read. -/
theorem open_symbols {registry : Registry} {calls : List Call} {u : Uri} {d : Document}
    (hd : (ran registry calls).documents.find? u = some d) :
    ∃ old new, recorded registry calls = old ++ (u, .buffer d.text) :: new
      ∧ (∀ r, (u, r) ∈ new → ∃ number p text files place,
        r = .scanned number p text ∧ u = Uri.ofFile p
          ∧ .scanned files place ∈ calls ∧ files.readAt p = .ok text)
      ∧ ((∀ r, (u, r) ∉ new) →
        (ran registry calls).index.files.find? u = some (parse d.text).root.symbols)
      ∧ ∀ number p text, latest new u = some (.scanned number p text) →
        (ran registry calls).index.files.find? u = some (parse text).root.symbols := by
  -- closing is an edit too, so the last edit of an open document gave it its text
  have hedit : lastEdit registry calls u = some (.buffer d.text) := by
    have htext := text_ran registry calls u
    rw [hd, Option.map_some] at htext
    obtain ⟨r, hr, hbuffer⟩ := Option.bind_eq_some_iff.mp htext.symm
    cases r <;> cases hbuffer
    exact hr
  obtain ⟨old, new, hrecords, hnew⟩ := lastEdit_eq_some hedit
  refine ⟨old, new, hrecords, ?_, ?_, ?_⟩
  · intro r hr
    have hmem : (u, r) ∈ recorded registry calls := by simp [hrecords, hr]
    exact scanned_file hmem (hnew _ hr rfl)
  · intro hnone
    have hlast : latest (recorded registry calls) u = some (.buffer d.text) := by
      refine latest_eq_some_iff.mpr ⟨old, new, hrecords, ?_⟩
      intro e he hu
      exact hnone e.2 (hu ▸ he)
    rw [find?_ran, hlast]
    rfl
  · intro number p text hlast
    obtain ⟨first, last, rfl, hafter⟩ := latest_eq_some_iff.mp hlast
    have hlast : latest (recorded registry calls) u = some (.scanned number p text) :=
      latest_eq_some_iff.mpr ⟨old ++ (u, .buffer d.text) :: first, last, by simp [hrecords], hafter⟩
    rw [find?_ran, hlast]
    rfl

/-! ### a document that a scan comes to -/

def sourcePlace : List Bytes := [Bytes.ofString "w", Bytes.ofString "a.cpp"]

def sourceUri : Uri := .ofFile sourcePlace

/-- a workspace with one file, which declares a variable -/
def oneSource : FileTree :=
  .directory [(.ofString "w", .directory [(.ofString "a.cpp", .file (.ofString "int n;"))])]

/-- a step of the only scan of that workspace -/
def scanning : Call := .scanned oneSource 0

/-- a scan of the workspace has found the file, but did not come to it yet -/
def surveyed : List Call :=
  [.started ⟨none, [.ofFile [.ofString "w"]], false⟩, .ready, scanning, scanning]

/-- The editor opens the file with an empty text, which is not saved; then the scan comes to it. -/
def overtaken : List Call := surveyed ++ [.opened ⟨sourceUri, [], 1⟩] ++ [scanning]

theorem readAt_oneSource : oneSource.readAt sourcePlace = .ok "int n;".toList := by
  have hfile : oneSource.at? sourcePlace = some (.file (.ofString "int n;")) := rfl
  have htext : (Bytes.ofString "int n;").text? = some "int n;".toList :=
    Bytes.text?_eq_some_iff.mpr rfl
  rw [FileTree.readAt, hfile]
  simp only [htext]

/-- There is no other file. -/
theorem eq_sourcePlace {f : List Bytes} {content : Bytes}
    (h : oneSource.at? f = some (.file content)) :
    f = sourcePlace ∧ content = Bytes.ofString "int n;" := by
  cases f with
  | nil => cases h
  | cons directory f =>
    obtain ⟨t, ht, h⟩ := Option.bind_eq_some_iff.mp h
    obtain ⟨rfl, rfl⟩ := Prod.mk.inj (List.mem_singleton.mp (FileTree.mem_of_lookup ht))
    cases f with
    | nil => cases h
    | cons name f =>
      obtain ⟨t, ht, h⟩ := Option.bind_eq_some_iff.mp h
      obtain ⟨rfl, rfl⟩ := Prod.mk.inj (List.mem_singleton.mp (FileTree.mem_of_lookup ht))
      cases f with
      | nil =>
        cases h
        exact ⟨rfl, rfl⟩
      | cons name f => cases h

section
variable {options : ScanOptions}

theorem plain_oneSource : oneSource.isPlain = true := by decide

theorem mem_discover_oneSource {f : List Bytes} :
    f ∈ Workspace.discover oneSource [] [Bytes.ofText "/w".toList] options ↔
      Workspace.IsFoundFrom oneSource [] [Bytes.ofText "/w".toList] options
        (Bytes.ofText "/w".toList) f := by
  have hroot : Bytes.ofText "/w".toList = PathName.ofNames [.ofString "w"] := by decide
  have hcanonical : oneSource.Canonical [] (Bytes.ofText "/w".toList) := by
    rw [hroot]
    exact FileTree.canonical_ofNames plain_oneSource (by decide) rfl (by decide)
      (by decide) []
  rw [Workspace.mem_discover plain_oneSource (List.forall_mem_singleton.mpr hcanonical)]
  simp only [List.mem_singleton, exists_eq_left]

/-- Without excluded paths, a scan of the workspace finds the file. -/
theorem discover_oneSource (hsize : 6 ≤ options.maxBytes) (hall : options.excluded = []) :
    Workspace.discover oneSource [] [Bytes.ofText "/w".toList] options = [sourcePlace] := by
  have hnodup := Workspace.nodup_discover oneSource [] [Bytes.ofText "/w".toList] options
  refine List.perm_singleton.mp
    ((List.perm_ext_iff_of_nodup hnodup (List.nodup_singleton _)).mpr fun f => ?_)
  rw [mem_discover_oneSource, List.mem_singleton]
  constructor
  · intro hf
    obtain ⟨content, hcontent, -⟩ := hf.file
    exact (eq_sourcePlace hcontent).1
  · rintro rfl
    refine ⟨⟨[.ofString "a.cpp"], by decide, nofun⟩, ⟨_, rfl, hsize⟩, by decide, ?_⟩
    rintro ⟨path, hpath, -⟩
    rw [hall] at hpath
    cases hpath

end

theorem scans_surveyed : (ran default surveyed).scans = [.running 1 1 [sourcePlace] ⟨0, 0⟩] := by
  have hfiles := @discover_oneSource Settings.standard.scanOptions (by decide) rfl
  rw [← hfiles]
  rfl

theorem recorded_overtaken : recorded default overtaken
    = [(sourceUri, .buffer [])] ++ [(sourceUri, .scanned 1 sourcePlace "int n;".toList)] := by
  have hsurveyed : recorded default surveyed = [] := rfl
  have hscans : (ran default (surveyed ++ [.opened ⟨sourceUri, [], 1⟩])).scans
      = [.running 1 1 [sourcePlace] ⟨0, 0⟩] := by
    rw [ran_snoc]
    exact scans_surveyed
  rw [overtaken, recorded_snoc, recorded_snoc, hsurveyed, scanning, writes?, writes?, hscans]
  simp [readAt_oneSource, sourceUri]

theorem find?_overtaken :
    (ran default overtaken).documents.find? sourceUri = some ⟨sourceUri, [], 1⟩ := by
  rw [overtaken, ran_snoc, ((coherent_ran default _).frame (by simp [scanning, Call.target])).1,
    ran_snoc]
  exact (Table.find?_insert ..).trans (if_pos rfl)

/-- The symbols of an open document are not always those of its text. -/
theorem not_always_buffer :
    ¬∀ (registry : Registry) (calls : List Call) (u : Uri) (d : Document),
      (ran registry calls).documents.find? u = some d →
      (ran registry calls).index.files.find? u = some (parse d.text).root.symbols := by
  intro h
  have hbuffer := h default overtaken sourceUri _ find?_overtaken
  rw [find?_ran, recorded_overtaken, latest_snoc, if_pos rfl] at hbuffer
  have hdiffer : (parse "int n;".toList).root.symbols ≠ (parse []).root.symbols := by
    decide +kernel
  exact hdiffer (Option.some.inj hbuffer)

theorem open_symbols_overtaken : (ran default overtaken).index.files.find? sourceUri
    = some (parse "int n;".toList).root.symbols := by
  obtain ⟨old, new, hrecords, -, -, hdisk⟩ := open_symbols find?_overtaken
  rw [recorded_overtaken] at hrecords
  match old with
  | [] =>
    have hnew : [(sourceUri, .scanned 1 sourcePlace "int n;".toList)] = new :=
      (List.cons.inj hrecords).2
    exact hdisk 1 sourcePlace _ (by simp [← hnew, latest])
  | [_] => simp at hrecords
  | _ :: _ :: _ => simp at hrecords

end Session

end CppMend
