import CppMend.Proofs.Session.Ownership
import CppMend.Proofs.Session.Scans

/-!
# What new settings do to the index

When the settings say otherwise which files to index, the workspace is scanned again. The scan
records every file that it finds under the settings of its turn. It drops none: a file that is in
the index already stays there, whether the new settings leave it out or not.

* `Coherent.contains_called`   only a document that is closed can leave the index;
* `LeftBy`                 a file that stays in the index because somebody else recorded it;
* `CameTo.recorded`        what a scan comes to is recorded;
* `rescan_index`           the index after the scan that new settings ask for;
* `not_always_evicted`     it can have a file that the new settings leave out.
-/

namespace CppMend

namespace Session

/-- the call may set the settings -/
def Call.Configures : Call → Prop
  | started _ => True
  | configured _ => True
  | _ => False

/-- Other calls leave the settings and the directories of the workspace alone. -/
theorem setup_called (s : Session) {c : Call} (hc : ¬c.Configures) :
    (s.called c).settings = s.settings ∧ (s.called c).roots = s.roots := by
  cases c with
  | started p => exact absurd trivial hc
  | configured settings => exact absurd trivial hc
  | changed text =>
    rw [Session.called, changed]
    split <;> exact ⟨rfl, rfl⟩
  | asked r =>
    obtain ⟨offers, nextRequest, hwrites⟩ := actions_writes s r
    rw [Session.called, hwrites]
    exact ⟨rfl, rfl⟩
  | scanned files place =>
    obtain ⟨index, scans, nextToken, hwrites⟩ := scanStep_writes files s place
    rw [Session.called, hwrites]
    exact ⟨rfl, rfl⟩
  | _ => exact ⟨rfl, rfl⟩

theorem setup_ran (registry : Registry) (calls : List Call) {later : List Call}
    (h : ∀ c ∈ later, ¬c.Configures) :
    (ran registry (calls ++ later)).settings = (ran registry calls).settings
      ∧ (ran registry (calls ++ later)).roots = (ran registry calls).roots := by
  refine ran_keeps registry calls (P := fun s => s.settings = (ran registry calls).settings
    ∧ s.roots = (ran registry calls).roots) ⟨rfl, rfl⟩ ?_
  rintro s c hc ⟨hsettings, hroots⟩
  obtain ⟨hsettings', hroots'⟩ := setup_called s (h c hc)
  exact ⟨hsettings'.trans hsettings, hroots'.trans hroots⟩

theorem settings_configured (s : Session) (payload : Value) :
    (s.called (.configured payload)).settings = s.settings.merged payload := by
  rw [Session.called, configured]
  split <;> rfl

/-! ## what stays in the index -/

/-- A file leaves the index only when its document is closed. -/
theorem Coherent.contains_called {s : Session} (h : Coherent s) {c : Call} {u : Uri}
    (hu : s.index.contains u = true) (hc : ∀ files, c ≠ .closed files u) :
    (s.called c).index.contains u = true := by
  rw [Index.contains, Table.contains] at hu ⊢
  rw [h.find?_called]
  split
  · next v r hwritten =>
    split
    · next hv =>
      cases r with
      | dropped =>
        obtain ⟨files, rfl⟩ := closed_of_dropped (hv ▸ hwritten)
        exact absurd rfl (hc files)
      | _ => rfl
    · exact hu
  · exact hu

theorem contains_ran {registry : Registry} {calls later : List Call} {u : Uri}
    (hu : (ran registry calls).index.contains u = true) (hc : ∀ files, .closed files u ∉ later) :
    (ran registry (calls ++ later)).index.contains u = true := by
  refine (ran_keeps registry calls (P := fun s => Coherent s ∧ s.index.contains u = true)
    ⟨coherent_ran registry calls, hu⟩ ?_).2
  rintro s c hmem ⟨hs, hcontains⟩
  exact ⟨hs.called c, hs.contains_called hcontains fun files hf => hc files (hf ▸ hmem)⟩

/-- The last record of a file is not one of the scan with a number, but was made when its document
was closed, or by another scan. -/
def LeftBy (registry : Registry) (calls : List Call) (number : Nat) (u : Uri) : Prop :=
  (∃ text, latest (recorded registry calls) u = some (.saved text))
    ∨ ∃ other place text, other ≠ number
      ∧ latest (recorded registry calls) u = some (.scanned other place text)

section
variable {registry : Registry} {calls : List Call} {number : Nat}

/-- A file that is in the index without being open was recorded by the scan, or left by another. -/
theorem recorded_or_left {u : Uri} (hu : (ran registry calls).index.contains u = true)
    (hclosed : (ran registry calls).documents.find? u = none) (number : Nat) :
    (∃ place text, (u, .scanned number place text) ∈ recorded registry calls)
      ∨ LeftBy registry calls number u := by
  rw [Index.contains, Table.contains, find?_ran] at hu
  cases hlast : latest (recorded registry calls) u with
  | none => simp [hlast] at hu
  | some r =>
    cases r with
    | buffer text =>
      have htext := text_ran registry calls u
      rw [hclosed, lastEdit_of_latest hlast rfl] at htext
      cases htext
    | saved text => exact .inr (.inl ⟨text, hlast⟩)
    | dropped => simp [hlast, Record.symbols?, Record.text?] at hu
    | scanned other place text =>
      by_cases hn : other = number
      · subst hn
        exact .inl ⟨place, text, mem_of_latest hlast⟩
      · exact .inr (.inr ⟨other, place, text, hn, hlast⟩)

/-- The scan comes to each place, and records the file if it still has a text by then. -/
theorem CameTo.recorded {places : List (List Bytes)} (h : CameTo registry calls number places)
    {p : List Bytes} (hp : p ∈ places) : ∃ before files token rest summary,
      Turn registry calls before files (.running number token (p :: rest) summary)
        ∧ ∀ text, files.readAt p = .ok text →
          (Uri.ofFile p, .scanned number p text) ∈ recorded registry calls := by
  obtain ⟨before, files, token, rest, summary, hturn⟩ := h.came p hp
  refine ⟨before, files, token, rest, summary, hturn, ?_⟩
  intro text htext
  obtain ⟨place, after, rfl, hscan⟩ := hturn
  refine mem_recorded.mpr ⟨before, _, after, rfl, ?_⟩
  simp [writes?, hscan, htext]

end

/-- New settings that say otherwise which files to index ask for a scan. When it is over, it has
taken the settings at some turn, which are the new ones unless they were set again. It has come to
all files that it found under these settings, and recorded those that could be read. A file that is
in the index without being open is one of them, or is left by somebody else; and a file that was in
the index before is there still, unless its document was closed. -/
theorem rescan_index {registry : Registry} {before after : List Call} {payload : Value}
    (henabled : ((ran registry before).settings.merged payload).indexing.enabled = true)
    (hchanged : ((ran registry before).settings.merged payload).indexing
      ≠ (ran registry before).settings.indexing)
    (hended : (ran registry (before ++ .configured payload :: after)).scanOf?
      (ran registry before).nextScan = none) :
    let calls := before ++ .configured payload :: after
    let number := (ran registry before).nextScan
    let roots := (ran registry before).roots
    (∃ turn found, before ++ [.configured payload] <+: turn
        ∧ ((∀ c ∈ after, ¬c.Configures) →
          (ran registry turn).settings = (ran registry before).settings.merged payload)
        ∧ Found registry calls number roots turn found
        ∧ (∀ p ∈ found, ∃ later files token rest summary,
          Turn registry calls later files (.running number token (p :: rest) summary)
            ∧ ∀ text, files.readAt p = .ok text →
              (Uri.ofFile p, .scanned number p text) ∈ recorded registry calls)
        ∧ ∀ u, (ran registry calls).index.contains u = true →
          (ran registry calls).documents.find? u = none →
          (∃ p ∈ found, u = Uri.ofFile p) ∨ LeftBy registry calls number u)
      ∧ ∀ u, (ran registry before).index.contains u = true → (∀ files, .closed files u ∉ after) →
        (ran registry calls).index.contains u = true := by
  intro calls number roots
  have hasks : Asks (ran registry before) (.configured payload) := asks_configured henabled hchanged
  have hlife := life_ran hasks after
  rw [hended] at hlife
  obtain ⟨turn, found, hfound, hcame⟩ := hlife
  constructor
  · obtain ⟨earlier, hturn⟩ := hfound.turn
    have hafter : before ++ [.configured payload] <+: turn := hturn.after_asked rfl
    refine ⟨turn, found, hafter, ?_, hfound, fun p hp => hcame.recorded hp, ?_⟩
    · intro hstill
      obtain ⟨more, rfl⟩ := hafter
      obtain ⟨place, rest, hcalls, -⟩ := hturn
      have hmore : after = more ++ .scanned earlier place :: rest := by simpa using hcalls
      rw [(setup_ran registry _ fun c hc => hstill c (by simp [hmore, hc])).1, ran_snoc,
        settings_configured]
    · intro u hu hclosed
      rcases recorded_or_left hu hclosed number with ⟨p, text, hmem⟩ | hleft
      · obtain ⟨n, q, other, _, _, he, hq, -, -⟩ := scanned_file hmem nofun
        cases he
        exact .inl ⟨p, hcame.only u p text hmem, hq⟩
      · exact .inr hleft
  · intro u hu hclosed
    exact contains_ran hu fun files hf => by simpa using hclosed files (by simpa using hf)

/-! ### a file that the new settings leave out -/

/-- settings that leave out the file -/
def sourceless : Value :=
  .object [("indexing", .object [("excludePaths", .list [.ofString "a.cpp"])])]

/-- the file is scanned, and the scan is over -/
def indexed : List Call := surveyed ++ [scanning] ++ [scanning]

theorem scans_scanning {calls : List Call} {scan : Scan} (h : (ran default calls).scans = [scan]) :
    (ran default (calls ++ [scanning])).scans
      = (scan.step oneSource (ran default calls)).2.1.toList := by
  rw [ran_snoc]
  exact scans_alone oneSource h

theorem scans_indexed : (ran default indexed).scans = [] := by
  have hlast : (ran default (surveyed ++ [scanning])).scans = [.running 1 1 [] ⟨1, 0⟩] := by
    rw [scans_scanning scans_surveyed]
    simp [Scan.step, Workspace.scanPlace, readAt_oneSource]
  rw [indexed, scans_scanning hlast]
  rfl

theorem setup_indexed : (ran default indexed).settings = Settings.standard
    ∧ (ran default indexed).roots = [Bytes.ofText "/w".toList] := by
  have hkept : ∀ c ∈ [scanning, scanning], ¬c.Configures := by simp [scanning, Call.Configures]
  rw [indexed, List.append_assoc]
  exact setup_ran default surveyed hkept

/-- the settings now leave out the file -/
def reset : List Call := indexed ++ [.configured sourceless]

/-- the scan that they ask for is over -/
def rescanned : List Call := reset ++ [scanning] ++ [scanning] ++ [scanning]

theorem rescanned_eq :
    indexed ++ .configured sourceless :: [scanning, scanning, scanning] = rescanned := by
  simp [rescanned, reset]

theorem indexing_sourceless : ((ran default indexed).settings.merged sourceless).indexing
    = ⟨true, 512, ["a.cpp".toList]⟩ := by
  rw [setup_indexed.1]
  rfl

theorem enabled_sourceless :
    ((ran default indexed).settings.merged sourceless).indexing.enabled = true := by
  rw [indexing_sourceless]

theorem changed_sourceless : ((ran default indexed).settings.merged sourceless).indexing
    ≠ (ran default indexed).settings.indexing := by
  rw [indexing_sourceless, setup_indexed.1]
  decide

theorem asks_sourceless : Asks (ran default indexed) (.configured sourceless) :=
  asks_configured enabled_sourceless changed_sourceless

theorem discover_sourceless :
    Workspace.discover oneSource [] [Bytes.ofText "/w".toList] ⟨512 * 1024, ["a.cpp".toList]⟩
      = [] := by
  refine List.eq_nil_iff_forall_not_mem.mpr fun f hf => ?_
  have hf := mem_discover_oneSource.mp hf
  obtain ⟨content, hcontent, -⟩ := hf.file
  -- the only file is the one that is excluded
  refine hf.included ⟨_, List.mem_singleton_self _, sourcePlace, ?_, ?_⟩
  · rw [(eq_sourcePlace hcontent).1]
  · rw [if_neg (by decide)]
    exact ⟨_, List.mem_singleton_self _, .inr (by decide)⟩

theorem scans_rescanned : (ran default rescanned).scans = [] := by
  have hreset : (ran default reset).settings.indexing = ⟨true, 512, ["a.cpp".toList]⟩ := by
    rw [reset, ran_snoc, settings_configured, indexing_sourceless]
  have hwaiting : (ran default reset).scans
      = [.waiting (ran default indexed).nextScan [Bytes.ofText "/w".toList]] := by
    rw [reset, ran_snoc, asks_sourceless.scans, scans_indexed, setup_indexed.2]
    rfl
  have hlooking : (ran default (reset ++ [scanning])).scans
      = [.looking (ran default indexed).nextScan (ran default reset).nextToken
        [Bytes.ofText "/w".toList] ⟨512 * 1024, ["a.cpp".toList]⟩] := by
    rw [scans_scanning hwaiting]
    simp [Scan.step, Settings.scanOptions, hreset]
  have hrunning : (ran default (reset ++ [scanning] ++ [scanning])).scans
      = [.running (ran default indexed).nextScan (ran default reset).nextToken [] ⟨0, 0⟩] := by
    rw [scans_scanning hlooking, Scan.step, discover_sourceless]
    rfl
  rw [rescanned, scans_scanning hrunning]
  rfl

theorem contains_indexed : (ran default indexed).index.contains sourceUri = true := by
  have hrecords : recorded default (surveyed ++ [scanning])
      = [(sourceUri, .scanned 1 sourcePlace "int n;".toList)] := by
    have hsurveyed : recorded default surveyed = [] := rfl
    rw [recorded_snoc, hsurveyed, scanning, writes?, scans_surveyed]
    simp [readAt_oneSource, sourceUri]
  have hopen : ∀ files, .closed files sourceUri ∉ [scanning] := by simp [scanning]
  refine contains_ran ?_ hopen
  rw [Index.contains, Table.contains, find?_ran, hrecords]
  rfl

theorem contains_rescanned : (ran default rescanned).index.contains sourceUri = true := by
  rw [← rescanned_eq]
  exact contains_ran contains_indexed (by simp [scanning])

theorem find?_rescanned : (ran default rescanned).documents.find? sourceUri = none := by
  refine closed_of_untouched ?_
  simp [rescanned, reset, indexed, surveyed, scanning, Call.target]

theorem rescan_index_sourceless :
    (∃ turn found, Found default rescanned (ran default indexed).nextScan
        [Bytes.ofText "/w".toList] turn found
      ∧ ((∃ p ∈ found, sourceUri = .ofFile p)
        ∨ LeftBy default rescanned (ran default indexed).nextScan sourceUri))
    ∧ (ran default rescanned).index.contains sourceUri = true := by
  have hended : (ran default
      (indexed ++ .configured sourceless :: [scanning, scanning, scanning])).scanOf?
        (ran default indexed).nextScan = none := by
    rw [rescanned_eq, scanOf?, scans_rescanned]
    rfl
  obtain ⟨⟨turn, found, -, -, hfound, -, hall⟩, hkept⟩ :=
    rescan_index enabled_sourceless changed_sourceless hended
  rw [rescanned_eq] at hfound hall hkept
  rw [setup_indexed.2] at hfound
  have hstill := hkept sourceUri contains_indexed (by simp [scanning])
  exact ⟨⟨turn, found, hfound, hall sourceUri hstill find?_rescanned⟩, hstill⟩

/-- After the scan that new settings ask for, the index can have a file that they leave out, even if
the files do not change meanwhile and there is no other scan. -/
theorem not_always_evicted :
    ¬∀ (registry : Registry) (before after : List Call) (payload : Value) (files : FileTree),
      ((ran registry before).settings.merged payload).indexing.enabled = true →
      ((ran registry before).settings.merged payload).indexing
        ≠ (ran registry before).settings.indexing →
      (∀ c ∈ after, c = .scanned files 0) →
      (ran registry (before ++ .configured payload :: after)).scans = [] →
      ∀ u, (ran registry (before ++ .configured payload :: after)).index.contains u = true →
        (ran registry (before ++ .configured payload :: after)).documents.find? u = none →
        ∃ p ∈ Workspace.discover files [] (ran registry before).roots
          ((ran registry before).settings.merged payload).scanOptions, u = .ofFile p := by
  intro h
  have hfound := h default indexed [scanning, scanning, scanning] sourceless oneSource
    enabled_sourceless changed_sourceless (by simp [scanning])
    (by rw [rescanned_eq, scans_rescanned]) sourceUri
  rw [rescanned_eq] at hfound
  obtain ⟨p, hp, -⟩ := hfound contains_rescanned find?_rescanned
  rw [setup_indexed.2, Settings.scanOptions, indexing_sourceless,
    discover_sourceless] at hp
  cases hp

end Session

end CppMend
