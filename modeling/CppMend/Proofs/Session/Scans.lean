import CppMend.Proofs.Session.Records

/-!
# The life of a scan

The scans of a session take their steps in any order. A scan keeps its number while it goes on, so
that one scan can be followed through everything else that happens: it takes the settings, finds out
which files there are, and comes to each of them in turn. It records none but these.

* `Session.scanOf?`      what is left of the scan with a number;
* `Numbered`             no two scans have the same number;
* `Turn`                 a scan takes a step in the course of some calls;
* `Searched`             a scan took the settings, and found out which files there are;
* `CameTo`               the places that a scan came to, and of which alone it can have a record;
* `Life`                 what a scan has done when so much is left of it;
* `life_called`, `life_ran`   one call keeps that true, and so do all that follow the asking.
-/

namespace CppMend

/-! ## numbers -/

namespace Scan

def number : Scan → Nat
  | waiting number _ => number
  | looking number .. => number
  | running number .. => number

theorem number_step {files : FileTree} {s : Session} {scan rest : Scan}
    (h : (scan.step files s).2.1 = some rest) : rest.number = scan.number := by
  match scan with
  | .waiting n roots =>
    rw [step] at h
    split at h <;> cases h
    rfl
  | .looking .. => cases h; rfl
  | .running _ _ (_ :: _) _ => cases h; rfl
  | .running _ _ [] _ => cases h

end Scan

namespace Session

/-- what is left of the scan with a number -/
def scanOf? (s : Session) (number : Nat) : Option Scan := s.scans.find? (·.number = number)

/-- the call puts another scan at the end of the queue -/
structure Asks (s : Session) (c : Call) : Prop where
  scans : (s.called c).scans = s.scans ++ [.waiting s.nextScan s.roots]
  next : (s.called c).nextScan = s.nextScan + 1

/-- New settings ask for a scan if they are about other files. -/
theorem asks_configured {s : Session} {payload : Value}
    (henabled : (s.settings.merged payload).indexing.enabled)
    (hchanged : (s.settings.merged payload).indexing ≠ s.settings.indexing) :
    Asks s (.configured payload) := by
  have hconfigured : s.called (.configured payload)
      = { s with settings := s.settings.merged payload }.scanWanted := by
    rw [Session.called, configured, if_pos ⟨henabled, hchanged⟩]
  constructor <;> rw [hconfigured] <;> rfl

/-- A call is a step of a scan, or it asks for one, or it leaves the queue alone. -/
theorem queue_called (s : Session) (c : Call) :
    (∃ files place scan, c = .scanned files place ∧ s.scans[place]? = some scan)
      ∨ (∀ e ∈ s.writes? c, e.2.scan? = none) ∧ (Asks s c
        ∨ (s.called c).scans = s.scans ∧ (s.called c).nextScan = s.nextScan) := by
  by_cases hc : ∀ files place, c ≠ .scanned files place
  · refine .inr ⟨fun e he => scan?_of_writes? he hc, ?_⟩
    cases c with
    | ready => exact .inl ⟨rfl, rfl⟩
    | configured settings =>
      by_cases h : (s.settings.merged settings).indexing.enabled
          ∧ (s.settings.merged settings).indexing ≠ s.settings.indexing
      · exact .inl (asks_configured h.1 h.2)
      · rw [Session.called, configured, if_neg h]
        exact .inr ⟨rfl, rfl⟩
    | changed text =>
      rw [Session.called, changed]
      split <;> exact .inr ⟨rfl, rfl⟩
    | asked r =>
      obtain ⟨offers, nextRequest, hwrites⟩ := actions_writes s r
      rw [Session.called, hwrites]
      exact .inr ⟨rfl, rfl⟩
    | scanned files place => exact absurd rfl (hc files place)
    | _ => exact .inr ⟨rfl, rfl⟩
  · push Not at hc
    obtain ⟨files, place, rfl⟩ := hc
    cases hscan : s.scans[place]? with
    | some scan => exact .inl ⟨files, place, scan, rfl, hscan⟩
    | none =>
      have hnone : s.writes? (.scanned files place) = none := by rw [writes?, hscan]
      have hsame : s.called (.scanned files place) = s := scanStep_none files hscan
      rw [hnone, hsame]
      exact .inr ⟨by simp, .inr ⟨rfl, rfl⟩⟩

section
variable {s : Session} {files : FileTree} {place : Nat} {scan : Scan}

/-- A step of a scan puts what is left of it in its place. -/
theorem scans_scanned (files : FileTree) (h : s.scans[place]? = some scan) :
    ∃ old new, s.scans = old ++ scan :: new
      ∧ (s.called (.scanned files place)).scans
        = old ++ ((scan.step files s).2.1.toList ++ new) := by
  obtain ⟨hlt, hget⟩ := List.getElem?_eq_some_iff.mp h
  refine ⟨s.scans.take place, s.scans.drop (place + 1), ?_, ?_⟩
  · rw [← hget, List.getElem_cons_drop, List.take_append_drop]
  · rw [Session.called, scanStep_some files h, List.append_assoc]

/-- A scan that is alone in the queue leaves what is left of it. -/
theorem scans_alone (files : FileTree) (h : s.scans = [scan]) :
    (s.called (.scanned files 0)).scans = (scan.step files s).2.1.toList := by
  have hscan : s.scans[0]? = some scan := by rw [h]; rfl
  rw [Session.called, scanStep_some files hscan]
  simp [h]

theorem nextScan_scanned : (s.called (.scanned files place)).nextScan = s.nextScan := by
  obtain ⟨index, scans, nextToken, hwrites⟩ := scanStep_writes files s place
  rw [Session.called, hwrites]

end

/-- No two scans of a session have the same number, and the next scan has another one. -/
structure Numbered (s : Session) : Prop where
  distinct : (s.scans.map Scan.number).Nodup
  given : ∀ scan ∈ s.scans, scan.number < s.nextScan

/-- what is left of a scan has its number -/
theorem map_number_step (files : FileTree) (s : Session) (scan : Scan) :
    ((scan.step files s).2.1.toList.map Scan.number).Sublist [scan.number] := by
  cases hrest : (scan.step files s).2.1 with
  | none => exact List.nil_sublist _
  | some rest => simp [Scan.number_step hrest]

theorem Numbered.scanned {s : Session} (h : Numbered s) {files : FileTree} {place : Nat}
    {scan : Scan} (hscan : s.scans[place]? = some scan) :
    Numbered (s.called (.scanned files place)) := by
  obtain ⟨old, new, hsplit, hscans⟩ := scans_scanned files hscan
  have hsub : ((s.called (.scanned files place)).scans.map Scan.number).Sublist
      (s.scans.map Scan.number) := by
    rw [hscans, hsplit, List.map_append, List.map_append, List.map_append, List.map_cons]
    exact (List.Sublist.refl _).append ((map_number_step files s scan).append (.refl _))
  refine ⟨hsub.nodup h.distinct, ?_⟩
  intro rest hrest
  obtain ⟨other, hother, hnumber⟩ :=
    List.mem_map.mp (hsub.subset (List.mem_map_of_mem (f := Scan.number) hrest))
  rw [nextScan_scanned, ← hnumber]
  exact h.given other hother

theorem Numbered.asked {s : Session} (h : Numbered s) {c : Call} (hc : Asks s c) :
    Numbered (s.called c) := by
  constructor
  · rw [hc.scans, List.map_append, List.nodup_append]
    refine ⟨h.distinct, by simp, ?_⟩
    intro n hn m hm
    obtain ⟨scan, hscan, rfl⟩ := List.mem_map.mp hn
    obtain rfl : m = s.nextScan := by simpa [Scan.number] using hm
    exact Nat.ne_of_lt (h.given scan hscan)
  · rw [hc.scans, hc.next]
    intro scan hscan
    rcases List.mem_append.mp hscan with hscan | hscan
    · exact Nat.lt_succ_of_lt (h.given scan hscan)
    · rw [List.mem_singleton.mp hscan]
      exact Nat.lt_succ_self _

theorem Numbered.called {s : Session} (h : Numbered s) (c : Call) : Numbered (s.called c) := by
  rcases queue_called s c with ⟨files, place, scan, rfl, hscan⟩ | ⟨-, hc | ⟨hscans, hnext⟩⟩
  · exact h.scanned hscan
  · exact h.asked hc
  · exact ⟨hscans ▸ h.distinct, by rw [hscans, hnext]; exact h.given⟩

theorem nextScan_called (s : Session) (c : Call) : s.nextScan ≤ (s.called c).nextScan := by
  rcases queue_called s c with ⟨files, place, scan, rfl, hscan⟩ | ⟨-, hc | ⟨-, hnext⟩⟩
  · rw [nextScan_scanned]
  · rw [hc.next]
    exact Nat.le_succ _
  · rw [hnext]

theorem nextScan_ran (registry : Registry) (calls later : List Call) :
    (ran registry calls).nextScan ≤ (ran registry (calls ++ later)).nextScan := by
  refine ran_keeps registry calls (P := fun s => (ran registry calls).nextScan ≤ s.nextScan) (Nat.le_refl _) ?_
  intro s c _ hs
  exact hs.trans (nextScan_called s c)

theorem numbered_fresh (registry : Registry) : Numbered (fresh registry) :=
  ⟨List.nodup_nil, by simp [fresh]⟩

theorem numbered_ran (registry : Registry) (calls : List Call) : Numbered (ran registry calls) :=
  ran_keeps registry [] (numbered_fresh registry) fun _ c _ hs => hs.called c

/-- a record has the number of a scan that was asked for -/
theorem recorded_given {registry : Registry} {calls : List Call} {e : Uri × Record} {n : Nat}
    (he : e ∈ recorded registry calls) (hn : e.2.scan? = some n) :
    n < (ran registry calls).nextScan := by
  obtain ⟨before, c, after, rfl, hwritten⟩ := mem_recorded.mp he
  rcases queue_called (ran registry before) c with ⟨files, place, scan, rfl, hscan⟩ | ⟨hquiet, -⟩
  · obtain ⟨m, token, p, rest, summary, text, hrunning, -, rfl⟩ := writes?_scanned hwritten
    obtain rfl : m = n := Option.some.inj hn
    have hlt : m < (ran registry before).nextScan :=
      (numbered_ran registry before).given _ (List.mem_of_getElem? hrunning)
    exact Nat.lt_of_lt_of_le hlt (nextScan_ran registry before _)
  · rw [hquiet e hwritten] at hn
    cases hn

/-! ## following a scan -/

section
variable {s : Session} {files : FileTree} {place : Nat} {scan : Scan} {n : Nat}

/-- the scans before a scan in the queue, and those after it, have other numbers -/
theorem Numbered.others (h : Numbered s) {old new : List Scan}
    (hsplit : s.scans = old ++ scan :: new) :
    old.find? (·.number = scan.number) = none ∧ new.find? (·.number = scan.number) = none := by
  have hdistinct := h.distinct
  rw [hsplit, List.map_append, List.map_cons, List.nodup_append, List.nodup_cons] at hdistinct
  obtain ⟨-, ⟨hnew, -⟩, hold⟩ := hdistinct
  constructor
  · rw [List.find?_eq_none]
    intro x hx
    simpa using hold _ (List.mem_map_of_mem hx) _ List.mem_cons_self
  · rw [List.find?_eq_none]
    intro x hx he
    exact hnew (List.mem_map.mpr ⟨x, hx, by simpa using he⟩)

theorem Numbered.scanOf?_number (h : Numbered s) (hscan : s.scans[place]? = some scan) :
    s.scanOf? scan.number = some scan := by
  obtain ⟨old, new, hsplit, -⟩ := scans_scanned default hscan
  rw [scanOf?, hsplit, List.find?_append, (h.others hsplit).1]
  simp

/-- A step of a scan leaves of every other scan what there was. -/
theorem Numbered.scanOf?_scanned (h : Numbered s) (hscan : s.scans[place]? = some scan) :
    (s.called (.scanned files place)).scanOf? n
      = if scan.number = n then (scan.step files s).2.1 else s.scanOf? n := by
  obtain ⟨old, new, hsplit, hscans⟩ := scans_scanned files hscan
  rw [scanOf?, scanOf?, hscans, hsplit]
  cases hrest : (scan.step files s).2.1 with
  | none =>
    by_cases hn : scan.number = n
    · obtain ⟨hold, hnew⟩ := h.others hsplit
      rw [hn] at hold hnew
      simp [hold, hnew, hn]
    · simp [hn]
  | some rest =>
    have hnumber : rest.number = scan.number := Scan.number_step hrest
    by_cases hn : scan.number = n
    · obtain ⟨hold, hnew⟩ := h.others hsplit
      rw [hn] at hold hnew
      simp [hold, hn, hnumber]
    · simp [hn, hnumber]

end

/-! ## what a scan has done -/

section
variable (registry : Registry) (calls : List Call)

/-- A scan takes a step in the course of the calls: after those `before`, and with the files as they
are by then. -/
def Turn (before : List Call) (files : FileTree) (scan : Scan) : Prop :=
  ∃ place after, calls = before ++ .scanned files place :: after
    ∧ (ran registry before).scans[place]? = some scan

/-- there is something to scan when the settings are taken -/
def Wanted (roots : List Bytes) (turn : List Call) : Prop :=
  (ran registry turn).settings.indexing.enabled ∧ roots ≠ []

/-- the settings that a scan goes by -/
def optionsAt (turn : List Call) : ScanOptions := (ran registry turn).settings.scanOptions

/-- the places of the files that a scan finds -/
def filesFound (roots : List Bytes) (turn : List Call) (files : FileTree) : List (List Bytes) :=
  Workspace.discover files [] roots (optionsAt registry turn)

/-- The scan with a number took the settings after the calls `turn`, and looked for files after the
calls `look`. -/
structure Searched (number : Nat) (roots : List Bytes) (turn look : List Call) (files : FileTree) :
    Prop where
  took : ∃ earlier, Turn registry calls turn earlier (.waiting number roots)
  wanted : Wanted registry roots turn
  looked : ∃ token,
    Turn registry calls look files (.looking number token roots (optionsAt registry turn))

/-- What the scan with a number found, if it is over: nothing where there was nothing to scan. -/
def Found (number : Nat) (roots : List Bytes) (turn : List Call) (places : List (List Bytes)) :
    Prop :=
  (∃ earlier, Turn registry calls turn earlier (.waiting number roots))
      ∧ ¬Wanted registry roots turn ∧ places = []
    ∨ ∃ look files, Searched registry calls number roots turn look files
      ∧ places = filesFound registry roots turn files

/-- The scan with a number came to some places, and has no record of another. -/
structure CameTo (number : Nat) (places : List (List Bytes)) : Prop where
  came : ∀ p ∈ places, ∃ before files token rest summary,
    Turn registry calls before files (.running number token (p :: rest) summary)
  only : ∀ u p text, (u, .scanned number p text) ∈ recorded registry calls → p ∈ places

/-- What the scan with a number has done when so much is left of it. -/
def Life (number : Nat) (roots : List Bytes) : Option Scan → Prop
  | some (.waiting _ r) => r = roots ∧ CameTo registry calls number []
  | some (.looking _ _ r options) => r = roots ∧ CameTo registry calls number []
    ∧ ∃ turn earlier, Turn registry calls turn earlier (.waiting number roots)
      ∧ Wanted registry roots turn ∧ options = optionsAt registry turn
  | some (.running _ _ rest _) => ∃ turn look files done,
    Searched registry calls number roots turn look files
    ∧ filesFound registry roots turn files = done ++ rest ∧ CameTo registry calls number done
  | none => ∃ turn places,
    Found registry calls number roots turn places ∧ CameTo registry calls number places

end

section
variable {registry : Registry} {calls : List Call} {number : Nat} {roots : List Bytes} {c : Call}

theorem Turn.later {before : List Call} {files : FileTree} {scan : Scan}
    (h : Turn registry calls before files scan) :
    Turn registry (calls ++ [c]) before files scan := by
  obtain ⟨place, after, rfl, hscan⟩ := h
  exact ⟨place, after ++ [c], by simp, hscan⟩

theorem Searched.later {turn look : List Call} {files : FileTree}
    (h : Searched registry calls number roots turn look files) :
    Searched registry (calls ++ [c]) number roots turn look files := by
  obtain ⟨earlier, hturn⟩ := h.took
  obtain ⟨token, hlook⟩ := h.looked
  exact ⟨⟨earlier, hturn.later⟩, h.wanted, ⟨token, hlook.later⟩⟩

theorem Found.later {turn : List Call} {places : List (List Bytes)}
    (h : Found registry calls number roots turn places) :
    Found registry (calls ++ [c]) number roots turn places := by
  rcases h with ⟨⟨earlier, hturn⟩, hwanted, hplaces⟩ | ⟨look, files, hsearched, hplaces⟩
  · exact .inl ⟨⟨earlier, hturn.later⟩, hwanted, hplaces⟩
  · exact .inr ⟨look, files, hsearched.later, hplaces⟩

theorem CameTo.later {places : List (List Bytes)} (h : CameTo registry calls number places)
    (hc : ∀ e ∈ (ran registry calls).writes? c, e.2.scan? ≠ some number) :
    CameTo registry (calls ++ [c]) number places := by
  constructor
  · intro p hp
    obtain ⟨before, files, token, rest, summary, hturn⟩ := h.came p hp
    exact ⟨before, files, token, rest, summary, hturn.later⟩
  · intro u p text hmem
    rw [recorded_snoc, List.mem_append, Option.mem_toList] at hmem
    rcases hmem with hmem | hmem
    · exact h.only u p text hmem
    · exact absurd rfl (hc _ hmem)

/-- The scan comes to one more place. -/
theorem CameTo.snoc {places : List (List Bytes)} (h : CameTo registry calls number places)
    {files : FileTree} {place token : Nat} {p : List Bytes} {rest : List (List Bytes)}
    {summary : Workspace.Summary}
    (hscan : (ran registry calls).scans[place]? = some (.running number token (p :: rest) summary)) :
    CameTo registry (calls ++ [.scanned files place]) number (places ++ [p]) := by
  constructor
  · intro q hq
    rcases List.mem_append.mp hq with hq | hq
    · obtain ⟨before, earlier, token, rest, summary, hturn⟩ := h.came q hq
      exact ⟨before, earlier, token, rest, summary, hturn.later⟩
    · rw [List.mem_singleton.mp hq]
      exact ⟨calls, files, token, rest, summary, place, [], rfl, hscan⟩
  · intro u q text hmem
    rw [recorded_snoc, List.mem_append, Option.mem_toList] at hmem
    rcases hmem with hmem | hmem
    · exact List.mem_append_left _ (h.only u q text hmem)
    · obtain ⟨_, _, _, _, _, _, hrunning, -, he⟩ := writes?_scanned hmem
      rw [hscan] at hrunning
      cases hrunning
      cases he
      simp

/-- Where a call is no step of the scan, nothing changes but the calls. -/
theorem Life.later {left : Option Scan} (h : Life registry calls number roots left)
    (hc : ∀ e ∈ (ran registry calls).writes? c, e.2.scan? ≠ some number) :
    Life registry (calls ++ [c]) number roots left := by
  match left with
  | some (.waiting ..) => exact ⟨h.1, h.2.later hc⟩
  | some (.looking ..) =>
    obtain ⟨hroots, hcame, turn, earlier, hturn, hwanted, hoptions⟩ := h
    exact ⟨hroots, hcame.later hc, turn, earlier, hturn.later, hwanted, hoptions⟩
  | some (.running ..) =>
    obtain ⟨turn, look, files, done, hsearched, hfound, hcame⟩ := h
    exact ⟨turn, look, files, done, hsearched.later, hfound, hcame.later hc⟩
  | none =>
    obtain ⟨turn, places, hfound, hcame⟩ := h
    exact ⟨turn, places, hfound.later, hcame.later hc⟩

/-- A step of the scan itself. -/
theorem Life.step {files : FileTree} {place : Nat} {scan : Scan}
    (hscan : (ran registry calls).scans[place]? = some scan) (hnumber : scan.number = number)
    (h : Life registry calls number roots (some scan)) :
    Life registry (calls ++ [.scanned files place]) number roots
      (scan.step files (ran registry calls)).2.1 := by
  have hturn : Turn registry (calls ++ [.scanned files place]) calls files scan :=
    ⟨place, [], rfl, hscan⟩
  -- a scan writes only when it comes to a file; its other steps leave the records as they are
  have hquiet : (∀ token p rest summary, scan ≠ .running number token (p :: rest) summary) →
      ∀ e ∈ (ran registry calls).writes? (.scanned files place), e.2.scan? ≠ some number := by
    intro hne e he hn
    obtain ⟨m, token, p, rest, summary, text, hrunning, -, rfl⟩ := writes?_scanned he
    rw [hscan] at hrunning
    cases hrunning
    cases hn
    exact hne token p rest summary rfl
  cases scan with
  | waiting m r =>
    obtain rfl : m = number := hnumber
    obtain ⟨rfl, hcame⟩ := h
    have hcame := hcame.later (hquiet (by simp))
    rw [Scan.step]
    split
    · next hwanted => exact ⟨rfl, hcame, calls, files, hturn, hwanted, rfl⟩
    · next hwanted => exact ⟨calls, [], .inl ⟨⟨files, hturn⟩, hwanted, rfl⟩, hcame⟩
  | looking m token r options =>
    obtain rfl : m = number := hnumber
    obtain ⟨rfl, hcame, turn, earlier, hwaited, hwanted, rfl⟩ := h
    exact ⟨turn, calls, files, [], ⟨⟨earlier, hwaited.later⟩, hwanted, ⟨token, hturn⟩⟩, rfl,
      hcame.later (hquiet (by simp))⟩
  | running m token places summary =>
    obtain rfl : m = number := hnumber
    obtain ⟨turn, look, looked, done, hsearched, hfound, hcame⟩ := h
    cases places with
    | nil =>
      rw [List.append_nil] at hfound
      exact ⟨turn, done, .inr ⟨look, looked, hsearched.later, hfound.symm⟩,
        hcame.later (hquiet (by simp))⟩
    | cons p rest =>
      exact ⟨turn, look, looked, done ++ [p], hsearched.later, by simp [hfound],
        hcame.snoc hscan⟩

/-- One call keeps a scan's life true, whether it is a step of the scan or not. -/
theorem life_called (hlt : number < (ran registry calls).nextScan)
    (h : Life registry calls number roots ((ran registry calls).scanOf? number)) (c : Call) :
    Life registry (calls ++ [c]) number roots ((ran registry (calls ++ [c])).scanOf? number) := by
  have hnumbered : Numbered (ran registry calls) := numbered_ran registry calls
  rw [ran_snoc]
  rcases queue_called (ran registry calls) c with
    ⟨files, place, scan, rfl, hscan⟩ | ⟨hquiet, hqueue⟩
  · rw [hnumbered.scanOf?_scanned hscan]
    by_cases hn : scan.number = number
    · rw [if_pos hn]
      rw [← hn, hnumbered.scanOf?_number hscan, hn] at h
      exact h.step hscan hn
    · rw [if_neg hn]
      refine h.later ?_
      intro e he hscan?
      obtain ⟨m, token, p, rest, summary, text, hrunning, -, rfl⟩ := writes?_scanned he
      rw [hscan] at hrunning
      cases hrunning
      exact hn (Option.some.inj hscan?)
  · have hsame : ((ran registry calls).called c).scanOf? number
        = (ran registry calls).scanOf? number := by
      rcases hqueue with hasks | ⟨hscans, -⟩
      · have hne : ¬(ran registry calls).nextScan = number := Nat.ne_of_gt hlt
        rw [scanOf?, hasks.scans, List.find?_append, scanOf?]
        simp [Scan.number, hne]
      · rw [scanOf?, hscans, scanOf?]
    rw [hsame]
    refine h.later ?_
    intro e he
    rw [hquiet e he]
    exact nofun

/-- A scan that was just asked for has done nothing. -/
theorem life_asked {before : List Call} (hc : Asks (ran registry before) c) :
    Life registry (before ++ [c]) (ran registry before).nextScan (ran registry before).roots
      ((ran registry (before ++ [c])).scanOf? (ran registry before).nextScan) := by
  -- the number is a new one, for the queue and for the records
  have hnew :
      (ran registry before).scans.find? (·.number = (ran registry before).nextScan) = none := by
    rw [List.find?_eq_none]
    intro scan hscan
    simpa using Nat.ne_of_lt ((numbered_ran registry before).given scan hscan)
  rw [ran_snoc, scanOf?, hc.scans, List.find?_append, hnew]
  simp only [Option.none_or, List.find?_cons, Scan.number, decide_true]
  refine ⟨rfl, nofun, ?_⟩
  intro u p text hmem
  rw [recorded_snoc, List.mem_append, Option.mem_toList] at hmem
  rcases hmem with hmem | hmem
  · exact absurd (recorded_given hmem rfl) (Nat.lt_irrefl _)
  · rcases queue_called (ran registry before) c with ⟨files, place, scan, rfl, -⟩ | ⟨hquiet, -⟩
    · have hnext := hc.next
      rw [nextScan_scanned] at hnext
      omega
    · exact absurd (hquiet _ hmem) nofun

/-- The life of a scan after whatever is done since it was asked for. -/
theorem life_ran {before : List Call} (hc : Asks (ran registry before) c) (after : List Call) :
    Life registry (before ++ c :: after) (ran registry before).nextScan (ran registry before).roots
      ((ran registry (before ++ c :: after)).scanOf? (ran registry before).nextScan) := by
  induction after using List.reverseRecOn with
  | nil => exact life_asked hc
  | append_singleton after b ih =>
    have hlt : (ran registry before).nextScan < (ran registry (before ++ c :: after)).nextScan := by
      have hle := nextScan_ran registry (before ++ [c]) after
      rw [ran_snoc, hc.next, List.append_assoc, List.singleton_append] at hle
      exact hle
    have hcalls : before ++ c :: (after ++ [b]) = (before ++ c :: after) ++ [b] := by simp
    rw [hcalls]
    exact life_called hlt ih b

theorem Found.turn {turn : List Call} {places : List (List Bytes)}
    (h : Found registry calls number roots turn places) :
    ∃ earlier, Turn registry calls turn earlier (.waiting number roots) := by
  rcases h with ⟨hturn, -, -⟩ | ⟨look, files, hsearched, -⟩
  · exact hturn
  · exact hsearched.took

/-- A scan takes its steps after it was asked for. -/
theorem Turn.after_asked {before turn after : List Call} {files : FileTree} {scan : Scan}
    (h : Turn registry (before ++ c :: after) turn files scan)
    (hnumber : scan.number = (ran registry before).nextScan) : before ++ [c] <+: turn := by
  obtain ⟨place, rest, hcalls, hscan⟩ := h
  have hturn : turn <+: before ++ c :: after := ⟨_, hcalls.symm⟩
  have hasked : before ++ [c] <+: before ++ c :: after := ⟨after, by simp⟩
  rcases List.prefix_or_prefix_of_prefix hturn hasked with hshort | hlong
  · rcases List.prefix_concat_iff.mp hshort with rfl | ⟨later, rfl⟩
    · exact List.prefix_rfl
    · -- at an earlier turn the number was not given out yet
      have hlt := (numbered_ran registry turn).given scan (List.mem_of_getElem? hscan)
      have hle := nextScan_ran registry turn later
      omega
  · exact hlong

end

end Session

end CppMend
