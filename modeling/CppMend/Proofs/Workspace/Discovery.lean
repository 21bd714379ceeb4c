import CppMend.Proofs.Files.Walks
import CppMend.Proofs.Order.Firsts
import CppMend.Proofs.Text.Utf8
import CppMend.Workspace.Scan

/-!
# Which files a scan finds

A scan walks from each root and leaves out directories on the way. What it finds can be told from the
path of each file alone: a root that the file is in, the names between them, and the excluded paths that
the file is in.

* `Workspace.IsExcluded`        the file is in an excluded path;
* `Workspace.isPathOf_iff`      which place has a path that leads nowhere upwards;
* `Workspace.IsFoundFrom`       a source file that a scan finds from a root;
* `Workspace.discover_exact`    what a scan finds, and in which order;
* `Workspace.not_always_discovered`   what it does not find, and what is found though it is excluded.
-/

namespace CppMend

open PathName (IsName)

namespace Workspace

section
variable (files : FileTree) (directory : Bytes)

/-! ## excluded paths -/

/-- The path leads to a place, or has the names that lead there. -/
def IsPathOf (path : Bytes) (place : List Bytes) : Prop :=
  files.resolve directory path = .ok place ∨ PathName.names path = place

variable (roots : List Bytes) (options : ScanOptions)

/-- The file or a directory that it is in has an excluded path, which is read from some root unless it
is absolute. -/
def IsExcluded (f : List Bytes) : Prop :=
  ∃ path ∈ options.excluded.map Bytes.ofText, ∃ place, place <+: f ∧
    if PathName.isAbsolute path then IsPathOf files directory path place
    else ∃ root ∈ roots, IsPathOf files directory (PathName.join root path) place

/-- A source file in a root, where a scan comes: it fits, all directories between them have texts for
names and none is one of those that are not entered, and nothing that it is in is excluded. -/
structure IsFoundFrom (root : Bytes) (f : List Bytes) : Prop where
  inside : ∃ below, f = PathName.names root ++ below
    ∧ ∀ name ∈ below.dropLast, ∃ t, name = Bytes.ofText t ∧ isHidden t = false
  file : ∃ content, files.at? f = some (.file content) ∧ content.length ≤ options.maxBytes
  source : PathName.isSource (PathName.ofNames f) = true
  included : ¬IsExcluded files directory roots options f

end

section
variable {files : FileTree} {directory : Bytes} {roots : List Bytes} {options : ScanOptions}
  (hplain : files.isPlain = true) (hroots : ∀ root ∈ roots, files.Canonical directory root)
include hplain

/-- A path that leads nowhere upwards is the path of the place that it spells alone. -/
theorem isPathOf_iff {path : Bytes} (habsolute : PathName.isAbsolute path = true)
    (hup : PathName.upwards ∉ PathName.names path) {place : List Bytes} :
    IsPathOf files directory path place ↔ PathName.names path = place := by
  constructor
  · rintro (h | h)
    · exact (FileTree.resolve_of_plain hplain h habsolute hup).symm
    · exact h
  · exact .inr

/-- A file is in the place that is excluded for an absolute path just if it is in a place of the path. -/
theorem excludedPlace_iff {path : Bytes} (habsolute : PathName.isAbsolute path = true) {f : List Bytes}
    (hf : (files.at? f).isSome = true) :
    (∃ place, (match files.resolve directory path with
        | .ok place => some place
        | .error _ => if PathName.isAbsolute path then some (PathName.names path) else none) = some place
      ∧ place <+: f) ↔ ∃ place, place <+: f ∧ IsPathOf files directory path place := by
  cases h : files.resolve directory path with
  | error e =>
    simp only [habsolute, if_true, IsPathOf, h, reduceCtorEq, false_or, Option.some.injEq]
    exact exists_congr fun place => and_comm
  | ok q =>
    simp only [Option.some.injEq, IsPathOf, h, Except.ok.injEq]
    constructor
    · rintro ⟨place, rfl, hp⟩
      exact ⟨q, hp, .inl rfl⟩
    · rintro ⟨place, hp, rfl | rfl⟩
      · exact ⟨q, rfl, hp⟩
      · -- what is spelled is there, so that none of its names leads upwards
        have hnames := FileTree.names_of_at? hplain (FileTree.isSome_at?_prefix hp hf)
        have hup : PathName.upwards ∉ PathName.names path := fun hm => (hnames _ hm).ne_upwards rfl
        exact ⟨q, rfl, FileTree.resolve_of_plain hplain h habsolute hup ▸ hp⟩

include hroots

theorem excludedPlaces_iff {f : List Bytes} (hf : (files.at? f).isSome = true) :
    (∃ place ∈ excludedPlaces files directory roots options.excluded, place <+: f)
      ↔ IsExcluded files directory roots options f := by
  have hjoin : ∀ root ∈ roots, ∀ path, PathName.isAbsolute (PathName.join root path) = true := by
    intro root hroot path
    obtain ⟨place, -, rfl⟩ := hroots root hroot
    exact PathName.isAbsolute_join (PathName.isAbsolute_ofNames place) path
  rw [excludedPlaces, IsExcluded]
  simp only [List.mem_filterMap, List.mem_flatMap]
  constructor
  · rintro ⟨place, ⟨p, ⟨path, hpath, hp⟩, hplace⟩, hprefix⟩
    by_cases habsolute : PathName.isAbsolute path = true
    · rw [if_pos habsolute, List.mem_singleton] at hp
      rw [hp] at hplace
      obtain ⟨q, hq, his⟩ := (excludedPlace_iff hplain habsolute hf).mp ⟨place, hplace, hprefix⟩
      exact ⟨path, hpath, q, hq, by rwa [if_pos habsolute]⟩
    · rw [if_neg habsolute, List.mem_map] at hp
      obtain ⟨root, hroot, rfl⟩ := hp
      obtain ⟨q, hq, his⟩ := (excludedPlace_iff hplain (hjoin root hroot path) hf).mp
        ⟨place, hplace, hprefix⟩
      exact ⟨path, hpath, q, hq, by rw [if_neg habsolute]; exact ⟨root, hroot, his⟩⟩
  · rintro ⟨path, hpath, place, hprefix, his⟩
    by_cases habsolute : PathName.isAbsolute path = true
    · rw [if_pos habsolute] at his
      obtain ⟨q, hq, hqf⟩ := (excludedPlace_iff hplain habsolute hf).mpr ⟨place, hprefix, his⟩
      exact ⟨q, ⟨path, ⟨path, hpath, by rw [if_pos habsolute]; exact List.mem_singleton_self _⟩, hq⟩, hqf⟩
    · rw [if_neg habsolute] at his
      obtain ⟨root, hroot, his⟩ := his
      obtain ⟨q, hq, hqf⟩ := (excludedPlace_iff hplain (hjoin root hroot path) hf).mpr
        ⟨place, hprefix, his⟩
      refine ⟨q, ⟨PathName.join root path, ⟨path, hpath, ?_⟩, hq⟩, hqf⟩
      rw [if_neg habsolute]
      exact List.mem_map_of_mem hroot

end

/-! ## what is accepted on the way -/

theorem isEntered_iff {name : Bytes} :
    isEntered name = true ↔ ∃ t, name = Bytes.ofText t ∧ isHidden t = false := by
  simp only [← Bytes.text?_eq_some_iff]
  unfold isEntered
  cases name.text? <;> simp

section
variable {excluded : List (List Bytes)}

theorem accepts_iff {v : Visit} : accepts excluded v = true ↔ (∀ e ∈ excluded, ¬e <+: v.place)
    ∧ (v.isDirectory = true → v.depth ≠ 0 → isEntered v.name = true) := by
  rw [accepts, Bool.and_eq_true]
  refine and_congr ?_ ?_
  · simp
  · cases v.isDirectory <;> cases isEntered v.name <;> simp

theorem not_prefix_of_append {place : List Bytes} (name : Bytes) {below : List Bytes}
    (h : ∀ e ∈ excluded, ¬e <+: place ++ [name] ++ below) : ∀ e ∈ excluded, ¬e <+: place :=
  fun e he hp => h e he (by
    rw [List.append_assoc]
    exact hp.trans (List.prefix_append _ _))

/-- Below a root, all directories on the way are looked at. -/
theorem accepted_inside {v : Visit} {below : List Bytes} (h : ∀ name ∈ below, IsName name)
    (hdepth : v.depth ≠ 0) (hfile : v.isDirectory = false) :
    v.Accepted (accepts excluded) below ↔ (∀ e ∈ excluded, ¬e <+: v.place ++ below)
      ∧ ∀ name ∈ (v.name :: below).dropLast, isEntered name = true := by
  induction below generalizing v with
  | nil =>
    rw [Visit.Accepted, accepts_iff, hfile, List.append_nil]
    simp
  | cons name below ih =>
    have hname : (v.inside name).name = name := v.name_inside (h name List.mem_cons_self)
    have hplace : (v.inside name).place = v.place ++ [name] := rfl
    rw [Visit.Accepted, accepts_iff, ih (fun n hn => h n (List.mem_cons_of_mem _ hn)) (Nat.succ_ne_zero _)
      rfl, hname, hplace, List.append_assoc, List.singleton_append, List.dropLast_cons_cons,
      List.forall_mem_cons]
    constructor
    · rintro ⟨⟨-, hentered⟩, hout, hnames⟩
      exact ⟨hout, hentered rfl hdepth, hnames⟩
    · rintro ⟨hout, hentered, hnames⟩
      have hlong : ∀ e ∈ excluded, ¬e <+: v.place ++ [name] ++ below := by
        rwa [List.append_assoc, List.singleton_append]
      exact ⟨⟨not_prefix_of_append name hlong, fun _ _ => hentered⟩, hout, hnames⟩

/-- A root itself is entered whatever its name. -/
theorem accepted_start {path : Bytes} {place below : List Bytes} (h : ∀ name ∈ below, IsName name) :
    (FileTree.start path place).Accepted (accepts excluded) below
      ↔ (∀ e ∈ excluded, ¬e <+: place ++ below) ∧ ∀ name ∈ below.dropLast, isEntered name = true := by
  cases below with
  | nil =>
    rw [Visit.Accepted, accepts_iff, List.append_nil]
    simp [FileTree.start]
  | cons name below =>
    have hname : ((FileTree.start path place).inside name).name = name :=
      Visit.name_inside _ (h name List.mem_cons_self)
    have hplace : ((FileTree.start path place).inside name).place = place ++ [name] := rfl
    rw [Visit.Accepted, accepts_iff, accepted_inside (fun n hn => h n (List.mem_cons_of_mem _ hn))
      (Nat.succ_ne_zero _) rfl, hname, hplace]
    constructor
    · rintro ⟨-, hout, hnames⟩
      rw [List.append_assoc, List.singleton_append] at hout
      exact ⟨hout, hnames⟩
    · rintro ⟨hout, hnames⟩
      have hout : ∀ e ∈ excluded, ¬e <+: place ++ [name] ++ below := by
        rwa [List.append_assoc, List.singleton_append]
      exact ⟨⟨not_prefix_of_append name hout, fun _ hd => absurd rfl hd⟩, hout, hnames⟩

end

/-! ## what is found -/

/-- the places of the source files below a root -/
def foundFrom (files : FileTree) (directory : Bytes) (roots : List Bytes)
    (options : ScanOptions) (root : Bytes) : List (List Bytes) :=
  ((files.walk (accepts (excludedPlaces files directory roots options.excluded)) directory root).filter
    fun v => PathName.isSource v.path && fitsSize files options.maxBytes v.place).map (·.place)

theorem discover_eq (files : FileTree) (directory : Bytes) (roots : List Bytes) (options : ScanOptions) :
    discover files directory roots options
      = (roots.flatMap (foundFrom files directory roots options)).eraseDups := by
  rw [discover, List.filter_flatMap, List.map_flatMap]
  rfl

section
variable {files : FileTree} {directory : Bytes} {roots : List Bytes} {options : ScanOptions}
  (hplain : files.isPlain = true) (hroots : ∀ root ∈ roots, files.Canonical directory root)
include hplain hroots

/-- What a walk from a root gives is told by the paths of the files. -/
theorem mem_foundFrom {root : Bytes} (hroot : root ∈ roots) {f : List Bytes} :
    f ∈ foundFrom files directory roots options root
      ↔ IsFoundFrom files directory roots options root f := by
  have hcanonical := hroots root hroot
  obtain ⟨-, hpath, -⟩ := hcanonical.spec hplain
  have hvisit (below : List Bytes) :
      ((FileTree.start root (PathName.names root)).along below).place = PathName.names root ++ below :=
    Visit.place_along _ _
  have hsome {g : List Bytes} {content : Bytes} (h : files.at? g = some (.file content)) :
      (files.at? g).isSome = true := by rw [h]; rfl
  rw [foundFrom, List.mem_map]
  constructor
  · rintro ⟨w, hw, rfl⟩
    rw [List.mem_filter, FileTree.mem_walk hplain hcanonical, Bool.and_eq_true] at hw
    obtain ⟨⟨below, content, hat, haccepted, rfl⟩, hsource, hsize⟩ := hw
    have hnames := FileTree.names_of_at? hplain (hsome hat)
    obtain ⟨hout, hentered⟩ :=
      (accepted_start fun n hn => hnames n (List.mem_append_right _ hn)).mp haccepted
    rw [Visit.path_along hpath hnames] at hsource
    rw [hvisit, fitsSize, hat] at hsize
    rw [hvisit]
    refine ⟨⟨below, rfl, fun n hn => isEntered_iff.mp (hentered n hn)⟩,
      ⟨content, hat, of_decide_eq_true hsize⟩, hsource, fun hex => ?_⟩
    obtain ⟨e, he, hp⟩ := (excludedPlaces_iff hplain hroots (hsome hat)).mpr hex
    exact hout e he hp
  · rintro ⟨⟨below, rfl, hentered⟩, ⟨content, hat, hsize⟩, hsource, hincluded⟩
    have hnames := FileTree.names_of_at? hplain (hsome hat)
    refine ⟨_, List.mem_filter.mpr ⟨(FileTree.mem_walk hplain hcanonical).mpr
      ⟨below, content, hat, ?_, rfl⟩, Bool.and_eq_true_iff.mpr ⟨?_, ?_⟩⟩, hvisit below⟩
    · refine (accepted_start fun n hn => hnames n (List.mem_append_right _ hn)).mpr
        ⟨fun e he hp => hincluded ?_, fun n hn => isEntered_iff.mpr (hentered n hn)⟩
      exact (excludedPlaces_iff hplain hroots (hsome hat)).mp ⟨e, he, hp⟩
    · rw [Visit.path_along hpath hnames]
      exact hsource
    · rw [hvisit, fitsSize, hat]
      exact decide_eq_true hsize

theorem mem_discover {f : List Bytes} : f ∈ discover files directory roots options
    ↔ ∃ root ∈ roots, IsFoundFrom files directory roots options root f := by
  rw [discover_eq, List.mem_eraseDups, List.mem_flatMap]
  exact exists_congr fun root => and_congr_right fun hroot => mem_foundFrom hplain hroots hroot

end

theorem nodup_discover (files : FileTree) (directory : Bytes) (roots : List Bytes)
    (options : ScanOptions) : (discover files directory roots options).Nodup := by
  rw [discover_eq]
  exact nodup_eraseDups _

/-- A scan finds just the source files that are found from a root, each once. If one of them is found from
a root, then those before it are found from that root or from an earlier one. -/
theorem discover_exact (files : FileTree) (directory : Bytes) (roots : List Bytes) (options : ScanOptions)
    (hplain : files.isPlain = true) (hroots : ∀ root ∈ roots, files.Canonical directory root) :
    (discover files directory roots options).Nodup
      ∧ (∀ f, f ∈ discover files directory roots options
          ↔ ∃ root ∈ roots, IsFoundFrom files directory roots options root f)
      ∧ (discover files directory roots options).Pairwise fun f g =>
          ∀ earlier root later, roots = earlier ++ root :: later →
            IsFoundFrom files directory roots options root g →
              ∃ r ∈ earlier ++ [root], IsFoundFrom files directory roots options r f := by
  refine ⟨nodup_discover files directory roots options, fun f => mem_discover hplain hroots, ?_⟩
  rw [discover_eq]
  refine (eraseDups_pairwise _).imp ?_
  intro f g h earlier root later hsplit hg
  have hmem : ∀ r ∈ earlier ++ [root], r ∈ roots := fun r hr => by
    rw [hsplit, ← List.singleton_append, ← List.append_assoc]
    exact List.mem_append_left _ hr
  have hparts : roots.flatMap (foundFrom files directory roots options)
      = (earlier ++ [root]).flatMap (foundFrom files directory roots options)
        ++ later.flatMap (foundFrom files directory roots options) := by
    rw [← List.flatMap_append, List.append_assoc, List.singleton_append, ← hsplit]
  have hroot : root ∈ earlier ++ [root] := List.mem_append_right _ (List.mem_singleton_self _)
  obtain ⟨r, hr, hf⟩ := List.mem_flatMap.mp (h _ _ hparts (List.mem_flatMap.mpr
    ⟨root, hroot, (mem_foundFrom hplain hroots (hmem root hroot)).mpr hg⟩))
  exact ⟨r, hr, (mem_foundFrom hplain hroots (hmem r hr)).mp hf⟩

/-- a directory with a file in another one, and with two files in one for the output of builds -/
def built : FileTree :=
  .directory [(.ofString "ws", .directory
    [(.ofString "build", .directory [(.ofString "gen.cpp", .file []), (.ofString "gen.h", .file [])]),
      (.ofString "src", .directory [(.ofString "main.cpp", .file [])])])]

/-- the directory, and then the one for the output -/
def builtRoots : List Bytes :=
  [PathName.ofNames [.ofString "ws"], PathName.ofNames [.ofString "ws", .ofString "build"]]

theorem isPlain_built : built.isPlain = true := by decide

theorem canonical_builtRoots : ∀ root ∈ builtRoots, built.Canonical [] root := by
  intro root hroot
  simp only [builtRoots, List.mem_cons, List.not_mem_nil, or_false] at hroot
  rcases hroot with rfl | rfl
  · exact FileTree.canonical_ofNames isPlain_built (by decide) rfl (by decide)
      (by decide) []
  · exact FileTree.canonical_ofNames isPlain_built (by decide) rfl (by decide)
      (by decide) []

/-- Of what is there, the path excludes the header alone. -/
theorem place_of_isExcluded_built {f : List Bytes}
    (h : IsExcluded built [] builtRoots ⟨10, ["gen.h".toList]⟩ f) :
    [.ofString "ws", .ofString "gen.h"] <+: f
      ∨ [.ofString "ws", .ofString "build", .ofString "gen.h"] <+: f := by
  obtain ⟨path, hpath, place, hprefix, his⟩ := h
  rw [List.mem_singleton.mp hpath, if_neg (by decide)] at his
  obtain ⟨root, hroot, his⟩ := his
  simp only [builtRoots, List.mem_cons, List.not_mem_nil, or_false] at hroot
  rcases hroot with rfl | rfl
  · rw [isPathOf_iff isPlain_built (by decide) (by decide)] at his
    rw [← his] at hprefix
    exact .inl hprefix
  · rw [isPathOf_iff isPlain_built (by decide) (by decide)] at his
    rw [← his] at hprefix
    exact .inr hprefix

/-- What was built is found only as it is in a root of its own. A path that is excluded is read from
there as well. -/
theorem discover_exact_built : let options : ScanOptions := ⟨10, ["gen.h".toList]⟩
    built.isPlain = true ∧ (∀ root ∈ builtRoots, built.Canonical [] root)
      ∧ [.ofString "ws", .ofString "src", .ofString "main.cpp"] ∈ discover built [] builtRoots options
      ∧ [.ofString "ws", .ofString "build", .ofString "gen.cpp"] ∈ discover built [] builtRoots options
      ∧ [.ofString "ws", .ofString "build", .ofString "gen.h"] ∉ discover built [] builtRoots options
      ∧ [.ofString "ws", .ofString "build", .ofString "gen.cpp"]
          ∉ discover built [] [PathName.ofNames [.ofString "ws"]] options := by
  intro options
  have hone : ∀ root ∈ [PathName.ofNames [.ofString "ws"]], built.Canonical [] root := fun root h =>
    canonical_builtRoots root (List.mem_cons.mpr (.inl (List.mem_singleton.mp h)))
  obtain ⟨-, hfound, -⟩ := discover_exact built [] builtRoots options isPlain_built canonical_builtRoots
  obtain ⟨-, hfoundOne, -⟩ := discover_exact built [] _ options isPlain_built hone
  refine ⟨isPlain_built, canonical_builtRoots, (hfound _).mpr ⟨_, List.mem_cons_self, ?_⟩,
    (hfound _).mpr ⟨_, List.mem_cons_of_mem _ List.mem_cons_self, ?_⟩, fun hm => ?_, fun hm => ?_⟩
  · refine ⟨⟨[.ofString "src", .ofString "main.cpp"], rfl, fun name hname => ?_⟩,
      ⟨[], rfl, Nat.zero_le _⟩, by decide, fun h => ?_⟩
    · exact ⟨"src".toList, List.mem_singleton.mp hname, by decide⟩
    · rcases place_of_isExcluded_built h with h | h <;> revert h <;> decide
  · refine ⟨⟨[.ofString "gen.cpp"], rfl, nofun⟩, ⟨[], rfl, Nat.zero_le _⟩, by decide,
      fun h => ?_⟩
    rcases place_of_isExcluded_built h with h | h <;> revert h <;> decide
  · obtain ⟨root, hroot, h⟩ := (hfound _).mp hm
    refine h.included ⟨_, List.mem_singleton_self _, _, List.prefix_rfl, ?_⟩
    rw [if_neg (by decide)]
    exact ⟨_, List.mem_cons_of_mem _ List.mem_cons_self,
      (isPathOf_iff isPlain_built (by decide) (by decide)).mpr (by decide)⟩
  · obtain ⟨root, hroot, h⟩ := (hfoundOne _).mp hm
    obtain ⟨below, hbelow, hentered⟩ := h.inside
    have hnames : PathName.names root = [.ofString "ws"] := by
      rw [List.mem_singleton.mp hroot]
      decide
    rw [hnames] at hbelow
    have hrest : [.ofString "build", .ofString "gen.cpp"] = below := (List.cons.inj hbelow).2
    rw [← hrest] at hentered
    obtain ⟨t, ht, hhidden⟩ := hentered (.ofString "build") List.mem_cons_self
    rw [← Bytes.ofText_inj.mp ht] at hhidden
    exact absurd hhidden (by decide)

/-- a source file in a directory whose name is no text -/
def unnamed : FileTree :=
  .directory [(.ofString "ws", .directory [([0xff], .directory [(.ofString "main.cpp", .file [])])])]

/-- a source file in a directory -/
def named : FileTree :=
  .directory [(.ofString "ws",
    .directory [(.ofString "a", .directory [(.ofString "main.cpp", .file [])])])]

/-- the directory that holds all of them -/
def workspaceRoot : Bytes := PathName.ofNames [.ofString "ws"]

theorem text?_ff : Bytes.text? [0xff] = none := by
  have hlead : Bytes.lead? (0xff : UInt8).toNat = none := rfl
  have hnil : Bytes.characters [] = [] := by rw [Bytes.characters]
  rw [Bytes.text?, Bytes.characters_cons, hlead]
  simp [hnil]

/-- There is nothing that the path could lead upwards from. -/
theorem resolve_gone : named.resolve [] (PathName.join workspaceRoot (.ofString "gone/../a"))
    = .error .missing := by
  have hpieces : Text.pieces (· = PathName.slash)
      (PathName.join [] (PathName.join workspaceRoot (.ofString "gone/../a")))
      = [[], Bytes.ofString "ws", Bytes.ofString "gone", PathName.upwards, Bytes.ofString "a"] := by
    decide
  rw [FileTree.resolve, if_neg (by decide), if_neg (by decide), hpieces]
  simp +decide [FileTree.follow, named, FileTree.at?, FileTree.child?]

theorem names_workspaceRoot : PathName.names workspaceRoot = [.ofString "ws"] := by decide

theorem canonical_workspaceRoot {files : FileTree} (hplain : files.isPlain = true)
    (h : (files.at? [.ofString "ws"]).isSome = true) : files.Canonical [] workspaceRoot :=
  FileTree.canonical_ofNames hplain (by decide) h (by decide) (by decide) []

theorem not_mem_discover_unnamed (hplain : unnamed.isPlain = true) :
    [Bytes.ofString "ws", [0xff], Bytes.ofString "main.cpp"]
      ∉ discover unnamed [] [workspaceRoot] ⟨10, []⟩ := by
  intro hm
  obtain ⟨root, hroot, hfound⟩ := (mem_discover hplain
    (List.forall_mem_singleton.mpr (canonical_workspaceRoot hplain rfl))).mp hm
  obtain ⟨below, hbelow, hentered⟩ := hfound.inside
  rw [List.mem_singleton.mp hroot, names_workspaceRoot] at hbelow
  have hrest : [[0xff], Bytes.ofString "main.cpp"] = below := (List.cons.inj hbelow).2
  rw [← hrest] at hentered
  obtain ⟨t, ht, -⟩ := hentered [0xff] List.mem_cons_self
  rw [← Bytes.text?_eq_some_iff, text?_ff] at ht
  cases ht

theorem mem_discover_named (hplain : named.isPlain = true) :
    [.ofString "ws", .ofString "a", .ofString "main.cpp"]
      ∈ discover named [] [workspaceRoot] ⟨10, ["gone/../a".toList]⟩ := by
  refine (mem_discover hplain
    (List.forall_mem_singleton.mpr (canonical_workspaceRoot hplain rfl))).mpr
    ⟨_, List.mem_singleton_self _, ?_⟩
  refine ⟨⟨[.ofString "a", .ofString "main.cpp"], by rw [names_workspaceRoot]; rfl,
    fun name hname => ?_⟩, ⟨[], rfl, Nat.zero_le _⟩, by decide, ?_⟩
  · exact ⟨['a'], List.mem_singleton.mp hname, by decide⟩
  · rintro ⟨path, hpath, place, hprefix, his⟩
    rw [List.mem_singleton.mp hpath, if_neg (by decide)] at his
    obtain ⟨root, hroot, his⟩ := his
    rw [List.mem_singleton.mp hroot] at his
    rcases his with his | his
    · have hgone := resolve_gone
      rw [Bytes.ofString, his] at hgone
      cases hgone
    · rw [← his] at hprefix
      revert hprefix
      decide

/-- A directory whose name is no text is not entered, though it is neither hidden nor one of those where
builds leave their output. And an excluded path that leads nowhere is read as it is spelled, so that a
file is found though the path leads upwards from a directory that is missing to the one of the file. -/
theorem not_always_discovered :
    (unnamed.isPlain = true ∧ unnamed.Canonical [] workspaceRoot
      ∧ unnamed.at? [.ofString "ws", [0xff], .ofString "main.cpp"] = some (.file [])
      ∧ ([0xff] : Bytes).head? ≠ some PathName.dot ∧ [0xff] ∉ outputNames.map Bytes.ofString
      ∧ [Bytes.ofString "ws", [0xff], Bytes.ofString "main.cpp"]
        ∉ discover unnamed [] [workspaceRoot] ⟨10, []⟩)
    ∧ named.isPlain = true ∧ named.Canonical [] workspaceRoot
      ∧ [.ofString "ws", .ofString "a", .ofString "main.cpp"]
        ∈ discover named [] [workspaceRoot] ⟨10, ["gone/../a".toList]⟩ := by
  have hunnamed : unnamed.isPlain = true := by decide
  have hnamed : named.isPlain = true := by decide
  exact ⟨⟨hunnamed, canonical_workspaceRoot hunnamed rfl, rfl, by decide, by decide,
    not_mem_discover_unnamed hunnamed⟩, hnamed, canonical_workspaceRoot hnamed rfl,
    mem_discover_named hnamed⟩

end Workspace

end CppMend
