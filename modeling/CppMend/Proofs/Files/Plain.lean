import CppMend.Files.Tree
import Mathlib.Data.List.Induction
import Mathlib.Data.List.Infix
import Mathlib.Data.List.Nodup

/-!
# Files without links

In a tree without links a place has one path, and a path that leads nowhere upwards leads to the place
that its names spell.

* `PathName.names_ofNames`       the path of a place has the names of the place;
* `FileTree.isPlain`             a tree without links, in which every name is one of a file;
* `FileTree.names_of_at?`        what leads to something in there are names of files;
* `FileTree.resolve_of_plain`    where a path leads that has no dots;
* `FileTree.Canonical`           a path that is the one of the place where it leads;
* `FileTree.canonical_ofNames`   every place has such a path.
-/

namespace CppMend

namespace PathName

/-- some bytes that may be the name of a file -/
def IsName (name : Bytes) : Prop := name ∉ [[], here, upwards] ∧ slash ∉ name

instance (name : Bytes) : Decidable (IsName name) := inferInstanceAs (Decidable (_ ∧ _))

theorem IsName.ne_nil {name : Bytes} (h : IsName name) : name ≠ [] := fun he => h.1 (by simp [he])

theorem IsName.ne_upwards {name : Bytes} (h : IsName name) : name ≠ upwards :=
  fun he => h.1 (by simp [he])

/-- the name is one that says something -/
theorem IsName.kept {name : Bytes} (h : IsName name) : (name ≠ [] && name ≠ here) = true := by
  have hhere : name ≠ here := fun he => h.1 (by simp [he])
  simp [h.ne_nil, hhere]

variable {place : List Bytes}

theorem pieces_ofNames (hne : place ≠ []) (h : ∀ name ∈ place, IsName name) :
    Text.pieces (· = slash) (ofNames place) = [] :: place := by
  rw [ofNames, if_neg (by rwa [List.isEmpty_iff])]
  refine @Text.pieces_flatMap UInt8 (· = slash) slash (decide_eq_true rfl) place ?_
  refine fun s hs c hc => decide_eq_false fun he => ?_
  exact (h s hs).2 (he ▸ hc)

theorem names_ofNames (h : ∀ name ∈ place, IsName name) : names (ofNames place) = place := by
  by_cases hne : place = []
  · rw [hne]
    rfl
  · rw [names, pieces_ofNames hne h, List.filter_cons_of_neg (by simp), List.filter_eq_self]
    exact fun name hn => (h name hn).kept

theorem isAbsolute_ofNames (place : List Bytes) : isAbsolute (ofNames place) = true := by
  cases place <;> rfl

theorem isAbsolute_join {directory : Bytes} (h : isAbsolute directory = true) (path : Bytes) :
    isAbsolute (join directory path) = true := by
  obtain ⟨rest, rfl⟩ : ∃ rest, directory = slash :: rest := by
    cases directory with
    | nil => cases h
    | cons c rest => exact ⟨rest, by rw [isAbsolute, List.head?_cons] at h; simpa using h⟩
  rw [join]
  split
  · assumption
  · split <;> rfl

theorem join_of_isAbsolute {path : Bytes} (h : isAbsolute path = true) (directory : Bytes) :
    join directory path = path := if_pos h

theorem IsName.isAbsolute {name : Bytes} (h : IsName name) : PathName.isAbsolute name = false := by
  refine decide_eq_false fun he => h.2 ?_
  exact List.mem_of_head? he

/-- The path of a place and a name are the path of what has the name in there. -/
theorem join_ofNames (h : ∀ name ∈ place, IsName name) {name : Bytes} (hname : IsName name) :
    join (ofNames place) name = ofNames (place ++ [name]) := by
  rw [join, if_neg (by rw [hname.isAbsolute]; exact Bool.false_ne_true)]
  cases place using List.reverseRecOn with
  | nil =>
    show slash :: name = slash :: name ++ []
    rw [List.append_nil]
  | append_singleton front last =>
    have hlast : IsName last := h last (by simp)
    obtain ⟨init, c, hc⟩ := List.eq_nil_or_concat last |>.resolve_left hlast.ne_nil
    rw [List.concat_eq_append] at hc
    -- the path does not end with a slash, as the last name has none
    have hslash : c ≠ slash := fun he => hlast.2 (by simp [hc, he])
    have hpath : ofNames (front ++ [last]) = front.flatMap (slash :: ·) ++ slash :: init ++ [c] := by
      simp [ofNames, hc]
    rw [if_neg (by rw [hpath, List.getLast?_concat]; simp [hslash])]
    simp [ofNames]

end PathName

namespace FileTree

open PathName (IsName)

mutual

/-- There are no links, and the names in a directory are different names of files. -/
def isPlain : FileTree → Bool
  | file _ => true
  | link _ => false
  | directory entries => decide (entries.map Prod.fst).Nodup && isPlainIn entries

def isPlainIn : List (Bytes × FileTree) → Bool
  | [] => true
  | (name, t) :: rest => decide (IsName name) && t.isPlain && isPlainIn rest

end

theorem isPlainIn_iff {entries : Entries} : isPlainIn entries = true
    ↔ ∀ e ∈ entries, IsName e.1 ∧ e.2.isPlain = true := by
  induction entries with
  | nil => simp [isPlainIn]
  | cons e rest ih => simp [isPlainIn, ih]

theorem isPlain_directory {entries : Entries} : (directory entries).isPlain = true
    ↔ (entries.map Prod.fst).Nodup ∧ ∀ e ∈ entries, IsName e.1 ∧ e.2.isPlain = true := by
  rw [isPlain, Bool.and_eq_true, decide_eq_true_iff, isPlainIn_iff]

theorem mem_of_lookup {entries : Entries} {name : Bytes} {t : FileTree}
    (h : entries.lookup name = some t) : (name, t) ∈ entries := by
  obtain ⟨before, after, rfl, -⟩ := List.lookup_eq_some_iff.mp h
  exact List.mem_append_right _ List.mem_cons_self

theorem at?_append (p q : List Bytes) (t : FileTree) : t.at? (p ++ q) = (t.at? p).bind (at? q) := by
  induction p generalizing t with
  | nil => rfl
  | cons name p ih =>
    rw [List.cons_append, at?, at?]
    cases t.child? name with
    | none => rfl
    | some u => exact ih u

theorem at?_concat (p : List Bytes) (name : Bytes) (t : FileTree) :
    t.at? (p ++ [name]) = (t.at? p).bind (child? name) := by
  rw [at?_append]
  congr 1
  funext u
  rw [at?]
  cases u.child? name <;> rfl

/-- What is at a place of a plain tree is plain, and names of files lead there. -/
theorem isPlain_of_at? {t u : FileTree} {p : List Bytes} (ht : t.isPlain = true) (h : t.at? p = some u) :
    u.isPlain = true ∧ ∀ name ∈ p, IsName name := by
  induction p generalizing t with
  | nil =>
    cases h
    exact ⟨ht, nofun⟩
  | cons name p ih =>
    rw [at?, Option.bind_eq_some_iff] at h
    obtain ⟨v, hv, h⟩ := h
    cases t with
    | file _ | link _ => cases hv
    | directory entries =>
      obtain ⟨hname, hplain⟩ := (isPlain_directory.mp ht).2 _ (mem_of_lookup hv)
      obtain ⟨hu, hp⟩ := ih hplain h
      exact ⟨hu, List.forall_mem_cons.mpr ⟨hname, hp⟩⟩

theorem names_of_at? {t : FileTree} {p : List Bytes} (ht : t.isPlain = true)
    (h : (t.at? p).isSome = true) : ∀ name ∈ p, IsName name := by
  obtain ⟨u, hu⟩ := Option.isSome_iff_exists.mp h
  exact (isPlain_of_at? ht hu).2

theorem isSome_at?_prefix {t : FileTree} {p q : List Bytes} (hp : p <+: q)
    (h : (t.at? q).isSome = true) : (t.at? p).isSome = true := by
  obtain ⟨r, rfl⟩ := hp
  rw [at?_append] at h
  exact Option.isSome_of_isSome_bind h

/-! ## where paths lead -/

/-- Names are followed to a place where there is something. If none of them leads upwards, those that
say something are the way there. -/
theorem follow_of_plain {root : FileTree} (hroot : root.isPlain = true) {links : Nat}
    {place q names : List Bytes} (hplace : (root.at? place).isSome = true)
    (h : root.follow links place names = .ok q) : (root.at? q).isSome = true
      ∧ (PathName.upwards ∉ names →
        q = place ++ names.filter fun name => name ≠ [] && name ≠ PathName.here) := by
  induction names generalizing place with
  | nil =>
    rw [follow] at h
    cases h
    exact ⟨hplace, fun _ => by rw [List.filter_nil, List.append_nil]⟩
  | cons name names ih =>
    rw [follow] at h
    split at h
    case h_2 | h_3 => cases h
    case h_1 entries hentries =>
      split at h
      · next hsilent =>
        -- the name is empty or a dot
        obtain ⟨hq, hway⟩ := ih hplace h
        refine ⟨hq, fun hup => ?_⟩
        rw [hway fun hm => hup (List.mem_cons_of_mem _ hm),
          List.filter_cons_of_neg (by simpa using fun hne : name ≠ [] => hsilent.resolve_left hne)]
      · next hsays =>
        split at h
        · next hup =>
          have hbefore : (root.at? place.dropLast).isSome = true :=
            isSome_at?_prefix (List.dropLast_prefix place) hplace
          refine ⟨(ih hbefore h).1, fun hno => ?_⟩
          rw [hup] at hno
          exact absurd List.mem_cons_self hno
        · split at h
          · cases h
          · have hsame : root.at? (place ++ [name]) = entries.lookup name := by
              rw [at?_concat, hentries]
              rfl
            split at h
            · cases h
            · next target hlink =>
              obtain ⟨hplain, -⟩ := isPlain_of_at? hroot (hsame.trans hlink)
              cases hplain
            · next t _ ht =>
              obtain ⟨hq, hway⟩ := ih (by rw [hsame, ht]; rfl) h
              refine ⟨hq, fun hup => ?_⟩
              rw [hway fun hm => hup (List.mem_cons_of_mem _ hm),
                List.filter_cons_of_pos (by simpa using hsays), List.append_assoc]
              rfl

variable {files : FileTree} {directory path : Bytes} {place : List Bytes}

theorem isSome_at?_resolve (hplain : files.isPlain = true)
    (h : files.resolve directory path = .ok place) : (files.at? place).isSome = true := by
  rw [resolve] at h
  split at h
  · cases h
  · split at h
    · cases h
    · exact (follow_of_plain hplain rfl h).1

/-- A path that leads nowhere upwards leads to the place that it spells, if anywhere. -/
theorem resolve_of_plain (hplain : files.isPlain = true)
    (h : files.resolve directory path = .ok place) (habsolute : PathName.isAbsolute path = true)
    (hup : PathName.upwards ∉ PathName.names path) : place = PathName.names path := by
  rw [resolve, PathName.join_of_isAbsolute habsolute] at h
  have hpieces : PathName.upwards ∉ Text.pieces (· = PathName.slash) path := fun hm =>
    hup (List.mem_filter.mpr ⟨hm, rfl⟩)
  split at h
  · cases h
  · split at h
    · cases h
    · exact (follow_of_plain hplain rfl h).2 hpieces

/-- The path is the one of the place where it leads. -/
def Canonical (files : FileTree) (directory path : Bytes) : Prop :=
  ∃ place, files.resolve directory path = .ok place ∧ path = PathName.ofNames place

/-- Such a path has the names of the place. -/
theorem Canonical.spec (hplain : files.isPlain = true) (h : files.Canonical directory path) :
    files.resolve directory path = .ok (PathName.names path)
      ∧ path = PathName.ofNames (PathName.names path)
      ∧ ∀ name ∈ PathName.names path, IsName name := by
  obtain ⟨place, hresolve, rfl⟩ := h
  have hnames := names_of_at? hplain (isSome_at?_resolve hplain hresolve)
  rw [PathName.names_ofNames hnames]
  exact ⟨hresolve, rfl, hnames⟩

/-- Names of files that lead somewhere are followed there, if none is too long. -/
theorem follow_of_at? {root : FileTree} (hroot : root.isPlain = true) (links : Nat) {names : List Bytes}
    (hlong : ∀ name ∈ names, name.length ≤ nameLimit)
    (h : (root.at? (place ++ names)).isSome = true) :
    root.follow links place names = .ok (place ++ names) := by
  induction names generalizing place with
  | nil => rw [follow, List.append_nil]
  | cons name names ih =>
    have hbefore : (root.at? (place ++ [name])).isSome = true :=
      isSome_at?_prefix ⟨names, by rw [List.append_assoc, List.singleton_append]⟩ h
    have hname : IsName name := names_of_at? hroot h name (by simp)
    have hhere : name ≠ PathName.here := fun he => hname.1 (by simp [he])
    obtain ⟨t, ht⟩ := Option.isSome_iff_exists.mp hbefore
    have hlookup := ht
    rw [at?_concat, Option.bind_eq_some_iff] at hlookup
    obtain ⟨d, hd, hlookup⟩ := hlookup
    cases d with
    | file _ | link _ => cases hlookup
    | directory entries =>
      have hlookup : entries.lookup name = some t := hlookup
      have hrest : root.follow links (place ++ [name]) names = .ok (place ++ [name] ++ names) :=
        ih (fun n hn => hlong n (List.mem_cons_of_mem _ hn))
          (by rwa [List.append_assoc, List.singleton_append])
      rw [List.append_assoc, List.singleton_append] at hrest
      rw [follow, hd]
      simp only [hname.ne_nil, hhere, hname.ne_upwards, or_self, if_false,
        Nat.not_lt.mpr (hlong name List.mem_cons_self), hlookup]
      cases t with
      | link target => cases (isPlain_of_at? hroot ht).1
      | file _ | directory _ => exact hrest

/-- Places have paths that are theirs, as long as these may be. -/
theorem canonical_ofNames (hplain : files.isPlain = true) (hne : place ≠ [])
    (h : (files.at? place).isSome = true) (hlong : ∀ name ∈ place, name.length ≤ nameLimit)
    (hpath : (PathName.ofNames place).length ≤ pathLimit) (directory : Bytes) :
    files.Canonical directory (PathName.ofNames place) := by
  have hnames := names_of_at? hplain h
  have hnonempty : (PathName.ofNames place).isEmpty = false := by
    rw [PathName.ofNames, if_neg (by rwa [List.isEmpty_iff])]
    obtain ⟨name, names, rfl⟩ := List.exists_cons_of_ne_nil hne
    rfl
  refine ⟨place, ?_, rfl⟩
  rw [resolve, hnonempty, if_neg Bool.false_ne_true, if_neg (Nat.not_lt.mpr hpath),
    PathName.join_of_isAbsolute (PathName.isAbsolute_ofNames _), PathName.pieces_ofNames hne hnames]
  -- the first slash stays in the directory that holds everything
  cases files with
  | link _ => cases hplain
  | file _ =>
    obtain ⟨name, names, rfl⟩ := List.exists_cons_of_ne_nil hne
    cases h
  | directory entries =>
    rw [follow]
    have hfollow := @follow_of_at? [] (.directory entries) hplain linkLimit place hlong h
    rwa [List.nil_append] at hfollow

end FileTree

end CppMend
