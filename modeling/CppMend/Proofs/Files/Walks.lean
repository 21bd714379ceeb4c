import CppMend.Files.Walk
import CppMend.Proofs.Files.Plain
import Mathlib.Data.List.TakeWhile

/-!
# What a walk visits

A walk does not go into a directory that is refused. So in a tree without links it visits just those
files for which nothing on the way is refused.

* `Visit.along`            the visit some names further on;
* `Visit.Accepted`         nothing on the way there is refused;
* `FileTree.mem_walkAt`    the files that a walk visits from a visit on;
* `FileTree.mem_walk`      those that it visits below a path.
-/

namespace CppMend

open PathName (IsName)

namespace Visit

def along (v : Visit) (below : List Bytes) : Visit := below.foldl inside v

/-- The directories on the way are accepted, and so is the end. -/
def Accepted (accept : Visit → Bool) : Visit → List Bytes → Prop
  | v, [] => accept v = true
  | v, name :: below =>
    accept { v with isDirectory := true } = true ∧ Accepted accept (v.inside name) below

theorem along_cons (v : Visit) (name : Bytes) (below : List Bytes) :
    v.along (name :: below) = (v.inside name).along below := rfl

theorem name_inside (v : Visit) {name : Bytes} (h : IsName name) : (v.inside name).name = name := by
  have hslash : ∀ c ∈ name.reverse, decide (c ≠ PathName.slash) = true := fun c hc =>
    decide_eq_true fun he => h.2 (he ▸ List.mem_reverse.mp hc)
  have htake : (name.reverse ++ PathName.slash :: v.path.reverse).takeWhile (· ≠ PathName.slash)
      = name.reverse := by
    rw [List.takeWhile_append_of_pos hslash, List.takeWhile_cons_of_neg (by simp), List.append_nil]
  have hwhole : name.reverse.takeWhile (· ≠ PathName.slash) = name.reverse :=
    List.takeWhile_eq_self_iff.mpr hslash
  show ((PathName.join v.path name).reverse.takeWhile (· ≠ PathName.slash)).reverse = name
  rw [PathName.join, if_neg (by rw [h.isAbsolute]; exact Bool.false_ne_true)]
  split
  · next hend =>
    rcases hend with hend | hempty
    · obtain ⟨front, hfront⟩ := List.getLast?_eq_some_iff.mp hend
      rw [hfront, List.reverse_append, List.reverse_append, List.reverse_singleton,
        List.takeWhile_append_of_pos hslash]
      simp
    · rw [List.isEmpty_iff.mp hempty, List.nil_append, hwhole, List.reverse_reverse]
  · rw [List.reverse_append, List.reverse_cons, List.append_assoc, List.singleton_append, htake,
      List.reverse_reverse]

theorem place_along (v : Visit) (below : List Bytes) : (v.along below).place = v.place ++ below := by
  induction below generalizing v with
  | nil => rw [List.append_nil]; rfl
  | cons name below ih =>
    rw [along_cons, ih]
    show v.place ++ [name] ++ below = _
    rw [List.append_assoc, List.singleton_append]

/-- The path of a walk stays the one of the place. -/
theorem path_along {v : Visit} (hv : v.path = PathName.ofNames v.place) {below : List Bytes}
    (h : ∀ name ∈ v.place ++ below, IsName name) :
    (v.along below).path = PathName.ofNames (v.place ++ below) := by
  induction below generalizing v with
  | nil => rw [List.append_nil]; exact hv
  | cons name below ih =>
    have hinside : (v.inside name).path = PathName.ofNames (v.inside name).place := by
      show PathName.join v.path name = PathName.ofNames (v.place ++ [name])
      rw [hv, PathName.join_ofNames (fun n hn => h n (List.mem_append_left _ hn)) (h name (by simp))]
    have happend : (v.inside name).place ++ below = v.place ++ name :: below := by
      show v.place ++ [name] ++ below = _
      rw [List.append_assoc, List.singleton_append]
    rw [along_cons, ih hinside (by rwa [happend]), happend]

end Visit

namespace FileTree

section
variable {accept : Visit → Bool} {onLink : List (List Bytes) → Visit → Bytes → List Visit} {w : Visit}

/-- what the names lead to from a visit of something, if that is a file and nothing is refused -/
def Reaches (accept : Visit → Bool) (v : Visit) (t : FileTree) (w : Visit) : Prop :=
  ∃ below content, t.at? below = some (.file content) ∧ v.Accepted accept below ∧ w = v.along below

theorem reaches_directory {v : Visit} {entries : Entries} : Reaches accept v (directory entries) w
    ↔ accept { v with isDirectory := true } = true
      ∧ ∃ name t, entries.lookup name = some t ∧ Reaches accept (v.inside name) t w := by
  constructor
  · rintro ⟨below, content, hat, haccepted, hw⟩
    cases below with
    | nil => cases hat
    | cons name below =>
      rw [at?, Option.bind_eq_some_iff] at hat
      obtain ⟨t, ht, hat⟩ := hat
      exact ⟨haccepted.1, name, t, ht, below, content, hat, haccepted.2, hw⟩
  · rintro ⟨hv, name, t, ht, below, content, hat, haccepted, hw⟩
    refine ⟨name :: below, content, ?_, ⟨hv, haccepted⟩, hw⟩
    rw [at?, Option.bind_eq_some_iff]
    exact ⟨t, ht, hat⟩

theorem lookup_of_mem {entries : Entries} (h : (entries.map Prod.fst).Nodup) {name : Bytes} {t : FileTree}
    (hm : (name, t) ∈ entries) : entries.lookup name = some t := by
  induction entries with
  | nil => cases hm
  | cons e rest ih =>
    rw [List.map_cons, List.nodup_cons] at h
    rcases List.mem_cons.mp hm with rfl | hm
    · exact List.lookup_cons_self
    · have hne : (name == e.1) = false := beq_eq_false_iff_ne.mpr fun he =>
        h.1 (he ▸ List.mem_map_of_mem hm)
      rw [List.lookup_cons, hne]
      exact ih h.2 hm

mutual

/-- A walk visits just the files to which nothing on the way is refused. -/
theorem mem_walkAt (around : List (List Bytes)) : ∀ (v : Visit) (t : FileTree), t.isPlain = true →
    (w ∈ walkAt accept onLink around v t ↔ Reaches accept v t w)
  | v, .file content, _ => by
    rw [walkAt]
    constructor
    · intro hw
      split at hw
      · next hv =>
        rw [List.mem_singleton] at hw
        exact ⟨[], content, rfl, hv, hw⟩
      · cases hw
    · rintro ⟨below, c, hat, haccepted, rfl⟩
      cases below with
      | nil =>
        have hv : accept v = true := haccepted
        rw [if_pos hv]
        exact List.mem_singleton_self _
      | cons name below => cases hat
  | v, .link target, h => by cases h
  | v, .directory entries, h => by
    obtain ⟨hdistinct, hall⟩ := isPlain_directory.mp h
    rw [walkAt, reaches_directory]
    split
    · next hv =>
      rw [and_iff_right hv, mem_walkIn _ { v with isDirectory := true } entries hall]
      constructor
      · rintro ⟨name, t, hm, hw⟩
        exact ⟨name, t, lookup_of_mem hdistinct hm, hw⟩
      · rintro ⟨name, t, ht, hw⟩
        exact ⟨name, t, mem_of_lookup ht, hw⟩
    · next hv => exact iff_of_false List.not_mem_nil fun hw => hv hw.1

theorem mem_walkIn (around : List (List Bytes)) : ∀ (v : Visit) (entries : List (Bytes × FileTree)),
    (∀ e ∈ entries, IsName e.1 ∧ e.2.isPlain = true) → (w ∈ walkIn accept onLink around v entries
      ↔ ∃ name t, (name, t) ∈ entries ∧ Reaches accept (v.inside name) t w)
  | v, [], _ => by
    rw [walkIn]
    refine iff_of_false List.not_mem_nil ?_
    rintro ⟨_, _, hm, -⟩
    cases hm
  | v, (name, t) :: rest, h => by
    rw [walkIn, List.mem_append, mem_walkAt around (v.inside name) t (h _ List.mem_cons_self).2,
      mem_walkIn around v rest fun e he => h e (List.mem_cons_of_mem _ he)]
    constructor
    · rintro (hw | ⟨n, u, hm, hw⟩)
      · exact ⟨name, t, List.mem_cons_self, hw⟩
      · exact ⟨n, u, List.mem_cons_of_mem _ hm, hw⟩
    · rintro ⟨n, u, hm, hw⟩
      rcases List.mem_cons.mp hm with heq | hm
      · cases heq
        exact .inl hw
      · exact .inr ⟨n, u, hm, hw⟩

end

end

/-- what a walk sees of the place where it starts -/
def start (path : Bytes) (place : List Bytes) : Visit := ⟨path, place, 0, false⟩

/-- The files that a walk visits from a path that is the one of its place. -/
theorem mem_walk {files : FileTree} (hplain : files.isPlain = true) {directory path : Bytes}
    (h : files.Canonical directory path) {accept : Visit → Bool} {w : Visit} :
    w ∈ files.walk accept directory path ↔ ∃ below content,
      files.at? (PathName.names path ++ below) = some (.file content)
        ∧ (start path (PathName.names path)).Accepted accept below
        ∧ w = (start path (PathName.names path)).along below := by
  obtain ⟨hresolve, -, -⟩ := h.spec hplain
  rw [walk, walkPath, hresolve]
  simp only [List.contains_nil, Bool.false_eq_true, if_false, at?_append]
  cases ht : files.at? (PathName.names path) with
  | none =>
    refine iff_of_false List.not_mem_nil ?_
    rintro ⟨below, content, hat, -⟩
    cases hat
  | some t => exact mem_walkAt _ _ t (isPlain_of_at? hplain ht).1

end FileTree

end CppMend
