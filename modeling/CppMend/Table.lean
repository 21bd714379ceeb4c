/-!
# Tables

A `Table` gives each of some keys one value. It lists its keys in the order in which they last got
their values.

* `find?`, `contains`   the value of a key;
* `insert`, `erase`     give a key a value, and take it away;
* `map`                 changes the values;
* `find?_insert`, `find?_erase`   what that does to every key.
-/

namespace CppMend

structure Table (κ α : Type) where
  entries : List (κ × α)
  /-- a key has one value -/
  distinct : (entries.map Prod.fst).Nodup

namespace Table

variable {κ α : Type}

def empty : Table κ α := ⟨[], List.nodup_nil⟩

instance : Inhabited (Table κ α) := ⟨empty⟩

def keys (t : Table κ α) : List κ := t.entries.map Prod.fst

def size (t : Table κ α) : Nat := t.entries.length

def isEmpty (t : Table κ α) : Bool := t.entries.isEmpty

@[simp] theorem keys_empty : (empty : Table κ α).keys = [] := rfl

/-- the same keys with other values -/
def map {β : Type} (f : α → β) (t : Table κ α) : Table κ β where
  entries := t.entries.map fun (k, a) => (k, f a)
  distinct := by
    rw [List.map_map]
    exact t.distinct

@[simp] theorem keys_map {β : Type} (f : α → β) (t : Table κ α) : (t.map f).keys = t.keys := by
  rw [keys, map, List.map_map]
  rfl

variable [DecidableEq κ]

def find? (t : Table κ α) (k : κ) : Option α :=
  (t.entries.find? (·.1 = k)).map Prod.snd

def contains (t : Table κ α) (k : κ) : Bool := (t.find? k).isSome

def erase (t : Table κ α) (k : κ) : Table κ α where
  entries := t.entries.filter (·.1 ≠ k)
  distinct := t.distinct.sublist (List.filter_sublist.map _)

def insert (t : Table κ α) (k : κ) (a : α) : Table κ α where
  entries := (t.erase k).entries ++ [(k, a)]
  distinct := by
    rw [List.map_append, List.nodup_append]
    refine ⟨(t.erase k).distinct, by simp, ?_⟩
    intro x hx y hy
    obtain ⟨e, he, rfl⟩ := List.mem_map.mp hx
    have := (List.mem_filter.mp he).2
    simp_all

/-! ## what the operations do -/

@[simp] theorem find?_empty (k : κ) : (empty : Table κ α).find? k = none := rfl

theorem find?_erase (t : Table κ α) (k x : κ) :
    (t.erase k).find? x = if x = k then none else t.find? x := by
  simp only [find?, erase, List.find?_filter]
  by_cases h : x = k
  · subst h
    simp
  · rw [if_neg h]
    congr 2
    funext e
    by_cases hx : e.1 = x <;> simp_all

theorem find?_insert (t : Table κ α) (k x : κ) (a : α) :
    (t.insert k a).find? x = if x = k then some a else t.find? x := by
  have he := find?_erase t k x
  simp only [find?, insert, List.find?_append] at he ⊢
  by_cases h : x = k
  · subst h
    rw [if_pos rfl, Option.map_eq_none_iff] at he
    simp [he]
  · have : ¬k = x := fun e => h e.symm
    simp_all

theorem find?_eq_some_iff (t : Table κ α) (k : κ) (a : α) :
    t.find? k = some a ↔ (k, a) ∈ t.entries := by
  have hd := t.distinct
  unfold find?
  generalize t.entries = es at hd
  induction es with
  | nil => simp
  | cons e es ih =>
    obtain ⟨x, b⟩ := e
    rw [List.map_cons, List.nodup_cons] at hd
    by_cases h : x = k
    · subst h
      have : (x, a) ∉ es := fun hm => hd.1 (List.mem_map.mpr ⟨_, hm, rfl⟩)
      simp [this, eq_comm]
    · have : ¬k = x := fun e => h e.symm
      simp [h, this, ih hd.2]

@[simp] theorem find?_map {β : Type} (f : α → β) (t : Table κ α) (k : κ) :
    (t.map f).find? k = (t.find? k).map f := by
  rw [find?, map, List.find?_map, Option.map_map, find?, Option.map_map]
  rfl

theorem contains_eq_true_iff (t : Table κ α) (k : κ) : t.contains k = true ↔ k ∈ t.keys := by
  rw [contains, Option.isSome_iff_exists]
  simp only [find?_eq_some_iff, keys, List.mem_map, Prod.exists, exists_and_right, exists_eq_right]

theorem mem_keys_insert (t : Table κ α) (k x : κ) (a : α) :
    x ∈ (t.insert k a).keys ↔ x = k ∨ x ∈ t.keys := by
  rw [← contains_eq_true_iff, ← contains_eq_true_iff, contains, contains, find?_insert]
  split <;> simp_all

end Table

end CppMend
