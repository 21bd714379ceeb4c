import CppMend.Proofs.Settings.Tidying
import CppMend.Settings.Patch
import Mathlib.Data.List.Induction

/-!
# Merging settings

What a payload does to the settings is told setting by setting. A candidate says something of them
only if it is well typed as a whole, and then what its entries say; the section of this program has
the last word, and what nobody says stays as it was.

* `Setting`                each of the settings: where a payload has it and which values it has;
* `Setting.Reads`          how a value is written, and `Setting.Keeps` what is kept of it;
* `Value.WellTyped`        candidates of which no known entry is ill formed;
* `Setting.Says`           what a candidate says of a setting;
* `Setting.Chosen`         whose value counts after a payload;
* `Patch.ofValue?_eq_some_iff`   the well typed candidates are the ones that are read;
* `Settings.Normal`        the normal form, which a merge leaves;
* `Settings.reached_merge` the settings after payloads and one more.
-/

namespace CppMend

/-! ## settings one by one -/

/-- Each of the settings, with the type of its value. -/
inductive Setting : Type → Type where
  | fixesEnabled : Setting Bool
  | automatic : Setting Bool
  | disabled : Setting (List Text)
  | indexingEnabled : Setting Bool
  | maxSizeKb : Setting Nat
  | excluded : Setting (List Text)
  | level : Setting LogLevel

namespace Setting

variable {α : Type}

/-- the part of a candidate that a setting is in -/
def part : Setting α → String
  | fixesEnabled | automatic | disabled => "quickFix"
  | indexingEnabled | maxSizeKb | excluded => "indexing"
  | level => "logging"

/-- the key of a setting in its part -/
def key : Setting α → String
  | fixesEnabled | indexingEnabled => "enabled"
  | automatic => "automatic"
  | disabled => "disabled"
  | maxSizeKb => "maxFileSizeKb"
  | excluded => "excludePaths"
  | level => "level"

def read : Setting α → Value → Option α
  | fixesEnabled | automatic | indexingEnabled => Value.asBool?
  | disabled | excluded => Patch.texts?
  | maxSizeKb => Value.asNat? 64
  | level => Patch.level?

/-- How a value of a setting is written. The name of a level may also be the only key of an object. -/
def Reads : Setting α → Value → α → Prop
  | fixesEnabled, v, b | automatic, v, b | indexingEnabled, v, b => v = .bool b
  | disabled, v, texts | excluded, v, texts => v = .list (texts.map .text)
  | maxSizeKb, v, n => v = .number false n 0 ∧ n < 1 <<< 64
  | level, v, l => v = .text l.name.toList ∨ v = .object [(l.name, .null)]

def value : Setting α → Settings → α
  | fixesEnabled, s => s.fixes.enabled
  | automatic, s => s.fixes.automatic
  | disabled, s => s.fixes.disabled
  | indexingEnabled, s => s.indexing.enabled
  | maxSizeKb, s => s.indexing.maxSizeKb
  | excluded, s => s.indexing.excluded
  | level, s => s.level

/-- What is kept of a value: of texts what there is to tidy, and of a size the next one that is allowed. -/
def Keeps : Setting α → α → α → Prop
  | fixesEnabled, b, kept | automatic, b, kept | indexingEnabled, b, kept => kept = b
  | disabled, texts, kept | excluded, texts, kept => Settings.TidyOf texts kept
  | maxSizeKb, n, kept => kept = if n < 16 then 16 else if 65536 < n then 65536 else n
  | level, l, kept => kept = l

/-- the normal form of a value -/
def normal : Setting α → α → α
  | fixesEnabled, b | automatic, b | indexingEnabled, b => b
  | disabled, texts | excluded, texts => Settings.tidy texts
  | maxSizeKb, n => min (max n 16) 65536
  | level, l => l

/-- what a candidate has for a setting; null counts as nothing -/
def entry? (f : Setting α) (v : Value) : Option Value := (v.field? f.part).bind (·.field? f.key)

/-- what a candidate says of a setting, if it is well typed -/
def said? (f : Setting α) (v : Value) : Option α := (f.entry? v).bind f.read

theorem keeps_iff (f : Setting α) {a kept : α} : f.Keeps a kept ↔ f.normal a = kept := by
  cases f with
  | disabled | excluded => exact Settings.tidyOf_iff
  | maxSizeKb =>
    show kept = (if a < 16 then 16 else if 65536 < a then 65536 else a) ↔ min (max a 16) 65536 = kept
    split
    · omega
    · split <;> omega
  | _ => exact eq_comm

theorem mapM_asText?_eq_some_iff {vs : List Value} {texts : List Text} :
    vs.mapM Value.asText? = some texts ↔ vs = texts.map .text := by
  have htext {v : Value} {cs : Text} : v.asText? = some cs ↔ v = .text cs := by
    cases v <;> simp [Value.asText?]
  induction vs generalizing texts with
  | nil => cases texts <;> simp
  | cons v vs ih =>
    rw [List.mapM_cons]
    constructor
    · intro h
      obtain ⟨cs, hv, h⟩ := Option.bind_eq_some_iff.mp h
      obtain ⟨rest, hvs, h⟩ := Option.bind_eq_some_iff.mp h
      cases h
      rw [htext.mp hv, ih.mp hvs, List.map_cons]
    · intro h
      cases texts with
      | nil => cases h
      | cons cs rest =>
        obtain ⟨rfl, hvs⟩ := List.cons.inj h
        rw [ih.mpr hvs]
        rfl

theorem ofName?_eq_some_iff {name : String} {l : LogLevel} :
    LogLevel.ofName? name = some l ↔ name = l.name := by
  have hdistinct (k l : LogLevel) : k.name = l.name → k = l := by cases k <;> cases l <;> decide
  constructor
  · intro h
    have hname := List.find?_some h
    exact (of_decide_eq_true hname).symm
  · rintro rfl
    cases l <;> decide

theorem level?_eq_some_iff {v : Value} {l : LogLevel} :
    Patch.level? v = some l ↔ v = .text l.name.toList ∨ v = .object [(l.name, .null)] := by
  unfold Patch.level?
  split
  · next cs =>
    have hname : String.ofList cs = l.name ↔ cs = l.name.toList := by
      constructor
      · intro h
        rw [← h, String.toList_ofList]
      · rintro rfl
        exact String.ofList_toList
    simp [ofName?_eq_some_iff, hname]
  · next name => simp [ofName?_eq_some_iff]
  · next v htext hobject =>
    constructor
    · intro h
      cases h
    · rintro (h | h)
      · exact absurd h (htext _)
      · exact absurd h (hobject _)

/-- Values are read as they are written. -/
theorem read_eq_some_iff (f : Setting α) {v : Value} {a : α} : f.read v = some a ↔ f.Reads v a := by
  have hbool {v : Value} {b : Bool} : v.asBool? = some b ↔ v = .bool b := by
    cases v <;> simp [Value.asBool?]
  have htexts {v : Value} {texts : List Text} :
      Patch.texts? v = some texts ↔ v = .list (texts.map .text) := by
    cases v <;> simp [Patch.texts?, Value.asList?, mapM_asText?_eq_some_iff]
  cases f with
  | fixesEnabled | automatic | indexingEnabled => exact hbool
  | disabled | excluded => exact htexts
  | level => exact level?_eq_some_iff
  | maxSizeKb =>
    show Value.asNat? 64 v = some a ↔ v = .number false a 0 ∧ a < 1 <<< 64
    unfold Value.asNat?
    split
    · next n =>
      simp only [Option.ite_none_right_eq_some, Option.some.injEq, Value.number.injEq, true_and, and_true]
      constructor
      · rintro ⟨hn, rfl⟩
        exact ⟨rfl, hn⟩
      · rintro ⟨rfl, hn⟩
        exact ⟨hn, rfl⟩
    · next hother =>
      constructor
      · intro h
        cases h
      · rintro ⟨rfl, -⟩
        exact absurd rfl (hother a)

theorem normal_normal (f : Setting α) (a : α) : f.normal (f.normal a) = f.normal a := by
  cases f with
  | disabled | excluded => exact (Settings.tidyOf_tidy _).tidy.tidy_eq
  | maxSizeKb =>
    show min (max (min (max a 16) 65536) 16) 65536 = min (max a 16) 65536
    omega
  | _ => rfl

end Setting

/-- An object whose parts are objects and whose known entries are well formed. Any of them may be
left out or null. -/
structure Value.WellTyped (v : Value) : Prop where
  object : v.isObject = true
  parts : ∀ (α : Type) (f : Setting α) (w : Value), v.field? f.part = some w → w.isObject = true
  entries : ∀ (α : Type) (f : Setting α) (w : Value), f.entry? v = some w → ∃ a, f.Reads w a

namespace Patch

variable {α : Type}

/-- what a patch has for a setting -/
def entry (p : Patch) : Setting α → Option α
  | .fixesEnabled => p.fixesEnabled
  | .automatic => p.automatic
  | .disabled => p.disabled
  | .indexingEnabled => p.indexingEnabled
  | .maxSizeKb => p.maxSizeKb
  | .excluded => p.excluded
  | .level => p.level

/-- the patch that has for each setting what a candidate says of it -/
def ofSaid (v : Value) : Patch where
  fixesEnabled := Setting.fixesEnabled.said? v
  automatic := Setting.automatic.said? v
  disabled := Setting.disabled.said? v
  indexingEnabled := Setting.indexingEnabled.said? v
  maxSizeKb := Setting.maxSizeKb.said? v
  excluded := Setting.excluded.said? v
  level := Setting.level.said? v

theorem entry_ofSaid (v : Value) (f : Setting α) : (ofSaid v).entry f = f.said? v := by
  cases f <;> rfl

/-- An optional field is read unless it is there and not well formed. -/
theorem optional_eq_some_iff (v : Value) (key : String) (read : Value → Option α)
    (o : Option α) : v.optional key read = some o
      ↔ (∀ w, v.field? key = some w → (read w).isSome = true) ∧ o = (v.field? key).bind read := by
  unfold Value.optional
  cases v.field? key with
  | none => simp [eq_comm (a := none)]
  | some w =>
    cases hr : read w with
    | none => simp [hr]
    | some a =>
      have hcomm : some (some a) = some o ↔ o = some a := by rw [Option.some_inj, eq_comm]
      simp [hr, hcomm]

/-- One entry of a candidate is read if its part is an object and it is well formed itself. -/
theorem entry_read_iff (v : Value) (f : Setting α) (o : Option α) :
    (∃ w, part v f.part = some w ∧ w.optional f.key f.read = some o)
      ↔ (∀ w, v.field? f.part = some w → w.isObject = true)
        ∧ (∀ w, f.entry? v = some w → (f.read w).isSome = true) ∧ o = f.said? v := by
  simp only [optional_eq_some_iff]
  unfold part Setting.said? Setting.entry?
  cases v.field? f.part with
  | none =>
    have hnothing : (Value.object []).field? f.key = none := rfl
    simp [hnothing]
  | some w => cases hw : w.isObject <;> simp [hw]

/-- A candidate is read if it is an object all of whose entries are read. -/
theorem ofValue?_eq_some {v : Value} {p : Patch} : ofValue? v = some p
    ↔ v.isObject = true ∧ ∀ (α : Type) (f : Setting α),
      ∃ w, part v f.part = some w ∧ w.optional f.key f.read = some (p.entry f) := by
  unfold ofValue?
  constructor
  · intro h
    split at h
    · next hobject =>
      obtain ⟨fixes, hfixes, h⟩ := Option.bind_eq_some_iff.mp h
      obtain ⟨indexing, hindexing, h⟩ := Option.bind_eq_some_iff.mp h
      obtain ⟨logging, hlogging, h⟩ := Option.bind_eq_some_iff.mp h
      obtain ⟨_, h₁, h⟩ := Option.bind_eq_some_iff.mp h
      obtain ⟨_, h₂, h⟩ := Option.bind_eq_some_iff.mp h
      obtain ⟨_, h₃, h⟩ := Option.bind_eq_some_iff.mp h
      obtain ⟨_, h₄, h⟩ := Option.bind_eq_some_iff.mp h
      obtain ⟨_, h₅, h⟩ := Option.bind_eq_some_iff.mp h
      obtain ⟨_, h₆, h⟩ := Option.bind_eq_some_iff.mp h
      obtain ⟨_, h₇, h⟩ := Option.bind_eq_some_iff.mp h
      cases h
      refine ⟨hobject, fun α f => ?_⟩
      cases f with
      | fixesEnabled => exact ⟨fixes, hfixes, h₁⟩
      | automatic => exact ⟨fixes, hfixes, h₂⟩
      | disabled => exact ⟨fixes, hfixes, h₃⟩
      | indexingEnabled => exact ⟨indexing, hindexing, h₄⟩
      | maxSizeKb => exact ⟨indexing, hindexing, h₅⟩
      | excluded => exact ⟨indexing, hindexing, h₆⟩
      | level => exact ⟨logging, hlogging, h₇⟩
    · cases h
  · rintro ⟨hobject, h⟩
    obtain ⟨fixes, (hfixes : part v "quickFix" = some fixes),
      (h₁ : fixes.optional "enabled" Value.asBool? = some p.fixesEnabled)⟩ := h _ .fixesEnabled
    obtain ⟨fixes₂, (hfixes₂ : part v "quickFix" = some fixes₂),
      (h₂ : fixes₂.optional "automatic" Value.asBool? = some p.automatic)⟩ := h _ .automatic
    obtain ⟨fixes₃, (hfixes₃ : part v "quickFix" = some fixes₃),
      (h₃ : fixes₃.optional "disabled" texts? = some p.disabled)⟩ := h _ .disabled
    obtain ⟨indexing, (hindexing : part v "indexing" = some indexing),
      (h₄ : indexing.optional "enabled" Value.asBool? = some p.indexingEnabled)⟩ :=
      h _ .indexingEnabled
    obtain ⟨indexing₂, (hindexing₂ : part v "indexing" = some indexing₂),
      (h₅ : indexing₂.optional "maxFileSizeKb" (Value.asNat? 64) = some p.maxSizeKb)⟩ :=
      h _ .maxSizeKb
    obtain ⟨indexing₃, (hindexing₃ : part v "indexing" = some indexing₃),
      (h₆ : indexing₃.optional "excludePaths" texts? = some p.excluded)⟩ := h _ .excluded
    obtain ⟨logging, (hlogging : part v "logging" = some logging),
      (h₇ : logging.optional "level" level? = some p.level)⟩ := h _ .level
    -- the settings of one part are read from one object
    cases hfixes.symm.trans hfixes₂
    cases hfixes.symm.trans hfixes₃
    cases hindexing.symm.trans hindexing₂
    cases hindexing.symm.trans hindexing₃
    rw [if_pos hobject]
    simp only [hfixes, hindexing, hlogging, h₁, h₂, h₃, h₄, h₅, h₆, h₇, bind, Option.bind, pure]

/-- The candidates that are read are those that are well typed, and they are read setting by
setting. -/
theorem ofValue?_eq_some_iff {v : Value} {p : Patch} : ofValue? v = some p
    ↔ v.WellTyped ∧ ∀ (α : Type) (f : Setting α), p.entry f = f.said? v := by
  have hread {α : Type} (f : Setting α) (w : Value) : (f.read w).isSome = true ↔ ∃ a, f.Reads w a := by
    simp only [Option.isSome_iff_exists, Setting.read_eq_some_iff]
  simp only [ofValue?_eq_some, entry_read_iff, hread]
  constructor
  · rintro ⟨hobject, h⟩
    exact ⟨⟨hobject, fun α f => (h α f).1, fun α f => (h α f).2.1⟩, fun α f => (h α f).2.2⟩
  · rintro ⟨hv, h⟩
    exact ⟨hv.object, fun α f => ⟨hv.parts α f, hv.entries α f, h α f⟩⟩

theorem isSome_ofValue?_iff (v : Value) : (ofValue? v).isSome = true ↔ v.WellTyped := by
  rw [Option.isSome_iff_exists]
  constructor
  · rintro ⟨p, hp⟩
    exact (ofValue?_eq_some_iff.mp hp).1
  · intro hv
    exact ⟨ofSaid v, ofValue?_eq_some_iff.mpr ⟨hv, fun _ f => entry_ofSaid v f⟩⟩

theorem value_apply (p : Patch) (s : Settings) (f : Setting α) :
    f.value (p.apply s) = (p.entry f).getD (f.value s) := by
  cases f <;> rfl

end Patch

instance (v : Value) : Decidable v.WellTyped := decidable_of_iff _ (Patch.isSome_ofValue?_iff v)

namespace Setting

variable {α : Type}

/-- A candidate says something of a setting if it is well typed as a whole and has a value for it. -/
def Says (f : Setting α) (v : Value) (a : α) : Prop := v.WellTyped ∧ ∃ w, f.entry? v = some w ∧ f.Reads w a

/-- Whose value of a setting counts after a payload: that of its section, or else that of its top
level, or else the old one. -/
inductive Chosen (f : Setting α) (payload : Value) (old : α) : α → Prop where
  | own {v : Value} {a : α} (hv : payload.get? Settings.sectionName = some v) (h : f.Says v a) :
    f.Chosen payload old a
  | top {a : α} (hown : ∀ v a, payload.get? Settings.sectionName = some v → ¬f.Says v a)
    (h : f.Says payload a) : f.Chosen payload old a
  | kept (hown : ∀ v a, payload.get? Settings.sectionName = some v → ¬f.Says v a)
    (htop : ∀ a, ¬f.Says payload a) : f.Chosen payload old old

/-- what a candidate says of a setting; nothing unless it is well typed as a whole -/
def from? (f : Setting α) (v : Value) : Option α := if v.WellTyped then f.said? v else none

theorem from?_eq_some_iff (f : Setting α) {v : Value} {a : α} : f.from? v = some a ↔ f.Says v a := by
  unfold from? Says said?
  by_cases hv : v.WellTyped
  · rw [if_pos hv, Option.bind_eq_some_iff, and_iff_right hv]
    simp only [read_eq_some_iff]
  · rw [if_neg hv]
    simp [hv]

theorem from?_eq_none_iff (f : Setting α) {v : Value} : f.from? v = none ↔ ∀ a, ¬f.Says v a := by
  simp only [Option.eq_none_iff_forall_ne_some, ne_eq, from?_eq_some_iff]

/-- There is one value that counts. -/
theorem chosen_iff (f : Setting α) {payload : Value} {old a : α} : f.Chosen payload old a
    ↔ (((payload.get? Settings.sectionName).bind f.from?).or (f.from? payload)).getD old = a := by
  have hown {b : α} : (payload.get? Settings.sectionName).bind f.from? = some b
      ↔ ∃ v, payload.get? Settings.sectionName = some v ∧ f.Says v b := by
    simp only [Option.bind_eq_some_iff, from?_eq_some_iff]
  have hsilent : (payload.get? Settings.sectionName).bind f.from? = none
      ↔ ∀ v a, payload.get? Settings.sectionName = some v → ¬f.Says v a := by
    simp only [Option.bind_eq_none_iff, from?_eq_none_iff]
    exact ⟨fun h v a hv => h v hv a, fun h v hv a => h v a hv⟩
  constructor
  · intro h
    cases h with
    | own hv h =>
      rw [hown.mpr ⟨_, hv, h⟩]
      rfl
    | top hnone h =>
      rw [hsilent.mpr hnone, f.from?_eq_some_iff.mpr h]
      rfl
    | kept hnone htop =>
      rw [hsilent.mpr hnone, f.from?_eq_none_iff.mpr htop]
      rfl
  · rintro rfl
    cases hs : (payload.get? Settings.sectionName).bind f.from? with
    | some b =>
      obtain ⟨v, hv, h⟩ := hown.mp hs
      exact .own hv h
    | none =>
      cases ht : f.from? payload with
      | some b => exact .top (hsilent.mp hs) (f.from?_eq_some_iff.mp ht)
      | none => exact .kept (hsilent.mp hs) (f.from?_eq_none_iff.mp ht)

end Setting

/-! ## merges -/

namespace Settings

variable {α : Type}

/-- The normal form of settings. -/
structure Normal (s : Settings) : Prop where
  least : 16 ≤ s.indexing.maxSizeKb
  greatest : s.indexing.maxSizeKb ≤ 65536
  disabled : Tidy s.fixes.disabled
  excluded : Tidy s.indexing.excluded

theorem standard_normal : standard.Normal :=
  ⟨by decide, by decide, (tidyOf_tidy []).tidy, (tidyOf_tidy []).tidy⟩

theorem normalized_normal (s : Settings) : s.normalized.Normal where
  least := by
    show 16 ≤ min (max _ 16) 65536
    omega
  greatest := Nat.min_le_right ..
  disabled := (tidyOf_tidy _).tidy
  excluded := (tidyOf_tidy _).tidy

/-- Settings are the same if each of them is. -/
theorem eq_of_value {s t : Settings} (h : ∀ (α : Type) (f : Setting α), f.value s = f.value t) :
    s = t := by
  obtain ⟨⟨_, _, _⟩, ⟨_, _, _⟩, _⟩ := s
  obtain ⟨⟨_, _, _⟩, ⟨_, _, _⟩, _⟩ := t
  cases h _ .fixesEnabled
  cases h _ .automatic
  cases h _ .disabled
  cases h _ .indexingEnabled
  cases h _ .maxSizeKb
  cases h _ .excluded
  cases h _ .level
  rfl

theorem value_normalized (s : Settings) (f : Setting α) :
    f.value s.normalized = f.normal (f.value s) := by
  cases f <;> rfl

/-- A candidate that is not well typed as a whole changes nothing. -/
theorem value_patched (s : Settings) (v : Value) (f : Setting α) :
    f.value (s.patched v) = (f.from? v).getD (f.value s) := by
  unfold patched Setting.from?
  cases hp : Patch.ofValue? v with
  | none =>
    have hv : ¬v.WellTyped := by
      rw [← Patch.isSome_ofValue?_iff, hp]
      exact Bool.false_ne_true
    rw [if_neg hv, Option.getD_none]
  | some p =>
    obtain ⟨hv, hentry⟩ := Patch.ofValue?_eq_some_iff.mp hp
    rw [if_pos hv, ← hentry α f]
    exact p.value_apply s f

/-- A setting after a merge is the normal form of what the section says of it, or else of what the
top level says, or else of what it was. -/
theorem value_merged (s : Settings) (payload : Value) (f : Setting α) :
    f.value (s.merged payload)
      = f.normal ((((payload.get? sectionName).bind f.from?).or (f.from? payload)).getD
        (f.value s)) := by
  unfold merged candidates
  rw [value_normalized, List.foldl_cons]
  congr 1
  cases payload.get? sectionName with
  | none => exact s.value_patched payload f
  | some v =>
    show f.value ((s.patched payload).patched v) = _
    rw [value_patched, value_patched, Option.bind_some]
    cases f.from? v <;> rfl

theorem merged_merged (s : Settings) (payload : Value) :
    (s.merged payload).merged payload = s.merged payload := by
  apply eq_of_value
  intro α f
  rw [value_merged (s.merged payload), value_merged s]
  cases ((payload.get? sectionName).bind f.from?).or (f.from? payload) with
  | none => exact f.normal_normal _
  | some a => rfl

/-- the settings of a session that starts with a payload or without one, after some more -/
def reached (first : Option Value) (later : List Value) : Settings :=
  later.foldl merged (initial first)

theorem reached_normal (first : Option Value) (later : List Value) :
    (reached first later).Normal := by
  induction later using List.reverseRecOn with
  | nil =>
    cases first with
    | none => exact standard_normal
    | some v => exact normalized_normal _
  | append_singleton later v ih =>
    rw [reached, List.foldl_concat]
    exact normalized_normal _

/-- After any payloads the settings have their normal form. One more payload gives each setting
what its section says, if that is well typed as a whole, or else what its top level says, if that
is, or else leaves it, and keeps of it what there is to keep; and the same payload again changes
nothing. -/
theorem reached_merge (first : Option Value) (later : List Value) (payload : Value) :
    let s := reached first later
    s.Normal
      ∧ (∀ (α : Type) (f : Setting α), ∃ a, f.Chosen payload (f.value s) a
        ∧ f.Keeps a (f.value (s.merged payload)))
      ∧ (s.merged payload).merged payload = s.merged payload :=
  ⟨reached_normal first later,
    fun _ f => ⟨_, f.chosen_iff.mpr rfl, f.keeps_iff.mpr (value_merged _ payload f).symm⟩,
    merged_merged _ payload⟩

/-- a section with texts to tidy beside a top level of which one entry is ill formed -/
def mixed : Value :=
  .object [
    ("quickFix", .object [("automatic", .bool false), ("enabled", .ofString "no")]),
    (sectionName, .object [("quickFix", .object [("disabled",
      .list [.ofString " b ", .ofString "a", .ofString "b", .ofString " "])])])]

/-- The section counts and is tidied, and the top level does not count at all. -/
theorem reached_merge_mixed :
    TidyOf [" b ".toList, "a".toList, "b".toList, " ".toList]
        ((reached none []).merged mixed).fixes.disabled
      ∧ ((reached none []).merged mixed).fixes = ⟨true, true, ["b".toList, "a".toList]⟩ := by
  obtain ⟨-, hmerged, -⟩ := reached_merge none [] mixed
  obtain ⟨texts, hchosen, hkeeps⟩ := hmerged _ .disabled
  have htexts : [" b ".toList, "a".toList, "b".toList, " ".toList] = texts :=
    Setting.disabled.chosen_iff.mp hchosen
  rw [← htexts] at hkeeps
  exact ⟨hkeeps, by decide⟩

end Settings

end CppMend
