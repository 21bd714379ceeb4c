import CppMend.Grammar.Statements

/-!
# What rules give

`Rule.Gives` says what a rule builds from the cues ahead, and what it leaves, where it does not leave
the loop around it. A lemma for each way of writing rules says how what the parts give comes together.
-/

namespace CppMend

/-! ## links -/

namespace Action

variable {link : List Cue → Option (NodeKind × Goal)} {call : Goal → Action} {built : List Outline}
  {s : List Cue}

theorem wrap_none (turns : Nat) (h : link s = none) :
    wrap link call (turns + 1) built s = ⟨built, s, false⟩ := by
  rw [wrap, h]

theorem wrap_some (turns : Nat) {kind : NodeKind} {g : Goal} {os : List Outline} {t : List Cue}
    (h : link s = some (kind, g)) (hg : call g s = ⟨os, t, false⟩) :
    wrap link call (turns + 1) built s = wrap link call turns [.node kind (built ++ os)] t := by
  rw [wrap, h]
  show wrap link call turns [.node kind (built ++ (call g s).built)] (call g s).ahead = _
  rw [hg]

end Action

namespace Rule

/-- Under the budget `b` the rule builds `os` from the cues `s` and leaves the cues `t`. -/
def Gives (b : Nat) (r : Rule) (s : List Cue) (os : List Outline) (t : List Cue) : Prop :=
  r.perform b (reach grammar b) s = ⟨os, t, false⟩

/-- The rule leaves the loop around it and takes nothing. -/
def Leaves (b : Nat) (r : Rule) (s : List Cue) : Prop :=
  r.perform b (reach grammar b) s = ⟨[], s, true⟩

variable {b : Nat} {p q r : Rule} {s t u : List Cue} {os ps : List Outline}
  {test : List Cue → Bool} {c : Cue}

theorem gives_nothing : Gives b .nothing s [] s := rfl

theorem gives_token : Gives b .token (c :: s) [.token] s := rfl

theorem gives_blank : Gives b .blank s [.blank] s := rfl

theorem leaves_leave : Leaves b .leave s := rfl

theorem Gives.seq (hp : Gives b p s os t) (hq : Gives b q t ps u) :
    Gives b (.seq p q) s (os ++ ps) u := by
  rw [Gives, perform, Action.andThen, hp, if_neg Bool.false_ne_true]
  show (⟨os ++ (q.perform b (reach grammar b) t).built, _, _⟩ : Outcome) = _
  rw [hq]

theorem Gives.branch (h : test s = true) (hp : Gives b p s os t) : Gives b (.branch test p q) s os t := by
  rw [Gives, perform, if_pos h]
  exact hp

theorem Gives.otherwise (h : test s = false) (hq : Gives b q s os t) :
    Gives b (.branch test p q) s os t := by
  rw [Gives, perform, if_neg (by rw [h]; exact Bool.false_ne_true)]
  exact hq

theorem Leaves.branch (h : test s = true) (hp : Leaves b p s) : Leaves b (.branch test p q) s := by
  rw [Leaves, perform, if_pos h]
  exact hp

theorem Leaves.otherwise (h : test s = false) (hq : Leaves b q s) : Leaves b (.branch test p q) s := by
  rw [Leaves, perform, if_neg (by rw [h]; exact Bool.false_ne_true)]
  exact hq

theorem gives_skip (h : test s = false) : Gives b (onlyIf test r) s [] s :=
  .otherwise h gives_nothing

theorem Gives.node (kind : NodeKind) (hp : Gives b p s os t) :
    Gives b (.node kind p) s [.node kind os] t := by
  rw [Gives, perform, hp]

theorem Gives.headed {kind : List Cue → NodeKind} (hp : Gives b p s os t) (hq : Gives b q t ps u) :
    Gives b (.headed p kind q) s [.node (kind t) (os ++ ps)] u := by
  rw [Gives, perform, hp]
  show (⟨[.node (kind t) (os ++ (q.perform b (reach grammar b) t).built)], _, _⟩ : Outcome) = _
  rw [hq]

theorem Gives.atLeastOne (hp : Gives b p s os t) (ht : Outline.anyToken os = true) :
    Gives b (.atLeastOne p) s os t := by
  rw [Gives, perform, hp, if_pos ht]

/-- A goal takes one of the budget. -/
theorem Gives.reached {g : Goal} (hg : Gives b (grammar g) s os t) :
    reach grammar (b + 1) g s = ⟨os, t, false⟩ := hg

theorem Gives.goal {g : Goal} (hg : Gives b (grammar g) s os t) : Gives (b + 1) (.goal g) s os t := by
  rw [Gives, perform, hg.reached]

theorem Gives.chain {link : List Cue → Option (NodeKind × Goal)} (hp : Gives b p s os t) :
    (Rule.chain p link).perform b (reach grammar b) s
      = Action.wrap link (reach grammar b) b os t := by
  rw [perform, hp]

theorem Gives.chain_ends {link : List Cue → Option (NodeKind × Goal)} (hp : Gives b p s os t)
    (hb : 0 < b) (h : link t = none) : Gives b (.chain p link) s os t := by
  obtain ⟨b, rfl⟩ : ∃ n, b = n + 1 := ⟨b - 1, by omega⟩
  rw [Gives, hp.chain, Action.wrap_none b h]

/-! ## loops -/

theorem gives_loop_none (hb : 0 < b) (h : Leaves b p s) : Gives b (.loop p) s [] s := by
  obtain ⟨b, rfl⟩ : ∃ n, b = n + 1 := ⟨b - 1, by omega⟩
  rw [Gives, perform, Action.loop, h, if_pos rfl]

theorem Gives.loop_once (hb : 1 < b) (hp : Gives b p s os t) (h : Leaves b p t) :
    Gives b (.loop p) s os t := by
  obtain ⟨b, rfl⟩ : ∃ n, b = n + 2 := ⟨b - 2, by omega⟩
  have hlast : Action.loop (p.perform (b + 2) (reach grammar (b + 2))) (b + 1) t = ⟨[], t, false⟩ := by
    rw [Action.loop, h, if_pos rfl]
  rw [Gives, perform, Action.loop, hp, if_neg Bool.false_ne_true]
  show (⟨os ++ (Action.loop _ (b + 1) t).built, (Action.loop _ (b + 1) t).ahead, false⟩ : Outcome) = _
  rw [hlast, List.append_nil]

theorem gives_while_none (hb : 0 < b) (h : test s = false) : Gives b (whileTrue test r) s [] s :=
  gives_loop_none hb (.otherwise h leaves_leave)

theorem Gives.while_once (hb : 1 < b) (h : test s = true) (hr : Gives b r s os t)
    (h' : test t = false) : Gives b (whileTrue test r) s os t :=
  .loop_once hb (.branch h hr) (.otherwise h' leaves_leave)

theorem gives_until_none (hb : 0 < b) (h : test s = true) : Gives b (untilTrue test r) s [] s :=
  gives_loop_none hb (.branch h leaves_leave)

theorem Gives.until_once (hb : 1 < b) (h : test s = false) (hr : Gives b r s os t)
    (h' : test t = true) : Gives b (untilTrue test r) s os t :=
  .loop_once hb (.otherwise h hr) (.branch h' leaves_leave)

end Rule

end CppMend
