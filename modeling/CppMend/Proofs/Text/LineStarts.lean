import CppMend.Proofs.Text.Positions
import CppMend.Text.LineStarts

/-!
# The starts find the lines

The starts of a text say of each line where it is, and of each offset on which line it is.

* `lineStarts_getElem?`   the start of a line is what is left of the text from the line on;
* `lineStarts_sorted`     the starts come in order;
* `lineEnds_slice?`       the text of a line, with its line feed;
* `lines_getElem?`        the text of a line, without it;
* `lineOf_lineStarts`     the line of a place, from the text before the place.
-/

namespace CppMend

namespace Text

/-! ## what is left from a line on -/

/-- What is before the start of a line has as many line feeds as there are lines, and ends with one
if there are any. -/
theorem dropLines_parts {n : Nat} {cs rest : Text} (h : dropLines n cs = some rest) :
    ∃ above, cs = above ++ rest ∧ lineFeeds above = n ∧ lastLine above = [] := by
  induction cs generalizing n with
  | nil =>
    cases n with
    | zero => exact ⟨[], Option.some.inj h, rfl, rfl⟩
    | succ n => cases h
  | cons c cs ih =>
    cases n with
    | zero =>
      rw [dropLines] at h
      exact ⟨[], Option.some.inj h, rfl, rfl⟩
    | succ n =>
      rw [dropLines] at h
      by_cases hc : c = '\n'
      · rw [if_pos hc] at h
        obtain ⟨above, rfl, hn, hlast⟩ := ih h
        have hfeeds : lineFeeds (c :: above) = n + 1 := by rw [lineFeeds_cons, if_pos hc, hn]
        exact ⟨c :: above, rfl, hfeeds, by rw [lastLine_cons (by omega), hlast]⟩
      · rw [if_neg hc] at h
        obtain ⟨above, rfl, hn, hlast⟩ := ih h
        have hfeeds : lineFeeds (c :: above) = n + 1 := by rw [lineFeeds_cons, if_neg hc, hn]
        exact ⟨c :: above, rfl, hfeeds, by rw [lastLine_cons (by omega), hlast]⟩

theorem dropLines_suffix {n : Nat} {cs rest : Text} (h : dropLines n cs = some rest) :
    ∃ front, cs = front ++ rest := by
  obtain ⟨above, hcs, -⟩ := dropLines_parts h
  exact ⟨above, hcs⟩

theorem dropLines_succ (n : Nat) (cs : Text) :
    dropLines (n + 1) cs = (dropLines n cs).bind (dropLines 1) := by
  induction cs generalizing n with
  | nil => cases n <;> rfl
  | cons c cs ih =>
    cases n with
    | zero => rfl
    | succ n =>
      rw [dropLines, dropLines]
      by_cases hc : c = '\n'
      · rw [if_pos hc, if_pos hc, ih]
      · rw [if_neg hc, if_neg hc, ih]

/-- Behind the first line feed, if there is one, the next line starts. -/
theorem dropLines_one (cs : Text) :
    dropLines 1 cs = match cs.dropWhile (· ≠ '\n') with
      | [] => none
      | _ :: rest => some rest := by
  induction cs with
  | nil => rfl
  | cons c cs ih =>
    rw [dropLines]
    by_cases hc : c = '\n'
    · rw [if_pos hc, List.dropWhile_cons_of_neg (by simp [hc]), dropLines]
    · rw [if_neg hc, List.dropWhile_cons_of_pos (by simp [hc]), ih]

/-! ## the starts -/

theorem lineStartsFrom_getElem? (offset n : Nat) (cs : Text) :
    (offset :: lineStartsFrom offset cs)[n]?
      = (dropLines n cs).map fun rest => offset + byteSize cs - byteSize rest := by
  induction cs generalizing offset n with
  | nil =>
    cases n with
    | zero =>
      show some offset = some (offset + 0 - 0)
      rw [Nat.add_zero, Nat.sub_zero]
    | succ n => rfl
  | cons c cs ih =>
    cases n with
    | zero =>
      show some offset = some (offset + byteSize (c :: cs) - byteSize (c :: cs))
      rw [Nat.add_sub_cancel]
    | succ n =>
      rw [List.getElem?_cons_succ, lineStartsFrom, dropLines, byteSize_cons, ← Nat.add_assoc]
      by_cases hc : c = '\n'
      · rw [if_pos hc, if_pos hc, ih]
      · rw [if_neg hc, if_neg hc, ← ih, List.getElem?_cons_succ]

theorem lineStarts_getElem? (n : Nat) (cs : Text) :
    (lineStarts cs)[n]? = (dropLines n cs).map fun rest => byteSize cs - byteSize rest := by
  have h := lineStartsFrom_getElem? 0 n cs
  rw [Nat.zero_add] at h
  exact h

theorem lt_of_mem_lineStartsFrom {offset s : Nat} {cs : Text} (h : s ∈ lineStartsFrom offset cs) :
    offset < s := by
  induction cs generalizing offset with
  | nil => cases h
  | cons c cs ih =>
    have hc := c.utf8Size_pos
    rw [lineStartsFrom] at h
    split at h
    · rcases List.mem_cons.mp h with rfl | h
      · omega
      · have := ih h
        omega
    · have := ih h
      omega

theorem lineStartsFrom_sorted (offset : Nat) (cs : Text) :
    (lineStartsFrom offset cs).Pairwise (· < ·) := by
  induction cs generalizing offset with
  | nil => exact List.Pairwise.nil
  | cons c cs ih =>
    rw [lineStartsFrom]
    split
    · exact List.Pairwise.cons (fun s hs => lt_of_mem_lineStartsFrom hs) (ih _)
    · exact ih _

theorem lineStarts_sorted (cs : Text) : (lineStarts cs).Pairwise (· < ·) :=
  List.Pairwise.cons (fun _ hs => lt_of_mem_lineStartsFrom hs) (lineStartsFrom_sorted 0 cs)

theorem length_lineStarts (cs : Text) : (lineStarts cs).length = lineFeeds cs + 1 := by
  have h : ∀ offset, (lineStartsFrom offset cs).length = lineFeeds cs := by
    induction cs with
    | nil => exact fun _ => rfl
    | cons c cs ih =>
      intro offset
      rw [lineStartsFrom, lineFeeds_cons]
      split
      · rw [List.length_cons, ih]
      · rw [ih, Nat.add_zero]
  rw [lineStarts, List.length_cons, h]

/-! ## the text of a line -/

/-- A line ends where the next one starts, or at the end of the text: behind its line feed. -/
theorem lineEnd_eq (front rest : Text) :
    ((dropLines 1 rest).map fun r => byteSize (front ++ rest) - byteSize r).getD
        (byteSize (front ++ rest))
      = byteSize front
        + byteSize (rest.takeWhile (· ≠ '\n') ++ (rest.dropWhile (· ≠ '\n')).take 1) := by
  have hsize : byteSize rest = byteSize (rest.takeWhile (· ≠ '\n'))
      + byteSize (rest.dropWhile (· ≠ '\n')) := by
    rw [← byteSize_append, List.takeWhile_append_dropWhile]
  rw [dropLines_one, byteSize_append front, byteSize_append (rest.takeWhile _)]
  cases hd : rest.dropWhile (· ≠ '\n') with
  | nil =>
    rw [hd, byteSize_nil] at hsize
    show byteSize front + byteSize rest = _
    rw [List.take_nil, byteSize_nil, hsize]
  | cons c after =>
    rw [hd, byteSize_cons] at hsize
    show byteSize front + byteSize rest - byteSize after
      = byteSize front + (byteSize (rest.takeWhile (· ≠ '\n')) + byteSize [c])
    rw [byteSize_cons, byteSize_nil]
    omega

/-- The stretch that the starts give to a line is the line with its line feed. -/
theorem lineEnds_slice? (cs : Text) (n : Nat) :
    ((lineEnds? (lineStarts cs) (byteSize cs) n).bind fun (start, stop) =>
        (slice? start stop cs).map fun l => (start, l))
      = (dropLines n cs).map fun rest => (byteSize cs - byteSize rest,
          rest.takeWhile (· ≠ '\n') ++ (rest.dropWhile (· ≠ '\n')).take 1) := by
  rw [lineEnds?, lineStarts_getElem?, lineStarts_getElem?, dropLines_succ]
  cases h : dropLines n cs with
  | none => rfl
  | some rest =>
    obtain ⟨front, rfl⟩ := dropLines_suffix h
    have hstart : byteSize (front ++ rest) - byteSize rest = byteSize front := by
      rw [byteSize_append]
      omega
    have hslice := slice?_append front
      (rest.takeWhile (· ≠ '\n') ++ (rest.dropWhile (· ≠ '\n')).take 1)
      ((rest.dropWhile (· ≠ '\n')).drop 1)
    rw [List.append_assoc (rest.takeWhile _), List.take_append_drop,
      List.takeWhile_append_dropWhile, ← lineEnd_eq] at hslice
    show (slice? (byteSize (front ++ rest) - byteSize rest)
        (((dropLines 1 rest).map fun r => byteSize (front ++ rest) - byteSize r).getD
          (byteSize (front ++ rest))) (front ++ rest)).map
        (fun l => (byteSize (front ++ rest) - byteSize rest, l)) = _
    rw [hstart, hslice, Option.map_some, Option.map_some, hstart]

theorem feed_of_dropWhile {c : Char} {rest after : Text}
    (h : rest.dropWhile (· ≠ '\n') = c :: after) : c = '\n' := by
  have hne : rest.dropWhile (· ≠ '\n') ≠ [] := by
    rw [h]
    exact List.cons_ne_nil c after
  have hc := List.head_dropWhile_not (· ≠ '\n') hne
  simp only [h, List.head_cons] at hc
  simpa using hc

/-- what ends a line is not in it -/
theorem takeWhile_line (rest : Text) :
    (rest.takeWhile (· ≠ '\n') ++ (rest.dropWhile (· ≠ '\n')).take 1).takeWhile (· ≠ '\n')
      = rest.takeWhile (· ≠ '\n') := by
  rw [List.takeWhile_append_of_pos fun c hc => List.all_eq_true.mp List.all_takeWhile c hc]
  cases hd : rest.dropWhile (· ≠ '\n') with
  | nil => exact List.append_nil _
  | cons c after =>
    show _ ++ List.takeWhile _ [c] = _
    rw [List.takeWhile_cons, if_neg (by simp [feed_of_dropWhile hd])]
    exact List.append_nil _

theorem trimEnd_line (rest : Text) :
    trimEnd '\n' (rest.takeWhile (· ≠ '\n') ++ (rest.dropWhile (· ≠ '\n')).take 1)
      = rest.takeWhile (· ≠ '\n') := by
  -- the line itself has no line feed at its end
  have hline : (rest.takeWhile (· ≠ '\n')).reverse.dropWhile (· = '\n')
      = (rest.takeWhile (· ≠ '\n')).reverse := by
    cases hl : (rest.takeWhile (· ≠ '\n')).reverse with
    | nil => rfl
    | cons c l =>
      have hm : c ∈ rest.takeWhile (· ≠ '\n') := by
        rw [← List.mem_reverse, hl]
        exact List.mem_cons_self
      have hc := List.all_eq_true.mp List.all_takeWhile c hm
      rw [List.dropWhile_cons, if_neg (by simpa using hc)]
  rw [trimEnd, List.reverse_append]
  cases hd : rest.dropWhile (· ≠ '\n') with
  | nil =>
    show (List.dropWhile _ (List.reverse _)).reverse = _
    rw [hline, List.reverse_reverse]
  | cons c after =>
    show (List.dropWhile _ (c :: List.reverse _)).reverse = _
    rw [List.dropWhile_cons, if_pos (decide_eq_true (feed_of_dropWhile hd)), hline,
      List.reverse_reverse]

/-- The lines of a text are the first lines of what is left of it. -/
theorem lines_getElem? (cs : Text) (n : Nat) :
    (lines cs)[n]? = (dropLines n cs).map (·.takeWhile (· ≠ '\n')) := by
  induction cs generalizing n with
  | nil => cases n <;> rfl
  | cons c cs ih =>
    rw [lines]
    by_cases hc : c = '\n'
    · rw [if_pos hc]
      cases n with
      | zero =>
        show some [] = some ((c :: cs).takeWhile (· ≠ '\n'))
        rw [List.takeWhile_cons, if_neg (by simp [hc])]
      | succ n => rw [List.getElem?_cons_succ, ih, dropLines, if_pos hc]
    · rw [if_neg hc]
      cases hl : lines cs with
      | nil =>
        have h := ih 0
        rw [hl] at h
        cases cs <;> cases h
      | cons l ls =>
        cases n with
        | zero =>
          have h := ih 0
          rw [hl, List.getElem?_cons_zero, dropLines, Option.map_some, Option.some.injEq] at h
          show some (c :: l) = some ((c :: cs).takeWhile (· ≠ '\n'))
          rw [List.takeWhile_cons, if_pos (by simp [hc]), h]
        | succ n =>
          have h := ih (n + 1)
          rw [hl] at h
          rw [dropLines, if_neg hc, ← h]
          rfl

/-! ## the line of a place -/

/-- The line of an offset, between the starts before it and those behind it. -/
theorem lineOf_append {before behind : List Nat} {start offset : Nat}
    (hb : ∀ s ∈ before, s < offset) (hle : start ≤ offset) (ha : ∀ s ∈ behind, offset < s) :
    lineOf (before ++ start :: behind) offset = before.length := by
  rw [lineOf]
  by_cases he : start = offset
  · -- the offset is itself a start
    have hi : (before ++ start :: behind).idxOf? offset = some before.length := by
      have hn : before.findIdx? (· == offset) = none := by
        rw [List.findIdx?_eq_none_iff]
        intro s h
        have := hb s h
        rw [beq_eq_false_iff_ne]
        omega
      rw [List.idxOf?, List.findIdx?_append, List.findIdx?_cons, hn, he, beq_self_eq_true]
      show some (0 + before.length) = some before.length
      rw [Nat.zero_add]
    rw [hi]
  · have hi : (before ++ start :: behind).idxOf? offset = none := by
      rw [List.idxOf?_eq_none_iff]
      intro h
      rcases List.mem_append.mp h with h | h
      · exact absurd (hb offset h) (Nat.lt_irrefl _)
      · rcases List.mem_cons.mp h with h | h
        · exact he h.symm
        · exact absurd (ha offset h) (Nat.lt_irrefl _)
    have ht : (before ++ start :: behind).takeWhile (· < offset) = before ++ [start] := by
      rw [List.takeWhile_append_of_pos fun s h => decide_eq_true (hb s h),
        List.takeWhile_cons, if_pos (decide_eq_true (by omega))]
      cases behind with
      | nil => rfl
      | cons next behind =>
        have := ha next List.mem_cons_self
        rw [List.takeWhile_cons, if_neg (by rw [decide_eq_true_eq]; omega)]
    rw [hi, ht, List.length_append]
    show before.length + 1 - 1 = before.length
    exact Nat.add_sub_cancel _ _

/-- In starts that come in order, the line of an offset is the last one that starts at or before
it. -/
theorem lineOf_eq {starts : List Nat} (hs : starts.Pairwise (· < ·)) {line start offset : Nat}
    (hline : starts[line]? = some start) (hle : start ≤ offset)
    (hnext : ∀ next, starts[line + 1]? = some next → offset < next) :
    lineOf starts offset = line := by
  -- the starts before the line, its own, and those behind it
  obtain ⟨before, behind, rfl, rfl⟩ : ∃ before behind, starts = before ++ start :: behind
      ∧ before.length = line := by
    obtain ⟨hlt, hget⟩ := List.getElem?_eq_some_iff.mp hline
    refine ⟨starts.take line, starts.drop (line + 1), ?_, ?_⟩
    · rw [← hget, List.getElem_cons_drop, List.take_append_drop]
    · rw [List.length_take]
      omega
  rw [List.pairwise_append] at hs
  obtain ⟨-, hbehind, hbefore⟩ := hs
  refine lineOf_append (fun s h => Nat.lt_of_lt_of_le (hbefore s h start List.mem_cons_self) hle)
    hle fun s h => ?_
  cases behind with
  | nil => cases h
  | cons next behind =>
    have hn : offset < next := by
      refine hnext next ?_
      rw [List.getElem?_append_right (Nat.le_add_right _ _), Nat.add_sub_cancel_left]
      rfl
    rcases List.mem_cons.mp h with rfl | h
    · exact hn
    · exact Nat.lt_trans hn ((List.pairwise_cons.mp (List.pairwise_cons.mp hbehind).2).1 s h)

/-- the start of the line that a place is on -/
theorem lineStarts_lineFeeds (front rest : Text) :
    (lineStarts (front ++ rest))[lineFeeds front]?
      = some (byteSize front - byteSize (lastLine front)) := by
  rw [lineStarts_getElem?, dropLines_lineFeeds, Option.map_some, byteSize_append, byteSize_append]
  congr 1
  omega

/-- A place is on the line whose number is the number of line feeds before it. -/
theorem lineOf_lineStarts (front rest : Text) :
    lineOf (lineStarts (front ++ rest)) (byteSize front) = lineFeeds front := by
  refine lineOf_eq (lineStarts_sorted _) (lineStarts_lineFeeds front rest) (Nat.sub_le _ _) ?_
  intro next hn
  rw [lineStarts_getElem?, dropLines_succ, dropLines_lineFeeds, Option.bind_some, dropLines_one,
    Option.map_eq_some_iff] at hn
  obtain ⟨after, ha, rfl⟩ := hn
  -- the next line feed is behind the place
  have hd : (lastLine front ++ rest).dropWhile (· ≠ '\n') = rest.dropWhile (· ≠ '\n') :=
    List.dropWhile_append_of_pos fun c hc =>
      decide_eq_true (lineFeeds_eq_zero (lineFeeds_lastLine front) c hc)
  rw [hd] at ha
  have hs : byteSize rest = byteSize (rest.takeWhile (· ≠ '\n'))
      + byteSize (rest.dropWhile (· ≠ '\n')) := by
    rw [← byteSize_append, List.takeWhile_append_dropWhile]
  cases hr : rest.dropWhile (· ≠ '\n') with
  | nil =>
    rw [hr] at ha
    cases ha
  | cons c r =>
    rw [hr] at ha hs
    cases ha
    have hc := c.utf8Size_pos
    rw [byteSize_cons] at hs
    rw [byteSize_append]
    omega

end Text

end CppMend
