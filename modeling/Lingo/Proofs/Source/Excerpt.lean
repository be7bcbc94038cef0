/-
Excerpts of a text.

An excerpt goes through the text from break to break, and each line but the first of the text is cut
together with the break in front of it.  The carets under a line that is not the last one stop one
column before the cut ends, which is too early just for the first line of the text.
-/

import Lingo.Proofs.Text.Pieces
import Lingo.Proofs.Token.Places
import Lingo.Source.Excerpt

namespace Lingo

open Text (pieces)

variable {before after rest : List Char}

theorem takeWhile_line {line : List Char} (noBreak : '\n' ∉ line)
    (ends : rest.takeWhile (· ≠ '\n') = []) : (line ++ rest).takeWhile (· ≠ '\n') = line := by
  rw [List.takeWhile_append_of_pos, ends, List.append_nil]
  exact fun _ inside => decide_eq_true (ne_of_mem_of_not_mem inside noBreak)

namespace Mark

theorem column_behind (noBreak : '\n' ∉ after) : (behind after).column = after.length := by
  have whole := takeWhile_line (mt List.mem_reverse.mp noBreak) List.takeWhile_nil
  rw [List.append_nil] at whole
  rw [behind, whole, List.length_reverse]

theorem column_behind_break (before after : List Char) :
    (behind (before ++ '\n' :: after)).column = (behind after).column := by
  simp only [behind, List.reverse_append, List.reverse_cons, List.append_assoc,
    List.takeWhile_append]
  split <;> simp_all

end Mark

namespace Excerpt

/-! ### Breaks -/

theorem lastBreak_of_not_mem (noBreak : '\n' ∉ after) (index found : Nat) :
    lastBreak (index + after.length) (after ++ rest) index found = found := by
  induction after generalizing index with
  | nil => cases rest <;> simp [lastBreak]
  | cons char after ih =>
      obtain ⟨other, later⟩ := List.ne_and_not_mem_of_not_mem_cons noBreak
      rw [List.cons_append, lastBreak, if_pos (by simp), if_neg other.symm, List.length_cons,
        Nat.add_comm after.length, ← Nat.add_assoc]
      exact ih later (index + 1)

theorem lastBreak_break (noBreak : '\n' ∉ after) (index found : Nat) :
    lastBreak (index + (before ++ '\n' :: after).length) (before ++ '\n' :: after ++ rest) index
      found = index + before.length := by
  induction before generalizing index found with
  | nil =>
      rw [List.nil_append, List.cons_append, lastBreak, if_pos (by simp), if_pos rfl,
        List.length_cons, Nat.add_comm after.length, ← Nat.add_assoc]
      exact lastBreak_of_not_mem noBreak (index + 1) index
  | cons char before ih =>
      rw [List.cons_append, List.cons_append, lastBreak, if_pos (by simp), List.length_cons,
        List.length_cons, Nat.add_comm (List.length _), Nat.add_comm before.length, ← Nat.add_assoc,
        ← Nat.add_assoc]
      exact ih (index + 1) _

theorem nextBreak_append (before after : List Char) :
    nextBreak (before ++ after) before.length =
      before.length + (after.takeWhile (· ≠ '\n')).length := by
  unfold nextBreak
  rw [List.drop_left, List.length_append, Nat.min_eq_right]
  exact Nat.add_le_add_left (List.takeWhile_prefix _).length_le _

/-- What a line is cut with: the break in front of it, or nothing for the first one. -/
inductive Leads : List Char → List Char → List Char → Prop where
  | below {before after : List Char} : Leads before ['\n'] after
  | first {after : List Char} (begins : after.head? ≠ some '\n') : Leads [] [] after

theorem Leads.nextBreak_eq {lead : List Char} (leads : Leads before lead after) :
    nextBreak (before ++ (lead ++ after)) (before.length + 1) =
      (before ++ (lead ++ after.takeWhile (· ≠ '\n'))).length := by
  cases leads with
  | below =>
      have next := nextBreak_append (before ++ ['\n']) after
      simpa [Nat.add_assoc, Nat.add_comm 1] using next
  | first begins =>
      cases after with
      | nil => rfl
      | cons char after =>
          have other : char ≠ '\n' := fun same => begins (congrArg some same)
          have next := nextBreak_append [char] after
          simpa [other, Nat.add_comm] using next

/-! ### Lines -/

/-- Lines with carets under a part of each, all behind breaks.  The first part is indented. -/
def rows (indent : Nat) : List (List Char) → List (List Char) → List Char
  | line :: lines, part :: parts =>
      '\n' :: line ++ '\n' :: List.replicate indent ' ' ++ List.replicate part.length '^' ++
        rows 0 lines parts
  | _, _ => []

theorem carets_eq (indent count : Nat) :
    carets indent (indent + count) = List.replicate indent ' ' ++ List.replicate count '^' := by
  rw [carets, Int.toNat_natCast, Int.add_comm, Int.add_sub_cancel, Int.toNat_natCast]

theorem lines_succ {lead : List Char} (leads : Leads before lead after) (last first : Int)
    (count : Nat) :
    let chars := before ++ (lead ++ after)
    let line := lead ++ after.takeWhile (· ≠ '\n')
    lines chars last (count + 1) first before.length (nextBreak chars (before.length + 1)) =
      line ++ '\n' :: carets first (if count = 0 then last else line.length - 1) ++
        lines chars last count 0 (before ++ line).length
          (nextBreak chars ((before ++ line).length + 1)) := by
  intro chars line
  have cut : (chars.drop before.length).take ((before ++ line).length - before.length) = line := by
    rw [List.drop_left, List.length_append, Nat.add_sub_cancel_left]
    exact (List.prefix_iff_eq_take.mp
      ((List.prefix_append_right_inj lead).mpr (List.takeWhile_prefix _))).symm
  rw [leads.nextBreak_eq]
  simp only [lines]
  rw [cut]

theorem exists_pieces_eq (chars : List Char) :
    ∃ others, pieces '\n' chars = chars.takeWhile (· ≠ '\n') :: others := by
  by_cases broken : '\n' ∈ chars
  · obtain ⟨line, back, rfl, noBreak⟩ := List.eq_append_cons_of_mem broken
    rw [Text.pieces_append_cons noBreak, takeWhile_line noBreak (by simp)]
    exact ⟨_, rfl⟩
  · have whole := takeWhile_line broken List.takeWhile_nil
    rw [List.append_nil] at whole
    exact ⟨[], by rw [Text.pieces_of_not_mem broken, whole]⟩

/-- What is under the lines that hold a marked part.  The first line of the text lacks a caret if the
part goes beyond it. -/
def parts (first : Bool) (marked : List Char) : List (List Char) :=
  if first ∧ '\n' ∈ marked then (pieces '\n' marked).modifyHead List.dropLast
  else pieces '\n' marked

/-- All lines that hold a marked part, from the one in which it starts. -/
theorem lines_eq {lead indent marked back : List Char}
    (leads : Leads before lead (indent ++ (marked ++ back))) (noBreak : '\n' ∉ indent) :
    let chars := before ++ (lead ++ (indent ++ (marked ++ back)))
    (if lead.isEmpty then ['\n'] else []) ++ lines chars (Mark.behind (indent ++ marked)).column
        (marked.count '\n' + 1) indent.length before.length (nextBreak chars (before.length + 1)) =
      rows indent.length (pieces '\n' (indent ++ (marked ++ back))) (parts lead.isEmpty marked) := by
  induction breaks : marked.count '\n' generalizing before lead indent marked with
  | zero =>
      intro chars
      have single : '\n' ∉ marked := List.count_eq_zero.mp breaks
      have column := Mark.column_behind (List.not_mem_append noBreak single)
      have plain : parts lead.isEmpty marked = pieces '\n' marked := if_neg fun both => single both.2
      obtain ⟨others, cut⟩ := exists_pieces_eq (indent ++ (marked ++ back))
      rw [lines_succ leads, if_pos rfl, cut, plain, Text.pieces_of_not_mem single, column,
        List.length_append, Int.natCast_add, carets_eq]
      cases leads <;> simp [rows, lines]
  | succ count ih =>
      intro chars
      have broken : '\n' ∈ marked := List.count_pos_iff.mp (by omega)
      obtain ⟨part, marked, rfl, single⟩ := List.eq_append_cons_of_mem broken
      have noBreaks := List.not_mem_append noBreak single
      have tail : indent ++ (part ++ '\n' :: marked ++ back) =
          indent ++ part ++ '\n' :: (marked ++ back) := by simp
      have column : (Mark.behind (indent ++ (part ++ '\n' :: marked))).column =
          (Mark.behind marked).column := by
        rw [← List.append_assoc, Mark.column_behind_break]
      have line : (indent ++ part ++ '\n' :: (marked ++ back)).takeWhile (· ≠ '\n') =
          indent ++ part := takeWhile_line noBreaks (by simp)
      have later := @ih (before ++ (lead ++ (indent ++ part))) ['\n'] [] marked .below
        List.not_mem_nil (by simpa [List.count_eq_zero.mpr single] using breaks)
      simp only [chars, tail] at leads ⊢
      rw [lines_succ leads, if_neg (Nat.succ_ne_zero count), column, line,
        Text.pieces_append_cons noBreaks, parts, Text.pieces_append_cons single]
      cases leads with
      | below =>
          have stop : ((['\n'] ++ (indent ++ part)).length : Int) - 1 =
              indent.length + part.length := by simp
          rw [stop, carets_eq]
          simpa [parts, rows] using later
      | first begins =>
          have marker : carets indent.length (([] ++ (indent ++ part)).length - 1) =
              List.replicate indent.length ' ' ++ List.replicate part.dropLast.length '^' := by
            rw [carets, Int.toNat_natCast, List.nil_append, List.length_append, List.length_dropLast]
            congr 2
            omega
          rw [marker]
          simpa [parts, rows] using later

theorem count_rows {lines parts : List (List Char)} (indent : Nat)
    (noCaret : ∀ line ∈ lines, '^' ∉ line) (enough : parts.length ≤ lines.length) :
    (rows indent lines parts).count '^' = parts.flatten.length := by
  induction parts generalizing indent lines with
  | nil => cases lines <;> rfl
  | cons part parts ih =>
      cases lines with
      | nil => cases enough
      | cons line lines =>
          obtain ⟨here, later⟩ := List.forall_mem_cons.mp noCaret
          rw [List.flatten_cons, List.length_append, ← ih 0 later (Nat.le_of_succ_le_succ enough)]
          simp [rows, List.count_eq_zero.mpr here, List.count_replicate]

theorem tab_not_mem_lines {chars : List Char} (noTab : '\t' ∉ chars) (last first : Int)
    (count start stop : Nat) : '\t' ∉ lines chars last count first start stop := by
  induction count generalizing first start stop with
  | zero => exact List.not_mem_nil
  | succ count ih =>
      have cut : '\t' ∉ (chars.drop start).take (stop - start) :=
        fun inside => noTab (List.mem_of_mem_drop (List.mem_of_mem_take inside))
      simp [lines, carets, cut, ih, List.mem_replicate]

theorem render_eq {text : String} {front marked back : List Char}
    (cut : text.toList = front ++ (marked ++ back)) (noTab : '\t' ∉ text.toList) :
    let first := lastBreak front.length text.toList 0 0
    (render text (.behind front) (.behind (front ++ marked))).toList =
      lines text.toList (Mark.behind (front ++ marked)).column (marked.count '\n' + 1)
        (Mark.behind front).column first (nextBreak text.toList (first + 1)) := by
  intro first
  have limit : clampEnd text.toList.length (Mark.behind front).index = front.length := by
    have inside : front.length ≤ text.toList.length := by simp [cut]
    change clampEnd text.toList.length front.length = _
    rw [clampEnd, if_neg (Int.not_lt.mpr (Int.natCast_nonneg _)), Int.toNat_natCast,
      Nat.min_eq_left inside]
  have count : ((Mark.behind (front ++ marked)).line - (Mark.behind front).line + 1).toNat =
      marked.count '\n' + 1 := by
    simp only [Mark.behind, List.count_append]
    omega
  simp only [render, limit, count]
  rw [String.toList_ofList, List.filter_eq_self]
  intro char inside
  refine decide_eq_true ?_
  rintro rfl
  exact tab_not_mem_lines noTab _ _ _ _ _ inside

theorem exists_leads {front : List Char} (rest : List Char)
    (begins : ¬(front = [] ∧ (front ++ rest).head? = some '\n')) :
    ∃ above lead indent, front ++ rest = above ++ (lead ++ (indent ++ rest)) ∧ '\n' ∉ indent ∧
      Leads above lead (indent ++ rest) ∧ lead.isEmpty = decide ((Mark.behind front).line = 0) ∧
      lastBreak front.length (front ++ rest) 0 0 = above.length ∧
      (pieces '\n' (front ++ rest)).drop (front.count '\n') = pieces '\n' (indent ++ rest) ∧
      ∀ more, (Mark.behind (front ++ more)).column = (Mark.behind (indent ++ more)).column := by
  by_cases broken : '\n' ∈ front
  · obtain ⟨above, indent, rfl, noBreak⟩ :
        ∃ above indent, front = above ++ '\n' :: indent ∧ '\n' ∉ indent := by
      obtain ⟨last, others, cut, noBreak⟩ :=
        List.eq_append_cons_of_mem (List.mem_reverse.mpr broken)
      exact ⟨others.reverse, last.reverse, by simpa using congrArg List.reverse cut, by simpa⟩
    have found := @lastBreak_break above _ rest noBreak 0 0
    rw [Nat.zero_add, Nat.zero_add] at found
    have breaks : (above ++ '\n' :: indent).count '\n' = (pieces '\n' above).length := by
      simp [Text.length_pieces, List.count_eq_zero.mpr noBreak]
    refine ⟨above, ['\n'], indent, by simp, noBreak, .below, ?_, found, ?_, fun more => ?_⟩
    · simp [Mark.behind]
      omega
    · rw [breaks, Text.pieces_eq_splitOn, Text.pieces_eq_splitOn, Text.pieces_eq_splitOn,
        List.append_assoc, List.cons_append, List.splitOn_append_cons_self, List.drop_left]
    · rw [List.append_assoc, List.cons_append, Mark.column_behind_break]
  · have found := @lastBreak_of_not_mem _ rest broken 0 0
    rw [Nat.zero_add] at found
    have none := List.count_eq_zero.mpr broken
    have opens : (front ++ rest).head? ≠ some '\n' := by
      cases front with
      | nil => exact fun same => begins ⟨rfl, same⟩
      | cons char front => exact fun same => broken (Option.some.inj same ▸ List.mem_cons_self ..)
    refine ⟨[], [], front, rfl, broken, .first opens, ?_, found, ?_, fun more => rfl⟩
    · simp [Mark.behind, none]
    · rw [none, List.drop_zero]

/-- All lines below a break, each with carets under all of it, and then the last carets, which are
under no line if the text has ended. -/
theorem lines_below (before : List Char) {rest : List Char} {count : Nat} (last : Nat)
    (enough : count ≤ (pieces '\n' rest).length) :
    let chars := before ++ '\n' :: rest
    lines chars last (count + 1) 0 before.length (nextBreak chars (before.length + 1)) =
      rows 0 (pieces '\n' rest) ((pieces '\n' rest).take count) ++
        ((pieces '\n' rest)[count]?.elim [] ('\n' :: ·) ++ '\n' :: List.replicate last '^') := by
  have under (length : Nat) : carets 0 length = List.replicate length '^' := by simp [carets]
  induction count generalizing before rest with
  | zero =>
      intro chars
      obtain ⟨others, cut⟩ := exists_pieces_eq rest
      rw [show chars = before ++ (['\n'] ++ rest) from rfl, lines_succ .below, if_pos rfl, under, cut]
      simp [rows, lines]
  | succ count ih =>
      intro chars
      rw [show chars = before ++ (['\n'] ++ rest) from rfl, lines_succ .below,
        if_neg (Nat.succ_ne_zero count)]
      by_cases broken : '\n' ∈ rest
      · obtain ⟨line, rest, rfl, single⟩ := List.eq_append_cons_of_mem broken
        rw [Text.pieces_append_cons single] at enough ⊢
        have later := ih (before ++ '\n' :: line) (Nat.le_of_succ_le_succ enough)
        rw [takeWhile_line single (by simp)]
        simpa [rows, carets] using later
      · -- The text ends with this line, so that only the last carets are left.
        rw [Text.pieces_of_not_mem broken] at enough ⊢
        obtain rfl : count = 0 := Nat.le_zero.mp (Nat.le_of_succ_le_succ enough)
        have whole := takeWhile_line broken List.takeWhile_nil
        rw [List.append_nil] at whole
        rw [whole]
        simp [rows, lines, carets]

theorem count_below {lines : List (List Char)} (noCaret : ∀ line ∈ lines, '^' ∉ line)
    (count last : Nat) :
    (rows 0 lines (lines.take count) ++
        (lines[count]?.elim [] ('\n' :: ·) ++ '\n' :: List.replicate last '^')).count '^' =
      (lines.take count).flatten.length + last := by
  have bare : (lines[count]?.elim [] ('\n' :: ·)).count '^' = 0 := by
    cases next : lines[count]? with
    | none => rfl
    | some line =>
        have absent := List.count_eq_zero.mpr (noCaret line (List.mem_of_getElem? next))
        simpa using absent
  rw [List.count_append, count_rows 0 noCaret (List.length_take_le' ..), List.count_append, bare]
  simp

theorem length_flatten_parts (first : Bool) (marked : List Char) :
    (parts first marked).flatten.length +
        (if first ∧ '\n' ∈ marked ∧ marked.head? ≠ some '\n' then 1 else 0) =
      (marked.filter (· ≠ '\n')).length := by
  rw [← Text.flatten_pieces]
  by_cases beyond : first ∧ '\n' ∈ marked
  · obtain ⟨part, others, rfl, single⟩ := List.eq_append_cons_of_mem beyond.2
    rw [parts, if_pos beyond, Text.pieces_append_cons single]
    cases part with
    | nil => simp
    | cons char part =>
        have other : char ≠ '\n' := (List.ne_of_not_mem_cons single).symm
        simp [beyond.1, other]
  · rw [parts, if_neg beyond, if_neg fun all => beyond ⟨all.1, all.2.1⟩, Nat.add_zero]

/-- Excerpts of a text without tabs and carets.  All lines that hold the marked part are shown, with
carets under what is marked of them, one of which is missing on the first line of the text if the
part goes beyond it.  If the part starts on an empty first line, the lines below are shown instead,
with carets under all of them but the last, which has as many as the column in which the part ends. -/
theorem render_shows (text : String) (front marked back : List Char)
    (cut : text.toList = front ++ (marked ++ back)) (noTab : '\t' ∉ text.toList)
    (noCaret : '^' ∉ text.toList) :
    let start := Mark.behind front
    let stop := Mark.behind (front ++ marked)
    let first := decide (start.line = 0)
    let shown := (pieces '\n' text.toList).drop start.line.toNat
    if front = [] ∧ text.toList.head? = some '\n' then
      (render text start stop).toList =
        rows 0 shown.tail (shown.tail.take stop.line.toNat) ++
          (shown.tail[stop.line.toNat]?.elim [] ('\n' :: ·) ++
            '\n' :: List.replicate stop.column.toNat '^') ∧
      (render text start stop).toList.count '^' =
        (shown.tail.take stop.line.toNat).flatten.length + stop.column.toNat
    else
      (parts first marked).length = (stop.line - start.line).toNat + 1 ∧
      (parts first marked).length ≤ shown.length ∧
      (if first then ['\n'] else []) ++ (render text start stop).toList =
        rows start.column.toNat shown (parts first marked) ∧
      (render text start stop).toList.count '^' +
          (if first ∧ '\n' ∈ marked ∧ marked.head? ≠ some '\n' then 1 else 0) =
        (marked.filter (· ≠ '\n')).length := by
  intro start stop first shown
  have plain : ∀ line ∈ shown, '^' ∉ line := fun line among inside =>
    noCaret (Text.mem_of_mem_pieces (List.mem_of_mem_drop among) inside).1
  split
  next empty =>
    obtain ⟨rest, whole⟩ := List.head?_eq_some_iff.mp empty.2
    obtain rfl := empty.1
    have below : shown.tail = pieces '\n' rest := by
      simp only [shown, whole]
      rw [← List.nil_append ('\n' :: rest), Text.pieces_append_cons List.not_mem_nil]
      rfl
    have breaks : stop.line.toNat = marked.count '\n' := Int.toNat_natCast _
    have enough : marked.count '\n' ≤ (pieces '\n' rest).length := by
      have counted := congrArg (List.count '\n') (whole.symm.trans cut)
      simp only [List.nil_append, List.count_append, List.count_cons_self] at counted
      rw [Text.length_pieces]
      omega
    have layout := render_eq cut noTab
    rw [whole] at layout
    replace layout := layout.trans (lines_below [] stop.column.toNat enough)
    rw [← below, ← breaks] at layout
    have counted := count_below (fun line among => plain line (List.mem_of_mem_tail among))
    exact ⟨layout, (congrArg (List.count '^') layout).trans (counted _ _)⟩
  next begins =>
    rw [cut] at begins
    obtain ⟨above, lead, indent, whole, noBreak, leads, isFirst, found, below, columns⟩ :=
      exists_leads (marked ++ back) begins
    have here : start.column = indent.length := by
      have here := columns []
      rwa [List.append_nil, List.append_nil, Mark.column_behind noBreak] at here
    have below : shown = pieces '\n' (indent ++ (marked ++ back)) := by rw [← below, ← cut]; rfl
    have layout : (if first then ['\n'] else []) ++ (render text start stop).toList =
        rows start.column.toNat shown (parts first marked) := by
      have laid := lines_eq leads noBreak
      rw [isFirst] at laid
      simp only [← whole] at laid
      rw [render_eq cut noTab, cut, found, columns, below, here, Int.toNat_natCast]
      exact laid
    have length : (parts first marked).length = marked.count '\n' + 1 := by
      unfold parts
      split <;> simp [Text.length_pieces]
    have enough : (parts first marked).length ≤ shown.length := by
      rw [length, below, Text.length_pieces]
      simp only [List.count_append]
      omega
    refine ⟨?_, enough, layout, ?_⟩
    · rw [length]
      simp only [start, stop, Mark.behind, List.count_append]
      omega
    · have counted := congrArg (List.count '^') layout
      have lead : (if first then ['\n'] else []).count '^' = 0 := by split <;> rfl
      rw [count_rows _ plain enough, List.count_append, lead, Nat.zero_add] at counted
      rw [counted, length_flatten_parts]

/-- A part over an empty line, below the first one. -/
theorem render_shows_below :
    ("ab\ncd\n\ne".toList = ['a', 'b', '\n', 'c'] ++ (['d', '\n', '\n'] ++ ['e']) ∧
      '\t' ∉ "ab\ncd\n\ne".toList ∧ '^' ∉ "ab\ncd\n\ne".toList) ∧
    (render "ab\ncd\n\ne" ⟨4, 1, 1⟩ ⟨7, 3, 0⟩).toList =
      rows 1 [['c', 'd'], [], ['e']] [['d'], [], []] := by
  have noTab : '\t' ∉ "ab\ncd\n\ne".toList := by decide
  have noCaret : '^' ∉ "ab\ncd\n\ne".toList := by decide
  exact ⟨⟨rfl, noTab, noCaret⟩, (render_shows "ab\ncd\n\ne" ['a', 'b', '\n', 'c'] ['d', '\n', '\n']
    ['e'] rfl noTab noCaret).2.2.1⟩

/-- The first line lacks a caret, and an empty first line is not shown. -/
theorem render_misses_marks :
    render "ab\ncd" (.behind []) (.behind ['a', 'b', '\n', 'c', 'd']) = "ab\n^\ncd\n^^" ∧
    render "\nab" (.behind []) (.behind ['\n', 'a']) = "\nab\n^^\n^" := by
  decide

end Excerpt

end Lingo
