import ArtifactGraph.Report.Markdown

/-!
# The rows of tables

A table in Markdown is read line by line, and a line is read bar by bar.  A bar behind an odd number
of backslashes is part of a cell, and every other bar ends one.  This module says which texts a row
shows to such a reader.

* Reading.  `cellsOf` are the cells of a line, and `unescape` is what a cell says.  `bars` counts
  the bars that end a cell; `length_splitFrom` and `bars_append` carry that count through a line.
* Writing.  `cell_append` and `cell_eq_self`: every row of a report is made from texts that are
  escaped as a whole.  `blocks` lays a report out in words and tables, and `markdownText_eq_join` is
  the report made up from them.
* Cells.  `bars_flatMap_cellChar_eq_zero_iff`: a text ends its cell early where one of its bars
  stands behind an odd number of backslashes.  `unescape_flatMap_cellChar_eq_iff` is the same for
  what its cell says.
* Rows.  `shows_rowOf_iff`: a row shows its texts if and only if each of them is `Clean`.
-/

namespace ArtifactGraph.Report

/-! ## Reading -/

/-- The number of backslashes directly before a place, once `c` is read. -/
def nextRun (run : Nat) (c : Char) : Nat := if c == '\\' then run + 1 else 0

/-- The number of backslashes at the end of a text. -/
def backslashes (cs : List Char) : Nat := cs.foldl nextRun 0

/-- Whether a character behind `run` backslashes ends a cell. -/
def endsCell (run : Nat) (c : Char) : Bool := c == '|' && run % 2 == 0

/-- The pieces of a line between the bars that end a cell, from a place behind `run` backslashes
on. -/
def splitFrom (run : Nat) : List Char → List (List Char)
  | [] => [[]]
  | c :: rest =>
    if endsCell run c then [] :: splitFrom (nextRun run c) rest
    else (splitFrom (nextRun run c) rest).modifyHead (c :: ·)

/-- The cells of a line. They stand between the first bar and the last one, and have a blank at
either end. -/
def cellsOf (line : List Char) : List (List Char) :=
  (splitFrom 0 line).tail.dropLast.map fun piece => piece.tail.dropLast

/-- What a cell says. A backslash takes the meaning from a bar, and from the characters of `also` if
the reader knows of more: a backslash itself, or all punctuation. -/
def unescape (also : Char → Bool) : List Char → List Char
  | '\\' :: c :: rest =>
    if c == '|' || also c then c :: unescape also rest else '\\' :: unescape also (c :: rest)
  | c :: rest => c :: unescape also rest
  | [] => []

/-- A blank for the end of a line. -/
def unbroken (c : Char) : Char := if c == '\n' || c == '\r' then ' ' else c

/-- The number of bars that end a cell, from a place behind `run` backslashes on. -/
def bars (run : Nat) : List Char → Nat
  | [] => 0
  | c :: rest => (if endsCell run c then 1 else 0) + bars (nextRun run c) rest

@[simp] theorem nextRun_bar (run : Nat) : nextRun run '|' = 0 := rfl

@[simp] theorem nextRun_blank (run : Nat) : nextRun run ' ' = 0 := rfl

@[simp] theorem nextRun_backslash (run : Nat) : nextRun run '\\' = run + 1 := rfl

theorem endsCell_of_ne {run : Nat} {c : Char} (h : c ≠ '|') : endsCell run c = false := by
  simp [endsCell, h]

theorem endsCell_bar (run : Nat) : endsCell run '|' = (run % 2 == 0) := rfl

theorem length_splitFrom (run : Nat) (cs : List Char) :
    (splitFrom run cs).length = bars run cs + 1 := by
  induction cs generalizing run with
  | nil => rfl
  | cons c rest ih =>
    by_cases h : endsCell run c = true
    · simp [splitFrom, bars, h, ih]
      omega
    · simp [splitFrom, bars, h, ih]

theorem bars_append (run : Nat) (xs ys : List Char) :
    bars run (xs ++ ys) = bars run xs + bars (xs.foldl nextRun run) ys := by
  induction xs generalizing run with
  | nil => simp [bars]
  | cons c rest ih => simp [bars, ih, Nat.add_assoc]

theorem bars_eq_zero_of_not_mem {run : Nat} {cs : List Char} (h : '|' ∉ cs) : bars run cs = 0 := by
  induction cs generalizing run with
  | nil => rfl
  | cons c rest ih =>
    have hc : c ≠ '|' := fun heq => h (heq ▸ List.mem_cons_self)
    simp [bars, endsCell_of_ne hc, ih fun hmem => h (List.mem_cons_of_mem c hmem)]

/-- A text without a bar that ends a cell is the piece before the next such bar. -/
theorem splitFrom_append_bar {run : Nat} {xs : List Char} (h : bars run xs = 0)
    (heven : xs.foldl nextRun run % 2 = 0) (ys : List Char) :
    splitFrom run (xs ++ '|' :: ys) = xs :: splitFrom 0 ys := by
  induction xs generalizing run with
  | nil =>
    have hends : endsCell run '|' = true := by rw [endsCell_bar]; simpa using heven
    simp [splitFrom, hends]
  | cons c rest ih =>
    have hsum : (if endsCell run c then 1 else 0) + bars (nextRun run c) rest = 0 := h
    have hc : endsCell run c = false := by
      cases hends : endsCell run c with
      | false => rfl
      | true => simp [hends] at hsum
    rw [List.cons_append, splitFrom, hc, ih (by simpa [hc] using hsum) heven]
    rfl

/-! ## Lines of cells -/

/-- The characters of a row up to the end of its line. -/
def lineOf (row : String) : List Char := row.toList.dropLast

/-- A cell with its blanks and the bar that ends it. -/
def closedCell (cs : List Char) : List Char := ' ' :: (cs ++ [' ', '|'])

/-- A row is a bar and one closed cell after the other. -/
theorem toList_row {cells : List String} (hne : cells ≠ []) :
    (row cells).toList = '|' :: (cells.flatMap fun s => closedCell s.toList) ++ ['\n'] := by
  obtain ⟨s, rest, rfl⟩ := List.exists_cons_of_ne_nil hne
  have hjoin : ∀ s, ' ' :: (Text.joinWith " | " (s :: rest)).toList ++ [' ', '|'] =
      (s :: rest).flatMap fun s => closedCell s.toList := by
    induction rest with
    | nil => simp [Text.joinWith, closedCell]
    | cons t more ih =>
      intro s
      have hstep : ' ' :: (Text.joinWith " | " (s :: t :: more)).toList ++ [' ', '|'] =
          closedCell s.toList ++
            (' ' :: (Text.joinWith " | " (t :: more)).toList ++ [' ', '|']) := by
        simp [Text.joinWith, closedCell]
      rw [hstep, ih (by simp) t]
      simp
  rw [← hjoin s]
  simp [row]

theorem lineOf_row {cells : List String} (hne : cells ≠ []) :
    lineOf (row cells) = '|' :: cells.flatMap fun s => closedCell s.toList := by
  rw [lineOf, toList_row hne, List.dropLast_concat]

/-- A cell adds its own bars and the one that ends it. -/
theorem bars_closedCell_append (cs ys : List Char) :
    bars 0 (closedCell cs ++ ys) = bars 0 cs + 1 + bars 0 ys := by
  have hafter : (cs ++ [' ', '|']).foldl nextRun 0 = 0 := by simp
  have hpiece : bars 0 (closedCell cs) = bars 0 cs + 1 := by
    have hblank : bars 0 (closedCell cs) = bars 0 (cs ++ [' ', '|']) := by
      simp [closedCell, bars, endsCell]
    rw [hblank, bars_append]
    simp [bars, endsCell]
  rw [bars_append, hpiece]
  simp [closedCell]

/-- Each cell has a bar that ends it. If there are more, some cell has one of its own. -/
theorem bars_flatMap_closedCell {cells : List String} :
    cells.length ≤ bars 0 (cells.flatMap fun s => closedCell s.toList) ∧
      (bars 0 (cells.flatMap fun s => closedCell s.toList) = cells.length ↔
        ∀ s ∈ cells, bars 0 s.toList = 0) := by
  induction cells with
  | nil => simp [bars]
  | cons s rest ih =>
    obtain ⟨hle, hiff⟩ := ih
    rw [List.flatMap_cons, bars_closedCell_append, List.length_cons, List.forall_mem_cons, ← hiff]
    omega

theorem length_cellsOf_row_eq_iff {cells : List String} (hne : cells ≠ []) :
    (cellsOf (lineOf (row cells))).length = cells.length ↔
      ∀ s ∈ cells, bars 0 s.toList = 0 := by
  rw [lineOf_row hne, ← bars_flatMap_closedCell.2]
  simp [cellsOf, length_splitFrom, bars, endsCell]

/-- A row whose cells have no bars of their own is split into these cells. -/
theorem cellsOf_row {cells : List String} (hne : cells ≠ [])
    (h : ∀ s ∈ cells, bars 0 s.toList = 0) :
    cellsOf (lineOf (row cells)) = cells.map String.toList := by
  have hpieces : splitFrom 0 (cells.flatMap fun s => closedCell s.toList) =
      (cells.map fun s => ' ' :: s.toList ++ [' ']) ++ [[]] := by
    clear hne
    induction cells with
    | nil => rfl
    | cons s rest ih =>
      have hs : bars 0 (' ' :: s.toList ++ [' ']) = 0 := by
        rw [bars_append]
        simpa [bars, endsCell] using h s List.mem_cons_self
      have hclosed : closedCell s.toList ++ rest.flatMap (fun s => closedCell s.toList) =
          (' ' :: s.toList ++ [' ']) ++ '|' :: rest.flatMap fun s => closedCell s.toList := by
        simp [closedCell]
      rw [List.flatMap_cons, hclosed, splitFrom_append_bar hs (by simp),
        ih fun t ht => h t (List.mem_cons_of_mem s ht)]
      simp
  have hbar : splitFrom 0 ('|' :: cells.flatMap fun s => closedCell s.toList) =
      [] :: splitFrom 0 (cells.flatMap fun s => closedCell s.toList) := by
    simp [splitFrom, endsCell]
  rw [lineOf_row hne, cellsOf, hbar, hpieces, List.tail_cons, List.dropLast_concat, List.map_map]
  refine List.map_congr_left ?_
  intro s _
  simp only [Function.comp_apply, List.cons_append, List.tail_cons, List.dropLast_concat]

/-! ## What a cell says -/

theorem cellChar_bar : cellChar '|' = ['\\', '|'] := rfl

theorem cellChar_of_ne {c : Char} (hbar : c ≠ '|') (hreturn : c ≠ '\r') :
    cellChar c = [unbroken c] := by
  by_cases h : c = '\n'
  · rw [h]
    rfl
  · simp [cellChar, unbroken, hbar, h, hreturn]

/-- Every character but a bar stands for itself, or for a blank. -/
theorem exists_cellChar_eq {c : Char} (hbar : c ≠ '|') :
    ∃ d, cellChar c = [d] ∧ d ≠ '|' ∧ ∀ run, nextRun run d = nextRun run c := by
  by_cases h : c = '\n'
  · exact ⟨' ', by rw [h]; rfl, by decide, by rw [h]; exact fun _ => rfl⟩
  · exact ⟨c, by simp [cellChar, hbar, h], hbar, fun _ => rfl⟩

/-- The bars of a text that begins with `c`, by what stands before them. -/
theorem forall_bar_prefix_cons {P : List Char → Prop} {c : Char} {rest : List Char} :
    (∀ before, before ++ ['|'] <+: c :: rest → P before) ↔
      (c = '|' → P []) ∧ ∀ before, before ++ ['|'] <+: rest → P (c :: before) := by
  constructor
  · intro h
    refine ⟨?_, fun before hbefore => h (c :: before) ?_⟩
    · rintro rfl
      exact h [] (List.prefix_append ['|'] rest)
    · rw [List.cons_append]
      exact List.cons_prefix_cons.2 ⟨rfl, hbefore⟩
  · rintro ⟨hhead, htail⟩ before hbefore
    cases before with
    | nil => exact hhead (List.cons_prefix_cons.1 hbefore).1.symm
    | cons d before =>
      obtain ⟨rfl, hrest⟩ := List.cons_prefix_cons.1 hbefore
      exact htail before hrest

/-- The cell of a text has no bar that ends it if and only if no bar of the text stands behind an
odd number of backslashes. With its own backslash such a bar stands behind an even number. -/
theorem bars_flatMap_cellChar_eq_zero_iff {run : Nat} {cs : List Char} :
    bars run (cs.flatMap cellChar) = 0 ↔
      ∀ before, before ++ ['|'] <+: cs → before.foldl nextRun run % 2 = 0 := by
  induction cs generalizing run with
  | nil => simp [bars]
  | cons c rest ih =>
    rw [forall_bar_prefix_cons, List.flatMap_cons]
    by_cases hc : c = '|'
    · subst hc
      have hbars : bars run (cellChar '|' ++ rest.flatMap cellChar) =
          (if (run + 1) % 2 = 0 then 1 else 0) + bars 0 (rest.flatMap cellChar) := by
        simp [cellChar_bar, bars, endsCell]
      have hodd : (if (run + 1) % 2 = 0 then 1 else 0) = 0 ↔ run % 2 = 0 := by
        split <;> omega
      rw [hbars, Nat.add_eq_zero_iff, hodd, ih]
      simp
    · obtain ⟨d, hcell, hd, hrun⟩ := exists_cellChar_eq hc
      have hbars : bars run (cellChar c ++ rest.flatMap cellChar) =
          bars (nextRun run c) (rest.flatMap cellChar) := by
        simp [hcell, bars, endsCell_of_ne hd, hrun]
      rw [hbars, ih]
      simp [hc]

/-- Whether a backslash takes the meaning from the first of these characters. A bar has a backslash
of its own. -/
def takesMeaning (also : Char → Bool) : List Char → Bool
  | [] => false
  | c :: _ => c != '|' && also (unbroken c)

/-- Whether every backslash of a text is one to the reader. -/
def Literal (also : Char → Bool) (cs : List Char) : Prop :=
  ∀ c, ['\\', c] <:+: cs → c ≠ '|' → also (unbroken c) = false

theorem literal_cons {also : Char → Bool} {c : Char} {rest : List Char} :
    Literal also (c :: rest) ↔
      (c = '\\' → takesMeaning also rest = false) ∧ Literal also rest := by
  constructor
  · intro h
    refine ⟨?_, fun d hd => h d (List.infix_cons_iff.2 (.inr hd))⟩
    rintro rfl
    cases rest with
    | nil => rfl
    | cons d rest =>
      by_cases hd : d = '|'
      · simp [takesMeaning, hd]
      · have hpair : ['\\', d] <:+: '\\' :: d :: rest := ⟨[], rest, rfl⟩
        simp [takesMeaning, h d hpair hd]
  · rintro ⟨hhead, hrest⟩ d hpair hbar
    rcases List.infix_cons_iff.1 hpair with hprefix | hinfix
    · obtain ⟨rfl, more, rfl⟩ := List.cons_prefix_cons.1 hprefix
      simpa [takesMeaning, hbar] using hhead rfl
    · exact hrest d hinfix hbar

theorem unescape_cons_of_ne {also : Char → Bool} {c : Char} (h : c ≠ '\\') (cs : List Char) :
    unescape also (c :: cs) = c :: unescape also cs := by
  rw [unescape.eq_2]
  rintro _ _ rfl
  exact absurd rfl h

theorem unescape_bar (also : Char → Bool) (cs : List Char) :
    unescape also ('\\' :: '|' :: cs) = '|' :: unescape also cs := by
  simp [unescape]

theorem unescape_pair {also : Char → Bool} {c : Char} (hbar : c ≠ '|') (cs : List Char) :
    unescape also ('\\' :: c :: cs) =
      if also c then c :: unescape also cs else '\\' :: unescape also (c :: cs) := by
  simp [unescape, hbar]

theorem unbroken_ne {c d : Char} (h : c ≠ d) (hd : d ≠ ' ') : unbroken c ≠ d := by
  unfold unbroken
  split
  · exact hd.symm
  · exact h

/-- The cell of a text says its first character first, unless that is a backslash that takes the
meaning from the next one. -/
theorem unescape_flatMap_cellChar_cons {also : Char → Bool} {c : Char} {rest : List Char}
    (hreturn : '\r' ∉ c :: rest) (h : c = '\\' → takesMeaning also rest = false) :
    unescape also ((c :: rest).flatMap cellChar) =
      unbroken c :: unescape also (rest.flatMap cellChar) := by
  rw [List.flatMap_cons]
  by_cases hbar : c = '|'
  · rw [hbar]
    exact unescape_bar also _
  have hc : cellChar c = [unbroken c] :=
    cellChar_of_ne hbar fun heq => hreturn (heq ▸ List.mem_cons_self)
  by_cases hslash : c = '\\'
  · subst hslash
    cases rest with
    | nil => rfl
    | cons d more =>
      by_cases hd : d = '|'
      · -- The two backslashes may be a pair to the reader, but then the bar follows as it is.
        subst hd
        change unescape also ('\\' :: '\\' :: '|' :: more.flatMap cellChar) =
          '\\' :: unescape also ('\\' :: '|' :: more.flatMap cellChar)
        rw [unescape_pair (by decide), unescape_bar, unescape_cons_of_ne (by decide), ite_self]
      · have hmore : cellChar d = [unbroken d] :=
          cellChar_of_ne hd fun heq => hreturn (heq ▸ List.mem_cons_of_mem _ List.mem_cons_self)
        have hkeeps : also (unbroken d) = false := by simpa [takesMeaning, hd] using h rfl
        rw [List.flatMap_cons, hmore]
        change unescape also ('\\' :: unbroken d :: more.flatMap cellChar) =
          '\\' :: unescape also (unbroken d :: more.flatMap cellChar)
        rw [unescape_pair (unbroken_ne hd (by decide)), hkeeps, if_neg Bool.false_ne_true]
  · rw [hc, List.singleton_append, unescape_cons_of_ne (unbroken_ne hslash (by decide))]

/-- A backslash that takes the meaning from the next character is not said. -/
theorem unescape_flatMap_cellChar_of_takesMeaning {also : Char → Bool} {c : Char} {rest : List Char}
    (hreturn : c ≠ '\r') (h : takesMeaning also (c :: rest) = true) :
    unescape also (('\\' :: c :: rest).flatMap cellChar) =
      unbroken c :: unescape also (rest.flatMap cellChar) := by
  have hmeaning : c ≠ '|' ∧ also (unbroken c) = true := by simpa [takesMeaning] using h
  rw [List.flatMap_cons, List.flatMap_cons, cellChar_of_ne hmeaning.1 hreturn]
  change unescape also ('\\' :: unbroken c :: rest.flatMap cellChar) = _
  rw [unescape_pair (unbroken_ne hmeaning.1 (by decide)), if_pos hmeaning.2]

theorem length_unescape_flatMap_cellChar_le (also : Char → Bool) :
    ∀ {cs : List Char}, '\r' ∉ cs → (unescape also (cs.flatMap cellChar)).length ≤ cs.length
  | [], _ => Nat.zero_le _
  | [c], hreturn => by
    rw [unescape_flatMap_cellChar_cons hreturn fun _ => rfl]
    exact Nat.le_refl 1
  | c :: d :: rest, hreturn => by
    have htail : '\r' ∉ d :: rest := fun hmem => hreturn (List.mem_cons_of_mem c hmem)
    by_cases h : c = '\\' → takesMeaning also (d :: rest) = false
    · rw [unescape_flatMap_cellChar_cons hreturn h]
      exact Nat.succ_le_succ (length_unescape_flatMap_cellChar_le also htail)
    · obtain ⟨rfl, hmeaning⟩ : c = '\\' ∧ takesMeaning also (d :: rest) = true := by simpa using h
      have hd : d ≠ '\r' := fun heq => htail (heq ▸ List.mem_cons_self)
      have hrest : '\r' ∉ rest := fun hmem => htail (List.mem_cons_of_mem d hmem)
      rw [unescape_flatMap_cellChar_of_takesMeaning hd hmeaning]
      exact Nat.le_succ_of_le (Nat.succ_le_succ (length_unescape_flatMap_cellChar_le also hrest))

/-- The cell of a text says the text if and only if every backslash of the text is one to the
reader. -/
theorem unescape_flatMap_cellChar_eq_iff {also : Char → Bool} {cs : List Char}
    (hreturn : '\r' ∉ cs) :
    unescape also (cs.flatMap cellChar) = cs.map unbroken ↔ Literal also cs := by
  induction cs with
  | nil => simp [unescape, Literal]
  | cons c rest ih =>
    have hrest : '\r' ∉ rest := fun hmem => hreturn (List.mem_cons_of_mem c hmem)
    rw [literal_cons]
    by_cases h : c = '\\' → takesMeaning also rest = false
    · rw [unescape_flatMap_cellChar_cons hreturn h, List.map_cons, List.cons_inj_right, ih hrest]
      exact (and_iff_right h).symm
    · refine iff_of_false ?_ fun hliteral => h hliteral.1
      obtain ⟨rfl, hmeaning⟩ : c = '\\' ∧ takesMeaning also rest = true := by simpa using h
      cases rest with
      | nil => cases hmeaning
      | cons d more =>
        -- One character is missing, and no other comes in for it.
        have hd : d ≠ '\r' := fun heq => hrest (heq ▸ List.mem_cons_self)
        have hmore : '\r' ∉ more := fun hmem => hrest (List.mem_cons_of_mem d hmem)
        have hlength := length_unescape_flatMap_cellChar_le also hmore
        intro heq
        rw [unescape_flatMap_cellChar_of_takesMeaning hd hmeaning] at heq
        have := congrArg List.length heq
        simp only [List.length_cons, List.length_map] at this
        omega

/-! ## Rows of texts -/

theorem toList_cell (s : String) : (cell s).toList = s.toList.flatMap cellChar := by
  rw [cell, String.toList_ofList]

theorem cell_append (s t : String) : cell (s ++ t) = cell s ++ cell t := by
  simp [cell, String.ofList_append]

theorem cellChar_eq_self {c : Char} (hbar : c ≠ '|') (hfeed : c ≠ '\n') : cellChar c = [c] := by
  simp [cellChar, hbar, hfeed]

/-- A text without bars and line feeds is its own cell. -/
theorem cell_eq_self {s : String} (hbar : '|' ∉ s.toList) (hfeed : '\n' ∉ s.toList) :
    cell s = s := by
  have hchars : ∀ c ∈ s.toList, cellChar c = [c] := fun c hc =>
    cellChar_eq_self (fun heq => hbar (heq ▸ hc)) fun heq => hfeed (heq ▸ hc)
  rw [cell, List.flatMap_def, List.map_congr_left hchars, ← List.flatMap_def,
    List.flatMap_singleton', String.ofList_toList]

/-- A number is its own cell. -/
theorem cell_toString (n : Nat) : cell (toString n) = toString n := by
  have hdigit : ∀ c ∈ (toString n).toList, c.isDigit = true := by
    intro c hc
    rw [Nat.toString_eq_repr, Nat.toList_repr] at hc
    exact Nat.isDigit_of_mem_toDigits (by decide) (by decide) hc
  refine cell_eq_self (fun h => ?_) fun h => ?_
  · exact absurd (hdigit _ h) (by decide)
  · exact absurd (hdigit _ h) (by decide)

/-- The row of a list of texts. -/
def rowOf (texts : List String) : String := row (texts.map cell)

/-- A character of a cell is one of the text, unless the cell has it in the place of another. -/
theorem of_mem_cellChar {c d : Char} (h : d ∈ cellChar c) :
    (d = c ∧ c ≠ '\n') ∨ d ∈ ['\\', '|', ' '] := by
  by_cases hbar : c = '|'
  · subst hbar
    exact .inr (List.mem_append_left [' '] h)
  by_cases hfeed : c = '\n'
  · subst hfeed
    exact .inr (List.mem_append_right ['\\', '|'] h)
  · rw [cellChar_eq_self hbar hfeed] at h
    exact .inl ⟨List.mem_singleton.1 h, hfeed⟩

theorem feed_not_mem_cell (s : String) : '\n' ∉ (cell s).toList := by
  rw [toList_cell, List.mem_flatMap]
  rintro ⟨c, _, hc⟩
  rcases of_mem_cellChar hc with ⟨heq, hne⟩ | hmark
  · exact hne heq.symm
  · exact absurd hmark (by decide)

theorem return_mem_cell_iff {s : String} : '\r' ∈ (cell s).toList ↔ '\r' ∈ s.toList := by
  rw [toList_cell, List.mem_flatMap]
  constructor
  · rintro ⟨c, hmem, hc⟩
    rcases of_mem_cellChar hc with ⟨heq, _⟩ | hmark
    · exact heq ▸ hmem
    · exact absurd hmark (by decide)
  · exact fun h => ⟨'\r', h, by decide⟩

theorem mem_lineOf_rowOf_iff {texts : List String} (hne : texts ≠ []) {c : Char}
    (hbar : c ≠ '|') (hblank : c ≠ ' ') :
    c ∈ lineOf (rowOf texts) ↔ ∃ s ∈ texts, c ∈ (cell s).toList := by
  rw [rowOf, lineOf_row (by simpa using hne)]
  simp [closedCell, hbar, hblank, List.flatMap_map]

/-- A text that a row shows to a reader who lets a backslash take the meaning from bars and from the
characters of `also`. It has no carriage return, no bar behind an odd number of backslashes, and no
backslash that would take the meaning from another character. -/
structure Clean (also : Char → Bool) (s : String) : Prop where
  no_return : '\r' ∉ s.toList
  no_seam : ∀ before, before ++ ['|'] <+: s.toList → backslashes before % 2 = 0
  literal : Literal also s.toList

/-! ## Tables -/

/-- A table in Markdown, before its texts are escaped. -/
structure Table where
  /-- The names of the columns, which need no escape. -/
  heading : List String
  rows : List (List String)
  plain : ∀ name ∈ heading, '|' ∉ name.toList
  heading_ne_nil : heading ≠ []
  /-- A row has a text for every column. -/
  fits : ∀ texts ∈ rows, texts.length = heading.length

/-- The line between the head of a table and its rows. -/
def rule (heading : List String) : String :=
  "|" ++ Text.joinWith "|" (heading.map fun name =>
    String.ofList (List.replicate (name.toList.length + 2) '-')) ++ "|\n"

/-- A table as it is written. -/
def Table.text (t : Table) : String :=
  row t.heading ++ rule t.heading ++ String.join (t.rows.map rowOf) ++ "\n"

/-- What it takes for a row of a table to show its texts. It is one line with as many cells as the
head of the table has, and each cell says its text, with blanks for the ends of lines. -/
structure Shows (also : Char → Bool) (t : Table) (row : String) (texts : List String) : Prop where
  ends : row = String.ofList (lineOf row) ++ "\n"
  single_line : '\n' ∉ lineOf row ∧ '\r' ∉ lineOf row
  cell_count : (cellsOf (lineOf row)).length = (cellsOf (lineOf (Report.row t.heading))).length
  reads : (cellsOf (lineOf row)).map (unescape also) = texts.map fun s => s.toList.map unbroken

theorem Table.length_cellsOf_heading (t : Table) :
    (cellsOf (lineOf (row t.heading))).length = t.heading.length := by
  have hplain : ∀ name ∈ t.heading, bars 0 name.toList = 0 := fun name hname =>
    bars_eq_zero_of_not_mem (t.plain name hname)
  rw [cellsOf_row t.heading_ne_nil hplain, List.length_map]

theorem Table.ne_nil_of_mem_rows {t : Table} {texts : List String} (h : texts ∈ t.rows) :
    texts ≠ [] := by
  rintro rfl
  exact t.heading_ne_nil (List.eq_nil_of_length_eq_zero (t.fits [] h).symm)

theorem bars_cell_eq_zero_iff {s : String} :
    bars 0 (cell s).toList = 0 ↔
      ∀ before, before ++ ['|'] <+: s.toList → backslashes before % 2 = 0 := by
  rw [toList_cell]
  exact bars_flatMap_cellChar_eq_zero_iff

/-- The row of texts whose bars are well escaped has their cells. -/
theorem cellsOf_rowOf {texts : List String} (hne : texts ≠ [])
    (h : ∀ s ∈ texts, bars 0 (cell s).toList = 0) :
    cellsOf (lineOf (rowOf texts)) = texts.map fun s => s.toList.flatMap cellChar := by
  rw [rowOf, cellsOf_row (by simpa using hne) (List.forall_mem_map.2 h), List.map_map]
  exact List.map_congr_left fun s _ => toList_cell s

theorem Table.length_cellsOf_rowOf_eq_iff {t : Table} {texts : List String}
    (hmem : texts ∈ t.rows) :
    (cellsOf (lineOf (rowOf texts))).length = (cellsOf (lineOf (row t.heading))).length ↔
      ∀ s ∈ texts, bars 0 (cell s).toList = 0 := by
  have hcells : texts.map cell ≠ [] := by simpa using t.ne_nil_of_mem_rows hmem
  rw [t.length_cellsOf_heading, ← t.fits texts hmem, rowOf, ← List.length_map cell,
    length_cellsOf_row_eq_iff hcells, List.forall_mem_map]

/-- A row shows its texts if and only if each of them is clean. -/
theorem shows_rowOf_iff {also : Char → Bool} {t : Table} {texts : List String}
    (hmem : texts ∈ t.rows) :
    Shows also t (rowOf texts) texts ↔ ∀ s ∈ texts, Clean also s := by
  have hne : texts ≠ [] := t.ne_nil_of_mem_rows hmem
  have hreturn : '\r' ∉ lineOf (rowOf texts) ↔ ∀ s ∈ texts, '\r' ∉ s.toList := by
    rw [mem_lineOf_rowOf_iff hne (by decide) (by decide)]
    simp [return_mem_cell_iff]
  have hread (hzero : ∀ s ∈ texts, bars 0 (cell s).toList = 0) :
      (cellsOf (lineOf (rowOf texts))).map (unescape also) =
          (texts.map fun s => s.toList.map unbroken) ↔
        ∀ s ∈ texts, unescape also (s.toList.flatMap cellChar) = s.toList.map unbroken := by
    rw [cellsOf_rowOf hne hzero, List.map_map, List.map_inj_left]
    rfl
  constructor
  · intro h s hs
    -- The cells are those of the texts only if none of them ends early.
    have hzero := (t.length_cellsOf_rowOf_eq_iff hmem).1 h.cell_count
    have hs' : '\r' ∉ s.toList := hreturn.1 h.single_line.2 s hs
    exact
      { no_return := hs'
        no_seam := bars_cell_eq_zero_iff.1 (hzero s hs)
        literal := (unescape_flatMap_cellChar_eq_iff hs').1 ((hread hzero).1 h.reads s hs) }
  · intro h
    have hzero : ∀ s ∈ texts, bars 0 (cell s).toList = 0 := fun s hs =>
      bars_cell_eq_zero_iff.2 (h s hs).no_seam
    refine
      { ends := ?_
        single_line := ⟨?_, hreturn.2 fun s hs => (h s hs).no_return⟩
        cell_count := (t.length_cellsOf_rowOf_eq_iff hmem).2 hzero
        reads := (hread hzero).2 fun s hs =>
          (unescape_flatMap_cellChar_eq_iff (h s hs).no_return).2 (h s hs).literal }
    · have hcells : texts.map cell ≠ [] := by simpa using hne
      rw [rowOf, lineOf_row hcells, ← String.toList_inj, toList_row hcells]
      simp
    · rw [mem_lineOf_rowOf_iff hne (by decide) (by decide)]
      rintro ⟨s, _, hs⟩
      exact feed_not_mem_cell s hs

/-! ## Reports in words and tables -/

/-- A part of a report. -/
inductive Block where
  | words (s : String)
  | table (t : Table)

def Block.text : Block → String
  | .words s => s
  | .table t => t.text

/-- What is said of a list of flags. -/
def flagsText (flags : List String) : String :=
  if flags.isEmpty then "-" else Text.joinWith ", " flags

/-- The texts in the row of a direct dependency. -/
def Record.texts (r : Record) : List String :=
  [r.title, r.version.getD "-", r.scope, if r.optional then "yes" else "no", flagsText r.flags]

/-- The texts in the row of an artifact. -/
def Artifact.texts (a : Artifact) : List String :=
  [a.groupId ++ ":" ++ a.artifactId, a.version, flagsText a.flags, toString a.records.length]

/-- The texts in the row of a missing dependency of an artifact. -/
def missingTexts (owner : Artifact) (r : Record) : List String :=
  [owner.coordinates, r.groupId ++ ":" ++ r.artifactId, r.version.getD "-"]

/-- The table of a list of direct dependencies. -/
def recordRows (records : List Record) : Table where
  heading := ["Dependency", "Version", "Scope", "Optional", "Flags"]
  rows := records.map Record.texts
  plain := by decide
  heading_ne_nil := by decide
  fits := List.forall_mem_map.2 fun _ _ => rfl

/-- The table of a list of artifacts. -/
def artifactRows (artifacts : List Artifact) : Table where
  heading := ["Artifact", "Version", "Flags", "Direct Dependencies"]
  rows := artifacts.map Artifact.texts
  plain := by decide
  heading_ne_nil := by decide
  fits := List.forall_mem_map.2 fun _ _ => rfl

/-- The table of what is missing. -/
def missingRows (missing : List (Artifact × Record)) : Table where
  heading := ["Declared By", "Dependency", "Version"]
  rows := missing.map fun (owner, r) => missingTexts owner r
  plain := by decide
  heading_ne_nil := by decide
  fits := List.forall_mem_map.2 fun _ _ => rfl

/-- The direct dependencies of an artifact. -/
def recordBlocks (records : List Record) : List Block :=
  if records.isEmpty then [.words "*No direct dependencies*\n\n"]
  else [.table (recordRows records)]

/-- The artifacts, and the direct dependencies of those that have some. -/
def inventoryBlocks (artifacts : List Artifact) : List Block :=
  .words "## Resolved Artifacts\n\n" ::
    if artifacts.isEmpty then [.words "*No resolved dependencies*\n\n"]
    else
      .table (artifactRows artifacts) ::
        (artifacts.filter (!·.records.isEmpty)).flatMap fun a =>
          .words ("### Direct dependencies of " ++ cell a.coordinates ++ "\n\n") ::
            recordBlocks a.records

/-- What is missing, if anything is. -/
def missingBlocks (missing : List (Artifact × Record)) : List Block :=
  if missing.isEmpty then []
  else
    [.words ("## Missing From Application\n\n" ++
        "Declared dependencies with no counterpart in the resolved application graph.\n\n"),
      .table (missingRows missing)]

/-- A report in words and tables. -/
def blocks (r : Report) : List Block :=
  .words r.head :: .words "## Application Direct Dependencies\n\n" ::
    recordBlocks r.application.records ++ inventoryBlocks r.dependencies ++
      missingBlocks r.missing

theorem concat_eq_join (ss : List String) : concat ss = String.join ss := by
  unfold concat
  induction ss with
  | nil => rfl
  | cons s rest ih =>
    cases rest with
    | nil => simp [Text.joinWith, String.join_cons, String.join_nil]
    | cons t more =>
      rw [Text.joinWith.eq_3 "" s (t :: more) (List.cons_ne_nil t more), ih, String.append_empty,
        ← String.join_cons]

theorem flagsCell_eq (flags : List String) : flagsCell flags = cell (flagsText flags) := by
  unfold flagsCell flagsText
  split
  · rfl
  · rfl

theorem Record.row_eq (r : Record) : r.row = rowOf r.texts := by
  have hoptional : (if r.optional then "yes" else "no") =
      cell (if r.optional then "yes" else "no") := by
    cases r.optional with
    | false => rfl
    | true => rfl
  rw [Record.row, hoptional, flagsCell_eq]
  rfl

theorem Artifact.row_eq (a : Artifact) : a.row = rowOf a.texts := by
  have hcolon : ":" = cell ":" := rfl
  rw [Artifact.row, flagsCell_eq, ← cell_toString, hcolon, ← cell_append, ← cell_append]
  rfl

theorem missingRow_eq (owner : Artifact) (r : Record) :
    missingRow owner r = rowOf (missingTexts owner r) := by
  have hcolon : ":" = cell ":" := rfl
  rw [missingRow, hcolon, ← cell_append, ← cell_append]
  rfl

/-- A table is its head and its rows, however they are written. -/
theorem Table.text_eq {t : Table} {head : String} {rows : List String}
    (hhead : row t.heading ++ rule t.heading = head) (hrows : t.rows.map rowOf = rows) :
    t.text = head ++ concat rows ++ "\n" := by
  rw [← hhead, ← hrows, concat_eq_join]
  rfl

theorem recordRows_text (records : List Record) :
    (recordRows records).text =
      "| Dependency | Version | Scope | Optional | Flags |\n" ++
        "|------------|---------|-------|----------|-------|\n" ++
        concat (records.map Record.row) ++ "\n" :=
  Table.text_eq rfl (by simp [recordRows, Record.row_eq])

theorem artifactRows_text (artifacts : List Artifact) :
    (artifactRows artifacts).text =
      "| Artifact | Version | Flags | Direct Dependencies |\n" ++
        "|----------|---------|-------|---------------------|\n" ++
        concat (artifacts.map Artifact.row) ++ "\n" :=
  Table.text_eq rfl (by simp [artifactRows, Artifact.row_eq])

theorem missingRows_text (missing : List (Artifact × Record)) :
    (missingRows missing).text =
      "| Declared By | Dependency | Version |\n" ++
        "|-------------|------------|---------|\n" ++
        concat (missing.map fun (owner, d) => missingRow owner d) ++ "\n" :=
  Table.text_eq rfl (by simp [missingRows, missingRow_eq])

/-- The words and tables one after the other. -/
def written (blocks : List Block) : String := String.join (blocks.map Block.text)

@[simp] theorem written_nil : written [] = "" := rfl

@[simp] theorem written_cons (b : Block) (rest : List Block) :
    written (b :: rest) = b.text ++ written rest := by
  rw [written, List.map_cons, String.join_cons, written]

theorem written_append (first second : List Block) :
    written (first ++ second) = written first ++ written second := by
  induction first with
  | nil => rw [List.nil_append, written_nil, String.empty_append]
  | cons b rest ih => rw [List.cons_append, written_cons, ih, written_cons, String.append_assoc]

theorem written_flatMap {α : Type} (f : α → List Block) (xs : List α) :
    written (xs.flatMap f) = concat (xs.map fun x => written (f x)) := by
  rw [concat_eq_join]
  induction xs with
  | nil => rfl
  | cons x rest ih =>
    rw [List.flatMap_cons, written_append, ih, List.map_cons, String.join_cons]

theorem written_recordBlocks (records : List Record) :
    written (recordBlocks records) = recordTable records := by
  unfold recordTable recordBlocks
  split
  · simp [Block.text]
  · simp [Block.text, recordRows_text]

theorem written_inventoryBlocks (artifacts : List Artifact) :
    written (inventoryBlocks artifacts) = inventory artifacts := by
  unfold inventory inventoryBlocks
  split
  · simp [Block.text]
  · have hsection : ∀ a : Artifact,
        written (.words ("### Direct dependencies of " ++ cell a.coordinates ++ "\n\n") ::
          recordBlocks a.records) = a.recordSection := by
      intro a
      rw [written_cons, written_recordBlocks]
      rfl
    rw [written_cons, written_cons, written_flatMap]
    simp only [hsection]
    simp only [Block.text, artifactRows_text, String.append_assoc]

theorem written_missingBlocks (r : Report) :
    written (missingBlocks r.missing) = r.missingSection := by
  unfold missingSection missingBlocks
  split
  · rfl
  · simp only [written_cons, written_nil, Block.text, missingRows_text, String.append_assoc,
      String.append_empty]

/-- A report is made up from its words and tables. -/
theorem markdownText_eq_written (r : Report) : r.markdownText = written r.blocks := by
  rw [markdownText, blocks, written_append, List.cons_append, List.cons_append, written_cons,
    written_cons, written_append, written_recordBlocks, written_inventoryBlocks,
    written_missingBlocks]
  simp only [Block.text, String.append_assoc]

/-- The rows of every table of a report show their texts as far as these are clean. -/
theorem written_rows_show_iff_clean (also : Char → Bool) (r : Report) :
    r.markdownText = written r.blocks ∧
      ∀ t, Block.table t ∈ r.blocks → ∀ texts ∈ t.rows,
        (Shows also t (rowOf texts) texts ↔ ∀ s ∈ texts, Clean also s) :=
  ⟨markdownText_eq_written r, fun _ _ _ hmem => shows_rowOf_iff hmem⟩

/-- A direct dependency whose name has a bar. -/
def barred : Record :=
  { groupId := "g", artifactId := "ghost|x", classifier := "", type := "jar", version := none,
    scope := "compile", optional := false, flags := ["DIRECT", "RUNTIME_CP"] }

/-- A direct dependency whose name has a bar behind a backslash, and whose version has a carriage
return. -/
def seamed : Record :=
  { groupId := "g", artifactId := "a\\|b", classifier := "", type := "jar", version := some "1\r2",
    scope := "compile", optional := false, flags := [] }

/-- The report of an application with one direct dependency. -/
def reportOf (d : Record) : Report :=
  { metadata :=
      { toolName := "depinfo", toolVersion := "0.4.0", timestamp := "2024", serial := "1",
        launchMode := "NORMAL" }
    application :=
      { coordinates := "g:app::jar:1", groupId := "g", artifactId := "app", version := "1",
        flags := [], dependencies := [], records := [d] }
    dependencies := [] }

/-- The row of a bar without backslashes shows its texts, and the bar is one of them. -/
theorem shows_barred :
    Block.table (recordRows [barred]) ∈ (reportOf barred).blocks ∧
      barred.texts ∈ (recordRows [barred]).rows ∧
      Shows (fun _ => false) (recordRows [barred]) (rowOf barred.texts) barred.texts := by
  have htable : Block.table (recordRows [barred]) ∈ (reportOf barred).blocks :=
    List.mem_cons_of_mem _ (List.mem_cons_of_mem _ List.mem_cons_self)
  have hrow : barred.texts ∈ (recordRows [barred]).rows := List.mem_singleton.2 rfl
  have hreturn : ∀ s ∈ barred.texts, '\r' ∉ s.toList := by decide
  have hbars : ∀ s ∈ barred.texts, bars 0 (cell s).toList = 0 := by decide
  refine ⟨htable, hrow, ((written_rows_show_iff_clean _ _).2 _ htable _ hrow).2 fun s hs => ?_⟩
  exact
    { no_return := hreturn s hs
      no_seam := bars_cell_eq_zero_iff.1 (hbars s hs)
      literal := fun _ _ _ => rfl }

/-- A row can have a carriage return in its line, and more cells than its table has columns. -/
theorem exists_row_with_more_cells :
    ∃ t, Block.table t ∈ (reportOf seamed).blocks ∧ ∃ texts ∈ t.rows,
      '\r' ∈ lineOf (rowOf texts) ∧ (cellsOf (lineOf (rowOf texts))).length = 6 ∧
      (cellsOf (lineOf (row t.heading))).length = 5 :=
  ⟨recordRows [seamed], List.mem_cons_of_mem _ (List.mem_cons_of_mem _ List.mem_cons_self),
    seamed.texts, List.mem_singleton.2 rfl, by decide, by decide, by decide⟩

end ArtifactGraph.Report
