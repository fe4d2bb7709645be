import ArtifactGraph.Expression

/-!
# The expressions of a text

`Scan` says what the pieces of a text are without a look at how they are found.  From left to right
every mark `${` that is closed makes an expression with the first brace behind it, and what stands
behind the last of them is text, whatever marks it may hold.

* `breakOn?_of_endsAt`: a text is broken where a mark ends it.
* `length_le_of_breakOn?` and `not_infix_of_breakOn?_eq_none`: a text is broken at the first
  occurrence of a mark, and only a text without the mark is not broken.
* `scan_pieces`: the pieces of a text are its scan.  Every expression takes three characters at
  least, so the fuel is never used up.
-/

namespace ArtifactGraph

/-! ## Marks -/

/-- A mark behind a text does not start inside it. -/
def EndsAt (mark body : List Char) : Prop :=
  ∀ n < body.length, ¬ mark <+: (body ++ mark).drop n

instance (mark body : List Char) : Decidable (EndsAt mark body) :=
  decidable_of_iff ((List.range body.length).all fun n =>
    !mark.isPrefixOf ((body ++ mark).drop n))
    (by simp [EndsAt, ← List.isPrefixOf_iff_prefix])

theorem Text.breakOnFrom_of_endsAt {mark body : List Char} (hmark : mark ≠ [])
    (h : EndsAt mark body) (passed after : List Char) :
    breakOnFrom mark passed (body ++ mark ++ after) = some (passed.reverse ++ body, after) := by
  induction body generalizing passed with
  | nil =>
    obtain ⟨m, ms, rfl⟩ := List.exists_cons_of_ne_nil hmark
    have hprefix : (m :: ms).isPrefixOf (m :: (ms ++ after)) = true :=
      List.isPrefixOf_iff_prefix.2 (List.prefix_append (m :: ms) after)
    rw [List.nil_append, List.cons_append, breakOnFrom, if_pos hprefix, List.append_nil,
      ← List.cons_append, List.drop_left]
  | cons c rest ih =>
    have hlate : ¬ mark <+: c :: (rest ++ mark ++ after) := by
      intro hprefix
      refine h 0 (Nat.zero_lt_succ _) (List.prefix_of_prefix_length_le hprefix ⟨after, rfl⟩ ?_)
      simp only [List.drop_zero, List.length_append, List.length_cons]
      omega
    have hrest : EndsAt mark rest := fun n hn => h (n + 1) (Nat.succ_lt_succ hn)
    rw [List.cons_append, List.cons_append, breakOnFrom,
      if_neg (fun hprefix => hlate (List.isPrefixOf_iff_prefix.1 hprefix)), ih hrest]
    simp

theorem Text.breakOn?_of_endsAt {mark body : List Char} (hmark : mark ≠ []) (h : EndsAt mark body)
    (after : List Char) : breakOn? mark (body ++ mark ++ after) = some (body, after) :=
  breakOnFrom_of_endsAt hmark h [] after

namespace Text

/-! ## First occurrences -/

theorem length_le_of_breakOnFrom {mark passed cs before after : List Char}
    (h : breakOnFrom mark passed cs = some (before, after)) {a b : List Char}
    (hsplit : cs = a ++ mark ++ b) : before.length ≤ passed.length + a.length := by
  induction cs generalizing passed a with
  | nil =>
    rw [breakOnFrom] at h
    split at h
    · cases h
      simp
    · cases h
  | cons c rest ih =>
    rw [breakOnFrom] at h
    split at h
    · cases h
      simp
    · rename_i hmark
      cases a with
      | nil =>
        -- Here the mark would stand at the front.
        have hfront : mark.isPrefixOf (c :: rest) = true :=
          List.isPrefixOf_iff_prefix.2 ⟨b, by rw [hsplit, List.nil_append]⟩
        exact absurd hfront hmark
      | cons d a =>
        have hrest : rest = a ++ mark ++ b := (List.cons.inj hsplit).2
        have hle := ih h hrest
        simp only [List.length_cons] at hle ⊢
        omega

/-- A text is broken at the first occurrence of the mark. -/
theorem length_le_of_breakOn? {mark cs before after a b : List Char}
    (h : breakOn? mark cs = some (before, after)) (hsplit : cs = a ++ mark ++ b) :
    before.length ≤ a.length := by
  have hle := length_le_of_breakOnFrom h hsplit
  rwa [List.length_nil, Nat.zero_add] at hle

theorem not_infix_of_breakOnFrom_eq_none {mark passed cs : List Char}
    (h : breakOnFrom mark passed cs = none) : ¬ mark <:+: cs := by
  induction cs generalizing passed with
  | nil =>
    rw [breakOnFrom] at h
    split at h
    · cases h
    · rename_i hmark
      intro hinfix
      exact hmark (List.isEmpty_iff.2 (List.infix_nil.1 hinfix))
  | cons c rest ih =>
    rw [breakOnFrom] at h
    split at h
    · cases h
    · rename_i hmark
      rw [List.infix_cons_iff, not_or]
      exact ⟨fun hprefix => hmark (List.isPrefixOf_iff_prefix.2 hprefix), ih h⟩

/-- A text that is not broken does not hold the mark. -/
theorem not_infix_of_breakOn?_eq_none {mark cs : List Char} (h : breakOn? mark cs = none) :
    ¬ mark <:+: cs :=
  not_infix_of_breakOnFrom_eq_none h

/-- What stands before the mark does not hold it. -/
theorem not_infix_of_breakOn? {mark cs before after : List Char} (hmark : mark ≠ [])
    (h : breakOn? mark cs = some (before, after)) : ¬ mark <:+: before := by
  intro hinfix
  obtain ⟨a, b, hbefore⟩ := hinfix
  have hsplit : cs = a ++ mark ++ (b ++ mark ++ after) := by
    rw [eq_append_of_breakOn? h, ← hbefore]
    simp
  have hle := length_le_of_breakOn? h hsplit
  have hpositive := List.length_pos_iff.2 hmark
  rw [← hbefore, List.length_append, List.length_append] at hle
  omega

end Text

namespace Expression

/-! ## Scans -/

/-- The marks at the ends of an expression. -/
def opening : List Char := ['$', '{']

def closing : List Char := ['}']

/-- The pieces that a text is made of. -/
inductive Scan : List Char → List Piece → Prop
  /-- No mark is closed. -/
  | rest {cs : List Char}
      (hopen : ∀ before inside after, cs ≠ before ++ opening ++ inside ++ closing ++ after) :
      Scan cs [.text cs]
  /-- The first mark, up to the first brace behind it. -/
  | expression {before inside after : List Char} {ps : List Piece}
      (hbefore : ¬ opening <:+: before) (hinside : ¬ closing <:+: inside)
      (hafter : Scan after ps) :
      Scan (before ++ opening ++ inside ++ closing ++ after)
        (.text before :: .reference inside :: ps)

/-- If the first mark is not closed, no mark is. -/
theorem ne_of_breakOn?_eq_none {cs before after : List Char}
    (hopening : Text.breakOn? opening cs = some (before, after))
    (hclosing : Text.breakOn? closing after = none) (before' inside after' : List Char) :
    cs ≠ before' ++ opening ++ inside ++ closing ++ after' := by
  intro hsplit
  have hcs := Text.eq_append_of_breakOn? hopening
  have hle : before.length ≤ before'.length :=
    Text.length_le_of_breakOn? hopening (b := inside ++ closing ++ after') (by simp [hsplit])
  -- What is closed there ends behind the first mark.
  have hafter : after = cs.drop (before.length + opening.length) := by
    rw [hcs]
    simp
  have hsuffix : inside ++ closing ++ after' <:+ after := by
    have hdrop : inside ++ closing ++ after' = cs.drop (before'.length + opening.length) := by
      rw [hsplit]
      simp
    rw [hdrop, hafter]
    exact List.drop_suffix_drop_left cs (by omega)
  have hinfix : closing <:+: after :=
    List.IsInfix.trans ⟨inside, after', rfl⟩ hsuffix.isInfix
  exact Text.not_infix_of_breakOn?_eq_none hclosing hinfix

theorem scan_piecesOf {n : Nat} {cs : List Char} (hn : cs.length ≤ n) :
    Scan cs (piecesOf n cs) := by
  induction n generalizing cs with
  | zero =>
    obtain rfl : cs = [] := List.length_eq_zero_iff.1 (by omega)
    exact .rest (by simp [opening])
  | succ n ih =>
    rw [piecesOf]
    split
    · rename_i hopening
      refine .rest fun before inside after hsplit => ?_
      exact Text.not_infix_of_breakOn?_eq_none hopening
        ⟨before, inside ++ closing ++ after, by rw [hsplit]; simp [opening]⟩
    · rename_i before after hopening
      split
      · rename_i hclosing
        exact .rest (ne_of_breakOn?_eq_none hopening hclosing)
      · rename_i inside rest hclosing
        have hcs : cs = before ++ opening ++ inside ++ closing ++ rest := by
          rw [Text.eq_append_of_breakOn? hopening, Text.eq_append_of_breakOn? hclosing]
          simp [opening, closing]
        have hrest : rest.length ≤ n := by
          have hlength := congrArg List.length hcs
          simp only [List.length_append, opening, closing, List.length_cons, List.length_nil]
            at hlength
          omega
        have hscan := Scan.expression (Text.not_infix_of_breakOn? (by decide) hopening)
          (Text.not_infix_of_breakOn? (by decide) hclosing) (ih hrest)
        rwa [← hcs] at hscan

/-- The pieces of a text are its scan. -/
theorem scan_pieces (value : String) : Scan value.toList (pieces value) :=
  scan_piecesOf (Nat.le_of_eq String.length_toList)

end Expression

end ArtifactGraph
