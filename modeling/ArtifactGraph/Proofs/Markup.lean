import ArtifactGraph.Proofs.Scanning
import ArtifactGraph.Xml.Reader
import Mathlib.Data.List.Basic
import Mathlib.Data.List.TakeWhile

/-!
# Documents as they are written

The grammar of documents beside their reader: which characters are a piece of markup, the content of
an element, a document.  Layout is free wherever the format leaves it free.

* Attributes.  `AttributeText` is the grammar of what stands behind the name of a tag, and
  `attributesFrom_of_text` reads it back.
* Markup.  `WritesMarkup` has a rule for each kind of markup; `readMarkup?_of_writes` reads it back.
* Content.  `Writes` has a rule for each kind of node; `readContent_of_writes` goes by induction
  over it and reads back the nodes.
* Documents.  `WritesDocument` and `readRoot?_of_writes` are the same for a whole document.
-/

namespace ArtifactGraph

namespace Xml

/-! ## Runs of characters -/

/-- What does not hold of the character in front does not hold at the first position. -/
theorem not_getElem_zero {p : Char → Bool} {cs : List Char}
    (h : ∀ c, cs.head? = some c → p c = false) (hlength : 0 < cs.length) : ¬ p cs[0] = true := by
  have hfirst : cs.head? = some cs[0] := by
    rw [List.head?_eq_getElem?, List.getElem?_eq_getElem hlength]
  rw [h cs[0] hfirst]
  exact Bool.false_ne_true

section

variable {p : Char → Bool} {body rest : List Char} (hbody : ∀ c ∈ body, p c = true)
  (hrest : ∀ c, rest.head? = some c → p c = false)
include hbody hrest

theorem takeWhile_upTo : (body ++ rest).takeWhile p = body := by
  rw [List.takeWhile_append_of_pos hbody,
    List.takeWhile_eq_nil_iff.2 (not_getElem_zero hrest), List.append_nil]

theorem dropWhile_upTo : (body ++ rest).dropWhile p = rest := by
  rw [List.dropWhile_append_of_pos hbody,
    List.dropWhile_eq_self_iff.2 (not_getElem_zero hrest)]

end

theorem forall_ne_of_not_mem {c : Char} {raw : List Char} (h : c ∉ raw) :
    ∀ d ∈ raw, (d != c) = true := by
  intro d hd
  simpa using ne_of_mem_of_not_mem hd h

theorem head?_eq_false {p : Char → Bool} {c : Char} {rest : List Char} (h : p c = false) :
    ∀ d, (c :: rest).head? = some d → p d = false := by
  rintro d ⟨⟩
  exact h

/-! ## Attributes -/

/-- A character that may stand in a name. -/
def isNameCharacter (c : Char) : Bool :=
  !(isSpace c || ['<', '>', '/', '=', '&', '!', '?', '\x22', '\x27'].contains c)

/-- Names of elements and attributes. -/
structure IsName (name : String) : Prop where
  nonempty : name ≠ ""
  all : name.toList.all isNameCharacter = true

/-- The marks around the value of an attribute. -/
def IsQuote (c : Char) : Prop := c = '\x22' ∨ c = '\x27'

/-- What stands behind the name of a tag, with the names and the raw values of its attributes. -/
inductive AttributeText : List Char → List (String × List Char) → Prop
  | nil {space : List Char} (hspace : space.all isSpace = true) : AttributeText space []
  | cons {space before after raw rest : List Char} {name : String} {quote : Char}
      {attributes : List (String × List Char)}
      (hne : space ≠ []) (hspace : space.all isSpace = true) (hname : IsName name)
      (hbefore : before.all isSpace = true) (hafter : after.all isSpace = true)
      (hquote : IsQuote quote) (hraw : quote ∉ raw) (hrest : AttributeText rest attributes) :
      AttributeText (space ++ (name.toList ++ (before ++
        '=' :: (after ++ quote :: (raw ++ quote :: rest))))) ((name, raw) :: attributes)

theorem IsName.exists_cons {name : String} (h : IsName name) :
    ∃ c cs, name.toList = c :: cs ∧ isNameCharacter c = true ∧
      ∀ d ∈ cs, isNameCharacter d = true := by
  have hne : name.toList ≠ [] := fun hnil => h.nonempty (String.toList_eq_nil_iff.1 hnil)
  obtain ⟨c, cs, hchars⟩ := List.exists_cons_of_ne_nil hne
  have hall := List.all_eq_true.1 h.all
  rw [hchars] at hall
  exact ⟨c, cs, hchars, List.forall_mem_cons.1 hall⟩

theorem IsName.isNameCharacter {name : String} (h : IsName name) {c : Char}
    (hc : c ∈ name.toList) : isNameCharacter c = true := List.all_eq_true.1 h.all c hc

theorem isSpace_eq_false_of_isNameCharacter {c : Char} (h : isNameCharacter c = true) :
    isSpace c = false := by
  rw [isNameCharacter, Bool.not_eq_true', Bool.or_eq_false_iff] at h
  exact h.1

theorem ne_of_isNameCharacter {c d : Char} (h : isNameCharacter c = true)
    (hd : isNameCharacter d = false) : c ≠ d := by
  rintro rfl
  rw [h] at hd
  cases hd

/-- Behind the name of an attribute and the white space after it stands no character of a name. -/
theorem AttributeText.head?_sign {before : List Char} (h : before.all isSpace = true)
    (rest : List Char) : ∀ c, (before ++ '=' :: rest).head? = some c →
      (c != '=' && !isSpace c) = false := by
  cases before with
  | nil => exact head?_eq_false rfl
  | cons d more =>
    rw [List.all_cons, Bool.and_eq_true] at h
    exact head?_eq_false (by simp [h.1])

/-- Attributes are read back as they are written. -/
theorem attributesFrom_of_text {cs : List Char} {attributes : List (String × List Char)}
    (h : AttributeText cs attributes) {n : Nat} (hn : cs.length < n) :
    attributesFrom n cs = attributes.map fun (name, raw) => .quoted name raw := by
  induction h generalizing n with
  | nil hspace =>
    obtain ⟨n, rfl⟩ := Nat.exists_eq_add_one_of_ne_zero (Nat.ne_zero_of_lt hn)
    rw [attributesFrom, List.dropWhile_eq_nil_iff.2 (List.all_eq_true.1 hspace)]
    rfl
  | @cons space before after raw rest name quote attributes hne hspace hname hbefore hafter hquote
      hraw hrest ih =>
    obtain ⟨n, rfl⟩ := Nat.exists_eq_add_one_of_ne_zero (Nat.ne_zero_of_lt hn)
    obtain ⟨c, cs, hchars, hc, hcs⟩ := hname.exists_cons
    have hinName : ∀ d ∈ cs, (d != '=' && !isSpace d) = true := by
      intro d hd
      rw [isSpace_eq_false_of_isNameCharacter (hcs d hd), Bool.not_false, Bool.and_true]
      exact bne_iff_ne.2 (ne_of_isNameCharacter (hcs d hd) rfl)
    have hsign := AttributeText.head?_sign hbefore (after ++ quote :: (raw ++ quote :: rest))
    have hquoted : (quote == '\x22' || quote == '\x27') = true := by
      rcases hquote with rfl | rfl <;> rfl
    have hquoteSpace : isSpace quote = false := by
      rcases hquote with rfl | rfl <;> rfl
    have hlength : rest.length < n := by
      simp only [List.length_append, List.length_cons] at hn
      omega
    have hvalue := forall_ne_of_not_mem hraw
    have hend : ∀ d, (quote :: rest).head? = some d → (d != quote) = false :=
      head?_eq_false (by simp)
    rw [attributesFrom, hchars, List.cons_append,
      dropWhile_upTo (List.all_eq_true.1 hspace)
        (head?_eq_false (isSpace_eq_false_of_isNameCharacter hc))]
    simp only [takeWhile_upTo hinName hsign, dropWhile_upTo hinName hsign,
      dropWhile_upTo (List.all_eq_true.1 hbefore) (head?_eq_false (c := '=') rfl),
      dropWhile_upTo (List.all_eq_true.1 hafter) (head?_eq_false hquoteSpace), hquoted, if_true,
      takeWhile_upTo hvalue hend, dropWhile_upTo hvalue hend, ih hlength, ← hchars,
      String.ofList_toList, List.map_cons]

/-! ## Tags -/

/-- Characters that a reader of a tag goes through. -/
def Passes (cs : List Char) : Prop :=
  ∀ read rest, tagInside? none read (cs ++ rest) = tagInside? none (cs.reverse ++ read) rest

theorem Passes.append {a b : List Char} (ha : Passes a) (hb : Passes b) : Passes (a ++ b) := by
  intro read rest
  rw [List.append_assoc, ha, hb, List.reverse_append, List.append_assoc]

theorem passes_plain {cs : List Char} (h : ∀ c ∈ cs, c ≠ '>' ∧ ¬ IsQuote c) : Passes cs := by
  induction cs with
  | nil => exact fun _ _ => rfl
  | cons c rest ih =>
    obtain ⟨⟨hend, hquote⟩, hrest⟩ := List.forall_mem_cons.1 h
    rw [IsQuote, not_or] at hquote
    intro read tail
    have hstep : tagInside? none read (c :: rest ++ tail) =
        tagInside? none (c :: read) (rest ++ tail) := by
      simp [tagInside?, hend, hquote.1, hquote.2]
    rw [hstep, ih hrest, List.reverse_cons, List.append_assoc, List.singleton_append]

theorem tagInside?_value {quote : Char} {raw : List Char} (h : quote ∉ raw)
    (read rest : List Char) :
    tagInside? (some quote) read (raw ++ quote :: rest) =
      tagInside? none (quote :: (raw.reverse ++ read)) rest := by
  induction raw generalizing read with
  | nil => simp [tagInside?]
  | cons c more ih =>
    rw [List.mem_cons, not_or] at h
    rw [List.cons_append, tagInside?, if_neg (by simpa using Ne.symm h.1), ih h.2,
      List.reverse_cons, List.append_assoc, List.singleton_append]

theorem passes_value {quote : Char} {raw : List Char} (hquote : IsQuote quote) (h : quote ∉ raw) :
    Passes (quote :: (raw ++ [quote])) := by
  intro read rest
  have hstart : tagInside? none read (quote :: (raw ++ [quote]) ++ rest) =
      tagInside? (some quote) (quote :: read) (raw ++ quote :: rest) := by
    rcases hquote with rfl | rfl <;> simp [tagInside?]
  rw [hstart, tagInside?_value h]
  simp

theorem passes_space {space : List Char} (h : space.all isSpace = true) : Passes space := by
  refine passes_plain fun c hc => ?_
  have hspace := List.all_eq_true.1 h c hc
  refine ⟨?_, ?_⟩
  · rintro rfl
    cases hspace
  · rintro (rfl | rfl) <;> cases hspace

theorem IsName.passes {name : String} (h : IsName name) : Passes name.toList := by
  refine passes_plain fun c hc => ?_
  have hother {d : Char} (hd : Xml.isNameCharacter d = false) : c ≠ d :=
    ne_of_isNameCharacter (h.isNameCharacter hc) hd
  exact ⟨hother rfl, fun hquote => hquote.elim (hother rfl) (hother rfl)⟩

theorem AttributeText.passes {cs : List Char} {attributes : List (String × List Char)}
    (h : AttributeText cs attributes) : Passes cs := by
  induction h with
  | nil hspace => exact passes_space hspace
  | @cons space before after raw rest name quote attributes hne hspace hname hbefore hafter hquote
      hraw hrest ih =>
    have hsign : Passes ['='] := fun _ _ => rfl
    have hparts := (passes_space hspace).append (hname.passes.append ((passes_space hbefore).append
      (hsign.append ((passes_space hafter).append ((passes_value hquote hraw).append ih)))))
    simpa using hparts

/-- What stands behind a name does not belong to it. -/
theorem AttributeText.head? {cs : List Char} {attributes : List (String × List Char)}
    (h : AttributeText cs attributes) : ∀ c, cs.head? = some c → (!isSpace c) = false := by
  have hspaces {space : List Char} (hspace : space.all isSpace = true) :
      ∀ c, space.head? = some c → (!isSpace c) = false := by
    intro c hc
    rw [List.all_eq_true.1 hspace c (List.mem_of_head? hc), Bool.not_true]
  cases h with
  | nil hspace => exact hspaces hspace
  | cons hne hspace =>
    intro c hc
    rw [List.head?_append_of_ne_nil _ hne] at hc
    exact hspaces hspace c hc

/-- A tag that ends with white space or a value is not an empty one. -/
theorem AttributeText.getLast? {cs : List Char} {attributes : List (String × List Char)}
    (h : AttributeText cs attributes) : cs.getLast? ≠ some '/' := by
  induction h with
  | nil hspace =>
    intro hlast
    cases List.all_eq_true.1 hspace _ (List.mem_of_getLast? hlast)
  | @cons space before after raw rest name quote attributes hne hspace hname hbefore hafter hquote
      hraw hrest ih =>
    intro hlast
    have hsplit : space ++ (name.toList ++ (before ++ '=' :: (after ++ quote :: (raw ++ quote ::
        rest)))) = (space ++ (name.toList ++ (before ++ '=' :: (after ++ quote :: raw)))) ++
        quote :: rest := by simp
    rw [hsplit, List.getLast?_append_of_ne_nil _ (List.cons_ne_nil _ _)] at hlast
    cases rest with
    | nil => rcases hquote with rfl | rfl <;> cases hlast
    | cons c more => exact ih (by rwa [List.getLast?_cons_cons] at hlast)

/-! ## Markup -/

/-- Declarations in which every `<` has its `>`. -/
inductive Balanced : List Char → Prop
  | nil : Balanced []
  | plain {c : Char} {rest : List Char} (hopen : c ≠ '<') (hclose : c ≠ '>')
      (hrest : Balanced rest) : Balanced (c :: rest)
  | nested {inside rest : List Char} (hinside : Balanced inside) (hrest : Balanced rest) :
      Balanced ('<' :: (inside ++ '>' :: rest))

/-- The characters of a piece of markup behind its `<`. -/
inductive WritesMarkup : List Char → Markup → Prop
  | comment {body : List Char} (hbody : EndsAt ['-', '-', '>'] body) :
      WritesMarkup ('!' :: '-' :: '-' :: (body ++ ['-', '-', '>'])) .comment
  | instruction {body : List Char} (hstart : body.head? ≠ some '>')
      (hbody : EndsAt ['?', '>'] body) : WritesMarkup ('?' :: (body ++ ['?', '>'])) .instruction
  | cdata {chars : List Char} (hchars : EndsAt [']', ']', '>'] chars) :
      WritesMarkup ('!' :: '[' :: 'C' :: 'D' :: 'A' :: 'T' :: 'A' :: '[' ::
        (chars ++ [']', ']', '>'])) (.cdata chars)
  | doctype {body : List Char} (hfull : body.any (!isSpace ·) = true) (hbody : Balanced body) :
      WritesMarkup ('!' :: 'D' :: 'O' :: 'C' :: 'T' :: 'Y' :: 'P' :: 'E' :: (body ++ ['>']))
        .doctype
  | startTag {name : String} {tagRest : List Char} {attributes : List (String × List Char)}
      (hname : IsName name) (htag : AttributeText tagRest attributes) :
      WritesMarkup (name.toList ++ (tagRest ++ ['>'])) (.startTag name tagRest)
  | emptyTag {name : String} {tagRest : List Char} {attributes : List (String × List Char)}
      (hname : IsName name) (htag : AttributeText tagRest attributes) :
      WritesMarkup (name.toList ++ (tagRest ++ ['/', '>'])) (.emptyTag name tagRest)
  | endTag {name : String} {space : List Char} (hname : IsName name)
      (hspace : space.all isSpace = true) :
      WritesMarkup ('/' :: (name.toList ++ (space ++ ['>']))) (.endTag name)

theorem balanced_plain {cs : List Char} (hopen : '<' ∉ cs) (hclose : '>' ∉ cs) :
    Balanced cs := by
  induction cs with
  | nil => exact .nil
  | cons c rest ih =>
    rw [List.mem_cons, not_or] at hopen hclose
    exact .plain (Ne.symm hopen.1) (Ne.symm hclose.1) (ih hopen.2 hclose.2)

theorem Balanced.append {a b : List Char} (ha : Balanced a) (hb : Balanced b) :
    Balanced (a ++ b) := by
  induction ha with
  | nil => exact hb
  | plain hopen hclose _ ih => exact .plain hopen hclose ih
  | nested hinside _ _ ih =>
    rw [List.cons_append, List.append_assoc, List.cons_append]
    exact .nested hinside ih

theorem Balanced.balanced?_append {cs : List Char} (h : Balanced cs) (depth : Nat)
    (read rest : List Char) :
    balanced? depth read (cs ++ rest) = balanced? depth (cs.reverse ++ read) rest := by
  induction h generalizing depth read rest with
  | nil => rfl
  | @plain c more hopen hclose _ ih =>
    have hstep : balanced? depth read (c :: more ++ rest) =
        balanced? depth (c :: read) (more ++ rest) := by
      cases depth <;> simp [balanced?, hopen, hclose]
    rw [hstep, ih]
    simp
  | @nested inside more hinside hrest ihInside ihRest =>
    have hstart : balanced? depth read ('<' :: (inside ++ '>' :: more) ++ rest) =
        balanced? (depth + 1) ('<' :: read) (inside ++ '>' :: (more ++ rest)) := by
      simp [balanced?]
    have hend (read : List Char) : balanced? (depth + 1) read ('>' :: (more ++ rest)) =
        balanced? depth ('>' :: read) (more ++ rest) := by
      simp [balanced?]
    rw [hstart, ihInside, hend, ihRest]
    simp

/-- The inside of a tag is read up to its end. -/
theorem Passes.tagInside?_eq {cs : List Char} (h : Passes cs) (rest : List Char) :
    tagInside? none [] (cs ++ '>' :: rest) = some (cs, rest) := by
  rw [h, tagInside?]
  simp

theorem IsName.not_isSpace {name : String} (h : IsName name) {c : Char} (hc : c ∈ name.toList) :
    (!isSpace c) = true := by
  rw [isSpace_eq_false_of_isNameCharacter (h.isNameCharacter hc), Bool.not_false]

section

variable {name : String} {tagRest : List Char} {attributes : List (String × List Char)}
  (hname : IsName name) (htag : AttributeText tagRest attributes)
include hname htag

theorem takeWhile_name : (name.toList ++ tagRest).takeWhile (!isSpace ·) = name.toList :=
  takeWhile_upTo (fun _ hc => hname.not_isSpace hc) htag.head?

theorem dropWhile_name : (name.toList ++ tagRest).dropWhile (!isSpace ·) = tagRest :=
  dropWhile_upTo (fun _ hc => hname.not_isSpace hc) htag.head?

theorem tagOf_emptyTag : tagOf (name.toList ++ (tagRest ++ ['/'])) = .emptyTag name tagRest := by
  have hreverse : (name.toList ++ (tagRest ++ ['/'])).reverse =
      '/' :: (name.toList ++ tagRest).reverse := by simp
  rw [tagOf, hreverse]
  simp only [List.reverse_reverse, takeWhile_name hname htag, dropWhile_name hname htag,
    String.ofList_toList]

theorem tagOf_startTag : tagOf (name.toList ++ tagRest) = .startTag name tagRest := by
  rw [tagOf]
  split
  · rename_i rest hreverse
    have hlast : (name.toList ++ tagRest).getLast? = some '/' := by
      rw [← List.head?_reverse, hreverse, List.head?_cons]
    cases tagRest with
    | nil =>
      rw [List.append_nil] at hlast
      cases hname.isNameCharacter (List.mem_of_getLast? hlast)
    | cons c more =>
      rw [List.getLast?_append_of_ne_nil _ (List.cons_ne_nil c more)] at hlast
      exact absurd hlast htag.getLast?
  · simp only [takeWhile_name hname htag, dropWhile_name hname htag, String.ofList_toList]

end

theorem readMarkup?_tag {name : String} (hname : IsName name) (rest : List Char) :
    readMarkup? (name.toList ++ rest) = (tagInside? none [] (name.toList ++ rest)).map
      fun (inside, after) => (tagOf inside, after) := by
  obtain ⟨c, cs, hchars, hc, -⟩ := hname.exists_cons
  rw [hchars, List.cons_append]
  unfold readMarkup?
  split
  case h_8 => rfl
  case h_7 heq => cases heq
  -- A character of a name starts none of the other kinds.
  all_goals
    rename_i heq
    obtain ⟨rfl, -⟩ := List.cons.inj heq
    cases hc

/-- Markup is read back as it is written, whatever stands behind it. -/
theorem readMarkup?_of_writes {cs : List Char} {m : Markup} (h : WritesMarkup cs m)
    (after : List Char) : readMarkup? (cs ++ after) = some (m, after) := by
  cases h with
  | @comment body hbody =>
    rw [List.cons_append, List.cons_append, List.cons_append, readMarkup?,
      Text.breakOn?_of_endsAt (by simp) hbody, Option.map_some]
  | @instruction body hstart hbody =>
    have hread : readMarkup? ('?' :: (body ++ ['?', '>'] ++ after)) =
        (Text.breakOn? ['?', '>'] (body ++ ['?', '>'] ++ after)).map
          fun (_, after) => (.instruction, after) := by
      cases body with
      | nil => rfl
      | cons c more =>
        rw [List.cons_append, List.cons_append, readMarkup?]
        intro rest heq
        obtain ⟨rfl, -⟩ := List.cons.inj heq
        exact hstart rfl
    rw [List.cons_append, hread, Text.breakOn?_of_endsAt (by simp) hbody, Option.map_some]
  | cdata hchars =>
    simp only [List.cons_append, readMarkup?, Text.breakOn?_of_endsAt (by simp) hchars,
      Option.map_some]
  | @doctype body hfull hbody =>
    have hword : Balanced ['D', 'O', 'C', 'T', 'Y', 'P', 'E'] :=
      balanced_plain (by decide) (by decide)
    have hinside : balanced? 0 [] (['D', 'O', 'C', 'T', 'Y', 'P', 'E'] ++ body ++ '>' :: after) =
        some (['D', 'O', 'C', 'T', 'Y', 'P', 'E'] ++ body, after) := by
      rw [(hword.append hbody).balanced?_append, balanced?]
      simp
    have hdoctype : isDoctype (['D', 'O', 'C', 'T', 'Y', 'P', 'E'] ++ body) = true := by
      have hspelt : ['D', 'O', 'C', 'T', 'Y', 'P', 'E'].map Char.toUpper = "DOCTYPE".toList := by
        decide
      rw [isDoctype, Bool.and_eq_true]
      exact ⟨beq_iff_eq.2 hspelt, hfull⟩
    have hchars : '!' :: 'D' :: 'O' :: 'C' :: 'T' :: 'Y' :: 'P' :: 'E' :: (body ++ ['>']) ++ after =
        '!' :: (['D', 'O', 'C', 'T', 'Y', 'P', 'E'] ++ body ++ '>' :: after) := by simp
    rw [hchars, readMarkup?, hinside]
    · simp only [hdoctype, if_true]
    · rintro rest ⟨⟩
    · rintro rest ⟨⟩
  | @startTag name tagRest attributes hname htag =>
    have hinside := (hname.passes.append htag.passes).tagInside?_eq after
    rw [List.append_assoc, List.append_assoc, readMarkup?_tag hname, List.singleton_append,
      ← List.append_assoc, hinside]
    simp only [Option.map_some, tagOf_startTag hname htag]
  | @emptyTag name tagRest attributes hname htag =>
    have hslash : Passes ['/'] := fun _ _ => rfl
    have hinside := (hname.passes.append (htag.passes.append hslash)).tagInside?_eq after
    have hchars : name.toList ++ (tagRest ++ ['/', '>']) ++ after =
        name.toList ++ (tagRest ++ ['/']) ++ '>' :: after := by simp
    rw [hchars, List.append_assoc, readMarkup?_tag hname, ← List.append_assoc, hinside]
    simp only [Option.map_some, tagOf_emptyTag hname htag]
  | @endTag name space hname hspace =>
    have hinside := (hname.passes.append (passes_space hspace)).tagInside?_eq after
    have htrim : ((name.toList ++ space).reverse.dropWhile isSpace).reverse = name.toList := by
      rw [List.reverse_append, dropWhile_upTo, List.reverse_reverse]
      · exact fun c hc => List.all_eq_true.1 hspace c (List.mem_reverse.1 hc)
      · intro c hc
        have hmem := List.mem_reverse.1 (List.mem_of_head? hc)
        exact isSpace_eq_false_of_isNameCharacter (hname.isNameCharacter hmem)
    have hchars : '/' :: (name.toList ++ (space ++ ['>'])) ++ after =
        '/' :: (name.toList ++ space ++ '>' :: after) := by simp
    rw [hchars, readMarkup?, hinside]
    simp only [Option.map_some, htrim, String.ofList_toList]

/-! ## Content -/

/-- A text is empty or starts with markup. -/
def IsMarkupOrEnd (rest : List Char) : Prop := ∀ c, rest.head? = some c → c = '<'

/-- The characters of the content of an element and its nodes. -/
inductive Writes : List Char → List Node → Prop
  | nil : Writes [] []
  | text {raw rest : List Char} {nodes : List Node} (hne : raw ≠ []) (hraw : '<' ∉ raw)
      (hend : IsMarkupOrEnd rest) (hrest : Writes rest nodes) :
      Writes (raw ++ rest) (.text raw :: nodes)
  | comment {cs rest : List Char} {nodes : List Node} (hcs : WritesMarkup cs .comment)
      (hrest : Writes rest nodes) : Writes ('<' :: (cs ++ rest)) nodes
  | instruction {cs rest : List Char} {nodes : List Node} (hcs : WritesMarkup cs .instruction)
      (hrest : Writes rest nodes) : Writes ('<' :: (cs ++ rest)) nodes
  | cdata {cs rest chars : List Char} {nodes : List Node} (hcs : WritesMarkup cs (.cdata chars))
      (hrest : Writes rest nodes) : Writes ('<' :: (cs ++ rest)) (.cdata chars :: nodes)
  | empty {cs rest tagRest : List Char} {name : String} {nodes : List Node}
      (hcs : WritesMarkup cs (.emptyTag name tagRest)) (hrest : Writes rest nodes) :
      Writes ('<' :: (cs ++ rest)) (.element name tagRest [] :: nodes)
  | element {start content close rest tagRest : List Char} {name : String}
      {children nodes : List Node} (hstart : WritesMarkup start (.startTag name tagRest))
      (hcontent : Writes content children) (hclose : WritesMarkup close (.endTag name))
      (hrest : Writes rest nodes) :
      Writes ('<' :: (start ++ (content ++ '<' :: (close ++ rest))))
        (.element name tagRest children :: nodes)

/-- An element is written between tags that hold its name only. -/
theorem Writes.bare {name : String} {content rest : List Char} {children nodes : List Node}
    (hname : IsName name) (hcontent : Writes content children) (hrest : Writes rest nodes) :
    Writes ('<' :: (name.toList ++ ([] ++ ['>']) ++ (content ++ '<' ::
      ('/' :: (name.toList ++ ([] ++ ['>'])) ++ rest)))) (.element name [] children :: nodes) :=
  .element (.startTag hname (.nil rfl)) hcontent (.endTag hname rfl) hrest

theorem isMarkupOrEnd_markup (tail : List Char) : IsMarkupOrEnd ('<' :: tail) := by
  rintro c ⟨⟩
  rfl

theorem IsMarkupOrEnd.append {rest : List Char} (h : IsMarkupOrEnd rest) (tail : List Char) :
    IsMarkupOrEnd (rest ++ '<' :: tail) := by
  cases rest with
  | nil => exact isMarkupOrEnd_markup tail
  | cons d more => exact h

theorem IsMarkupOrEnd.bne {rest : List Char} (h : IsMarkupOrEnd rest) :
    ∀ c, rest.head? = some c → (c != '<') = false := by
  intro c hc
  rw [h c hc]
  rfl

section

variable {length n : Nat} (hn : length < n) (name : String) (read : List Node) {rest : List Char}
include hn

/-- A text takes one step. -/
theorem readContent_text {raw : List Char} (hne : raw ≠ []) (hraw : '<' ∉ raw)
    (hend : IsMarkupOrEnd rest) :
    readContent name n read (raw ++ rest) =
      readContent name (n - 1) (.text raw :: read) rest := by
  obtain ⟨n, rfl⟩ := Nat.exists_eq_add_one_of_ne_zero (Nat.ne_zero_of_lt hn)
  have hplain := forall_ne_of_not_mem hraw
  obtain ⟨c, cs, hcs⟩ := List.exists_cons_of_ne_nil hne
  have hc : c ≠ '<' := by simpa using hplain c (hcs ▸ List.mem_cons_self)
  rw [hcs, List.cons_append, readContent]
  · rw [← List.cons_append, ← hcs, takeWhile_upTo hplain hend.bne, dropWhile_upTo hplain hend.bne,
      Nat.add_sub_cancel]
  · exact nofun
  · intro tail heq
    exact hc (List.cons.inj heq).1

/-- Markup takes one step. -/
theorem readContent_markup {cs : List Char} {m : Markup} (h : WritesMarkup cs m) :
    readContent name n read ('<' :: (cs ++ rest)) = match m with
      | .comment | .instruction => readContent name (n - 1) read rest
      | .doctype => readContent name (n - 1) (.doctype :: read) rest
      | .cdata chars => readContent name (n - 1) (.cdata chars :: read) rest
      | .endTag e => if e == name then some (read.reverse, rest) else none
      | .emptyTag e tagRest => readContent name (n - 1) (.element e tagRest [] :: read) rest
      | .startTag e tagRest =>
        match readContent e (n - 1) [] rest with
        | none => none
        | some (children, after) =>
          readContent name (n - 1) (.element e tagRest children :: read) after := by
  obtain ⟨n, rfl⟩ := Nat.exists_eq_add_one_of_ne_zero (Nat.ne_zero_of_lt hn)
  rw [readContent, readMarkup?_of_writes h, Nat.add_sub_cancel]
  cases m <;> rfl

end

theorem length_lt_of_markup {cs rest : List Char} {n : Nat}
    (hn : ('<' :: (cs ++ rest)).length < n) : rest.length < n - 1 := by
  simp only [List.length_cons, List.length_append] at hn
  omega

/-- In front of an end tag a content is read back. Each kind of node takes a step of the reader, and
an element the steps of its own content besides. -/
theorem readContent_of_writes {cs : List Char} {nodes : List Node} (h : Writes cs nodes)
    {close : List Char} {name : String} (hclose : WritesMarkup close (.endTag name))
    (after : List Char) (read : List Node) {n : Nat}
    (hn : (cs ++ '<' :: (close ++ after)).length < n) :
    readContent name n read (cs ++ '<' :: (close ++ after)) =
      some (read.reverse ++ nodes, after) := by
  induction h generalizing close name after read n with
  | nil =>
    rw [List.nil_append, readContent_markup hn name read hclose]
    simp
  | @text raw rest nodes hne hraw hend hrest ih =>
    have hlater : (rest ++ '<' :: (close ++ after)).length < n - 1 := by
      have hpos := List.length_pos_of_ne_nil hne
      simp only [List.length_append] at hn ⊢
      omega
    rw [List.append_assoc, readContent_text hn name read hne hraw (hend.append _),
      ih hclose after _ hlater]
    simp
  | @comment cs rest nodes hcs hrest ih =>
    rw [List.cons_append, List.append_assoc] at hn ⊢
    rw [readContent_markup hn name read hcs]
    exact ih hclose after read (length_lt_of_markup hn)
  | @instruction cs rest nodes hcs hrest ih =>
    rw [List.cons_append, List.append_assoc] at hn ⊢
    rw [readContent_markup hn name read hcs]
    exact ih hclose after read (length_lt_of_markup hn)
  | @cdata cs rest chars nodes hcs hrest ih =>
    rw [List.cons_append, List.append_assoc] at hn ⊢
    rw [readContent_markup hn name read hcs]
    simp only [ih hclose after _ (length_lt_of_markup hn), List.reverse_cons, List.append_assoc,
      List.singleton_append]
  | @empty cs rest tagRest e nodes hcs hrest ih =>
    rw [List.cons_append, List.append_assoc] at hn ⊢
    rw [readContent_markup hn name read hcs]
    simp only [ih hclose after _ (length_lt_of_markup hn), List.reverse_cons, List.append_assoc,
      List.singleton_append]
  | @element start content inner rest tagRest e children nodes hstart hcontent hinner hrest
      ihContent ihRest =>
    have hsplit : '<' :: (start ++ (content ++ '<' :: (inner ++ rest))) ++
        '<' :: (close ++ after) =
      '<' :: (start ++ (content ++ '<' :: (inner ++ (rest ++ '<' :: (close ++ after))))) := by
      simp
    rw [hsplit] at hn ⊢
    have hinside := length_lt_of_markup hn
    have hlater : (rest ++ '<' :: (close ++ after)).length < n - 1 := by
      simp only [List.length_cons, List.length_append] at hinside ⊢
      omega
    rw [readContent_markup hn name read hstart]
    simp only [ihContent hinner _ _ hinside, ihRest hclose after _ hlater, List.reverse_cons,
      List.reverse_nil, List.nil_append, List.append_assoc, List.singleton_append]

/-! ## Documents -/

/-- The characters of a document and its root element. What stands behind the root does not
matter. -/
inductive WritesRoot : List Char → Element → Prop
  | space {space rest : List Char} {root : Element} (hne : space ≠ [])
      (hspace : space.all isSpace = true) (hend : IsMarkupOrEnd rest)
      (hrest : WritesRoot rest root) : WritesRoot (space ++ rest) root
  | comment {cs rest : List Char} {root : Element} (hcs : WritesMarkup cs .comment)
      (hrest : WritesRoot rest root) : WritesRoot ('<' :: (cs ++ rest)) root
  | instruction {cs rest : List Char} {root : Element} (hcs : WritesMarkup cs .instruction)
      (hrest : WritesRoot rest root) : WritesRoot ('<' :: (cs ++ rest)) root
  | doctype {cs rest : List Char} {root : Element} (hcs : WritesMarkup cs .doctype)
      (hrest : WritesRoot rest root) : WritesRoot ('<' :: (cs ++ rest)) root
  | empty {cs tagRest after : List Char} {name : String}
      (hcs : WritesMarkup cs (.emptyTag name tagRest)) :
      WritesRoot ('<' :: (cs ++ after)) ⟨name, tagRest, []⟩
  | element {start content close after tagRest : List Char} {name : String}
      {children : List Node} (hstart : WritesMarkup start (.startTag name tagRest))
      (hcontent : Writes content children) (hclose : WritesMarkup close (.endTag name)) :
      WritesRoot ('<' :: (start ++ (content ++ '<' :: (close ++ after)))) ⟨name, tagRest, children⟩

/-- A document, which may start with a byte order mark, and its root element. -/
def WritesDocument (document : String) (root : Element) : Prop :=
  ∃ cs, WritesRoot cs root ∧ (document.toList = cs ∨ document.toList = '\uFEFF' :: cs)

theorem readProlog_markup {length n : Nat} (hn : length < n) {cs : List Char} {m : Markup}
    (h : WritesMarkup cs m) (rest : List Char) :
    readProlog n ('<' :: (cs ++ rest)) = match m with
      | .comment | .instruction | .doctype => readProlog (n - 1) rest
      | .cdata _ | .endTag _ => none
      | .emptyTag name tagRest => some ⟨name, tagRest, []⟩
      | .startTag name tagRest => (readContent name (n - 1) [] rest).map
          fun (children, _) => ⟨name, tagRest, children⟩ := by
  obtain ⟨n, rfl⟩ := Nat.exists_eq_add_one_of_ne_zero (Nat.ne_zero_of_lt hn)
  rw [readProlog, readMarkup?_of_writes h, Nat.add_sub_cancel]
  cases m <;> rfl

theorem readProlog_space {length n : Nat} (hn : length < n) {space rest : List Char}
    (hne : space ≠ []) (hspace : space.all isSpace = true) (hend : IsMarkupOrEnd rest) :
    readProlog n (space ++ rest) = readProlog (n - 1) rest := by
  obtain ⟨n, rfl⟩ := Nat.exists_eq_add_one_of_ne_zero (Nat.ne_zero_of_lt hn)
  obtain ⟨c, cs, rfl⟩ := List.exists_cons_of_ne_nil hne
  have hplain : ∀ d ∈ c :: cs, (d != '<') = true := by
    intro d hd
    rw [bne_iff_ne]
    rintro rfl
    cases List.all_eq_true.1 hspace _ hd
  rw [List.cons_append, readProlog]
  · rw [← List.cons_append, takeWhile_upTo hplain hend.bne, dropWhile_upTo hplain hend.bne,
      if_pos hspace, Nat.add_sub_cancel]
  · exact nofun
  · intro tail heq
    have hc := hplain c List.mem_cons_self
    rw [(List.cons.inj heq).1] at hc
    cases hc

theorem readProlog_of_writes {cs : List Char} {root : Element} (h : WritesRoot cs root) {n : Nat}
    (hn : cs.length < n) : readProlog n cs = some root := by
  induction h generalizing n with
  | @space space rest root hne hspace hend hrest ih =>
    rw [readProlog_space hn hne hspace hend]
    have hpos := List.length_pos_of_ne_nil hne
    rw [List.length_append] at hn
    exact ih (by omega)
  | comment hcs _ ih =>
    rw [readProlog_markup hn hcs]
    exact ih (length_lt_of_markup hn)
  | instruction hcs _ ih =>
    rw [readProlog_markup hn hcs]
    exact ih (length_lt_of_markup hn)
  | doctype hcs _ ih =>
    rw [readProlog_markup hn hcs]
    exact ih (length_lt_of_markup hn)
  | empty hcs => rw [readProlog_markup hn hcs]
  | element hstart hcontent hclose =>
    rw [readProlog_markup hn hstart]
    simp only [readContent_of_writes hcontent hclose _ [] (length_lt_of_markup hn),
      List.reverse_nil, List.nil_append, Option.map_some]

/-- What a document starts with is no byte order mark. -/
theorem WritesRoot.head? {cs : List Char} {root : Element} (h : WritesRoot cs root) :
    cs.head? ≠ some '\uFEFF' := by
  cases h with
  | space hne hspace =>
    rw [List.head?_append_of_ne_nil _ hne]
    intro hhead
    cases List.all_eq_true.1 hspace _ (List.mem_of_head? hhead)
  | _ => exact fun hhead => absurd (Option.some.inj hhead) (by decide)

/-- The root of a document is read back as it is written. -/
theorem readRoot?_of_writes {document : String} {root : Element}
    (h : WritesDocument document root) : readRoot? document = some root := by
  obtain ⟨cs, hroot, hdocument | hdocument⟩ := h
  · rw [readRoot?, hdocument]
    split
    · exact absurd rfl hroot.head?
    · exact readProlog_of_writes hroot (Nat.lt_succ_self _)
  · rw [readRoot?, hdocument]
    exact readProlog_of_writes hroot (Nat.lt_succ_self _)

end Xml

end ArtifactGraph
