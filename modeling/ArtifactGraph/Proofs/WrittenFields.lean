import ArtifactGraph.Proofs.Markup
import ArtifactGraph.Xml.Fields
import Mathlib.Data.List.Nodup

/-!
# Elements as they are written

What elements stand for, said of their nodes, and that the readers of elements find it there.

* References.  `Spells` are the ways to write a text; `resolveFrom_of_spells` resolves each of them.
* Tags.  `Attributes` are those that the format allows, and an element `IsValued` if none of them
  speaks of standing for nothing.
* Readings.  `Reads x a` says that the reading `x` gives `a` whatever the scopes are.  What an
  element leaves behind in them never matters here, as no scope makes a valued element stand for
  nothing (`reads_isNil`).
* Elements that are passed over.  `reads_passOver`: a plain content has no fault that would show.
* Children.  `Children` has a rule for what may stand between fields and one for a field, and
  `reads_fieldsOfItems` goes by induction over it.
* Records.  `IsRecord` is an element with fields in any order, and `IsRecord.reads_fields` reads
  them back under their names.
-/

namespace ArtifactGraph.Xml

/-! ## References -/

/-- The characters that have names, with their names. -/
def namedCharacters : List (List Char × Char) :=
  [(['l', 't'], '<'), (['g', 't'], '>'), (['a', 'm', 'p'], '&'),
    (['q', 'u', 'o', 't'], '\x22'), (['a', 'p', 'o', 's'], '\x27')]

/-- The characters of a text and how they may be written. A character stands for itself, unless it
has a meaning in texts, and every one may be written with its name or its code. -/
inductive Spells : List Char → List Char → Prop
  | nil : Spells [] []
  | plain {c : Char} {cs raw : List Char} (hreference : c ≠ '&') (hmarkup : c ≠ '<')
      (hrest : Spells cs raw) : Spells (c :: cs) (c :: raw)
  | named {c : Char} {name cs raw : List Char} (hname : (name, c) ∈ namedCharacters)
      (hrest : Spells cs raw) : Spells (c :: cs) ('&' :: (name ++ ';' :: raw))
  | decimal {c : Char} {digits cs raw : List Char} (hc : c.toNat ≠ 0)
      (hdigits : Text.number? 10 digits = some c.toNat) (hrest : Spells cs raw) :
      Spells (c :: cs) ('&' :: '#' :: (digits ++ ';' :: raw))
  | hexadecimal {c : Char} {digits cs raw : List Char} (hc : c.toNat ≠ 0)
      (hdigits : Text.number? 16 digits = some c.toNat) (hrest : Spells cs raw) :
      Spells (c :: cs) ('&' :: '#' :: 'x' :: (digits ++ ';' :: raw))

/-- How a character is written that has a meaning in texts or ends markup. -/
def escape (c : Char) : List Char :=
  if c = '&' then ['&', 'a', 'm', 'p', ';']
  else if c = '<' then ['&', 'l', 't', ';']
  else if c = '>' then ['&', 'g', 't', ';']
  else [c]

/-- Every text can be written. -/
theorem spells_escape (cs : List Char) : Spells cs (cs.flatMap escape) := by
  induction cs with
  | nil => exact .nil
  | cons c rest ih =>
    rw [List.flatMap_cons, escape]
    split
    · rename_i hc
      exact hc ▸ @Spells.named '&' ['a', 'm', 'p'] _ _ (by decide) ih
    · rename_i hreference
      split
      · rename_i hc
        exact hc ▸ @Spells.named '<' ['l', 't'] _ _ (by decide) ih
      · rename_i hmarkup
        split
        · rename_i hc
          exact hc ▸ @Spells.named '>' ['g', 't'] _ _ (by decide) ih
        · exact .plain hreference hmarkup ih

theorem resolveFrom_name {name : List Char} (hend : ';' ∉ name) (hstart : '&' ∉ name)
    (passed read rest : List Char) :
    resolveFrom (some passed) read (name ++ rest) =
      resolveFrom (some (name.reverse ++ passed)) read rest := by
  induction name generalizing passed with
  | nil => rfl
  | cons d more ih =>
    rw [List.mem_cons, not_or] at hend hstart
    rw [List.cons_append, resolveFrom, if_neg (by simpa using Ne.symm hend.1),
      if_neg (by simpa using Ne.symm hstart.1), ih hend.2 hstart.2, List.reverse_cons,
      List.append_assoc, List.singleton_append]

theorem resolveFrom_reference {name : List Char} {c : Char} (h : reference? name = some c)
    (hend : ';' ∉ name) (hstart : '&' ∉ name) (read rest : List Char) :
    resolveFrom none read ('&' :: (name ++ ';' :: rest)) = resolveFrom none (c :: read) rest := by
  rw [resolveFrom]
  simp only [beq_self_eq_true, if_true]
  rw [resolveFrom_name hend hstart, List.append_nil, resolveFrom]
  simp only [beq_self_eq_true, if_true, List.reverse_reverse, h]

theorem character?_toNat {c : Char} (h : c.toNat ≠ 0) : character? c.toNat = some c := by
  have hvalid : c.toNat.isValidChar := c.valid
  have hrange : (c.toNat != 0 && (c.toNat < 0xD800 || (0xDFFF < c.toNat && c.toNat < 0x110000))) =
      true := by
    simpa [h] using hvalid
  rw [character?, if_pos hrange, Char.ofNat_toNat]

/-- A character that is no digit occurs in no number. -/
theorem not_mem_of_number? {base n : Nat} {digits : List Char}
    (h : Text.number? base digits = some n) {c : Char} (hc : Text.digit? base c = none) :
    c ∉ digits := by
  have hfold {start : Nat} : digits.foldlM
      (fun n d => (Text.digit? base d).map (base * n + ·)) start = some n → c ∉ digits := by
    clear h
    intro h
    induction digits generalizing start with
    | nil => exact List.not_mem_nil
    | cons d rest ih =>
      rw [List.foldlM_cons, Option.bind_eq_bind, Option.bind_eq_some_iff] at h
      obtain ⟨next, hd, hrest⟩ := h
      rw [List.mem_cons, not_or]
      refine ⟨?_, ih hrest⟩
      rintro rfl
      rw [hc] at hd
      cases hd
  cases digits with
  | nil => exact List.not_mem_nil
  | cons d rest => exact hfold h

theorem reference?_named : ∀ p ∈ namedCharacters, reference? p.1 = some p.2 ∧
    ';' ∉ p.1 ∧ '&' ∉ p.1 := by decide

theorem reference?_decimal {digits : List Char} {c : Char} (hc : c.toNat ≠ 0)
    (h : Text.number? 10 digits = some c.toNat) : reference? ('#' :: digits) = some c := by
  rw [reference?, h, Option.bind_some, character?_toNat hc]
  rintro rest rfl
  exact not_mem_of_number? h (c := 'x') rfl List.mem_cons_self

theorem reference?_hexadecimal {digits : List Char} {c : Char} (hc : c.toNat ≠ 0)
    (h : Text.number? 16 digits = some c.toNat) : reference? ('#' :: 'x' :: digits) = some c := by
  rw [reference?, h, Option.bind_some, character?_toNat hc]

/-- The text of a raw text is what the raw text is written for. -/
theorem resolveFrom_of_spells {cs raw : List Char} (h : Spells cs raw) (read : List Char) :
    resolveFrom none read raw = some (read.reverse ++ cs) := by
  induction h generalizing read with
  | nil => simp [resolveFrom]
  | plain hreference hmarkup _ ih =>
    rw [resolveFrom]
    simp [hreference, ih]
  | named hname _ ih =>
    obtain ⟨hreference, hend, hstart⟩ := reference?_named _ hname
    rw [resolveFrom_reference hreference hend hstart, ih]
    simp
  | @decimal c digits cs raw hc hdigits _ ih =>
    have hend : ';' ∉ '#' :: digits := by simpa using not_mem_of_number? hdigits rfl
    have hstart : '&' ∉ '#' :: digits := by simpa using not_mem_of_number? hdigits rfl
    rw [← List.cons_append, resolveFrom_reference (reference?_decimal hc hdigits) hend hstart, ih]
    simp
  | @hexadecimal c digits cs raw hc hdigits _ ih =>
    have hend : ';' ∉ '#' :: 'x' :: digits := by simpa using not_mem_of_number? hdigits rfl
    have hstart : '&' ∉ '#' :: 'x' :: digits := by simpa using not_mem_of_number? hdigits rfl
    rw [← List.cons_append, ← List.cons_append,
      resolveFrom_reference (reference?_hexadecimal hc hdigits) hend hstart, ih]
    simp

/-! ## Texts -/

/-- A text of which nothing is cut off. -/
structure IsTrimmed (value : String) : Prop where
  start : value.toList.head?.any (!isSpace ·) = true
  finish : value.toList.getLast?.any (!isSpace ·) = true

namespace IsTrimmed

variable {value : String} (h : IsTrimmed value)
include h

theorem nonempty : value.toList ≠ [] := by
  intro hnil
  have hstart := h.start
  rw [hnil] at hstart
  cases hstart

theorem isSpace_head? : ∀ c, value.toList.head? = some c → isSpace c = false := by
  intro c hc
  have hstart := h.start
  rw [hc] at hstart
  simpa using hstart

theorem isSpace_getLast? : ∀ c, value.toList.getLast? = some c → isSpace c = false := by
  intro c hc
  have hfinish := h.finish
  rw [hc] at hfinish
  simpa using hfinish

end IsTrimmed

theorem Spells.eq_nil_iff {cs raw : List Char} (h : Spells cs raw) : raw = [] ↔ cs = [] := by
  cases h <;> simp

theorem Spells.head? {cs raw : List Char} (h : Spells cs raw)
    (hcs : ∀ c, cs.head? = some c → isSpace c = false) :
    ∀ c, raw.head? = some c → isSpace c = false := by
  cases h with
  | nil => exact nofun
  | plain => exact hcs
  | _ => exact head?_eq_false rfl

/-- A raw text ends with a reference or with the character that its text ends with. -/
theorem Spells.getLast? {cs raw : List Char} (h : Spells cs raw) :
    ∀ l, raw.getLast? = some l → l = ';' ∨ cs.getLast? = some l := by
  have hlonger {c l : Char} {rest : List Char} (hl : rest.getLast? = some l) :
      (c :: rest).getLast? = some l := by
    rw [List.getLast?_cons, hl, Option.getD_some]
  have hreference {c l : Char} {front rest raw : List Char}
      (ih : ∀ l, raw.getLast? = some l → l = ';' ∨ rest.getLast? = some l)
      (hl : (front ++ ';' :: raw).getLast? = some l) :
      l = ';' ∨ (c :: rest).getLast? = some l := by
    rw [List.getLast?_append_cons] at hl
    cases raw with
    | nil => exact .inl (Option.some.inj hl).symm
    | cons d more => exact (ih l (by rwa [List.getLast?_cons_cons] at hl)).imp_right hlonger
  induction h with
  | nil => exact nofun
  | @plain c cs raw _ _ hrest ih =>
    intro l hl
    cases raw with
    | nil =>
      obtain rfl := hrest.eq_nil_iff.1 rfl
      exact .inr hl
    | cons d more => exact (ih l (by rwa [List.getLast?_cons_cons] at hl)).imp_right hlonger
  | named _ _ ih => exact fun l hl => hreference ih (by rwa [← List.cons_append] at hl)
  | decimal _ _ _ ih =>
    exact fun l hl => hreference ih (by rwa [← List.cons_append, ← List.cons_append] at hl)
  | hexadecimal _ _ _ ih =>
    exact fun l hl => hreference ih
      (by rwa [← List.cons_append, ← List.cons_append, ← List.cons_append] at hl)

/-- A text is read back from its raw form. -/
theorem items_of_spells {value : String} {raw : List Char} (h : Spells value.toList raw)
    (hvalue : IsTrimmed value) : items [.text raw] = [.text (some value)] := by
  have hstart : raw.dropWhile isSpace = raw :=
    List.dropWhile_eq_self_iff.2 (not_getElem_zero (h.head? hvalue.isSpace_head?))
  have hfinish : raw.reverse.dropWhile isSpace = raw.reverse := by
    refine List.dropWhile_eq_self_iff.2 (not_getElem_zero fun c hc => ?_)
    rw [List.head?_reverse] at hc
    rcases h.getLast? c hc with rfl | hc
    · rfl
    · exact hvalue.isSpace_getLast? c hc
  obtain ⟨c, cs, hraw⟩ := List.exists_cons_of_ne_nil
    (fun hnil => hvalue.nonempty (h.eq_nil_iff.1 hnil))
  have htrim : trimRunStart [.raw raw] = [.raw raw] := by
    rw [trimRunStart, hstart, hraw]
  change runItem [.raw raw] = _
  rw [runItem, htrim]
  simp [trimRunEnd, hfinish, runText?, resolveReferences?, resolveFrom_of_spells h]

/-! ## Tags -/

/-- Attributes as the format wants them: their names differ, and those that declare a namespace may
do so. -/
structure Attributes (tagRest : List Char) (attributes : List (String × List Char)) : Prop where
  text : AttributeText tagRest attributes
  distinct : (attributes.map Prod.fst).Nodup
  bound : ∀ p ∈ attributes, ∀ word, boundWord? p.1 = some word →
    mayBind word (String.ofList p.2) = true

/-- The tag of the element is well-formed. -/
def Element.IsTagged (e : Element) : Prop := ∃ attributes, Attributes e.tagRest attributes

/-- The tag of the element is well-formed and does not speak of standing for nothing. -/
def Element.IsValued (e : Element) : Prop :=
  ∃ attributes, Attributes e.tagRest attributes ∧ ∀ p ∈ attributes, localName p.1 ≠ "nil"

theorem Attributes.bare : Attributes [] [] where
  text := .nil rfl
  distinct := .nil
  bound := nofun

theorem Element.isValued_bare {name : String} {children : List Node} :
    Element.IsValued ⟨name, [], children⟩ := ⟨[], .bare, nofun⟩

theorem Element.IsValued.isTagged {e : Element} (h : e.IsValued) : e.IsTagged :=
  let ⟨attributes, hattributes, _⟩ := h
  ⟨attributes, hattributes⟩

theorem pairs?_quoted {attributes : List (String × List Char)} {seen : List String}
    (hdistinct : (attributes.map Prod.fst).Nodup)
    (hseen : ∀ name ∈ attributes.map Prod.fst, name ∉ seen) :
    pairs? seen (attributes.map fun (name, raw) => .quoted name raw) = some attributes := by
  induction attributes generalizing seen with
  | nil => rfl
  | cons p rest ih =>
    obtain ⟨name, raw⟩ := p
    rw [List.map_cons, List.nodup_cons] at hdistinct
    obtain ⟨hname, hrest⟩ := List.forall_mem_cons.1 hseen
    rw [List.map_cons, pairs?, if_neg (by simpa using hname), ih hdistinct.2, Option.map_some]
    intro other hother
    rw [List.mem_cons, not_or]
    exact ⟨ne_of_mem_of_not_mem hother hdistinct.1, hrest other hother⟩

theorem exists_bindings? {attributes : List (String × List Char)}
    (h : ∀ p ∈ attributes, ∀ word, boundWord? p.1 = some word →
      mayBind word (String.ofList p.2) = true) (before : Scope) :
    ∃ scope, bindings? before (attributes.map fun (name, raw) => .quoted name raw) =
      some scope := by
  induction attributes generalizing before with
  | nil => exact ⟨before, rfl⟩
  | cons p rest ih =>
    obtain ⟨name, raw⟩ := p
    obtain ⟨hp, hrest⟩ := List.forall_mem_cons.1 h
    rw [List.map_cons, bindings?]
    cases hword : boundWord? name with
    | none => exact ih hrest before
    | some word =>
      simp only [hp word hword, if_true]
      exact ih hrest _

theorem mem_of_mem_firstPairs {attributes : List (String × List Char)} {seen : List String}
    {p : String × List Char}
    (h : p ∈ firstPairs seen (attributes.map fun (name, raw) => .quoted name raw)) :
    p ∈ attributes := by
  induction attributes generalizing seen with
  | nil => cases h
  | cons q rest ih =>
    rw [List.map_cons, firstPairs] at h
    split at h
    · exact List.mem_cons_of_mem q (ih h)
    · rcases List.mem_cons.1 h with rfl | h
      · exact List.mem_cons_self
      · exact List.mem_cons_of_mem q (ih h)

namespace Element

variable {e : Element}

theorem written_eq {attributes : List (String × List Char)} (h : Attributes e.tagRest attributes) :
    e.written = attributes.map fun (name, raw) => .quoted name raw :=
  attributesFrom_of_text h.text (Nat.lt_succ_self _)

theorem attributes?_eq {attributes : List (String × List Char)}
    (h : Attributes e.tagRest attributes) : e.attributes? = some attributes := by
  rw [attributes?, written_eq h]
  exact pairs?_quoted h.distinct fun _ _ => List.not_mem_nil

theorem IsTagged.hasAttributes (h : e.IsTagged) : e.hasAttributes = true := by
  obtain ⟨attributes, hattributes⟩ := h
  rw [Element.hasAttributes, attributes?_eq hattributes, Option.isSome_some]

theorem IsTagged.exists_scope? (h : e.IsTagged) : ∃ scope, e.scope? = some scope := by
  obtain ⟨attributes, hattributes⟩ := h
  rw [scope?, written_eq hattributes]
  exact exists_bindings? hattributes.bound []

theorem IsValued.isNil_eq_false (h : e.IsValued) (scopes : Scopes) : e.isNil scopes = false := by
  obtain ⟨attributes, hattributes, hnil⟩ := h
  rw [isNil, written_eq hattributes, List.any_eq_false]
  intro p hp
  have hname := hnil p (mem_of_mem_firstPairs hp)
  simp [saysNil, hname]

end Element

/-! ## Readings that succeed -/

/-- A reading succeeds with a value, whatever the scopes are that it starts with. -/
def Reads {α : Type} (x : Reading α) (a : α) : Prop :=
  ∀ scopes, ∃ after, x.run scopes = some (a, after)

section

variable {α β : Type}

theorem reads_pure (a : α) : Reads (pure a) a := fun scopes => ⟨scopes, rfl⟩

theorem Reads.bind {x : Reading α} {f : α → Reading β} {a : α} {b : β} (hx : Reads x a)
    (hf : Reads (f a) b) : Reads (x >>= f) b := by
  intro scopes
  obtain ⟨between, hbetween⟩ := hx scopes
  obtain ⟨after, hafter⟩ := hf between
  refine ⟨after, ?_⟩
  rw [StateT.run_bind, hbetween]
  exact hafter

theorem reads_lift {x : Option α} {a : α} (h : x = some a) : Reads (liftM x) a := by
  subst h
  exact fun scopes => ⟨scopes, rfl⟩

end

theorem reads_leave : Reads Reading.leave () := fun _ => ⟨_, rfl⟩

theorem reads_enter {e : Element} (h : e.IsTagged) : Reads (Reading.enter e) () := by
  obtain ⟨scope, hscope⟩ := h.exists_scope?
  exact (reads_lift hscope).bind fun _ => ⟨_, rfl⟩

/-! ## Elements that are passed over -/

/-- A content without references in which every tag is well-formed. -/
inductive IsPlain : List Node → Prop
  | nil : IsPlain []
  | text {raw : List Char} {nodes : List Node} (hraw : '&' ∉ raw) (hrest : IsPlain nodes) :
      IsPlain (.text raw :: nodes)
  | cdata {chars : List Char} {nodes : List Node} (hrest : IsPlain nodes) :
      IsPlain (.cdata chars :: nodes)
  | element {name : String} {tagRest : List Char} {children nodes : List Node}
      (htag : Element.IsTagged ⟨name, tagRest, children⟩) (hchildren : IsPlain children)
      (hrest : IsPlain nodes) : IsPlain (.element name tagRest children :: nodes)

/-- A piece of a run without references. -/
def Piece.IsPlain : Piece → Prop
  | .raw chars => '&' ∉ chars
  | .cdata _ => True

/-- An item of a plain content. -/
def Item.IsPlain : Item → Prop
  | .text resolved => resolved.isSome = true
  | .element e => e.IsTagged ∧ Xml.IsPlain e.children

theorem resolveFrom_of_not_mem {raw : List Char} (h : '&' ∉ raw) (read : List Char) :
    resolveFrom none read raw = some (read.reverse ++ raw) := by
  induction raw generalizing read with
  | nil => simp [resolveFrom]
  | cons c rest ih =>
    rw [List.mem_cons, not_or] at h
    rw [resolveFrom]
    simp [Ne.symm h.1, ih h.2]

theorem isSome_runText? {run : List Piece} (h : ∀ piece ∈ run, piece.IsPlain) :
    (runText? run).isSome = true := by
  induction run with
  | nil => rfl
  | cons piece rest ih =>
    obtain ⟨hpiece, hrest⟩ := List.forall_mem_cons.1 h
    obtain ⟨others, hothers⟩ := Option.isSome_iff_exists.1 (ih hrest)
    cases piece with
    | raw chars => simp [runText?, resolveReferences?, resolveFrom_of_not_mem hpiece, hothers]
    | cdata chars => simp [runText?, hothers]

theorem isPlain_trimRunStart {run : List Piece} (h : ∀ piece ∈ run, piece.IsPlain) :
    ∀ piece ∈ trimRunStart run, piece.IsPlain := by
  induction run with
  | nil => exact h
  | cons piece rest ih =>
    obtain ⟨hpiece, hrest⟩ := List.forall_mem_cons.1 h
    cases piece with
    | raw chars =>
      rw [trimRunStart]
      split
      · exact ih hrest
      · refine List.forall_mem_cons.2 ⟨fun hmem => hpiece ?_, hrest⟩
        exact (List.dropWhile_sublist _).subset hmem
    | cdata chars => exact h

theorem isPlain_trimRunEnd {run : List Piece} (h : ∀ piece ∈ run, piece.IsPlain) :
    ∀ piece ∈ trimRunEnd run, piece.IsPlain := by
  fun_induction trimRunEnd run with
  | case1 => exact h
  | case2 chars =>
    obtain ⟨hchars, -⟩ := List.forall_mem_cons.1 h
    refine List.forall_mem_cons.2 ⟨fun hmem => hchars ?_, nofun⟩
    exact List.mem_reverse.1 ((List.dropWhile_sublist _).subset (List.mem_reverse.1 hmem))
  | case3 piece rest hlast ih =>
    obtain ⟨hpiece, hrest⟩ := List.forall_mem_cons.1 h
    exact List.forall_mem_cons.2 ⟨hpiece, ih hrest⟩

theorem isPlain_runItem {run : List Piece} (h : ∀ piece ∈ run, piece.IsPlain) :
    ∀ item ∈ runItem run, item.IsPlain := by
  rw [runItem]
  split
  · exact nofun
  · intro item hitem
    rw [List.mem_singleton.1 hitem]
    have hkept := isSome_runText? (isPlain_trimRunEnd (isPlain_trimRunStart h))
    simpa [Item.IsPlain] using hkept

theorem isPlain_itemsFrom {nodes : List Node} (h : IsPlain nodes) {run : List Piece}
    (hrun : ∀ piece ∈ run, piece.IsPlain) : ∀ item ∈ itemsFrom run nodes, item.IsPlain := by
  have hreverse {run : List Piece} (hrun : ∀ piece ∈ run, piece.IsPlain) :
      ∀ item ∈ runItem run.reverse, item.IsPlain :=
    isPlain_runItem fun piece hpiece => hrun piece (List.mem_reverse.1 hpiece)
  induction h generalizing run with
  | nil => exact hreverse hrun
  | text hraw _ ih => exact ih (List.forall_mem_cons.2 ⟨hraw, hrun⟩)
  | cdata _ ih => exact ih (List.forall_mem_cons.2 ⟨trivial, hrun⟩)
  | element htag hchildren _ _ ih =>
    rw [itemsFrom]
    intro item hitem
    rcases List.mem_append.1 hitem with hitem | hitem
    · exact hreverse hrun item hitem
    · rcases List.mem_cons.1 hitem with rfl | hitem
      · exact ⟨htag, hchildren⟩
      · exact ih (fun _ hpiece => absurd hpiece List.not_mem_nil) item hitem

theorem Element.isPlain_items {e : Element} (h : IsPlain e.children) :
    ∀ item ∈ e.items, item.IsPlain :=
  isPlain_itemsFrom h fun _ hpiece => absurd hpiece List.not_mem_nil

theorem reads_firstItem {items : List Item} (h : ∀ item ∈ items, item.IsPlain) :
    Reads (match items with
      | [] => Reading.leave
      | .text _ :: _ => pure ()
      | .element next :: _ => Reading.enter next) () := by
  cases items with
  | nil => exact reads_leave
  | cons item rest =>
    cases item with
    | text resolved => exact reads_pure ()
    | element next =>
      have hnext : (Item.element next).IsPlain := h _ List.mem_cons_self
      exact reads_enter hnext.1

/-- An element with a plain content can be passed over, whatever its tag binds. -/
theorem reads_passOver {e : Element} (h : IsPlain e.children) : Reads (Reading.passOver e) () := by
  have hitems := Element.isPlain_items h
  unfold Reading.passOver
  split
  · exact reads_leave
  · exact reads_leave
  · rename_i heq
    rw [heq] at hitems
    cases (List.forall_mem_cons.1 hitems).1
  · exact reads_pure ()
  · rename_i next rest heq
    rw [heq] at hitems
    have hnext : (Item.element next).IsPlain :=
      hitems _ (List.mem_cons_of_mem _ List.mem_cons_self)
    exact reads_enter hnext.1
  · rename_i first rest heq
    rw [heq] at hitems
    obtain ⟨⟨hfirst, hchildren⟩, hrest⟩ := List.forall_mem_cons.1 hitems
    refine (reads_enter hfirst).bind ?_
    have hinner := reads_firstItem (Element.isPlain_items hchildren)
    have hnext := reads_firstItem hrest
    cases hfirstItems : first.items with
    | nil => exact reads_leave.bind hnext
    | cons item more =>
      rw [hfirstItems] at hinner
      cases item with
      | text resolved => exact hnext
      | element inner => exact hinner.bind hnext

/-! ## Children -/

section

variable {α : Type}

/-- The children of an element that count, with their names and values in the order of the document.
Between them stand white space and elements that may be passed over. -/
inductive Children (passed : Element → Prop) (value : α → Element → Prop) :
    List (String × α) → List Node → Prop
  | nil : Children passed value [] []
  | space {raw : List Char} {fields : List (String × α)} {nodes : List Node}
      (hraw : raw.all isSpace = true) (hrest : Children passed value fields nodes) :
      Children passed value fields (.text raw :: nodes)
  | passed {name : String} {tagRest : List Char} {children nodes : List Node}
      {fields : List (String × α)} (hpassed : passed ⟨name, tagRest, children⟩)
      (hrest : Children passed value fields nodes) :
      Children passed value fields (.element name tagRest children :: nodes)
  | field {name : String} {tagRest : List Char} {children nodes : List Node} {a : α}
      {fields : List (String × α)} (ha : value a ⟨name, tagRest, children⟩)
      (hrest : Children passed value fields nodes) :
      Children passed value ((name, a) :: fields) (.element name tagRest children :: nodes)

/-- The elements among nodes, as items. -/
def elementItems : List Node → List Item
  | [] => []
  | .element name tagRest children :: rest =>
    .element ⟨name, tagRest, children⟩ :: elementItems rest
  | _ :: rest => elementItems rest

variable {passed : Element → Prop} {value : α → Element → Prop} {fields : List (String × α)}
  {nodes : List Node}

theorem trimRunStart_space {run : List Piece}
    (h : ∀ piece ∈ run, ∃ chars, piece = .raw chars ∧ chars.all isSpace = true) :
    trimRunStart run = [] := by
  induction run with
  | nil => rfl
  | cons piece rest ih =>
    obtain ⟨⟨chars, rfl, hchars⟩, hrest⟩ := List.forall_mem_cons.1 h
    rw [trimRunStart, List.dropWhile_eq_nil_iff.2 (List.all_eq_true.1 hchars)]
    exact ih hrest

/-- White space between children leaves no item. -/
theorem Children.items_eq (h : Children passed value fields nodes) :
    items nodes = elementItems nodes := by
  have hrun {run : List Piece}
      (hspace : ∀ piece ∈ run, ∃ chars, piece = .raw chars ∧ chars.all isSpace = true) :
      runItem run.reverse = [] := by
    rw [runItem, trimRunStart_space fun piece hpiece => hspace piece (List.mem_reverse.1 hpiece)]
  have hnone : ∀ piece ∈ ([] : List Piece),
      ∃ chars, piece = .raw chars ∧ chars.all isSpace = true :=
    fun _ hpiece => absurd hpiece List.not_mem_nil
  have hfrom {run : List Piece}
      (hspace : ∀ piece ∈ run, ∃ chars, piece = .raw chars ∧ chars.all isSpace = true) :
      itemsFrom run nodes = elementItems nodes := by
    induction h generalizing run with
    | nil => exact hrun hspace
    | space hraw _ ih => exact ih (List.forall_mem_cons.2 ⟨⟨_, rfl, hraw⟩, hspace⟩)
    | passed _ _ ih => rw [itemsFrom, hrun hspace, ih hnone, elementItems, List.nil_append]
    | field _ _ ih => rw [itemsFrom, hrun hspace, ih hnone, elementItems, List.nil_append]
  exact hfrom hnone

theorem Children.isTagged (h : Children passed value fields nodes)
    (hpassed : ∀ e, passed e → e.IsTagged) (hvalue : ∀ a e, value a e → e.IsTagged) :
    ∀ e, .element e ∈ elementItems nodes → e.IsTagged := by
  induction h with
  | nil => exact nofun
  | space _ _ ih => exact ih
  | passed he _ ih =>
    intro e hmem
    rcases List.mem_cons.1 hmem with heq | hmem
    · obtain rfl := Item.element.inj heq
      exact hpassed _ he
    · exact ih e hmem
  | field he _ ih =>
    intro e hmem
    rcases List.mem_cons.1 hmem with heq | hmem
    · obtain rfl := Item.element.inj heq
      exact hvalue _ _ he
    · exact ih e hmem

end

/-! ## Fields -/

/-- An element that is no field of these names. -/
structure IsUnknown (names : List String) (e : Element) : Prop where
  name : localName e.name ∉ names
  tag : e.IsTagged
  content : IsPlain e.children

/-- An element that does not stand for nothing, nor begins with one that cannot be entered. -/
structure Element.IsFilled (e : Element) : Prop where
  valued : e.IsValued
  first : ∀ first rest, e.items = .element first :: rest → first.IsTagged

/-- An element that holds a text. -/
structure IsText (value : String) (e : Element) : Prop where
  valued : e.IsValued
  trimmed : IsTrimmed value
  content : ∃ raw, e.children = [.text raw] ∧ Spells value.toList raw

namespace IsText

variable {value : String} {e : Element}

theorem items_eq (h : IsText value e) : e.items = [.text (some value)] := by
  obtain ⟨raw, hchildren, hspells⟩ := h.content
  rw [Element.items, hchildren, items_of_spells hspells h.trimmed]

theorem isFilled (h : IsText value e) : e.IsFilled := by
  refine ⟨h.valued, fun first rest heq => ?_⟩
  rw [h.items_eq] at heq
  cases heq

theorem reads_text? (h : IsText value e) : Reads (liftM e.text?) value := by
  apply reads_lift
  rw [Element.text?, h.items_eq]

end IsText

theorem Children.isFilled {α : Type} {passed : Element → Prop} {value : α → Element → Prop}
    {fields : List (String × α)} {e : Element} (h : Children passed value fields e.children)
    (hvalued : e.IsValued) (hpassed : ∀ e, passed e → e.IsTagged)
    (hvalue : ∀ a e, value a e → e.IsTagged) : e.IsFilled := by
  refine ⟨hvalued, fun first rest hitems => h.isTagged hpassed hvalue first ?_⟩
  rw [Element.items, h.items_eq] at hitems
  rw [hitems]
  exact List.mem_cons_self

theorem reads_isNil {owner field : Element} (howner : owner.IsValued) (hfield : field.IsFilled) :
    Reads (Reading.isNil owner field) false := by
  intro scopes
  have hview : ∃ inView after, (Reading.inView field).run scopes = some (inView, after) := by
    unfold Reading.inView
    split
    · rename_i first rest heq
      obtain ⟨scope, hscope⟩ := (hfield.first first rest heq).exists_scope?
      rw [hscope]
      exact ⟨_, _, rfl⟩
    · exact ⟨_, _, rfl⟩
  obtain ⟨inView, after, hview⟩ := hview
  refine ⟨after, ?_⟩
  rw [Reading.isNil, StateT.run_bind, hview]
  change some (owner.isNil inView || field.isNil inView, after) = _
  rw [howner.isNil_eq_false, hfield.valued.isNil_eq_false, Bool.or_false]

section

variable {α : Type} {value : α → Element → Prop} {names : List String}

/-- Fields are read in the order of the document. Each element takes a step: a field is entered and
read, and any other element is entered and passed over. -/
theorem reads_fieldsOfItems {owner : Element} {read : String → Element → Reading α}
    {fields : List (String × α)} {nodes : List Node}
    (h : Children (IsUnknown names) value fields nodes) (howner : owner.IsValued)
    (hread : ∀ p ∈ fields, ∀ e, e.name = p.1 → value p.2 e →
      p.1 ∈ names ∧ localName p.1 = p.1 ∧ e.IsFilled ∧ Reads (read p.1 e) p.2)
    (hdistinct : (fields.map Prod.fst).Nodup) {seen : List (String × Option α)}
    (hseen : ∀ p ∈ fields, seen.lookup p.1 = none) :
    Reads (fieldsOfItems owner names read seen (elementItems nodes))
      (seen ++ fields.map fun (name, a) => (name, some a)) := by
  induction h generalizing seen with
  | nil =>
    rw [List.map_nil, List.append_nil]
    exact reads_pure seen
  | space _ _ ih => exact ih hread hdistinct hseen
  | passed hpassed _ ih =>
    refine (reads_enter hpassed.tag).bind ?_
    simp only [List.contains_iff_mem, hpassed.name, if_false]
    exact (reads_passOver hpassed.content).bind (ih hread hdistinct hseen)
  | @field name tagRest children nodes a fields ha _ ih =>
    obtain ⟨hfirst, hreadRest⟩ := List.forall_mem_cons.1 hread
    obtain ⟨hmem, hlocal, hfilled, hvalue⟩ := hfirst _ rfl ha
    obtain ⟨hnew, hseenRest⟩ := List.forall_mem_cons.1 hseen
    rw [List.map_cons, List.nodup_cons] at hdistinct
    have hseenNext : ∀ p ∈ fields, (seen ++ [(name, some a)]).lookup p.1 = none := by
      intro p hp
      have hne : p.1 ≠ name :=
        ne_of_mem_of_not_mem (List.mem_map_of_mem hp) hdistinct.1
      rw [List.lookup_append, hseenRest p hp, Option.none_or, List.lookup_cons,
        beq_eq_false_iff_ne.2 hne]
      rfl
    have hsplit : seen ++ ((name, a) :: fields).map (fun (name, a) => (name, some a)) =
        seen ++ [(name, some a)] ++ fields.map fun (name, a) => (name, some a) := by simp
    rw [hsplit]
    refine (reads_enter hfilled.valued.isTagged).bind ?_
    simp only [hlocal, List.contains_iff_mem, hmem, if_true, hnew, Option.isSome_none,
      Bool.false_eq_true, if_false]
    refine (reads_isNil howner hfilled).bind ?_
    simp only [Bool.false_eq_true, if_false]
    exact hvalue.bind (reads_leave.bind (ih hreadRest hdistinct.2 hseenNext))

/-- Names of fields: they differ, and none of them has a qualifier. -/
structure AreFieldNames (names : List String) : Prop where
  distinct : names.Nodup
  unprefixed : ∀ name ∈ names, ':' ∉ name.toList

theorem localName_eq_self {name : String} (h : ':' ∉ name.toList) : localName name = name := by
  rw [localName, List.dropWhile_eq_nil_iff.2 (forall_ne_of_not_mem h)]

/-- The fields that are there. -/
def present (fields : List (String × Option α)) : List (String × α) :=
  fields.filterMap fun (name, a) => a.map (name, ·)

/-- An element that holds fields, in any order and among others that are unknown. -/
structure IsRecord (value : α → Element → Prop) (fields : List (String × Option α)) (e : Element) :
    Prop where
  valued : e.IsValued
  children : ∃ order, order.Perm (present fields) ∧
    Children (IsUnknown (fields.map Prod.fst)) value order e.children

theorem keys_present_sublist (fields : List (String × Option α)) :
    ((present fields).map Prod.fst).Sublist (fields.map Prod.fst) := by
  induction fields with
  | nil => exact .slnil
  | cons p rest ih =>
    obtain ⟨name, a⟩ := p
    cases a with
    | none => exact ih.cons name
    | some a => exact ih.cons_cons name

theorem mem_present {fields : List (String × Option α)} {p : String × α} :
    p ∈ present fields ↔ (p.1, some p.2) ∈ fields := by
  rw [present, List.mem_filterMap]
  constructor
  · rintro ⟨⟨name, a⟩, hmem, heq⟩
    obtain ⟨b, rfl, rfl⟩ := Option.map_eq_some_iff.1 heq
    exact hmem
  · exact fun hmem => ⟨_, hmem, rfl⟩

theorem fieldValue_map (fields : List (String × α)) (name : String) :
    fieldValue (fields.map fun (name, a) => (name, some a)) name = fields.lookup name := by
  rw [fieldValue]
  induction fields with
  | nil => rfl
  | cons p rest ih =>
    rw [List.map_cons, List.lookup_cons, List.lookup_cons]
    cases name == p.1 with
    | true => rfl
    | false => exact ih

/-- The order of the fields in the document does not matter. -/
theorem lookup_eq_of_perm {fields : List (String × Option α)} {order : List (String × α)}
    (horder : order.Perm (present fields)) (hdistinct : (fields.map Prod.fst).Nodup)
    (name : String) : order.lookup name = (fields.lookup name).join := by
  have hpresent := hdistinct.sublist (keys_present_sublist fields)
  have hkeys : (order.map Prod.fst).Nodup := (horder.map Prod.fst).nodup_iff.2 hpresent
  ext a
  rw [NameMap.lookup_eq_some_iff hkeys, horder.mem_iff, mem_present, Option.join_eq_some_iff,
    NameMap.lookup_eq_some_iff hdistinct]

namespace IsRecord

variable {fields : List (String × Option α)} {e : Element}

theorem isFilled (h : IsRecord value fields e) (hvalue : ∀ a e, value a e → e.IsTagged) :
    e.IsFilled := by
  obtain ⟨hvalued, order, -, hchildren⟩ := h
  exact hchildren.isFilled hvalued (fun _ hunknown => hunknown.tag) hvalue

/-- The fields of a record are read back, whatever their order is and what else stands among
them. -/
theorem reads_fields (h : IsRecord value fields e) {read : String → Element → Reading α}
    (hnames : AreFieldNames (fields.map Prod.fst))
    (hread : ∀ name a e, (name, some a) ∈ fields → e.name = name → value a e →
      e.IsFilled ∧ Reads (read name e) a) :
    ∃ found, Reads (e.fields (fields.map Prod.fst) read) found ∧
      ∀ name, fieldValue found name = (fields.lookup name).join := by
  obtain ⟨hvalued, order, horder, hchildren⟩ := h
  refine ⟨order.map fun (name, a) => (name, some a), ?_, fun name => ?_⟩
  · rw [Element.fields, if_pos hvalued.isTagged.hasAttributes, Element.items,
      hchildren.items_eq]
    refine reads_fieldsOfItems hchildren hvalued ?_ ?_ fun _ _ => rfl
    · intro p hp e hname hvalue
      have hmem := mem_present.1 (horder.mem_iff.1 hp)
      have hkey := List.mem_map_of_mem (f := Prod.fst) hmem
      exact ⟨hkey, localName_eq_self (hnames.unprefixed _ hkey), hread _ _ _ hmem hname hvalue⟩
    · have hkeys := hnames.distinct.sublist (keys_present_sublist fields)
      exact (horder.map Prod.fst).nodup_iff.2 hkeys
  · rw [fieldValue_map, lookup_eq_of_perm horder hnames.distinct]

end IsRecord

end

end ArtifactGraph.Xml
