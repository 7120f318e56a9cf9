import Squishc.Proofs.ListingOrder
import Squishc.Proofs.NumberText
import Squishc.Proofs.QuotedText

/-!
# The text of a listing

The lines of a listing can be told apart again, and so can the parts of a line: the
kind ends at the first blank, and of the fields only quoted texts hold blanks, which end
at their closing quote.  What belongs in a field decides how it is read, so the schema
of a kind tells how its lines are to be read.

Main results:

- Theorem `lines_injective`: a text tells its lines.
- Theorem `line_injective`: a line tells the kind and the views of its fields.
- Theorem `Atom.text_injective`: the text of an atom tells the atom.
- Theorem `bracketed_injective`: the text of a list tells the views of its items.
-/

namespace Squishc

theorem Ty.toList_name_array (t : Ty) :
    (Ty.array t).name.toList = '[' :: (t.name.toList ++ [']']) := by
  simp [Ty.name]

/-- The name of a type tells the type. -/
theorem Ty.name_injective : ∀ {s t : Ty}, s.name = t.name → s = t
  | .array s, .array t, h => by
    replace h := congrArg String.toList h
    rw [toList_name_array, toList_name_array, List.cons.injEq, List.append_left_inj,
      String.toList_inj] at h
    exact congrArg Ty.array (name_injective h.2)
  | .array s, .boolean, h | .array s, .int, h | .array s, .float, h | .array s, .string, h
  | .array s, .void, h | .array s, .any, h => by
    replace h := congrArg String.toList h
    rw [toList_name_array] at h
    exact absurd (List.cons.inj h).1 (by decide)
  | .boolean, t, h | .int, t, h | .float, t, h | .string, t, h | .void, t, h | .any, t, h => by
    cases t with
    | array t =>
      replace h := congrArg String.toList h
      rw [toList_name_array] at h
      exact absurd (List.cons.inj h).1 (by decide)
    | _ =>
      revert h
      decide

namespace Listing

/-! ## What belongs in a place -/

/-- Whether an item of a list may stand in a place. -/
def Slot.takesItems : Slot → Bool
  | .item | .part => true
  | .word | .type => false

/-- Whether an atom belongs in a place. -/
def Atom.fits : Atom → Slot → Bool
  | .word _, slot => slot = .word
  | .type _, slot => slot = .type
  | .nothing, slot | .unknown, slot | .truth _, slot | .number _, slot => slot.takesItems

/-- Whether there are objects of a kind. -/
def isKind (kind : String) : Bool := (schemas.lookup kind).isSome

/-- Whether there are nodes of a kind, and not entities. -/
def isNodeKind (kind : String) : Bool :=
  isKind kind && (kind ≠ "Variable" && kind ≠ "Function")

theorem mem_schemas {kind : String} (h : isKind kind = true) : (kind, schema kind) ∈ schemas := by
  obtain ⟨fields, hfields⟩ := Option.isSome_iff_exists.mp h
  obtain ⟨before, after, hsplit, -⟩ := List.lookup_eq_some_iff.mp hfields
  rw [schema, hfields, Option.getD_some, hsplit]
  exact List.mem_append_right _ (List.mem_cons_self ..)

/-- Kinds have no blank in their words, and kinds and fields stand on one line. -/
theorem schemas_readable : ∀ entry ∈ schemas,
    (' ' ∉ entry.1.toList ∧ '\n' ∉ entry.1.toList) ∧ ∀ f ∈ entry.2, '\n' ∉ f.1.toList := by
  decide +kernel

/-- What belongs in the fields of a kind. -/
def slots (kind : String) : List Slot := (schema kind).map Prod.snd

mutual

/-- Whether content belongs in a place. -/
def Content.fits : Content → Slot → Bool
  | .atom a, slot => a.fits slot
  | .entity _, slot => slot.takesItems
  | .list items, slot => slot = .part && Content.fitAll items (List.replicate items.length .item)
  | .node kind fields, slot =>
    slot.takesItems && (isNodeKind kind && Content.fitAll fields (slots kind))

/-- Whether contents belong in some places. -/
def Content.fitAll : List Content → List Slot → Bool
  | [], [] => true
  | c :: cs, slot :: rest => c.fits slot && Content.fitAll cs rest
  | [], _ :: _ | _ :: _, [] => false

end

/-! ## How content is shown -/

/-- A text without some characters. -/
def Free (bad : List Char) (v : String) : Prop := ∀ c ∈ v.toList, c ∉ bad

/-- How content that belongs in a place is shown there. -/
def Shown : Slot → String → Prop
  | .word, v => ∃ s, v = Text.quoted s
  | .type, v | .part, v => Free [' ', '\n'] v
  | .item, v => v.toList ≠ [] ∧ Free [' ', '\n', ','] v

theorem Shown.newline_not_mem {slot : Slot} {v : String} (h : Shown slot v) : '\n' ∉ v.toList := by
  cases slot with
  | word =>
    obtain ⟨s, rfl⟩ := h
    exact Text.newline_not_mem_quoted s
  | type => exact fun hmem => h _ hmem (by decide)
  | part => exact fun hmem => h _ hmem (by decide)
  | item => exact fun hmem => h.2 _ hmem (by decide)

/-- An item of a list may also stand alone. -/
theorem Shown.of_item {slot : Slot} {v : String} (h : Shown .item v)
    (hslot : slot.takesItems = true) :
    Shown slot v := by
  cases slot with
  | word => cases hslot
  | type => cases hslot
  | item => exact h
  | part => exact fun c hc hbad => h.2 c hc (List.mem_append_left [','] hbad)

theorem toList_reference (n : Nat) : (reference n).toList = '#' :: Nat.toDigits 10 n := by
  rw [reference, String.toList_append, show toString n = n.repr from rfl, Nat.toList_repr]
  rfl

theorem reference_injective {m n : Nat} (h : reference m = reference n) : m = n := by
  replace h := congrArg String.toList h
  rw [toList_reference, toList_reference, List.cons.injEq] at h
  rw [← Nat.ofDigitChars_ten_toDigits (n := m), h.2, Nat.ofDigitChars_ten_toDigits]

theorem shown_reference (n : Nat) : Shown .item (reference n) := by
  rw [Shown, Free, toList_reference]
  refine ⟨by simp, ?_⟩
  rw [List.forall_mem_cons]
  refine ⟨by decide, fun c hc hbad => ?_⟩
  have hdigit := Nat.isDigit_of_mem_toDigits (by norm_num) (by norm_num) hc
  simp only [List.mem_cons, List.not_mem_nil, or_false] at hbad
  rcases hbad with rfl | rfl | rfl <;> exact absurd hdigit (by decide)

theorem free_name (t : Ty) : Free [' ', '\n'] t.name := by
  induction t with
  | array t ih =>
    rw [Free, Ty.toList_name_array]
    simp only [List.forall_mem_cons, List.forall_mem_append]
    exact ⟨by decide, ih, by decide, by simp⟩
  | _ => exact Num.forall_mem_of_all rfl

theorem Atom.shown_text {a : Atom} {slot : Slot} (h : a.fits slot = true) : Shown slot a.text := by
  cases a with
  | word s =>
    simp only [Atom.fits, decide_eq_true_eq] at h
    subst h
    exact ⟨s, rfl⟩
  | type t =>
    simp only [Atom.fits, decide_eq_true_eq] at h
    subst h
    exact free_name t
  | nothing => exact Shown.of_item ⟨by decide, Num.forall_mem_of_all rfl⟩ h
  | unknown => exact Shown.of_item ⟨by decide, Num.forall_mem_of_all rfl⟩ h
  | truth b =>
    cases b with
    | true => exact Shown.of_item ⟨by decide, Num.forall_mem_of_all rfl⟩ h
    | false => exact Shown.of_item ⟨by decide, Num.forall_mem_of_all rfl⟩ h
  | number n =>
    refine Shown.of_item ⟨n.text_ne_nil, fun c hc hbad => ?_⟩ h
    simp only [List.mem_cons, List.not_mem_nil, or_false] at hbad
    have hchars := Num.mem_text hc
    rcases hbad with rfl | rfl | rfl <;> exact absurd hchars (by decide)

theorem toList_bracketed (views : List String) :
    (bracketed views).toList =
      '[' :: (List.intercalate [','] (views.map String.toList) ++ [']']) := by
  simp [bracketed, String.toList_intercalate]

/-- Texts without a separator can be told from what they are joined to. -/
theorem intercalate_injective {sep : Char} {as bs : List String} (has : ∀ v ∈ as, sep ∉ v.toList)
    (hbs : ∀ v ∈ bs, sep ∉ v.toList) (hne : as ≠ []) (hne' : bs ≠ [])
    (h : List.intercalate [sep] (as.map String.toList) =
      List.intercalate [sep] (bs.map String.toList)) : as = bs := by
  have hsplit : ∀ {cs : List String}, (∀ v ∈ cs, sep ∉ v.toList) → cs ≠ [] →
      (List.intercalate [sep] (cs.map String.toList)).splitOn sep = cs.map String.toList :=
    fun {cs} hcs hne => List.splitOn_intercalate sep (by simpa using hcs) (by simpa using hne)
  have hlists := congrArg (List.splitOn sep) h
  rw [hsplit has hne, hsplit hbs hne'] at hlists
  exact List.map_injective_iff.mpr (fun _ _ => String.toList_injective) hlists

/-- Joining items gives nothing only if there are none. -/
theorem intercalate_ne_nil {views : List String} (h : ∀ v ∈ views, v.toList ≠ [])
    (hne : views ≠ []) :
    List.intercalate [','] (views.map String.toList) ≠ [] := by
  match views, hne with
  | v :: rest, _ =>
    have hv := h v (List.mem_cons_self ..)
    cases rest with
    | nil => simpa using hv
    | cons w rest => simp [List.intercalate_cons_cons]

/-- The text of a list tells how its items are shown. -/
theorem bracketed_injective {as bs : List String} (has : ∀ v ∈ as, Shown .item v)
    (hbs : ∀ v ∈ bs, Shown .item v) (h : bracketed as = bracketed bs) : as = bs := by
  have hcomma : ∀ {cs : List String}, (∀ v ∈ cs, Shown .item v) → ∀ v ∈ cs, ',' ∉ v.toList :=
    fun hcs v hv hmem => (hcs v hv).2 _ hmem (by decide)
  replace h := congrArg String.toList h
  rw [toList_bracketed, toList_bracketed, List.cons.injEq, List.append_left_inj] at h
  have hjoined := h.2
  by_cases hne : as = []
  · subst hne
    by_contra hne'
    exact intercalate_ne_nil (fun v hv => (hbs v hv).1) (Ne.symm hne') hjoined.symm
  · by_cases hne' : bs = []
    · subst hne'
      exact absurd hjoined (intercalate_ne_nil (fun v hv => (has v hv).1) hne)
    · exact intercalate_injective (hcomma has) (hcomma hbs) hne hne' hjoined

theorem mem_intercalate {sep c : Char} {ls : List (List Char)}
    (h : c ∈ List.intercalate [sep] ls) : c = sep ∨ ∃ l ∈ ls, c ∈ l := by
  induction ls with
  | nil => simp at h
  | cons l rest ih =>
    cases rest with
    | nil => exact .inr ⟨l, List.mem_singleton_self l, by simpa using h⟩
    | cons l' rest =>
      rw [List.intercalate_cons_cons] at h
      simp only [List.append_assoc, List.mem_append, List.mem_singleton] at h
      rcases h with h | h | h
      · exact .inr ⟨l, List.mem_cons_self .., h⟩
      · exact .inl h
      · rcases ih h with hsep | ⟨k, hk, hc⟩
        · exact .inl hsep
        · exact .inr ⟨k, List.mem_cons_of_mem _ hk, hc⟩

theorem shown_bracketed {views : List String} (h : ∀ v ∈ views, Shown .item v) :
    Shown .part (bracketed views) := by
  rw [Shown, Free, toList_bracketed]
  simp only [List.forall_mem_cons, List.forall_mem_append]
  refine ⟨by decide, fun c hc hbad => ?_, by decide, by simp⟩
  rcases mem_intercalate hc with rfl | ⟨l, hl, hc⟩
  · exact absurd hbad (by decide)
  · obtain ⟨v, hv, rfl⟩ := List.mem_map.mp hl
    exact (h v hv).2 c hc (List.mem_append_left [','] hbad)

theorem shown_item_of_forall₂ : ∀ {n : Nat} {views : List String},
    List.Forall₂ Shown (List.replicate n .item) views → ∀ v ∈ views, Shown .item v
  | 0, [], _ => by simp
  | _ + 1, _ :: _, .cons hv hrest => List.forall_mem_cons.mpr ⟨hv, shown_item_of_forall₂ hrest⟩

mutual

theorem shown_view (tag : Key → Nat) : ∀ {c : Content} {slot : Slot} (path : List Nat),
    c.fits slot = true → Shown slot (c.view tag path)
  | .atom _, _, _, h => Atom.shown_text h
  | .entity e, _, _, h => (shown_reference (tag (.entity e))).of_item h
  | .list items, slot, path, h => by
    simp only [Content.fits, Bool.and_eq_true, decide_eq_true_eq] at h
    obtain ⟨rfl, hitems⟩ := h
    exact shown_bracketed (shown_item_of_forall₂ (shown_views tag path 0 hitems))
  | .node _ _, _, path, h => by
    simp only [Content.fits, Bool.and_eq_true] at h
    exact (shown_reference (tag (.place path))).of_item h.1

theorem shown_views (tag : Key → Nat) : ∀ {cs : List Content} {slots : List Slot} (path : List Nat)
    (i : Nat), Content.fitAll cs slots = true →
    List.Forall₂ Shown slots (Content.views tag path i cs)
  | [], [], _, _, _ => .nil
  | _ :: _, _ :: _, path, i, h => by
    simp only [Content.fitAll, Bool.and_eq_true] at h
    exact .cons (shown_view tag (path ++ [i]) h.1) (shown_views tag path (i + 1) h.2)

end

/-! ## Lines -/

/-- What can stand behind a word of a line: nothing, or a blank and more. -/
def Behind (rest : List Char) : Prop := ∀ c ∈ rest.head?, c = ' '

theorem span_blank {word rest : List Char} (hword : ' ' ∉ word) (hrest : Behind rest) :
    (word ++ rest).takeWhile (· ≠ ' ') = word ∧ (word ++ rest).dropWhile (· ≠ ' ') = rest := by
  have hall : ∀ c ∈ word, decide (c ≠ ' ') = true := fun c hc =>
    decide_eq_true fun h => hword (h ▸ hc)
  rw [List.takeWhile_append_of_pos hall, List.dropWhile_append_of_pos hall]
  cases rest with
  | nil => simp
  | cons c rest => simp [hrest c rfl]

/-- A word without blanks ends where the next blank is. -/
theorem append_inj_of_blank {a b rest rest' : List Char} (ha : ' ' ∉ a) (hb : ' ' ∉ b)
    (hrest : Behind rest) (hrest' : Behind rest') (h : a ++ rest = b ++ rest') :
    a = b ∧ rest = rest' := by
  have hleft := span_blank ha hrest
  have hright := span_blank hb hrest'
  rw [h] at hleft
  exact ⟨hleft.1.symm.trans hright.1, hleft.2.symm.trans hright.2⟩

/-- Where the view of a field ends can be told from what belongs in it. -/
theorem Shown.append_inj {slot : Slot} {v w : String} {rest rest' : List Char} (hv : Shown slot v)
    (hw : Shown slot w) (hrest : Behind rest) (hrest' : Behind rest')
    (h : v.toList ++ rest = w.toList ++ rest') : v = w ∧ rest = rest' := by
  have hplain : ' ' ∉ v.toList → ' ' ∉ w.toList → v = w ∧ rest = rest' := fun hv hw =>
    (append_inj_of_blank hv hw hrest hrest' h).imp_left String.toList_injective
  cases slot with
  | word =>
    obtain ⟨a, rfl⟩ := hv
    obtain ⟨b, rfl⟩ := hw
    obtain ⟨rfl, hrest⟩ := Text.quoted_append_inj h
    exact ⟨rfl, hrest⟩
  | type =>
    exact hplain (fun hmem => hv _ hmem (by decide)) (fun hmem => hw _ hmem (by decide))
  | part =>
    exact hplain (fun hmem => hv _ hmem (by decide)) (fun hmem => hw _ hmem (by decide))
  | item =>
    exact hplain (fun hmem => hv.2 _ hmem (by decide)) (fun hmem => hw.2 _ hmem (by decide))

/-- The characters of the fields of a line. -/
def fieldsText (fields : List (String × String)) : List Char :=
  fields.flatMap (fun f => ' ' :: (f.1.toList ++ '=' :: f.2.toList))

theorem toList_line (number : Nat) (kind : String) (fields : List (String × String)) :
    (line number kind fields).toList =
      ((padLeft 4 (toString number)).toList ++ " | ".toList) ++
        (kind.toList ++ fieldsText fields) := by
  simp [line, String.toList_join, fieldsText, List.flatMap_map]

theorem behind_fieldsText (fields : List (String × String)) : Behind (fieldsText fields) := by
  cases fields <;> simp [fieldsText, Behind]

theorem fieldsText_injective : ∀ {fields : List (String × Slot)} {vs ws : List String},
    List.Forall₂ Shown (fields.map Prod.snd) vs → List.Forall₂ Shown (fields.map Prod.snd) ws →
    fieldsText ((fields.map Prod.fst).zip vs) = fieldsText ((fields.map Prod.fst).zip ws) → vs = ws
  | [], _, _, .nil, .nil, _ => rfl
  | f :: fields, v :: vs, w :: ws, .cons hv hvs, .cons hw hws, h => by
    simp only [fieldsText, List.map_cons, List.zip_cons_cons, List.flatMap_cons, List.cons_append,
      List.append_assoc, List.cons.injEq, List.append_cancel_left_eq, true_and] at h
    obtain ⟨rfl, hrest⟩ := hv.append_inj hw (behind_fieldsText _) (behind_fieldsText _) h
    rw [fieldsText_injective hvs hws hrest]

/-- A line tells its kind and how its fields are shown. -/
theorem line_injective {number : Nat} {kind kind' : String} {vs ws : List String}
    (hkind : isKind kind = true) (hkind' : isKind kind' = true)
    (hvs : List.Forall₂ Shown (slots kind) vs) (hws : List.Forall₂ Shown (slots kind') ws)
    (h : line number kind ((fieldNames kind).zip vs) =
      line number kind' ((fieldNames kind').zip ws)) :
    kind = kind' ∧ vs = ws := by
  replace h := congrArg String.toList h
  rw [toList_line, toList_line, List.append_cancel_left_eq] at h
  obtain ⟨hkinds, hfields⟩ := append_inj_of_blank
    (schemas_readable _ (mem_schemas hkind)).1.1 (schemas_readable _ (mem_schemas hkind')).1.1
    (behind_fieldsText _) (behind_fieldsText _) h
  obtain rfl := String.toList_injective hkinds
  exact ⟨rfl, fieldsText_injective hvs hws hfields⟩

/-! ## Atoms -/

theorem text_number_ne {n : Num} {word : String} {c : Char} (hc : c ∈ word.toList)
    (hno : ¬ (Number.isNumeral c = true ∨ c ∈ ['i', 'n', 'f', 'a'])) : n.text ≠ word :=
  fun h => hno (Num.mem_text (h ▸ hc))

/-- The atoms that may stand among items: numbers and four words. -/
theorem Atom.eq_of_takesItems {a : Atom} {slot : Slot} (hslot : slot.takesItems = true)
    (ha : a.fits slot = true) :
    (∃ n, a = .number n) ∨ a = .nothing ∨ a = .unknown ∨ a = .truth false ∨ a = .truth true := by
  cases a with
  | number n => exact .inl ⟨n, rfl⟩
  | truth b => cases b <;> simp
  | word s =>
    simp only [Atom.fits, decide_eq_true_eq] at ha
    exact absurd hslot (by rw [ha]; decide)
  | type t =>
    simp only [Atom.fits, decide_eq_true_eq] at ha
    exact absurd hslot (by rw [ha]; decide)
  | _ => simp

/-- No number has the text of another atom that may stand among items. -/
theorem Atom.eq_number {n : Num} {b : Atom} {slot : Slot} (hslot : slot.takesItems = true)
    (hb : b.fits slot = true) (h : n.text = b.text) : b = .number n := by
  rcases Atom.eq_of_takesItems hslot hb with ⟨k, rfl⟩ | rfl | rfl | rfl | rfl
  · exact congrArg Atom.number (Num.text_injective h).symm
  · exact absurd h (text_number_ne (c := 'N') (by decide) (by decide))
  · exact absurd h (text_number_ne (c := 'O') (by decide) (by decide))
  · exact absurd h (text_number_ne (c := 'l') (by decide) (by decide))
  · exact absurd h (text_number_ne (c := 't') (by decide) (by decide))

theorem Atom.text_injective_of_takesItems {a b : Atom} {slot : Slot}
    (hslot : slot.takesItems = true) (ha : a.fits slot = true) (hb : b.fits slot = true)
    (h : a.text = b.text) : a = b := by
  rcases Atom.eq_of_takesItems hslot ha with ⟨n, rfl⟩ | hword
  · exact (Atom.eq_number hslot hb h).symm
  · rcases Atom.eq_of_takesItems hslot hb with ⟨n, rfl⟩ | hword'
    · exact Atom.eq_number hslot ha h.symm
    · rcases hword with rfl | rfl | rfl | rfl <;> rcases hword' with rfl | rfl | rfl | rfl <;>
        first | rfl | exact absurd h (by decide)

/-- The text of an atom tells the atom, if it is known what belongs in its place. -/
theorem Atom.text_injective {a b : Atom} {slot : Slot} (ha : a.fits slot = true)
    (hb : b.fits slot = true) (h : a.text = b.text) : a = b := by
  cases slot with
  | item => exact Atom.text_injective_of_takesItems rfl ha hb h
  | part => exact Atom.text_injective_of_takesItems rfl ha hb h
  | word =>
    cases a with
    | word s =>
      cases b with
      | word t => exact congrArg Atom.word (Text.quoted_injective h)
      | _ => cases hb
    | _ => cases ha
  | type =>
    cases a with
    | type s =>
      cases b with
      | type t => exact congrArg Atom.type (Ty.name_injective h)
      | _ => cases hb
    | _ => cases ha

/-- The atoms that may stand among items look neither like references nor like lists. -/
theorem Atom.mark_not_mem_text {a : Atom} {slot : Slot} (hslot : slot.takesItems = true)
    (ha : a.fits slot = true) : '#' ∉ a.text.toList ∧ '[' ∉ a.text.toList := by
  rcases Atom.eq_of_takesItems hslot ha with ⟨n, rfl⟩ | rfl | rfl | rfl | rfl
  · exact ⟨fun h => absurd (Num.mem_text h) (by decide),
      fun h => absurd (Num.mem_text h) (by decide)⟩
  all_goals decide

/-! ## Whole texts -/

theorem newline_not_mem_padLeft (width number : Nat) :
    '\n' ∉ (padLeft width (toString number)).toList := by
  rw [padLeft, String.toList_append, String.toList_ofList,
    show toString number = number.repr from rfl, Nat.toList_repr, List.mem_append]
  rintro (h | h)
  · exact absurd (List.eq_of_mem_replicate h) (by decide)
  · exact absurd (Nat.isDigit_of_mem_toDigits (by norm_num) (by norm_num) h) (by decide)

theorem newline_not_mem_views {slots : List Slot} {vs : List String}
    (h : List.Forall₂ Shown slots vs) : ∀ v ∈ vs, '\n' ∉ v.toList := by
  induction h with
  | nil => simp
  | cons hv _ ih => exact List.forall_mem_cons.mpr ⟨hv.newline_not_mem, ih⟩

theorem newline_not_mem_line {kind : String} {vs : List String} (number : Nat)
    (hkind : isKind kind = true) (hvs : List.Forall₂ Shown (slots kind) vs) :
    '\n' ∉ (line number kind ((fieldNames kind).zip vs)).toList := by
  obtain ⟨hword, hnames⟩ := schemas_readable _ (mem_schemas hkind)
  rw [toList_line]
  simp only [List.mem_append, not_or]
  refine ⟨⟨newline_not_mem_padLeft 4 number, by decide⟩, hword.2, ?_⟩
  rw [fieldsText, List.mem_flatMap]
  rintro ⟨⟨name, v⟩, hf, hmem⟩
  obtain ⟨hname, hv⟩ := List.of_mem_zip hf
  obtain ⟨f, hschema, rfl⟩ := List.mem_map.mp hname
  simp only [List.mem_cons, List.mem_append, Char.reduceEq, false_or] at hmem
  exact hmem.elim (hnames f hschema) (newline_not_mem_views hvs v hv)

/-- A text tells its lines. -/
theorem lines_injective {as bs : List String} (has : ∀ l ∈ as, '\n' ∉ l.toList)
    (hbs : ∀ l ∈ bs, '\n' ∉ l.toList) (hne : as ≠ []) (hne' : bs ≠ [])
    (h : "\n".intercalate as = "\n".intercalate bs) : as = bs := by
  replace h := congrArg String.toList h
  rw [String.toList_intercalate, String.toList_intercalate] at h
  exact intercalate_injective has hbs hne hne' h

end Listing

end Squishc
