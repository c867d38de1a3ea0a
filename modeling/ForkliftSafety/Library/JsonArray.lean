import ForkliftSafety.Library.Json

/-! JSON arrays put together from the texts of their elements, and texts that cannot be read because
one of their parts cannot. -/
namespace Json

/-- An element with what its text should be read as. -/
structure Item where
  text : List Char
  value : Value

/-- A text that does not begin with white space or with the end of an array. -/
def Begins (text : List Char) : Prop := ∃ d s, text = d :: s ∧ isWs d = false ∧ d ≠ ']'

/-- The element is read whatever follows it. -/
structure Item.ReadsIn (i : Item) (pv : List Char → Option (Value × List Char)) : Prop where
  begins : Begins i.text
  text : ∀ rest, pv (i.text ++ rest) = some (i.value, rest)

def arrayText (items : List Item) : List Char :=
  '[' :: ([','].intercalate (items.map Item.text) ++ [']'])

/-- Elements with a comma behind each, before the rest of an array. -/
def leadingItems (items : List Item) (more : List Char) : List Char :=
  items.foldr (fun i rest => i.text ++ ',' :: rest) more

theorem leadingItems_cons (i : Item) (items : List Item) (more : List Char) :
    leadingItems (i :: items) more = i.text ++ ',' :: leadingItems items more := rfl

theorem length_leadingItems (items : List Item) (more : List Char) :
    items.length + more.length ≤ (leadingItems items more).length := by
  induction items with
  | nil => simp [leadingItems]
  | cons i items ih =>
    rw [leadingItems_cons, List.length_append, List.length_cons, List.length_cons]
    omega

theorem begins_append {text : List Char} (h : Begins text) (rest : List Char) :
    Begins (text ++ rest) := by
  obtain ⟨d, s, rfl, hd⟩ := h
  exact ⟨d, s ++ rest, rfl, hd⟩

theorem begins_leadingItems {items : List Item} (hitems : ∀ i ∈ items, Begins i.text)
    {more : List Char} (hmore : Begins more) : Begins (leadingItems items more) := by
  cases items with
  | nil => exact hmore
  | cons i items =>
    rw [leadingItems_cons]
    exact begins_append (hitems i List.mem_cons_self) _

/-- The elements up to one of them, and the one behind them. -/
theorem intercalate_split (items post : List Item) (i : Item) (rest : List Char) :
    ∃ more, [','].intercalate ((items ++ i :: post).map Item.text) ++ rest =
      leadingItems items (i.text ++ more) ∧ (post = [] → more = rest) := by
  induction items with
  | nil =>
    cases post with
    | nil => exact ⟨rest, by simp [leadingItems], fun _ => rfl⟩
    | cons j post =>
      refine ⟨',' :: ([','].intercalate ((j :: post).map Item.text) ++ rest), ?_, by simp⟩
      simp [leadingItems]
  | cons j items ih =>
    obtain ⟨more, hmore, hlast⟩ := ih
    refine ⟨more, ?_, hlast⟩
    obtain ⟨k, ks, hks⟩ : ∃ k ks, items ++ i :: post = k :: ks := by cases items <;> simp
    rw [hks] at hmore
    rw [leadingItems_cons, ← hmore, List.cons_append, hks]
    simp

section Elements
variable {pv : List Char → Option (Value × List Char)}

theorem elements_cons {i : Item} (hi : i.ReadsIn pv) (n : ℕ) (more : List Char) :
    elements pv (n + 1) (i.text ++ ',' :: more) =
      (elements pv n more).map fun r => (i.value :: r.1, r.2) := by
  rw [elements, hi.text, Option.bind_some]
  simp only [expect_self (show isWs ',' = false by decide)]

theorem elements_last {i : Item} (hi : i.ReadsIn pv) (n : ℕ) (rest : List Char) :
    elements pv (n + 1) (i.text ++ ']' :: rest) = some ([i.value], rest) := by
  rw [elements, hi.text, Option.bind_some]
  simp only [expect_ne (show isWs ']' = false by decide) (show ']' ≠ ',' by decide),
    expect_self (show isWs ']' = false by decide)]
  rfl

theorem elements_leading {items : List Item} (hitems : ∀ i ∈ items, i.ReadsIn pv) (n : ℕ)
    (more : List Char) :
    elements pv (items.length + n) (leadingItems items more) =
      (elements pv n more).map fun r => (items.map Item.value ++ r.1, r.2) := by
  induction items with
  | nil =>
    rw [List.length_nil, Nat.zero_add]
    cases h : elements pv n more <;> simp [leadingItems, h]
  | cons i items ih =>
    have hlen : (i :: items).length + n = (items.length + n) + 1 := by
      rw [List.length_cons]
      omega
    rw [hlen, leadingItems_cons, elements_cons (hitems i List.mem_cons_self),
      ih fun j hj => hitems j (List.mem_cons_of_mem i hj), Option.map_map]
    rfl

end Elements

theorem value_bracket {s : List Char} (hs : Begins s) (n : ℕ) :
    value (n + 1) ('[' :: s) =
      (elements (value n) s.length s).map fun r => (.array r.1, r.2) := by
  obtain ⟨d, s, rfl, hws, hd⟩ := hs
  rw [value, skipWs_cons (by decide)]
  simp only [show ¬ '[' = '{' by decide, ↓reduceIte, expect_ne hws hd]

/-- An array is read back from its elements. -/
theorem reads_array {n : ℕ} {items : List Item} (hitems : ∀ i ∈ items, i.ReadsIn (value n))
    (rest : List Char) :
    value (n + 1) (arrayText items ++ rest) = some (.array (items.map Item.value), rest) := by
  rcases items.eq_nil_or_concat with rfl | ⟨init, last, rfl⟩
  · rw [arrayText, value, List.cons_append, skipWs_cons (by decide)]
    simp [expect_self (show isWs ']' = false by decide)]
  · obtain ⟨more, hsplit, hmore⟩ := intercalate_split init [] last (']' :: rest)
    have hinit : ∀ i ∈ init, i.ReadsIn (value n) := fun i hi => hitems i (by simp [hi])
    have hlast : last.ReadsIn (value n) := hitems last (by simp)
    rw [hmore rfl] at hsplit
    have htext : arrayText (init ++ [last]) ++ rest =
        '[' :: leadingItems init (last.text ++ ']' :: rest) := by
      rw [arrayText, ← hsplit, List.cons_append, List.append_assoc]
      rfl
    have hbegins := begins_leadingItems (fun i hi => (hinit i hi).begins)
      (begins_append hlast.begins (']' :: rest))
    have hlength := length_leadingItems init (last.text ++ ']' :: rest)
    obtain ⟨k, hk⟩ : ∃ k, (leadingItems init (last.text ++ ']' :: rest)).length =
        init.length + (k + 1) := by
      refine ⟨(leadingItems init (last.text ++ ']' :: rest)).length - init.length - 1, ?_⟩
      rw [List.length_append, List.length_cons] at hlength
      omega
    rw [List.concat_eq_append, htext, value_bracket hbegins, hk, elements_leading hinit,
      elements_last hlast]
    simp

/-- No value is read at the front, whatever follows the text. -/
def Fails (pv : List Char → Option (Value × List Char)) (text : List Char) : Prop :=
  ∀ rest, pv (text ++ rest) = none

section Fails
variable {pv : List Char → Option (Value × List Char)}

theorem elements_fails {items : List Item} (hitems : ∀ i ∈ items, i.ReadsIn pv) {text : List Char}
    (h : Fails pv text) (n : ℕ) (more : List Char) :
    elements pv n (leadingItems items (text ++ more)) = none := by
  induction items generalizing n with
  | nil =>
    cases n with
    | zero => rfl
    | succ n =>
      change elements pv (n + 1) (text ++ more) = none
      rw [elements, h more, Option.bind_none]
  | cons i items ih =>
    cases n with
    | zero => rfl
    | succ n =>
      rw [leadingItems_cons, elements_cons (hitems i List.mem_cons_self),
        ih fun j hj => hitems j (List.mem_cons_of_mem i hj)]
      rfl

/-- An array fails with the first of its elements that does. -/
theorem array_fails {n : ℕ} {items post : List Item} {bad : Item}
    (hitems : ∀ i ∈ items, i.ReadsIn (value n)) (hbegins : Begins bad.text)
    (h : Fails (value n) bad.text) : Fails (value (n + 1)) (arrayText (items ++ bad :: post)) := by
  intro rest
  obtain ⟨more, hsplit, _⟩ := intercalate_split items post bad (']' :: rest)
  have htext : arrayText (items ++ bad :: post) ++ rest =
      '[' :: leadingItems items (bad.text ++ more) := by
    rw [arrayText, ← hsplit, List.cons_append, List.append_assoc]
    rfl
  have hbegins := begins_leadingItems (fun i hi => (hitems i hi).begins)
    (begins_append hbegins more)
  rw [htext, value_bracket hbegins, elements_fails hitems h]
  rfl

theorem members_fails {fs : List Field} (hfs : ∀ f ∈ fs, f.ReadsIn pv) {key text : List Char}
    (hkey : PlainText key) (h : pv text = none) (n : ℕ) :
    members pv n (leading fs (memberText key text)) = none := by
  induction fs generalizing n with
  | nil =>
    cases n with
    | zero => rfl
    | succ n =>
      change members pv (n + 1) (memberText key text) = none
      rw [members_key hkey, h, Option.bind_none]
  | cons f fs ih =>
    cases n with
    | zero => rfl
    | succ n =>
      have hf := hfs f List.mem_cons_self
      change members pv (n + 1) (memberText f.key f.text ++ ',' :: leading fs _) = none
      rw [members_cons hf.key hf.text, ih fun g hg => hfs g (List.mem_cons_of_mem f hg)]
      rfl

/-- An object fails with its last member. -/
theorem object_fails_last {n : ℕ} {fs : List Field} {last : Field}
    (hfs : ∀ f ∈ fs, f.ReadsIn (value n)) (hkey : PlainText last.key)
    (h : ∀ rest, value n (last.text ++ '}' :: rest) = none) :
    Fails (value (n + 1)) (objectText fs last) := by
  intro rest
  obtain ⟨k, hk⟩ := value_objectText n fs last rest
  rw [hk, Field.member, memberText_append, members_fails hfs hkey (h rest)]
  rfl

/-- An object fails with one of its members before the last. -/
theorem object_fails {n : ℕ} {fs post : List Field} {bad last : Field}
    (hfs : ∀ f ∈ fs, f.ReadsIn (value n)) (hkey : PlainText bad.key)
    (h : Fails (value n) bad.text) :
    Fails (value (n + 1)) (objectText (fs ++ bad :: post) last) := by
  intro rest
  obtain ⟨k, hk⟩ := value_objectText n (fs ++ bad :: post) last rest
  have hcons : leading (bad :: post) (last.member ++ '}' :: rest) =
      memberText bad.key (bad.text ++ ',' :: leading post (last.member ++ '}' :: rest)) := by
    rw [← memberText_append]
    rfl
  rw [hk, leading_append, hcons, members_fails hfs hkey (h _)]
  rfl

end Fails

/-- A number fails at a point with no digit behind it. -/
theorem unsigned_pointless {ip : List Char} (hip : IntDigits ip) (negative : Bool) {c : Char}
    (hc : c.isDigit = false) (rest : List Char) :
    unsigned negative (ip ++ '.' :: c :: rest) = none := by
  have hfrac : fracPart ('.' :: c :: rest) = none := by
    simp [fracPart, spanDigits, hc]
  rw [unsigned, intPart_append hip (by decide), Option.bind_some, hfrac, Option.bind_none]

theorem value_pointless {ip : List Char} (hip : IntDigits ip) (negative : Bool) {c : Char}
    (hc : c.isDigit = false) (n : ℕ) (rest : List Char) :
    value (n + 1) ((if negative then ['-'] else []) ++ (ip ++ '.' :: c :: rest)) = none := by
  have hunsigned := unsigned_pointless hip negative hc rest
  cases negative with
  | true =>
    change value (n + 1) ('-' :: (ip ++ '.' :: c :: rest)) = none
    rw [value_number (Or.inl rfl), number, if_pos rfl, hunsigned]
  | false =>
    obtain ⟨d, ds, rfl, hd⟩ := hip.head
    have hminus : d ≠ '-' := by
      rintro rfl
      contradiction
    change value (n + 1) (d :: (ds ++ '.' :: c :: rest)) = none
    rw [value_number (Or.inr hd), number, if_neg hminus]
    exact hunsigned

def quotedItem (s : List Char) : Item := ⟨quoted s, .string s⟩

theorem quotedItem_readsIn {s : List Char} (hs : PlainText s) (n : ℕ) :
    (quotedItem s).ReadsIn (value (n + 1)) := by
  refine ⟨⟨'"', _, rfl, by decide, by decide⟩, fun rest => ?_⟩
  rw [quotedItem, quoted_append, value_quote, chars_plain hs (by rw [List.length_append]; omega)]
  rfl

/-- The first element that is read is the first one of the array. -/
theorem elements_head {pv : List Char → Option (Value × List Char)} {n : ℕ} {s rest : List Char}
    {v : Value} {vs : List Value} (h : elements pv (n + 1) s = some (v :: vs, rest)) :
    ∃ r, pv s = some (v, r) := by
  rw [elements] at h
  obtain ⟨⟨w, r⟩, hread, hrest⟩ := Option.bind_eq_some_iff.mp h
  refine ⟨r, ?_⟩
  have hw : w = v := by
    simp only at hrest
    split at hrest
    · obtain ⟨q, _, heq⟩ := Option.map_eq_some_iff.mp hrest
      exact (List.cons.inj (Prod.mk.inj heq).1).1
    · obtain ⟨q, _, heq⟩ := Option.map_eq_some_iff.mp hrest
      exact (List.cons.inj (Prod.mk.inj heq).1).1
  rw [hread, hw]

/-- Texts in quotes as they are, read back as the strings that they stand for, are plain: the first
one is, and then the reader is at the next one. -/
theorem plain_of_elements {k : ℕ} {s : List Char} {names : List (List Char)} {n : ℕ}
    {rest : List Char}
    (h : elements (value (k + 1)) n ([','].intercalate ((s :: names).map quoted) ++ [']']) =
      some ((s :: names).map .string, rest)) :
    ∀ t ∈ s :: names, PlainText t := by
  induction names generalizing s n rest with
  | nil =>
    cases n with
    | zero => contradiction
    | succ n =>
      have htext : [','].intercalate ([s].map quoted) ++ [']'] = '"' :: (s ++ ['"', ']']) := by
        simp [quoted]
      obtain ⟨r, hread⟩ := elements_head h
      rw [htext, value_quote] at hread
      obtain ⟨⟨t, r'⟩, hchars, heq⟩ := Option.map_eq_some_iff.mp hread
      have ht : t = s := Value.string.inj (Prod.mk.inj heq).1
      have hplain := plain_of_chars_last (p := []) (by simpa [ht] using hchars)
      simpa using hplain.2
  | cons s' names ih =>
    cases n with
    | zero => contradiction
    | succ n =>
      have htext : [','].intercalate ((s :: s' :: names).map quoted) ++ [']'] =
          quoted s ++ ',' :: ([','].intercalate ((s' :: names).map quoted) ++ [']']) := by
        simp
      have hnext : ∃ more, [','].intercalate ((s' :: names).map quoted) ++ [']'] = '"' :: more := by
        cases names <;> simp [quoted]
      obtain ⟨r, hread⟩ := elements_head h
      have hplain : PlainText s := by
        obtain ⟨more, hmore⟩ := hnext
        rw [htext, hmore, quoted_append, value_quote] at hread
        obtain ⟨⟨t, r'⟩, hchars, heq⟩ := Option.map_eq_some_iff.mp hread
        have ht : t = s := Value.string.inj (Prod.mk.inj heq).1
        exact (plain_of_chars (p := []) (by simpa [ht] using hchars)).2
      have hitem := quotedItem_readsIn hplain k
      have hcons := elements_cons hitem n ([','].intercalate ((s' :: names).map quoted) ++ [']'])
      change elements _ _ (quoted s ++ _) = _ at hcons
      rw [htext, hcons] at h
      obtain ⟨⟨vs, r'⟩, hrest, heq⟩ := Option.map_eq_some_iff.mp h
      have hvs : vs = (s' :: names).map .string := (List.cons.inj (Prod.mk.inj heq).1).2
      rw [hvs] at hrest
      intro t ht
      rcases List.mem_cons.mp ht with rfl | ht
      · exact hplain
      · exact ih hrest t ht

/-- Texts that are put between quotes as they are make up an array of them exactly when they are
plain. -/
theorem parse_quoted_iff (names : List (List Char)) :
    parse (arrayText (names.map quotedItem)) = some (.array (names.map .string)) ↔
      ∀ s ∈ names, PlainText s := by
  rw [parse_eq_some_iff]
  have hlength : ∃ n, (arrayText (names.map quotedItem)).length + 1 = n + 2 := by
    refine ⟨(arrayText (names.map quotedItem)).length - 1, ?_⟩
    simp only [arrayText, List.length_cons]
    omega
  obtain ⟨n, hn⟩ := hlength
  rw [hn]
  constructor
  · rintro ⟨r, hvalue, _⟩
    cases names with
    | nil => simp
    | cons s names =>
      have htexts : ((s :: names).map quotedItem).map Item.text = (s :: names).map quoted := by
        rw [List.map_map]
        rfl
      have hbegins : Begins ([','].intercalate ((s :: names).map quoted) ++ [']']) := by
        refine ⟨'"', ?_⟩
        cases names <;> simp [quoted, isWs]
      rw [arrayText, htexts, value_bracket hbegins] at hvalue
      obtain ⟨⟨vs, r'⟩, helements, heq⟩ := Option.map_eq_some_iff.mp hvalue
      have hvs : vs = (s :: names).map .string := Value.array.inj (Prod.mk.inj heq).1
      rw [hvs] at helements
      exact plain_of_elements helements
  · intro hplain
    have hitems : ∀ i ∈ names.map quotedItem, i.ReadsIn (value (n + 1)) := by
      intro i hi
      obtain ⟨s, hs, rfl⟩ := List.mem_map.mp hi
      exact quotedItem_readsIn (hplain s hs) n
    have hread := reads_array hitems []
    rw [List.append_nil, List.map_map] at hread
    exact ⟨[], hread, rfl⟩

def OneLine (s : List Char) : Prop := '\n' ∉ s

instance (s : List Char) : Decidable (OneLine s) := inferInstanceAs (Decidable (¬ _))

theorem oneLine_of_plain {s : List Char} (h : PlainText s) : OneLine s := by
  intro hmem
  have hplain := (h '\n' hmem).2.2
  contradiction

theorem OneLine.append {s t : List Char} (hs : OneLine s) (ht : OneLine t) : OneLine (s ++ t) := by
  intro h
  rcases List.mem_append.mp h with h | h
  · exact hs h
  · exact ht h

theorem OneLine.cons {c : Char} {s : List Char} (hc : c ≠ '\n') (hs : OneLine s) :
    OneLine (c :: s) := by
  intro h
  rcases List.mem_cons.mp h with h | h
  · exact hc h.symm
  · exact hs h

/-- The member of an object stays on its line. -/
def FieldOneLine (f : Field) : Prop := OneLine f.key ∧ OneLine f.text

theorem FieldOneLine.member {f : Field} (h : FieldOneLine f) : OneLine f.member := by
  have hkey : OneLine (quoted f.key) := (h.1.cons (by decide)).append (by decide)
  exact hkey.append (h.2.cons (by decide))

theorem oneLine_objectText {fs : List Field} (hfs : ∀ f ∈ fs, FieldOneLine f) {last : Field}
    (hlast : FieldOneLine last) : OneLine (objectText fs last) := by
  have hend : OneLine (last.member ++ ['}']) := hlast.member.append (by decide)
  have hleading : OneLine (leading fs (last.member ++ ['}'])) := by
    induction fs with
    | nil => exact hend
    | cons f fs ih =>
      have hrest := ih fun g hg => hfs g (List.mem_cons_of_mem f hg)
      exact (hfs f List.mem_cons_self).member.append (hrest.cons (by decide))
  exact hleading.cons (by decide)

theorem oneLine_arrayText {items : List Item} (h : ∀ i ∈ items, OneLine i.text) :
    OneLine (arrayText items) := by
  have hjoin : OneLine ([','].intercalate (items.map Item.text)) := by
    induction items with
    | nil => exact List.not_mem_nil
    | cons i items ih =>
      have hrest := ih fun j hj => h j (List.mem_cons_of_mem i hj)
      have hi := h i List.mem_cons_self
      cases items with
      | nil => simpa using hi
      | cons j items =>
        have hsplit : [','].intercalate ((i :: j :: items).map Item.text) =
            i.text ++ ',' :: [','].intercalate ((j :: items).map Item.text) := by simp
        rw [hsplit]
        exact hi.append (hrest.cons (by decide))
  exact (hjoin.append (by decide)).cons (by decide)

end Json
