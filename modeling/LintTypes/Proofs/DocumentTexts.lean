import LintTypes.Proofs.LocalRecords

/-!
# Texts of documents

What a text writes is told here without reading it: the characters of a string (`CharText`), strings
(`StringText`), entries one behind the other (`InTurn`, `EntryText`) and objects (`ObjectText`). The
value of an entry is known by its own text, which has to be a value that ends by itself.

Every part of reading an object is matched with the texts that it passes (`Passes`). The result is
that a map is read if and only if an object is written, and that its entries are those that are
written, each key once.
-/

namespace LintTypes

/-! ## Places -/

namespace Cursor

variable {c c' c'' : Cursor} {text others : List Char}

/-- The text stands at one place and ends at the other. -/
structure Passes (c : Cursor) (text : List Char) (c' : Cursor) : Prop where
  front : text <+: c.rest
  behind : c' = c.advanceBy text.length

theorem passes_nil : Passes c [] c' ↔ c' = c :=
  ⟨fun h => h.behind, fun h => ⟨List.nil_prefix, h⟩⟩

/-- What was passed was there. -/
theorem Passes.rest (h : Passes c text c') : c.rest = text ++ c'.rest := by
  obtain ⟨⟨rest, hrest⟩, rfl⟩ := h
  rw [rest_advanceBy, ← hrest, List.drop_left]

theorem Passes.bounded (h : Passes c text c') (hc : c.Bounded) : c'.Bounded :=
  h.behind ▸ hc.advanceBy text.length

/-- Two texts are passed one after the other. -/
theorem passes_append :
    Passes c (text ++ others) c'' ↔ ∃ c', Passes c text c' ∧ Passes c' others c'' := by
  constructor
  · intro h
    refine ⟨c.advanceBy text.length, ⟨(List.prefix_append _ _).trans h.front, rfl⟩, ?_, ?_⟩
    · rw [rest_advanceBy]
      obtain ⟨rest, hrest⟩ := h.front
      rw [← hrest, List.append_assoc, List.drop_left]
      exact List.prefix_append _ _
    · rw [h.behind, List.length_append, advanceBy_add]
  · rintro ⟨c', h, hothers⟩
    refine ⟨?_, ?_⟩
    · rw [h.rest, List.prefix_append_right_inj]
      exact hothers.front
    · rw [hothers.behind, h.behind, List.length_append, advanceBy_add]

theorem passes_singleton {x : Char} : Passes c [x] c' ↔ c.rest.head? = some x ∧ c' = c.advance := by
  constructor
  · rintro ⟨⟨rest, hrest⟩, rfl⟩
    exact ⟨by rw [← hrest]; rfl, rfl⟩
  · rintro ⟨hhead, rfl⟩
    obtain ⟨rest, hrest⟩ := List.head?_eq_some_iff.1 hhead
    exact ⟨⟨rest, hrest.symm⟩, rfl⟩

/-- To pass a text is to pass its first character and then the others. -/
theorem passes_cons {x : Char} :
    Passes c (x :: text) c' ↔ c.rest.head? = some x ∧ Passes c.advance text c' := by
  rw [← List.singleton_append, passes_append]
  simp only [passes_singleton]
  constructor
  · rintro ⟨_, ⟨hhead, rfl⟩, h⟩
    exact ⟨hhead, h⟩
  · rintro ⟨hhead, h⟩
    exact ⟨_, ⟨hhead, rfl⟩, h⟩

/-- There are only blanks in the text. -/
def Blank (text : List Char) : Prop := ∀ x ∈ text, isBlank x = true

/-- Blanks are passed over up to the first character that is none. -/
theorem passes_skipSpace_of_blanks {blanks : List Char} {x : Char} (hblanks : Blank blanks)
    (hx : isBlank x = false) (h : Passes c (blanks ++ x :: text) c') :
    Passes c.skipSpace (x :: text) c' := by
  obtain ⟨place, hpasses, h⟩ := passes_append.1 h
  obtain ⟨others, hothers⟩ := List.head?_eq_some_iff.1 (passes_cons.1 h).1
  have hplace : c.skipSpace = place := by
    rw [skipSpace_eq, hpasses.rest, List.takeWhile_append_of_pos hblanks, hothers,
      List.takeWhile_cons_of_neg (by simp [hx]), List.append_nil, ← hpasses.behind]
  rwa [hplace]

/-- The blanks that were skipped were passed. -/
theorem exists_blanks (h : Passes c.skipSpace text c') :
    ∃ blanks, Blank blanks ∧ Passes c (blanks ++ text) c' :=
  ⟨c.rest.takeWhile isBlank, fun _ hx => List.mem_takeWhile_imp hx,
    passes_append.2 ⟨_, ⟨List.takeWhile_prefix _, rfl⟩, skipSpace_eq c ▸ h⟩⟩

end Cursor

namespace Json

open Cursor
open Command (bind_eq_ok)

variable {α β : Type} {c c' : Cursor}

theorem bind_eq_ok_iff {ε α β : Type} {x : Except ε α} {f : α → Except ε β} {b : β} :
    x >>= f = .ok b ↔ ∃ a, x = .ok a ∧ f a = .ok b :=
  ⟨bind_eq_ok, by rintro ⟨a, rfl, hf⟩; exact hf⟩

/-! ## Strings -/

/-- What stands behind `\u` for the character: the digits of its code, or those of the two halves of
a surrogate pair. -/
inductive CodeText : List Char → Char → Prop
  | single {digits : List Char} {code : Nat} (hlength : digits.length = 4)
      (hcode : hexNumber? digits = some code) (hno : ¬ (0xD800 ≤ code ∧ code ≤ 0xDFFF)) :
      CodeText digits (Char.ofNat code)
  | pair {high low : List Char} {first second : Nat} (hhigh : high.length = 4)
      (hfirst : hexNumber? high = some first) (hlow : low.length = 4)
      (hsecond : hexNumber? low = some second) (hf : 0xD800 ≤ first ∧ first ≤ 0xDBFF)
      (hs : 0xDC00 ≤ second ∧ second ≤ 0xDFFF) :
      CodeText (high ++ '\\' :: 'u' :: low)
        (Char.ofNat ((first - 0xD800) * 0x400 + (second - 0xDC00) + 0x10000))

/-- What stands for the character in a string. -/
inductive CharText : List Char → Char → Prop
  | plain {x : Char} (hquote : x ≠ '"') (hslash : x ≠ '\\') (hcontrol : 0x20 ≤ x.toNat) :
      CharText [x] x
  | letter {x value : Char} (h : simpleEscape? x = some value) : CharText ['\\', x] value
  | code {text : List Char} {value : Char} (h : CodeText text value) :
      CharText ('\\' :: 'u' :: text) value

/-- A code has four hexadecimal digits. -/
theorem readHex_eq_ok_iff {code : Nat} :
    readHex c = .ok (code, c') ↔
      ∃ digits, digits.length = 4 ∧ hexNumber? digits = some code ∧ Passes c digits c' := by
  rw [readHex_eq_ok]
  constructor
  · rintro ⟨hcode, hlength, rfl⟩
    exact ⟨_, hlength, hcode, List.take_prefix 4 _, by rw [hlength]⟩
  · rintro ⟨digits, hlength, hcode, hfront, rfl⟩
    obtain rfl : digits = c.rest.take 4 := hlength ▸ List.prefix_iff_eq_take.1 hfront
    exact ⟨hcode, hlength, by rw [hlength]⟩

theorem readPairMark_eq_ok_iff {expected : Char} {u : Unit} :
    readPairMark expected c = .ok (u, c') ↔ Passes c [expected] c' := by
  rw [passes_singleton, readPairMark]
  cases c.rest with
  | nil => simp [fault]
  | cons x rest =>
    by_cases hx : x = expected
    · simp [hx, eq_comm]
    · simp [hx, faultHere]

/-- A code, or two codes that are a pair, are read behind the letter of the escape. -/
theorem readUnicodeEscape_eq_ok_iff {x : Char} :
    readUnicodeEscape c = .ok (x, c') ↔ ∃ text, CodeText text x ∧ Passes c text c' := by
  constructor
  · intro h
    obtain ⟨⟨code, c₁⟩, hhigh, h⟩ := bind_eq_ok h
    obtain ⟨high, hlength, hcode, hpasses⟩ := readHex_eq_ok_iff.1 hhigh
    dsimp only at h
    split at h
    · cases h
    rename_i hlow
    split at h
    · rename_i hfirst
      obtain ⟨⟨_, c₂⟩, hslash, h⟩ := bind_eq_ok h
      obtain ⟨⟨_, c₃⟩, hu, h⟩ := bind_eq_ok h
      obtain ⟨⟨second, c₄⟩, hlow, h⟩ := bind_eq_ok h
      obtain ⟨low, hlength', hcode', hpasses'⟩ := readHex_eq_ok_iff.1 hlow
      dsimp only at h
      split at h
      · rename_i hsecond
        obtain ⟨rfl, rfl⟩ := Prod.mk.inj (Except.ok.inj h)
        obtain ⟨hhead, rfl⟩ := passes_singleton.1 (readPairMark_eq_ok_iff.1 hslash)
        obtain ⟨hhead', rfl⟩ := passes_singleton.1 (readPairMark_eq_ok_iff.1 hu)
        exact ⟨_, .pair hlength hcode hlength' hcode' hfirst hsecond, passes_append.2
          ⟨_, hpasses, passes_cons.2 ⟨hhead, passes_cons.2 ⟨hhead', hpasses'⟩⟩⟩⟩
      · cases h
    · rename_i hfirst
      cases h
      exact ⟨high, .single hlength hcode (by omega), hpasses⟩
  · rintro ⟨text, htext, hpasses⟩
    cases htext with
    | single hlength hcode hno =>
      refine bind_eq_ok_iff.2 ⟨_, readHex_eq_ok_iff.2 ⟨_, hlength, hcode, hpasses⟩, ?_⟩
      dsimp only
      rw [if_neg (by omega), if_neg (by omega)]
      rfl
    | pair hhigh hfirst hlow hsecond hf hs =>
      obtain ⟨c₁, hpasses, hmarks⟩ := passes_append.1 hpasses
      obtain ⟨hslash, hmarks⟩ := passes_cons.1 hmarks
      obtain ⟨hu, hpasses'⟩ := passes_cons.1 hmarks
      refine bind_eq_ok_iff.2 ⟨_, readHex_eq_ok_iff.2 ⟨_, hhigh, hfirst, hpasses⟩, ?_⟩
      dsimp only
      rw [if_neg (by omega), if_pos hf]
      refine bind_eq_ok_iff.2
        ⟨((), _), readPairMark_eq_ok_iff.2 (passes_singleton.2 ⟨hslash, rfl⟩), ?_⟩
      refine bind_eq_ok_iff.2
        ⟨((), _), readPairMark_eq_ok_iff.2 (passes_singleton.2 ⟨hu, rfl⟩), ?_⟩
      refine bind_eq_ok_iff.2 ⟨_, readHex_eq_ok_iff.2 ⟨_, hlow, hsecond, hpasses'⟩, ?_⟩
      dsimp only
      rw [if_pos hs]
      rfl

theorem readEscape_eq_ok_iff {x : Char} :
    readEscape readUnicodeEscape c = .ok (x, c') ↔
      (∃ y, simpleEscape? y = some x ∧ Passes c [y] c') ∨
        ∃ text, CodeText text x ∧ Passes c ('u' :: text) c' := by
  simp only [passes_cons, passes_nil, readEscape]
  cases hc : c.rest with
  | nil => simp [fault]
  | cons z rest =>
    simp only [List.head?_cons, Option.some.injEq]
    by_cases hu : z = 'u'
    · simp [hu, simpleEscape?, readUnicodeEscape_eq_ok_iff]
    · cases hvalue : simpleEscape? z with
      | none => simp [hu, hvalue, faultHere]
      | some value => simp [hu, hvalue, eq_comm]

/-- A character of a string is read from one of its texts, -/
theorem readStringChar_eq_some {x : Char} :
    readStringChar c = .ok (some x, c') ↔ ∃ text, CharText text x ∧ Passes c text c' := by
  constructor
  · intro h
    unfold readStringChar at h
    split at h
    · cases h
    · cases h
    · rename_i rest hc
      obtain ⟨⟨value, c₁⟩, hescape, h⟩ := bind_eq_ok h
      cases h
      have hhead : c.rest.head? = some '\\' := by rw [hc]; rfl
      rcases readEscape_eq_ok_iff.1 hescape with ⟨y, hy, hpasses⟩ | ⟨text, htext, hpasses⟩
      · exact ⟨_, .letter hy, passes_cons.2 ⟨hhead, hpasses⟩⟩
      · exact ⟨_, .code htext, passes_cons.2 ⟨hhead, hpasses⟩⟩
    · rename_i y rest hquote hslash hc
      split at h
      · cases h
      · rename_i hcontrol
        cases h
        exact ⟨_, .plain (by simpa using hquote) (by simpa using hslash)
          (Nat.le_of_not_lt hcontrol), passes_singleton.2 ⟨by rw [hc]; rfl, rfl⟩⟩
  · have hescaped {value : Char} (hslash : c.rest.head? = some '\\')
        (h : readEscape readUnicodeEscape c.advance = .ok (value, c')) :
        readStringChar c = .ok (some value, c') := by
      obtain ⟨rest, hc⟩ := List.head?_eq_some_iff.1 hslash
      simp [readStringChar, hc, h]
    rintro ⟨text, htext, hpasses⟩
    cases htext with
    | plain hquote hslash hcontrol =>
      obtain ⟨hhead, rfl⟩ := passes_singleton.1 hpasses
      obtain ⟨rest, hc⟩ := List.head?_eq_some_iff.1 hhead
      simp [readStringChar, hc, Nat.not_lt.2 hcontrol]
    | letter h =>
      obtain ⟨hslash, hpasses⟩ := passes_cons.1 hpasses
      exact hescaped hslash (readEscape_eq_ok_iff.2 (.inl ⟨_, h, hpasses⟩))
    | code h =>
      obtain ⟨hslash, hpasses⟩ := passes_cons.1 hpasses
      exact hescaped hslash (readEscape_eq_ok_iff.2 (.inr ⟨_, h, hpasses⟩))

/-- and the string ends at a quote. -/
theorem readStringChar_eq_none :
    readStringChar c = .ok (none, c') ↔ Passes c ['"'] c' := by
  rw [passes_singleton]
  constructor
  · intro h
    unfold readStringChar at h
    split at h
    · cases h
    · rename_i rest hc
      cases h
      exact ⟨by rw [hc]; rfl, rfl⟩
    · obtain ⟨_, _, h⟩ := bind_eq_ok h
      cases h
    · split at h <;> cases h
  · rintro ⟨hhead, rfl⟩
    obtain ⟨rest, hc⟩ := List.head?_eq_some_iff.1 hhead
    simp [readStringChar, hc]

/-- Parts one behind the other, the first of them at an index, and what they stand for. -/
inductive InTurn (part : Nat → List Char → α → Prop) : Nat → List Char → List α → Prop
  | nil {index : Nat} : InTurn part index [] []
  | cons {index : Nat} {text others : List Char} {a : α} {as : List α} (h : part index text a)
      (hothers : InTurn part (index + 1) others as) : InTurn part index (text ++ others) (a :: as)

/-- What is collected are the parts one behind the other, up to a place where there is no further
one. -/
theorem collectUpTo_eq_ok_iff {step : Nat → Reading (Option α)}
    {part : Nat → List Char → α → Prop}
    (hstep : ∀ index c a c', c.Bounded →
      (step index c = .ok (some a, c') ↔ ∃ text, part index text a ∧ Passes c text c'))
    (hpart : ∀ index text a, part index text a → text ≠ []) {count index : Nat} {values : List α}
    (hc : c.Bounded) (hcount : c.rest.length < count) :
    collectUpTo step count index c = .ok (values, c') ↔
      ∃ text last, InTurn part index text values ∧ Passes c text last ∧
        step (index + values.length) last = .ok (none, c') := by
  have hshorter : ∀ {c c' : Cursor} {text : List Char} {count : Nat}, text ≠ [] →
      Passes c text c' → c.rest.length < count + 1 → c'.rest.length < count := by
    intro c c' text count htext hpasses hcount
    have hlength := List.length_pos_iff.2 htext
    rw [hpasses.rest, List.length_append] at hcount
    omega
  -- From the steps to the parts by induction on the number of steps, back on the parts.
  constructor
  · intro h
    induction count generalizing index c values with
    | zero => exact absurd hcount (Nat.not_lt_zero _)
    | succ count ih =>
      simp only [collectUpTo] at h
      split at h
      · cases h
      · rename_i after hnone
        cases h
        exact ⟨[], c, .nil, passes_nil.2 rfl, hnone⟩
      · rename_i a after hsome
        split at h
        · cases h
        · rename_i others _ hothers
          cases h
          obtain ⟨text, htext, hpasses⟩ := (hstep _ _ _ _ hc).1 hsome
          obtain ⟨more, last, hturn, hmore, hlast⟩ := ih (hpasses.bounded hc)
            (hshorter (hpart _ _ _ htext) hpasses hcount) hothers
          refine ⟨text ++ more, last, .cons htext hturn, passes_append.2 ⟨_, hpasses, hmore⟩, ?_⟩
          rwa [List.length_cons, Nat.add_comm others.length, ← Nat.add_assoc]
  · rintro ⟨text, last, hturn, hpasses, hlast⟩
    induction hturn generalizing c count with
    | nil =>
      obtain ⟨count, rfl⟩ := Nat.exists_eq_succ_of_ne_zero (Nat.ne_zero_of_lt hcount)
      obtain rfl := passes_nil.1 hpasses
      rw [List.length_nil, Nat.add_zero] at hlast
      simp only [collectUpTo, hlast]
    | @cons index text others a as htext hothers ih =>
      obtain ⟨count, rfl⟩ := Nat.exists_eq_succ_of_ne_zero (Nat.ne_zero_of_lt hcount)
      obtain ⟨after, hpasses, hmore⟩ := passes_append.1 hpasses
      rw [List.length_cons, Nat.add_comm as.length, ← Nat.add_assoc] at hlast
      have hrest := ih (hpasses.bounded hc) (hshorter (hpart _ _ _ htext) hpasses hcount) hmore
        hlast
      simp only [collectUpTo, (hstep _ _ _ _ hc).2 ⟨_, htext, hpasses⟩, hrest]

/-- Parts are collected if each of them can be read where the one before has ended, and if nothing
is left of them at the end. The induction is on what is left of the text, which each part makes
shorter. -/
theorem collect_eq_ok_iff (step : Nat → Reading (Option α)) (part : Nat → List Char → α → Prop)
    (hstep : ∀ index c a c', c.Bounded →
      (step index c = .ok (some a, c') ↔ ∃ text, part index text a ∧ Passes c text c'))
    (hpart : ∀ index text a, part index text a → text ≠ []) (hc : c.Bounded) {values : List α} :
    collect step c = .ok (values, c') ↔
      ∃ text last, InTurn part 0 text values ∧ Passes c text last ∧
        step values.length last = .ok (none, c') := by
  have h : collectUpTo step c.bound 0 c = .ok (values, c') ↔ _ :=
    collectUpTo_eq_ok_iff hstep hpart hc hc
  simpa only [collect, Nat.zero_add] using h

/-- A string in quotes, and what it says. -/
inductive StringText : List Char → String → Prop
  | mk {text chars : List Char} (h : InTurn (fun _ => CharText) 0 text chars) :
      StringText ('"' :: text ++ ['"']) (String.ofList chars)

theorem StringText.head {text : List Char} {s : String} (h : StringText text s) :
    ∃ body, text = '"' :: body := by
  obtain ⟨h⟩ := h
  exact ⟨_, rfl⟩

theorem CharText.ne_nil {text : List Char} {x : Char} (h : CharText text x) : text ≠ [] := by
  cases h <;> exact List.cons_ne_nil _ _

theorem readStringTail_eq_ok_iff {s : String} (hc : c.Bounded) :
    readStringTail c = .ok (s, c') ↔
      ∃ text chars, InTurn (fun _ => CharText) 0 text chars ∧ s = String.ofList chars ∧
        Passes c (text ++ ['"']) c' := by
  have hcollect {chars : List Char} {last : Cursor} :
      collect (fun _ => readStringChar) c = .ok (chars, last) ↔ _ :=
    collect_eq_ok_iff (fun _ => readStringChar) (fun _ => CharText)
      (fun _ _ _ _ _ => readStringChar_eq_some) (fun _ _ _ h => h.ne_nil) hc
  constructor
  · intro h
    obtain ⟨⟨chars, c₁⟩, hchars, h⟩ := bind_eq_ok h
    cases h
    obtain ⟨text, last, hturn, hpasses, hlast⟩ := hcollect.1 hchars
    exact ⟨text, chars, hturn, rfl,
      passes_append.2 ⟨last, hpasses, readStringChar_eq_none.1 hlast⟩⟩
  · rintro ⟨text, chars, hturn, rfl, hpasses⟩
    obtain ⟨last, hpasses, hlast⟩ := passes_append.1 hpasses
    exact bind_eq_ok_iff.2 ⟨_, hcollect.2 ⟨text, last, hturn, hpasses,
      readStringChar_eq_none.2 hlast⟩, rfl⟩

theorem readKeyHere_eq_some {key : String} (hc : c.Bounded) :
    readKeyHere c = .ok (some key, c') ↔ ∃ text, StringText text key ∧ Passes c text c' := by
  constructor
  · intro h
    unfold readKeyHere at h
    split at h
    · rename_i rest hrest
      obtain ⟨⟨s, c₁⟩, hs, h⟩ := bind_eq_ok h
      cases h
      obtain ⟨text, chars, hturn, rfl, hpasses⟩ :=
        (readStringTail_eq_ok_iff (hc.advanceBy 1)).1 hs
      exact ⟨_, ⟨hturn⟩, passes_cons.2 ⟨by rw [hrest]; rfl, hpasses⟩⟩
    · cases h
  · rintro ⟨_, ⟨hturn⟩, hpasses⟩
    obtain ⟨hhead, hpasses⟩ := passes_cons.1 hpasses
    obtain ⟨rest, hrest⟩ := List.head?_eq_some_iff.1 hhead
    have hs := (readStringTail_eq_ok_iff (c := c.advance) (hc.advanceBy 1)).2
      ⟨_, _, hturn, rfl, hpasses⟩
    simp [readKeyHere, hrest, hs]

/-! ## Objects -/

/-- What stands in front of an entry: blanks, and a comma if it is not the first one. -/
inductive Separator : Nat → List Char → Prop
  | first {blanks : List Char} (h : Blank blanks) : Separator 0 blanks
  | later {index : Nat} {before behind : List Char} (hbefore : Blank before)
      (hbehind : Blank behind) :
      Separator (index + 1) (before ++ ',' :: behind)

/-- A key stands behind what separates it from the entry before. -/
theorem readKey_eq_some {index : Nat} {key : String} (hc : c.Bounded) :
    readKey index c = .ok (some key, c') ↔
      ∃ before text, Separator index before ∧ StringText text key ∧
        Passes c (before ++ text) c' := by
  have hspace {c : Cursor} (hc : c.Bounded) : c.skipSpace.Bounded := by
    rw [skipSpace_eq]
    exact hc.advanceBy _
  constructor
  · intro h
    rw [readKey_eq] at h
    simp only [partOrClose] at h
    split at h
    · cases h
    rename_i x rest hrest
    split at h
    · cases h
    split at h
    · rename_i hindex
      obtain ⟨text, htext, hpasses⟩ := (readKeyHere_eq_some (hspace hc)).1 h
      obtain ⟨blanks, hblanks, hpasses⟩ := exists_blanks hpasses
      exact ⟨blanks, text, hindex ▸ .first hblanks, htext, hpasses⟩
    split at h
    · rename_i hindex hcomma
      simp only [partBehindComma] at h
      split at h
      · cases h
      split at h
      · cases h
      obtain ⟨text, htext, hpasses⟩ :=
        (readKeyHere_eq_some (hspace ((hspace hc).advanceBy 1))).1 h
      obtain ⟨behind, hbehind, hpasses⟩ := exists_blanks hpasses
      obtain ⟨before, hbefore, hpasses⟩ := exists_blanks (c := c)
        (passes_cons.2 ⟨by rw [hrest, hcomma]; rfl, hpasses⟩)
      obtain ⟨index, rfl⟩ := Nat.exists_eq_succ_of_ne_zero hindex
      exact ⟨before ++ ',' :: behind, text, .later hbefore hbehind, htext, by simpa using hpasses⟩
    · cases h
  · rintro ⟨before, text, hbefore, htext, hpasses⟩
    obtain ⟨body, rfl⟩ := htext.head
    rw [readKey_eq]
    cases hbefore with
    | first hblanks =>
      have hkey := passes_skipSpace_of_blanks hblanks rfl hpasses
      obtain ⟨rest, hrest⟩ := List.head?_eq_some_iff.1 (passes_cons.1 hkey).1
      simp only [partOrClose, hrest]
      rw [if_neg (by decide), if_pos trivial]
      exact (readKeyHere_eq_some (hspace hc)).2 ⟨_, htext, hkey⟩
    | later hblanks hblanks' =>
      rw [List.append_assoc, List.cons_append] at hpasses
      obtain ⟨hcomma, hpasses⟩ := passes_cons.1 (passes_skipSpace_of_blanks hblanks rfl hpasses)
      have hkey := passes_skipSpace_of_blanks hblanks' rfl hpasses
      obtain ⟨rest, hrest⟩ := List.head?_eq_some_iff.1 hcomma
      obtain ⟨rest', hrest'⟩ := List.head?_eq_some_iff.1 (passes_cons.1 hkey).1
      simp only [partOrClose, partBehindComma, hrest, hrest']
      rw [if_neg (by decide), if_neg (Nat.succ_ne_zero _), if_pos trivial, if_neg (by decide)]
      exact (readKeyHere_eq_some (hspace ((hspace hc).advanceBy 1))).2 ⟨_, htext, hkey⟩

/-- A colon may stand behind blanks. -/
theorem readColon_eq_ok_iff {u : Unit} :
    readColon c = .ok (u, c') ↔ ∃ blanks, Blank blanks ∧ Passes c (blanks ++ [':']) c' := by
  have hcolon : readColonHere c.skipSpace = .ok (u, c') ↔ Passes c.skipSpace [':'] c' := by
    rw [passes_singleton, readColonHere]
    cases c.skipSpace.rest with
    | nil => simp [faultHere]
    | cons x rest =>
      by_cases hx : x = ':'
      · simp [hx, eq_comm]
      · simp [hx, faultHere]
  refine hcolon.trans ⟨exists_blanks, ?_⟩
  rintro ⟨blanks, hblanks, hpasses⟩
  exact passes_skipSpace_of_blanks hblanks rfl hpasses

/-- The text is a value, and nothing else. -/
def ValueText (value : Reading α) (text : List Char) (a : α) : Prop :=
  ∃ c, value (.start (String.ofList text)) = .ok (a, c) ∧ c.rest = []

/-- A value that ends by itself is read from its own text, wherever that stands. -/
theorem Closed.eq_ok_iff {value : Reading α} (h : Closed value) {a : α} (hc : c.Bounded) :
    value c = .ok (a, c') ↔ ∃ text, ValueText value text a ∧ Passes c text c' := by
  have hstart (text : List Char) : (start (String.ofList text)).rest = text :=
    String.toList_ofList
  constructor
  · -- The text that is taken up is read in the same way where it stands alone.
    intro hread
    obtain ⟨n, hn, -, rfl, hother⟩ := h hc hread
    have hlength : (c.rest.take n).length = n := List.length_take_of_le hn
    refine ⟨c.rest.take n, ⟨_, hother _ (bounded_start _) ?_, ?_⟩, List.take_prefix n _, ?_⟩
    · rw [hstart, List.take_take, Nat.min_self]
    · rw [rest_advanceBy, hstart, List.drop_eq_nil_of_le hlength.le]
    · rw [hlength]
  · rintro ⟨text, ⟨last, hread, hlast⟩, hfront, rfl⟩
    obtain ⟨n, hn, -, rfl, hother⟩ := h (bounded_start _) hread
    rw [hstart] at hn hother
    rw [rest_advanceBy, hstart, List.drop_eq_nil_iff] at hlast
    obtain rfl : n = text.length := Nat.le_antisymm hn hlast
    exact hother c hc (by rw [← List.prefix_iff_eq_take.1 hfront, List.take_length])

/-- An entry of an object at its index: a key, a colon and a value. -/
inductive EntryText (value : Reading α) : Nat → List Char → String × α → Prop
  | mk {index : Nat} {before literal gap text : List Char} {key : String} {a : α}
      (hbefore : Separator index before) (hkey : StringText literal key) (hgap : Blank gap)
      (hvalue : ValueText value text a) :
      EntryText value index (before ++ (literal ++ (gap ++ ':' :: text))) (key, a)

theorem EntryText.ne_nil {value : Reading α} {index : Nat} {text : List Char} {entry : String × α}
    (h : EntryText value index text entry) : text ≠ [] := by
  obtain ⟨_, _, _, _⟩ := h
  simp

/-- An entry is read from its separator, its key, the colon and its value. -/
theorem readField_eq_some {value : Reading α} (h : Closed value) {index : Nat} {entry : String × α}
    (hc : c.Bounded) :
    readField (fun _ => value) index c = .ok (some entry, c') ↔
      ∃ text, EntryText value index text entry ∧ Passes c text c' := by
  constructor
  · intro hread
    obtain ⟨⟨key?, c₁⟩, hkey, hread⟩ := bind_eq_ok hread
    cases key? with
    | none => cases hread
    | some key =>
      obtain ⟨⟨_, c₂⟩, hcolon, hread⟩ := bind_eq_ok hread
      obtain ⟨⟨a, c₃⟩, hvalue, hread⟩ := bind_eq_ok hread
      cases hread
      obtain ⟨before, literal, hbefore, hliteral, hpasses⟩ :=
        (readKey_eq_some hc).1 (inside_eq_ok.1 hkey)
      have hc₁ := hpasses.bounded hc
      obtain ⟨gap, hgap, hpasses'⟩ := readColon_eq_ok_iff.1 hcolon
      obtain ⟨text, htext, hpasses''⟩ :=
        (h.eq_ok_iff (hpasses'.bounded hc₁)).1 (inside_eq_ok.1 hvalue)
      refine ⟨_, .mk hbefore hliteral hgap htext, ?_⟩
      simpa using passes_append.2 ⟨_, hpasses, passes_append.2 ⟨_, hpasses', hpasses''⟩⟩
  · rintro ⟨_, @⟨before, literal, gap, text, key, a, hbefore, hliteral, hgap, htext⟩, hpasses⟩
    have hsplit : before ++ (literal ++ (gap ++ ':' :: text)) =
        (before ++ literal) ++ ((gap ++ [':']) ++ text) := by simp
    rw [hsplit] at hpasses
    obtain ⟨c₁, hpasses, hpasses'⟩ := passes_append.1 hpasses
    obtain ⟨c₂, hpasses', hpasses''⟩ := passes_append.1 hpasses'
    have hc₁ := hpasses.bounded hc
    refine bind_eq_ok_iff.2 ⟨(some key, c₁), inside_eq_ok.2 ((readKey_eq_some hc).2
      ⟨_, _, hbefore, hliteral, hpasses⟩), ?_⟩
    refine bind_eq_ok_iff.2 ⟨((), c₂), readColon_eq_ok_iff.2 ⟨gap, hgap, hpasses'⟩, ?_⟩
    exact bind_eq_ok_iff.2 ⟨(a, c'), inside_eq_ok.2 ((h.eq_ok_iff (hpasses'.bounded hc₁)).2
      ⟨text, htext, hpasses''⟩), rfl⟩

theorem readField_eq_none {value : Reading α} {index : Nat} :
    readField (fun _ => value) index c = .ok (none, c') ↔
      c' = c.skipSpace ∧ c'.rest.head? = some '}' := by
  constructor
  · intro hread
    obtain ⟨⟨key?, c₁⟩, hkey, hread⟩ := bind_eq_ok hread
    cases key? with
    | none =>
      cases hread
      exact readKey_eq_none.1 (inside_eq_ok.1 hkey)
    | some key =>
      obtain ⟨_, _, hread⟩ := bind_eq_ok hread
      obtain ⟨_, _, hread⟩ := bind_eq_ok hread
      cases hread
  · intro h
    exact bind_eq_ok_iff.2 ⟨(none, c'), inside_eq_ok.2 (readKey_eq_none.2 h), rfl⟩

/-- The entries of an object and the closing brace. -/
theorem readFields_eq_ok_iff {value : Reading α} (h : Closed value) {entries : List (String × α)}
    (hc : c.Bounded) :
    readFields (fun _ => value) c = .ok (entries, c') ↔
      ∃ text blanks, InTurn (EntryText value) 0 text entries ∧ Blank blanks ∧
        Passes c (text ++ (blanks ++ ['}'])) c' := by
  have hcollect {last : Cursor} : collect (readField fun _ => value) c = .ok (entries, last) ↔ _ :=
    collect_eq_ok_iff (readField fun _ => value) (EntryText value)
      (fun _ _ _ _ => readField_eq_some h) (fun _ _ _ htext => htext.ne_nil) hc
  constructor
  · intro hread
    obtain ⟨⟨_, c₁⟩, hfields, hread⟩ := bind_eq_ok hread
    cases hread
    obtain ⟨text, last, hturn, hpasses, hlast⟩ := hcollect.1 hfields
    obtain ⟨rfl, hbrace⟩ := readField_eq_none.1 hlast
    obtain ⟨blanks, hblanks, hpasses'⟩ := exists_blanks (passes_singleton.2 ⟨hbrace, rfl⟩)
    exact ⟨text, blanks, hturn, hblanks, passes_append.2 ⟨_, hpasses, hpasses'⟩⟩
  · rintro ⟨text, blanks, hturn, hblanks, hpasses⟩
    obtain ⟨last, hentries, hend⟩ := passes_append.1 hpasses
    obtain ⟨hbrace, rfl⟩ := passes_singleton.1 (passes_skipSpace_of_blanks hblanks rfl hend)
    exact bind_eq_ok_iff.2 ⟨_, hcollect.2 ⟨text, last, hturn, hentries,
      readField_eq_none.2 ⟨rfl, hbrace⟩⟩, rfl⟩

/-- The text begins with an object of these entries. What follows the object is not looked at. -/
inductive ObjectText (value : Reading α) : List Char → List (String × α) → Prop
  | mk {blanks text blanks' : List Char} {entries : List (String × α)} (hblanks : Blank blanks)
      (hentries : InTurn (EntryText value) 0 text entries) (hblanks' : Blank blanks')
      (rest : List Char) :
      ObjectText value (blanks ++ '{' :: (text ++ (blanks' ++ '}' :: rest))) entries

/-- The entries of a text are what is read from it. -/
theorem objectText_iff {value : Reading α} (h : Closed value) {text : String}
    {entries : List (String × α)} :
    ObjectText value text.toList entries ↔
      (start text).skipSpace.rest.head? = some '{' ∧
        ∃ c, readFields (fun _ => value) (start text).skipSpace.advance = .ok (entries, c) := by
  have hbehind : (start text).skipSpace.advance.Bounded := by
    rw [skipSpace_eq]
    exact ((bounded_start text).advanceBy _).advanceBy 1
  constructor
  · generalize hchars : text.toList = chars
    rintro @⟨blanks, body, blanks', _, hblanks, hentries, hblanks', rest⟩
    have hpasses : Passes (start text) (blanks ++ '{' :: (body ++ (blanks' ++ ['}']))) _ :=
      ⟨⟨rest, by simp [rest_start, hchars]⟩, rfl⟩
    obtain ⟨hbrace, hpasses⟩ := passes_cons.1 (passes_skipSpace_of_blanks hblanks rfl hpasses)
    exact ⟨hbrace, _, (readFields_eq_ok_iff h hbehind).2 ⟨_, _, hentries, hblanks', hpasses⟩⟩
  · rintro ⟨hbrace, c, hread⟩
    obtain ⟨body, blanks', hentries, hblanks', hpasses⟩ := (readFields_eq_ok_iff h hbehind).1 hread
    obtain ⟨blanks, hblanks, hpasses⟩ := exists_blanks (passes_cons.2 ⟨hbrace, hpasses⟩)
    have htext : text.toList = blanks ++ '{' :: (body ++ (blanks' ++ '}' :: c.rest)) := by
      simpa [rest_start] using hpasses.rest
    exact htext ▸ .mk hblanks hentries hblanks' c.rest

/-- What is read behind the first brace of a text are its entries. -/
theorem objectText_of_read {value : Reading α} (h : Closed value) {text : String}
    {entries : List (String × α)} (hbrace : (start text).skipSpace.rest.head? = some '{')
    (hread : (readFields (fun _ => value) (start text).skipSpace.advance).toOption.map Prod.fst =
      some entries) : ObjectText value text.toList entries := by
  cases houtcome : readFields (fun _ => value) (start text).skipSpace.advance with
  | error fault =>
    rw [houtcome] at hread
    cases hread
  | ok result =>
    rw [houtcome] at hread
    cases hread
    exact (objectText_iff h).2 ⟨hbrace, result.2, houtcome⟩

/-- A text has its entries in one way. -/
theorem ObjectText.unique {value : Reading α} (h : Closed value) {text : String}
    {entries entries' : List (String × α)} (hentries : ObjectText value text.toList entries)
    (hentries' : ObjectText value text.toList entries') : entries = entries' := by
  obtain ⟨-, c, hread⟩ := (objectText_iff h).1 hentries
  obtain ⟨-, c', hread'⟩ := (objectText_iff h).1 hentries'
  exact (Prod.mk.inj (Except.ok.inj (hread.symm.trans hread'))).1

/-- A map is read from the text of an object; of a repeated key the first position and the last
value are kept. -/
theorem ofText_readMap_eq_ok_iff {value : Reading α} (h : Closed value) {text : String}
    {entries : List (String × α)} :
    Document.ofText (Document.readMap value) text = .ok entries ↔
      ∃ written, ObjectText value text.toList written ∧ entries = Entries.unique written := by
  constructor
  · intro hread
    obtain ⟨⟨_, c⟩, hmap, hread⟩ := bind_eq_ok hread
    cases hread
    simp only [Document.readMap] at hmap
    split at hmap
    · rename_i rest hrest
      obtain ⟨⟨written, c₁⟩, hfields, hmap⟩ := bind_eq_ok hmap
      cases hmap
      exact ⟨written, (objectText_iff h).2 ⟨by rw [hrest]; rfl, _, hfields⟩, rfl⟩
    · exact absurd hmap Document.unexpected_ne_ok
  · rintro ⟨written, hwritten, rfl⟩
    obtain ⟨hbrace, c, hfields⟩ := (objectText_iff h).1 hwritten
    obtain ⟨rest, hrest⟩ := List.head?_eq_some_iff.1 hbrace
    refine bind_eq_ok_iff.2 ⟨(Entries.unique written, c), ?_, rfl⟩
    simp only [Document.readMap, hrest]
    exact bind_eq_ok_iff.2 ⟨_, hfields, rfl⟩

end Json

namespace Rules

open Json

/-- The text is a rules document with these entries, in order. -/
def Writes (text : String) (entries : Rules) : Prop :=
  ObjectText (Document.readRecord ruleForm) text.toList entries

/-- The rules of a document are what it writes, and of a name that repeats only the last rule is
kept. -/
theorem ofText_eq_ok_iff {text : String} {rules : Rules} :
    ofText text = .ok rules ↔ ∃ entries, Writes text entries ∧ rules = Entries.unique entries :=
  ofText_readMap_eq_ok_iff closed_readRule

theorem Writes.unique {text : String} {entries entries' : Rules} (h : Writes text entries)
    (h' : Writes text entries') : entries = entries' :=
  ObjectText.unique closed_readRule h h'

end Rules

end LintTypes
