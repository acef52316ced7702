import LintTypes.Proofs.DeclarationReading
import LintTypes.Proofs.OneLineForms
import LintTypes.Proofs.ParsedForms
import LintTypes.Proofs.StringForms

/-!
# Ways of writing declarations

Declarations can be written in many ways: with parentheses and leading operators more or fewer, with
one separator or another, with blanks and comments wherever tokens meet. A text that writes
declarations in any of these ways is read as these declarations, and there is such a text for
all declarations that may come out of one.

For the second part every type inside a type is put in parentheses. What is built that way is a
sequence of tokens that have lexemes, so that it is enough to put a blank between any two of them.
-/

namespace LintTypes.Source

/-- The token can be written. -/
def Token.HasLexeme (token : Token) : Prop := ∃ lexeme, Lexeme token lexeme

/-- Some form of the value consists of tokens that can be written. -/
def Expressible {α : Type} (form : α → List Token → Prop) (a : α) : Prop :=
  ∃ tokens, form a tokens ∧ ∀ token ∈ tokens, token.HasLexeme

/-! ## Tokens between blanks -/

/-- With a blank behind each token, nothing runs into anything. -/
theorem exists_spells {tokens : List Token} (h : ∀ token ∈ tokens, token.HasLexeme) :
    ∃ text, Spells tokens text := by
  induction tokens with
  | nil => exact ⟨[], .nil .nil⟩
  | cons token tokens ih =>
    obtain ⟨⟨lexeme, hlexeme⟩, hothers⟩ := List.forall_mem_cons.1 h
    obtain ⟨text, htext⟩ := ih hothers
    have hblank : Blanks [' '] := .space (by decide) .nil
    have hapart : Apart ([' '] ++ text) := apart_cons (by decide) (by decide)
    exact ⟨_, .cons .nil hlexeme (htext.blanks_append hblank) (hapart.endsBefore token)⟩

theorem hasLexeme_symbol {c : Char} (hc : c ∈ symbols) : (Token.symbol c).HasLexeme :=
  ⟨_, .symbol hc⟩

theorem hasLexeme_dots : Token.dots.HasLexeme := ⟨_, .dots⟩

theorem hasLexeme_word {name : String} (h : isIdentifier name = true) :
    (Token.name name).HasLexeme :=
  ⟨_, .name (.identifier h)⟩

theorem hasLexeme_string (value : String) : (Token.string value).HasLexeme :=
  ⟨_, StringLiteral.lexeme_quoted true value⟩

/-- Whether or not a token is present, it has a lexeme where it is. -/
theorem hasLexeme_when {present : Bool} {token : Token} (h : token.HasLexeme) :
    ∀ t ∈ token.when present, t.HasLexeme := by
  cases present with
  | true => exact List.forall_mem_singleton.2 h
  | false => exact fun _ ht => absurd ht List.not_mem_nil

/-! ## Types -/

section Forms

variable {α : Type} {form : α → List Token → Prop} {type : TypeExpr}

/-- Items that can be expressed can be joined. -/
theorem expressible_joined {c : Char} (hc : c ∈ symbols) {items : List α} (hne : items ≠ [])
    (h : ∀ a ∈ items, Expressible form a) : Expressible (Joined form (.symbol c)) items := by
  induction items with
  | nil => exact absurd rfl hne
  | cons a items ih =>
    obtain ⟨⟨tokens, hform, htokens⟩, hothers⟩ := List.forall_mem_cons.1 h
    cases items with
    | nil => exact ⟨tokens, .single hform, htokens⟩
    | cons b items =>
      obtain ⟨more, hforms, hmore⟩ := ih (by simp) hothers
      refine ⟨_, .cons hform hforms, List.forall_mem_append.2 ⟨htokens, ?_⟩⟩
      exact List.forall_mem_cons.2 ⟨hasLexeme_symbol hc, hmore⟩

/-- In parentheses any type can stand as one without operators, -/
theorem Expressible.parentheses (h : Expressible Written type) :
    Expressible (PrimaryForm Written) type := by
  obtain ⟨tokens, hform, htokens⟩ := h
  refine ⟨_, .parentheses hform, List.forall_mem_cons.2 ⟨hasLexeme_symbol (by decide), ?_⟩⟩
  exact List.forall_mem_append.2
    ⟨htokens, List.forall_mem_singleton.2 (hasLexeme_symbol (by decide))⟩

/-- and so as an operand, -/
theorem Expressible.operand (h : Expressible Written type) :
    Expressible (ArrayForm Written) type := by
  obtain ⟨tokens, hform, htokens⟩ := h.parentheses
  exact ⟨tokens, .primary hform, htokens⟩

/-- and so as an alternative. -/
theorem Expressible.alternative (h : Expressible Written type) :
    Expressible (IntersectionForm Written) type := by
  obtain ⟨tokens, hform, htokens⟩ := h.operand
  exact ⟨tokens, .single false hform, htokens⟩

/-- A type without operators is a type. -/
theorem Expressible.written (h : Expressible (PrimaryForm Written) type) :
    Expressible Written type := by
  obtain ⟨tokens, hform, htokens⟩ := h
  exact ⟨tokens, .mk (.single false (.single false (.primary hform))), htokens⟩

/-- A literal that is spelled rightly can be expressed. -/
theorem expressible_literal {value : Literal} (h : (TypeExpr.literal value).PartSpelled) :
    Expressible (PrimaryForm Written) (.literal value) := by
  cases value with
  | string text => exact ⟨_, .string text, List.forall_mem_singleton.2 (hasLexeme_string text)⟩
  | number text => exact ⟨_, .number text, List.forall_mem_singleton.2 ⟨_, .number h⟩⟩
  | bool value =>
    have hword : isIdentifier (if value then "true" else "false") = true := by
      cases value <;> decide
    exact ⟨_, .bool value, List.forall_mem_singleton.2 (hasLexeme_word hword)⟩

/-- A reference can be expressed by its name and its arguments. -/
theorem expressible_reference {name : String} {args : List TypeExpr}
    (hname : (TypeExpr.reference name args).PartSpelled)
    (h : ∀ type ∈ args, Expressible Written type) :
    Expressible (PrimaryForm Written) (.reference name args) := by
  obtain ⟨hdotted, hreserved⟩ := hname
  by_cases hne : args = []
  · subst hne
    exact ⟨_, .reference hreserved, List.forall_mem_singleton.2 ⟨_, .name hdotted⟩⟩
  · obtain ⟨tokens, hforms, htokens⟩ := expressible_joined (c := ',') (by decide) hne h
    refine ⟨_, .generic hreserved hforms, ?_⟩
    simp only [List.forall_mem_cons, List.forall_mem_append]
    exact ⟨⟨_, .name hdotted⟩, hasLexeme_symbol (by decide), htokens,
      hasLexeme_symbol (by decide), by simp⟩

theorem expressible_slot {slot : Slot} (h : Expressible Written slot.type) :
    Expressible (SlotForm Written) slot := by
  obtain ⟨type, isOptional, isRest⟩ := slot
  obtain ⟨tokens, hform, htokens⟩ := h
  refine ⟨_, .slot isOptional isRest hform, ?_⟩
  exact List.forall_mem_append.2 ⟨hasLexeme_when hasLexeme_dots,
    List.forall_mem_append.2 ⟨htokens, hasLexeme_when (hasLexeme_symbol (by decide))⟩⟩

/-- A tuple can be expressed slot by slot. -/
theorem expressible_tuple {slots : List Slot}
    (h : ∀ slot ∈ slots, Expressible (SlotForm Written) slot) :
    Expressible (PrimaryForm Written) (.tuple slots) := by
  by_cases hne : slots = []
  · subst hne
    refine ⟨_, .emptyTuple, ?_⟩
    simp only [List.forall_mem_cons]
    exact ⟨hasLexeme_symbol (by decide), hasLexeme_symbol (by decide), by simp⟩
  · obtain ⟨tokens, hforms, htokens⟩ := expressible_joined (c := ',') (by decide) hne h
    refine ⟨_, .tuple false hforms, ?_⟩
    simp only [List.forall_mem_cons, List.forall_mem_append]
    exact ⟨hasLexeme_symbol (by decide), htokens, hasLexeme_when (hasLexeme_symbol (by decide)),
      hasLexeme_symbol (by decide), by simp⟩

theorem expressible_key {key : MemberKey} (hk : key.Spelled)
    (h : ∀ param type, key = .index param type → Expressible Written type) :
    Expressible (KeyForm Written) key := by
  cases key with
  | named name => exact ⟨_, .quoted name, List.forall_mem_singleton.2 (hasLexeme_string name)⟩
  | index param type =>
    obtain ⟨tokens, hform, htokens⟩ := h param type rfl
    refine ⟨_, .index hk hform, ?_⟩
    simp only [List.forall_mem_cons, List.forall_mem_append]
    exact ⟨hasLexeme_symbol (by decide), hasLexeme_word hk, hasLexeme_symbol (by decide), htokens,
      hasLexeme_symbol (by decide), by simp⟩

/-- A member can be expressed with its key and its type, if these can. -/
theorem expressible_member {member : Member} (hm : member.Readable)
    (ht : Expressible Written member.type)
    (hk : ∀ param type, member.key = .index param type → Expressible Written type) :
    Expressible (MemberForm Written) member := by
  obtain ⟨keyTokens, hkey, hkeyTokens⟩ := expressible_key hm.1.1 hk
  obtain ⟨tokens, hform, htokens⟩ := ht
  obtain ⟨key, type, isOptional, isReadonly, comment⟩ := member
  obtain rfl : comment = none := hm.1.2
  have hreadonly : (Token.name "readonly").HasLexeme := hasLexeme_word (by decide)
  refine ⟨_, .member isOptional isReadonly hkey hform, ?_⟩
  simp only [List.forall_mem_append, List.forall_mem_cons]
  exact ⟨hasLexeme_when hreadonly, hkeyTokens, hasLexeme_when (hasLexeme_symbol (by decide)),
    hasLexeme_symbol (by decide), htokens⟩

/-- Members can be expressed one by one. -/
theorem expressible_members {members : List Member}
    (h : ∀ member ∈ members, Expressible (MemberForm Written) member) :
    Expressible (MembersForm Written) members := by
  induction members with
  | nil => exact ⟨[], .nil, by simp⟩
  | cons member members ih =>
    obtain ⟨⟨tokens, hform, htokens⟩, hothers⟩ := List.forall_mem_cons.1 h
    obtain ⟨more, hforms, hmore⟩ := ih hothers
    exact ⟨_, .cons hform (.inl rfl) hforms, List.forall_mem_append.2 ⟨htokens, hmore⟩⟩

end Forms

/-- Every type that may come out of a text can be written. -/
theorem expressible_type {type : TypeExpr} (h : type.Readable) : Expressible Written type := by
  induction type using TypeExpr.ind with
  | keyword word =>
    have hword : isIdentifier word.text = true := by cases word <;> decide
    exact Expressible.written
      ⟨_, .keyword word, List.forall_mem_singleton.2 (hasLexeme_word hword)⟩
  | literal value => exact (expressible_literal (forall_parts_literal.1 h).1).written
  | reference name args ih =>
    obtain ⟨⟨hname, -⟩, hargs⟩ := forall_parts_reference.1 h
    exact (expressible_reference hname fun type ht => ih type ht (hargs type ht)).written
  | array element ih =>
    obtain ⟨tokens, hform, htokens⟩ := (ih (forall_parts_array.1 h).2).operand
    refine ⟨_, .mk (.single false (.single false (.array hform))), ?_⟩
    simp only [Token.when, Bool.false_eq_true, if_false, List.nil_append, List.forall_mem_append,
      List.forall_mem_cons]
    exact ⟨htokens, hasLexeme_symbol (by decide), hasLexeme_symbol (by decide), by simp⟩
  | tuple slots ih =>
    have hslots := (forall_parts_tuple.1 h).2
    exact (expressible_tuple fun slot hs =>
      expressible_slot (ih slot hs (hslots slot hs))).written
  | object members ih =>
    have hmembers := TypeExpr.readable_object.1 h
    obtain ⟨tokens, hforms, htokens⟩ := expressible_members fun member hm =>
      expressible_member (hmembers member hm) ((ih member hm).1 (hmembers member hm).type)
        fun param type hk => (ih member hm).2 param type hk ((hmembers member hm).index hk)
    refine Expressible.written ⟨_, .object hforms, ?_⟩
    simp only [List.forall_mem_cons, List.forall_mem_append]
    exact ⟨hasLexeme_symbol (by decide), htokens, hasLexeme_symbol (by decide), by simp⟩
  | union members ih =>
    obtain ⟨⟨h2, -⟩, hmembers⟩ := forall_parts_union.1 h
    have hne : members ≠ [] := List.ne_nil_of_length_pos (Nat.zero_lt_two.trans_le h2)
    obtain ⟨tokens, hforms, htokens⟩ := expressible_joined (c := '|') (by decide) hne
      fun type ht => (ih type ht (hmembers type ht)).alternative
    exact ⟨tokens, .mk (unionForm_of_joined h2 false hforms), htokens⟩
  | intersection members ih =>
    obtain ⟨⟨h2, -⟩, hmembers⟩ := forall_parts_intersection.1 h
    have hne : members ≠ [] := List.ne_nil_of_length_pos (Nat.zero_lt_two.trans_le h2)
    obtain ⟨tokens, hforms, htokens⟩ := expressible_joined (c := '&') (by decide) hne
      fun type ht => (ih type ht (hmembers type ht)).operand
    exact ⟨tokens, .mk (.single false (intersectionForm_of_joined h2 hforms)), htokens⟩
  | verbatim text => exact (h _ (TypeExpr.mem_parts_self _)).2.elim

/-! ## Declarations -/

theorem expressible_blockOf {members : List Member} (h : ∀ member ∈ members, member.Readable) :
    Expressible (MembersForm Written) members :=
  expressible_members fun member hm =>
    expressible_member (h member hm) (expressible_type (h member hm).type)
      fun _ _ hk => expressible_type ((h member hm).index hk)

theorem expressible_parents {types : List TypeExpr} (h : ∀ type ∈ types, type.Readable) :
    Expressible ParentsForm types := by
  by_cases hne : types = []
  · subst hne
    exact ⟨[], .nil, by simp⟩
  · obtain ⟨tokens, hforms, htokens⟩ := expressible_joined (c := ',') (by decide) hne
      fun type ht => (expressible_type (h type ht)).operand
    exact ⟨_, .parents hforms, List.forall_mem_cons.2 ⟨hasLexeme_word (by decide), htokens⟩⟩

/-- A declaration that was read can be expressed again. -/
theorem expressible_declaration {declaration : Declaration} (h : declaration.Readable) :
    Expressible DeclarationForm declaration := by
  cases declaration with
  | typeAlias name type comment =>
    obtain ⟨hname, htype, rfl⟩ := h
    obtain ⟨tokens, hform, htokens⟩ := expressible_type htype
    refine ⟨_, .typeAlias hname hform, ?_⟩
    simp only [List.forall_mem_cons]
    exact ⟨hasLexeme_word (by decide), hasLexeme_word hname, hasLexeme_symbol (by decide), htokens⟩
  | interface name parents members comment =>
    obtain ⟨hname, hparents, hmembers, rfl⟩ := h
    obtain ⟨parentTokens, hparentForm, hparentTokens⟩ := expressible_parents hparents
    obtain ⟨tokens, hform, htokens⟩ := expressible_blockOf hmembers
    refine ⟨_, .interface hname hparentForm hform, ?_⟩
    simp only [List.forall_mem_cons, List.forall_mem_append]
    exact ⟨hasLexeme_word (by decide), hasLexeme_word hname, hparentTokens,
      hasLexeme_symbol (by decide), htokens, hasLexeme_symbol (by decide), by simp⟩

theorem expressible_declarations {declarations : Declarations}
    (h : ∀ declaration ∈ declarations, declaration.Readable) :
    Expressible DeclarationsForm declarations := by
  induction declarations with
  | nil => exact ⟨[], .nil, by simp⟩
  | cons declaration declarations ih =>
    obtain ⟨hfirst, hothers⟩ := List.forall_mem_cons.1 h
    obtain ⟨tokens, hform, htokens⟩ := expressible_declaration hfirst
    obtain ⟨more, hforms, hmore⟩ := ih hothers
    refine ⟨_, .cons false false false hform hforms, ?_⟩
    show ∀ token ∈ tokens ++ more, token.HasLexeme
    exact List.forall_mem_append.2 ⟨htokens, hmore⟩

/-- The text writes the declarations: it spells a form of them. -/
def Writes (source : String) (declarations : Declarations) : Prop :=
  ∃ tokens, DeclarationsForm declarations tokens ∧ Spells tokens source.toList

/-- For declarations that were read there is a text that writes them. -/
theorem exists_writes {declarations : Declarations}
    (h : ∀ declaration ∈ declarations, declaration.Readable) :
    ∃ source, Writes source declarations := by
  obtain ⟨tokens, hform, htokens⟩ := expressible_declarations h
  obtain ⟨text, htext⟩ := exists_spells htokens
  exact ⟨String.ofList text, tokens, hform, by rwa [String.toList_ofList]⟩

end Source

/-- Whatever way declarations are written in, they are read as themselves. They can be written in
some way just if names and numbers in them are what they should be, operators have at least two
operands, and there are no comments and no types that are texts. -/
theorem Declarations.ofSource_writes (declarations : Declarations) :
    (∀ source, Source.Writes source declarations →
      Declarations.ofSource source = .ok declarations) ∧
    ((∃ source, Source.Writes source declarations) ↔
      ∀ declaration ∈ declarations, declaration.Readable) := by
  have hread : ∀ source, Source.Writes source declarations →
      Declarations.ofSource source = .ok declarations := by
    rintro source ⟨tokens, hform, hspells⟩
    exact Declarations.ofSource_spells hform hspells
  refine ⟨hread, ?_, Source.exists_writes⟩
  rintro ⟨source, hwrites⟩
  exact Declarations.readable_ofSource (hread source hwrites)

namespace Source

section Spellings

variable {tokens : List Token} {text : List Char}

/-- A token right in front of the others. -/
theorem Spells.token {token : Token} {lexeme : List Char} (hl : Lexeme token lexeme)
    (h : Spells tokens text) (he : token.EndsBefore text) :
    Spells (token :: tokens) (lexeme ++ text) :=
  .cons .nil hl h he

theorem Spells.word {s : String} (hs : isIdentifier s = true) (h : Spells tokens text)
    (ha : Apart text) : Spells (.name s :: tokens) (s.toList ++ text) :=
  h.token (.name (.identifier hs)) ha

theorem Spells.symbol {c : Char} (hc : c ∈ symbols) (h : Spells tokens text) :
    Spells (.symbol c :: tokens) (c :: text) :=
  h.token (.symbol hc) trivial

end Spellings

/-- An alias and an interface of two members. -/
def aliasAndInterface : Declarations :=
  [.typeAlias "A" (.array (.literal (.number "1"))) none,
    .interface "B" []
      [⟨.named "a", .literal (.number "1"), false, false, none⟩,
        ⟨.named "b", .literal (.string "x"), true, false, none⟩] none]

/-- A bar in front, an empty comment between the declarations, no mark between the members, where a
name follows a number, and a comment at the end of the text. -/
theorem writes_aliasAndInterface :
    Writes "type A=|1[]/**/interface B\x7ba:1b?:'x'\x7d//" aliasAndInterface := by
  have hone : IsNumber "1".toList :=
    ⟨⟨false, ['1'], [], none⟩, ⟨by simp, by simp, by simp, by simp⟩, rfl⟩
  have htype : Written (.array (.literal (.number "1"))) _ :=
    .mk (.single true (.single false (.array (.primary (.number "1")))))
  have hvalue : Written (.literal (.number "1")) _ :=
    .mk (.single false (.single false (.primary (.number "1"))))
  have htext : Written (.literal (.string "x")) _ :=
    .mk (.single false (.single false (.primary (.string "x"))))
  have hkeyA : KeyForm Written (.named "a") [.name "a"] := .bare (by decide)
  have hkeyB : KeyForm Written (.named "b") [.name "b"] := .bare (by decide)
  have hmembers := MembersForm.cons (.member false false hkeyA hvalue) (.inl rfl)
    (.cons (.member true false hkeyB htext) (.inl rfl) .nil)
  refine ⟨_, .cons false false false (.typeAlias (by decide) htype)
    (.cons false false false (.interface (by decide) .nil hmembers) .nil), ?_⟩
  have hblank : Blanks [' '] := .space (by decide) .nil
  have hcomment : Blanks ('/' :: '*' :: ([] ++ '*' :: '/' :: [])) := .blockComment (by simp) .nil
  have hx : Quoted '\'' ['x'] "x".toList := .plain (c := 'x') (by decide) (by decide) .nil
  -- From the end of the text to its start.
  have hend : Spells [] "//".toList := .lineComment .nil List.not_mem_nil
  have hclose := hend.symbol (c := '}') (by decide)
  have hstring := hclose.token (.string (.inl rfl) hx) trivial
  have hoptional := (hstring.symbol (c := ':') (by decide)).symbol (c := '?') (by decide)
  have hb := hoptional.word (s := "b") (by decide) (apart_cons (by decide) (by decide))
  have hnumber := hb.token (.number hone) <| by
    refine ⟨by rintro c ⟨⟩; decide, fun e he hprefix => ?_⟩
    obtain ⟨rest, hrest⟩ := hprefix
    have hmark : e.mark = 'b' := (List.cons.inj hrest).1
    rcases he.mark with hm | hm <;> rw [hm] at hmark <;> exact absurd hmark (by decide)
  have hcolon := hnumber.symbol (c := ':') (by decide)
  have ha := hcolon.word (s := "a") (by decide) (apart_cons (by decide) (by decide))
  have hopen := ha.symbol (c := '{') (by decide)
  have hname := (hopen.word (s := "B") (by decide)
    (apart_cons (by decide) (by decide))).blanks_append hblank
  have hinterface := (hname.word (s := "interface") (by decide)
    (apart_cons (by decide) (by decide))).blanks_append hcomment
  have hbrackets := (hinterface.symbol (c := ']') (by decide)).symbol (c := '[') (by decide)
  have helement := hbrackets.token (.number hone)
    ((apart_cons (by decide) (by decide)).endsBefore _)
  have hbar := (helement.symbol (c := '|') (by decide)).symbol (c := '=') (by decide)
  have halias := (hbar.word (s := "A") (by decide)
    (apart_cons (by decide) (by decide))).blanks_append hblank
  exact halias.word (s := "type") (by decide) (apart_cons (by decide) (by decide))

/-- The text is read as what it writes. -/
theorem ofSource_writes_aliasAndInterface :
    Writes "type A=|1[]/**/interface B\x7ba:1b?:'x'\x7d//" aliasAndInterface ∧
      Declarations.ofSource "type A=|1[]/**/interface B\x7ba:1b?:'x'\x7d//" =
        .ok aliasAndInterface ∧
      ∀ declaration ∈ aliasAndInterface, declaration.Readable := by
  obtain ⟨hread, hreadable⟩ := Declarations.ofSource_writes aliasAndInterface
  have hwrites := writes_aliasAndInterface
  exact ⟨hwrites, hread _ hwrites, hreadable.1 ⟨_, hwrites⟩⟩

end Source

end LintTypes
