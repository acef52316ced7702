import LintTypes.Proofs.LexicalReading
import LintTypes.Proofs.WrittenForms
import LintTypes.Source.Grammar

/-!
# Reading types

Each parser for a part of a type reads the written forms of that part, as long as the parser for the
types inside reads the forms of these. What follows a type must not go on with it: neither with
arguments or brackets nor with an operator.

`reads_typeExpr` ties the knot: every written type is read back.
-/

namespace LintTypes.Source

open LintTypes.Source.Parser

variable {limit : Nat}

/-! ## What follows a type -/

/-- Tokens that go on neither with arguments nor with a pair of brackets. -/
structure EndsArray (rest : List Token) : Prop where
  arguments : rest.head? ≠ some (.symbol '<')
  brackets : ∀ more, rest ≠ .symbol '[' :: .symbol ']' :: more

/-- Tokens that do not go on with an intersection either. -/
structure EndsIntersection (rest : List Token) : Prop extends EndsArray rest where
  factors : rest.head? ≠ some (.symbol '&')

/-- Tokens that do not go on with a type. -/
structure EndsType (rest : List Token) : Prop extends EndsIntersection rest where
  alternatives : rest.head? ≠ some (.symbol '|')

/-- The tokens that a type may go on with. -/
def continuations : List Token := [.symbol '<', .symbol '[', .symbol '&', .symbol '|']

/-- A type ends where no token follows that could continue it. -/
theorem endsType_of_head {rest : List Token} (h : ∀ t ∈ rest.head?, t ∉ continuations) :
    EndsType rest := by
  cases rest with
  | nil => exact ⟨⟨⟨by simp, by simp⟩, by simp⟩, by simp⟩
  | cons t rest =>
    have ht := h t rfl
    simp only [continuations, List.mem_cons, List.not_mem_nil, or_false, not_or] at ht
    obtain ⟨hl, hb, ha, hp⟩ := ht
    exact ⟨⟨⟨by simpa using hl, by simp [hb]⟩, by simpa using ha⟩, by simpa using hp⟩

theorem endsType_symbol {c : Char} (h : Token.symbol c ∉ continuations) (rest : List Token) :
    EndsType (.symbol c :: rest) :=
  endsType_of_head (by rintro t ⟨⟩; exact h)

/-- A type ends in front of a name. -/
theorem endsType_name (s : String) (rest : List Token) : EndsType (.name s :: rest) :=
  endsType_of_head (by rintro t ⟨⟩; simp [continuations])

/-! ## Single tokens in front -/

section Combinators

variable {α β : Type} {p : Parser α} {f : α → Parser β} {token : Token} {tokens more : List Token}
  {a : α} {b : β} {Follow After : List Token → Prop}

/-- Behind a single token that is read, the bound is less by one. -/
theorem Reads.bind_token (hp : Reads limit p [token] a Anything)
    (hf : Reads (limit - 1) (f a) more b After) : Reads limit (p >>= f) (token :: more) b After :=
  hp.bind hf fun _ _ => trivial

theorem Reads.bind_token_misses (hp : Reads limit p [token] a Anything)
    (hf : Misses limit (f a) more) : Misses limit (p >>= f) (token :: more) :=
  hp.bind_misses hf trivial

/-- A single token that is there or not. -/
theorem reads_when {present : Bool} (hp : Reads limit p [token] a Anything)
    (hmiss : present = false → ∀ rest, Follow rest → Misses limit p rest) :
    Reads limit p.optional (token.when present) (if present then some a else none) Follow :=
  reads_optional hp hmiss

/-! ## Items with separators -/

/-- The first of some joined items, and a parser that reads the others behind it: `q` reads an item
behind a separator. -/
theorem Joined.readsMany {item : α → List Token → Prop} {items : List α} {q : Parser α}
    (h : Joined item token items tokens)
    (hq : ∀ a ts, item a ts → Reads limit q (token :: ts) a Follow)
    (hmiss : ∀ rest, After rest → Misses limit q rest)
    (hsep : ∀ rest, Follow (token :: rest)) (hafter : ∀ rest, After rest → Follow rest) :
    ∃ first others ts more, items = first :: others ∧ tokens = ts ++ more ∧ item first ts ∧
      ReadsMany limit q more others After ∧ ∀ rest, After rest → Follow (more ++ rest) := by
  induction h generalizing limit with
  | @single a ts h => exact ⟨a, [], ts, [], rfl, by simp, h, readsMany_nil hmiss, hafter⟩
  | @cons a items ts more h _ ih =>
    refine ⟨a, items, ts, token :: more, rfl, rfl, h, ?_, fun rest _ => hsep _⟩
    obtain ⟨first, others, ts', more', rfl, rfl, hfirst, hothers, hfollow⟩ := ih hq hmiss
    have hread := hq first ts' hfirst
    exact ReadsMany.cons hread (by simp) (hothers.mono (Nat.sub_le ..)) hfollow

/-- Items with a token in between are read one by one, and a separator that nothing follows is left
where it is. -/
theorem Joined.reads_sepBy1 {item : α → List Token → Prop} {items : List α} {separator : Parser β}
    (h : Joined item token items tokens) (hp : ∀ a ts, item a ts → Reads limit p ts a Follow)
    (hs : Reads limit separator [token] b Anything)
    (hmiss : ∀ rest, After rest → Misses limit (do let _ ← separator; p) rest)
    (hsep : ∀ rest, Follow (token :: rest)) (hafter : ∀ rest, After rest → Follow rest) :
    Reads limit (sepBy1 p separator) tokens items After := by
  have hq : ∀ a ts, item a ts →
      Reads limit (do let _ ← separator; p) (token :: ts) a Follow :=
    fun a ts ha => hs.bind_token ((hp a ts ha).mono (Nat.sub_le ..))
  obtain ⟨first, others, ts, more, rfl, rfl, hfirst, hothers, hfollow⟩ :=
    h.readsMany hq hmiss hsep hafter
  exact (hp first ts hfirst).bind (hothers.mono (Nat.sub_le ..)).many.map hfollow

end Combinators

/-! ## Parts of types -/

section Parts

variable {nested : Parser TypeExpr} {form : TypeExpr → List Token → Prop} {tokens : List Token}

/-- The parser reads the types that the relation writes. These do not begin with three points, and
the parser misses on `]`. -/
structure ReadsTypes (limit : Nat) (nested : Parser TypeExpr)
    (form : TypeExpr → List Token → Prop) : Prop where
  reads : ∀ type tokens, form type tokens → Reads limit nested tokens type EndsType
  dots : ∀ type tokens, form type tokens → ∃ token more, tokens = token :: more ∧ token ≠ .dots
  misses : ∀ more, Misses limit nested (.symbol ']' :: more)

theorem ReadsTypes.mono {limit' : Nat} (h : ReadsTypes limit nested form) (hl : limit' ≤ limit) :
    ReadsTypes limit' nested form :=
  ⟨fun type tokens ht => (h.reads type tokens ht).mono hl, h.dots,
    fun more => (h.misses more).mono hl⟩

/-- Arguments are read up to the closing bracket. -/
theorem reads_typeArguments {args : List TypeExpr} (hn : ReadsTypes (limit - 1) nested form)
    (h : Joined form (.symbol ',') args tokens) :
    Reads limit (typeArguments nested) (.symbol '<' :: (tokens ++ [.symbol '>'])) args
      Anything := by
  have hargs : Reads (limit - 1) (sepBy1 nested (symbol ",")) tokens args
      (fun rest => rest.head? = some (.symbol '>')) := by
    refine h.reads_sepBy1 hn.reads (reads_symbol rfl) ?_ ?_ ?_
    · intro rest hr
      exact (misses_symbol (c := ',') rfl (by decide) (by simp [hr])).bind
    · exact endsType_symbol (by decide)
    · intro rest hr
      exact endsType_of_head (by rw [hr]; rintro t ⟨⟩; decide)
  refine (reads_symbol rfl).bind_token (hargs.commit.bind ?_ fun _ _ => rfl)
  exact (reads_symbol rfl).within.commit.bind_token reads_pure

/-- A name that is not reserved stands for no other type. -/
theorem reservedType?_eq_none {name : String} (h : name ∉ reservedNames) :
    reservedType? name = none := by
  simp only [reservedNames, List.mem_cons, not_or] at h
  obtain ⟨htrue, hfalse, hword⟩ := h
  have : Keyword.ofText? name = none := by
    refine List.find?_eq_none.2 fun k hk he => hword ?_
    exact List.mem_map.2 ⟨k, hk, by simpa using he⟩
  simp [reservedType?, htrue, hfalse, this]

/-- The word of a keyword type stands for it. -/
theorem reservedType?_text (k : Keyword) : reservedType? k.text = some (.keyword k) := by
  cases k <;> rfl

theorem reads_wordOrReference_keyword (k : Keyword) :
    Reads limit (wordOrReference nested) [.name k.text] (.keyword k) Anything := by
  refine reads_dottedName.bind_token ?_
  rw [reservedType?_text]
  exact reads_pure

theorem reads_wordOrReference_bool (value : Bool) :
    Reads limit (wordOrReference nested) [.name (if value then "true" else "false")]
      (.literal (.bool value)) Anything := by
  refine reads_dottedName.bind_token ?_
  cases value <;> exact reads_pure

/-- A name that is not reserved is read as a reference without arguments unless these follow. -/
theorem reads_wordOrReference_reference {name : String} (h : name ∉ reservedNames) :
    Reads limit (wordOrReference nested) [.name name] (.reference name [])
      (fun rest => rest.head? ≠ some (.symbol '<')) := by
  refine reads_dottedName.bind_token ?_
  rw [reservedType?_eq_none h]
  refine (reads_optional_none fun rest hr => ?_).map
  exact (misses_symbol (c := '<') rfl (by decide) hr).bind

/-- A name that is not reserved is read with its arguments. -/
theorem reads_wordOrReference_generic {name : String} {args : List TypeExpr}
    (h : name ∉ reservedNames) (hn : ReadsTypes (limit - 2) nested form)
    (ha : Joined form (.symbol ',') args tokens) :
    Reads limit (wordOrReference nested) (.name name :: .symbol '<' :: (tokens ++ [.symbol '>']))
      (.reference name args) Anything := by
  refine reads_dottedName.bind_token ?_
  rw [reservedType?_eq_none h]
  exact (reads_typeArguments hn ha).optional.map

/-! ### Tuples -/

/-- The tokens behind a slot of a tuple. -/
def EndsSlot (rest : List Token) : Prop :=
  rest.head? = some (.symbol ',') ∨ rest.head? = some (.symbol ']')

theorem EndsSlot.endsType {rest : List Token} (h : EndsSlot rest) : EndsType rest := by
  refine endsType_of_head ?_
  rcases h with h | h <;> rw [h] <;> rintro t ⟨⟩ <;> decide

/-- A slot is read in each of its forms: with dots, with a mark, or plain. -/
theorem reads_slot {slot : Slot} (hn : ReadsTypes limit nested form)
    (h : SlotForm form slot tokens) :
    Reads limit (Parser.slot nested) tokens slot EndsSlot := by
  obtain @⟨type, tokens, isOptional, isRest, h⟩ := h
  have hrest : Reads limit (Parser.optional (symbol "...")) (Token.dots.when isRest)
      (if isRest then some () else none) (fun rest => rest.head? ≠ some .dots) :=
    reads_when reads_dots fun _ _ hr => misses_dots hr
  have hmark (n : Nat) : Reads n (Parser.optional (symbol "?"))
      ((Token.symbol '?').when isOptional) (if isOptional then some () else none) EndsSlot := by
    refine reads_when (reads_symbol rfl) fun _ rest hr => ?_
    exact misses_symbol (c := '?') rfl (by decide) (by rcases hr with hr | hr <;> simp [hr])
  have hvalue : (⟨type, (if isOptional then some () else none).isSome,
      (if isRest then some () else none).isSome⟩ : Slot) = ⟨type, isOptional, isRest⟩ := by
    cases isOptional <;> cases isRest <;> rfl
  refine hrest.bind (((hn.reads type tokens h).mono (Nat.sub_le ..)).bind
    ((hmark _).map_of_eq hvalue) fun rest hr => ?_) fun rest hr => ?_
  · cases isOptional with
    | false => exact hr.endsType
    | true => exact endsType_symbol (by decide) rest
  · obtain ⟨token, more, rfl, hne⟩ := hn.dots type tokens h
    simpa using hne

/-- No slot is read in front of the bracket that closes a tuple. -/
theorem misses_slot (hn : ReadsTypes limit nested form) (more : List Token) :
    Misses limit (Parser.slot nested) (.symbol ']' :: more) := by
  have hrest : Reads limit (Parser.optional (symbol "...")) [] none
      (fun rest => rest.head? ≠ some .dots) :=
    reads_optional_none fun _ hr => misses_dots hr
  exact hrest.bind_misses (hn.misses more).bind (by simp)

/-- The tokens behind the slots of a tuple. -/
def EndsTuple (rest : List Token) : Prop :=
  ∃ comma more, rest = (Token.symbol ',').when comma ++ .symbol ']' :: more

theorem EndsTuple.endsSlot {rest : List Token} (h : EndsTuple rest) : EndsSlot rest := by
  obtain ⟨comma, more, rfl⟩ := h
  cases comma
  · exact Or.inr rfl
  · exact Or.inl rfl

/-- Slots are read one by one. -/
theorem reads_slots {slots : List Slot} (hn : ReadsTypes limit nested form)
    (h : Joined (SlotForm form) (.symbol ',') slots tokens) :
    Reads limit (sepBy (slot nested) (symbol ",")) tokens slots EndsTuple := by
  refine Reads.map_of_eq (Reads.optional ?_) rfl
  refine h.reads_sepBy1 (fun _ _ hs => reads_slot hn hs) (reads_symbol rfl) ?_
    (fun _ => Or.inl rfl) fun _ hr => hr.endsSlot
  rintro rest ⟨comma, more, rfl⟩
  cases comma with
  | false => exact (misses_symbol (c := ',') rfl (by decide) (by simp [Token.when])).bind
  | true => exact (reads_symbol rfl).bind_token_misses (misses_slot hn more)

theorem reads_noSlots (hn : ReadsTypes limit nested form) :
    Reads limit (sepBy (slot nested) (symbol ",")) [] []
      (fun rest => rest.head? = some (.symbol ']')) := by
  refine Reads.map_of_eq (reads_optional_none fun rest hr => ?_) rfl
  obtain ⟨more, rfl⟩ := List.head?_eq_some_iff.1 hr
  exact (misses_slot hn more).bind

theorem reads_emptyTuple (hn : ReadsTypes (limit - 1) nested form) :
    Reads limit (tupleType nested) [.symbol '[', .symbol ']'] (.tuple []) Anything := by
  refine (reads_symbol rfl).bind_token ((reads_noSlots hn).bind ?_ fun _ _ => rfl)
  have hcomma (n : Nat) : Reads n (Parser.optional (symbol ",")) [] none
      (fun rest => rest.head? = some (.symbol ']')) :=
    reads_optional_none fun rest hr => misses_symbol (c := ',') rfl (by decide) (by simp [hr])
  refine (hcomma _).bind ?_ fun _ _ => rfl
  exact (reads_symbol rfl).within.commit.bind_token reads_pure

/-- A tuple is read with or without a comma behind its last slot. -/
theorem reads_tuple {slots : List Slot} (hn : ReadsTypes (limit - 1) nested form) (comma : Bool)
    (h : Joined (SlotForm form) (.symbol ',') slots tokens) :
    Reads limit (tupleType nested)
      (.symbol '[' :: (tokens ++ ((Token.symbol ',').when comma ++ [.symbol ']'])))
      (.tuple slots) Anything := by
  have hcomma (n : Nat) : Reads n (Parser.optional (symbol ",")) ((Token.symbol ',').when comma)
      (if comma then some () else none) (fun rest => rest.head? = some (.symbol ']')) := by
    refine reads_when (reads_symbol rfl) fun _ rest hr => ?_
    exact misses_symbol (c := ',') rfl (by decide) (by simp [hr])
  refine (reads_symbol rfl).bind_token ((reads_slots hn h).bind ?_ fun rest _ => ⟨comma, rest, ?_⟩)
  · refine (hcomma _).bind ?_ fun _ _ => rfl
    exact (reads_symbol rfl).within.commit.bind_token reads_pure
  · rw [List.append_assoc, List.singleton_append]

/-! ### Object types -/

/-- An index signature is read with its parameter and the type of its keys. -/
theorem reads_indexSignature {param : String} {type : TypeExpr} (hp : isIdentifier param = true)
    (hn : ReadsTypes (limit - 1) nested form) (h : form type tokens) :
    Reads limit (indexSignature nested)
      (.symbol '[' :: .name param :: .symbol ':' :: (tokens ++ [.symbol ']']))
      (.index param type) Anything := by
  refine (reads_symbol rfl).bind_token ((reads_identifier hp).bind_token
    ((reads_symbol rfl).bind_token ?_))
  refine ((hn.reads type tokens h).mono (by omega)).commit.bind ?_
    fun rest _ => endsType_symbol (by decide) rest
  exact (reads_symbol rfl).within.commit.bind_token reads_pure

theorem misses_indexSignature (hne : tokens.head? ≠ some (.symbol '[')) :
    Misses limit (indexSignature nested) tokens :=
  (misses_symbol (c := '[') rfl (by decide) hne).bind

/-- A key is read in each of its forms. -/
theorem reads_memberKey {key : MemberKey} (hn : ReadsTypes (limit - 1) nested form)
    (h : KeyForm form key tokens) : Reads limit (memberKey nested) tokens key Anything := by
  cases h with
  | bare hname =>
    refine Reads.firstOf_skip (Reads.firstOf (reads_identifier hname).map) fun rest _ => ?_
    exact misses_indexSignature (by simp)
  | quoted name =>
    refine Reads.firstOf_skip (Reads.firstOf_skip (Reads.firstOf reads_stringLiteral.map) ?_) ?_
    · exact fun rest _ => (misses_identifier (by simp)).bind
    · exact fun rest _ => misses_indexSignature (by simp)
  | index hp h => exact Reads.firstOf (reads_indexSignature hp hn h)

theorem misses_memberKey (more : List Token) :
    Misses limit (memberKey nested) (.symbol '}' :: more) := by
  refine misses_firstOf (misses_numberLiteral (by simp)).bind fun q hq => ?_
  simp only [List.mem_cons, List.not_mem_nil, or_false] at hq
  rcases hq with rfl | rfl | rfl
  · exact misses_indexSignature (by simp)
  · exact (misses_identifier (by simp)).bind
  · exact (misses_stringLiteral (by simp)).bind

/-- A key begins with a name, a quoted name or a bracket in front of a name. -/
theorem KeyForm.head {key : MemberKey} (h : KeyForm form key tokens) :
    ∃ token more, tokens = token :: more ∧ token ≠ .symbol ':' ∧ token ≠ .symbol '?' ∧
      (∀ s, token = .name s → isIdentifier s = true ∧ more = []) := by
  cases h with
  | @bare name hname =>
    exact ⟨.name name, [], rfl, by simp, by simp, by rintro s ⟨⟩; exact ⟨hname, rfl⟩⟩
  | quoted name => exact ⟨.string name, [], rfl, by simp, by simp, by simp⟩
  | index _ _ => exact ⟨.symbol '[', _, rfl, by simp, by simp, by simp⟩

/-- The tokens behind the key of a member. -/
def EndsKey (rest : List Token) : Prop :=
  rest.head? = some (.symbol ':') ∨ rest.head? = some (.symbol '?')

theorem misses_colonOrMark (hc : tokens.head? ≠ some (.symbol ':'))
    (hm : tokens.head? ≠ some (.symbol '?')) :
    Misses limit (firstOf (symbol ":") [symbol "?"]) tokens := by
  refine misses_firstOf (misses_symbol (c := ':') rfl (by decide) hc) fun q hq => ?_
  rw [List.mem_singleton.1 hq]
  exact misses_symbol (c := '?') rfl (by decide) hm

/-- Behind a key there is a colon or a question mark. -/
theorem reads_colonOrMark {rest : List Token} (h : EndsKey rest) :
    ∃ token more, rest = token :: more ∧
      Reads limit (firstOf (symbol ":") [symbol "?"]) [token] () Anything := by
  rcases h with h | h
  · obtain ⟨more, rfl⟩ := List.head?_eq_some_iff.1 h
    refine ⟨_, more, rfl, Reads.firstOf_skip (Reads.firstOf_last (reads_symbol rfl)) ?_⟩
    exact fun _ _ => misses_symbol (c := '?') rfl (by decide) (by simp)
  · obtain ⟨more, rfl⟩ := List.head?_eq_some_iff.1 h
    exact ⟨_, more, rfl, Reads.firstOf (reads_symbol rfl)⟩

/-- The word `readonly` is a mark only if no colon and no question mark follows: otherwise it is a
key. -/
theorem reads_readonlyMark :
    Reads limit readonlyMark [.name "readonly"] ()
      (fun rest => rest.head? ≠ some (.symbol ':') ∧ rest.head? ≠ some (.symbol '?')) :=
  reads_word.bind (reads_absent fun _ hr => misses_colonOrMark hr.1 hr.2) fun _ _ => trivial

/-- A key is not taken for the mark in front of a key. -/
theorem misses_readonlyMark {key : MemberKey} (h : KeyForm form key tokens) {rest : List Token}
    (hr : EndsKey rest) : Misses limit readonlyMark (tokens ++ rest) := by
  obtain ⟨token, more, rfl, -, -, hname⟩ := h.head
  by_cases hword : token = .name "readonly"
  · obtain ⟨-, rfl⟩ := hname _ hword
    obtain ⟨next, others, rfl, hnext⟩ := @reads_colonOrMark limit _ hr
    rw [hword]
    exact reads_word.bind_token_misses (hnext.misses_absent others)
  · refine (misses_word (by decide) fun s hs => ?_).bind
    obtain rfl : token = .name s := by simpa using hs
    exact ⟨(hname s rfl).1, by rintro rfl; exact hword rfl⟩

/-- A member is read with its mark, its key, and its type. -/
theorem reads_member {member : Member} (hn : ReadsTypes (limit - 1) nested form)
    (h : MemberForm form member tokens) :
    Reads limit (Parser.member nested) tokens member EndsType := by
  obtain @⟨key, type, keyTokens, tokens, isOptional, isReadonly, hk, h⟩ := h
  have hreadonly : Reads limit (Parser.optional readonlyMark)
      ((Token.name "readonly").when isReadonly) (if isReadonly then some () else none)
      (fun rest => ∃ more, rest = keyTokens ++ more ∧ EndsKey more) := by
    cases isReadonly with
    | false =>
      refine reads_optional_none ?_
      rintro rest ⟨more, rfl, hmore⟩
      exact misses_readonlyMark hk hmore
    | true =>
      refine reads_readonlyMark.optional.follow ?_
      rintro rest ⟨more, rfl, -⟩
      obtain ⟨token, others, rfl, hcolon, hmark, -⟩ := hk.head
      exact ⟨by simpa using hcolon, by simpa using hmark⟩
  have hmark (n : Nat) : Reads n (Parser.optional (symbol "?"))
      ((Token.symbol '?').when isOptional) (if isOptional then some () else none)
      (fun rest => rest.head? = some (.symbol ':')) := by
    refine reads_when (reads_symbol rfl) fun _ rest hr => ?_
    exact misses_symbol (c := '?') rfl (by decide) (by simp [hr])
  have hvalue : (⟨key, type, (if isOptional then some () else none).isSome,
      (if isReadonly then some () else none).isSome, none⟩ : Member)
        = ⟨key, type, isOptional, isReadonly, none⟩ := by
    cases isOptional <;> cases isReadonly <;> rfl
  refine hreadonly.bind ((reads_memberKey (hn.mono (by omega)) hk).bind ?_ fun _ _ => trivial)
    fun rest hr => ?_
  · refine (hmark _).bind ?_ fun _ _ => rfl
    refine (reads_symbol rfl).within.commit.bind_token ?_
    exact ((hn.reads type tokens h).mono (by omega)).commit.map_of_eq hvalue
  · refine ⟨_, List.append_assoc .., ?_⟩
    cases isOptional
    · exact Or.inl rfl
    · exact Or.inr rfl

/-- No member is read in front of the brace that closes the block. -/
theorem misses_member (more : List Token) :
    Misses limit (Parser.member nested) (.symbol '}' :: more) := by
  have hreadonly : Reads limit (Parser.optional readonlyMark) [] none
      (fun rest => rest.head? = some (.symbol '}')) :=
    reads_optional_none fun rest hr => (misses_word (by decide) (by simp [hr])).bind
  exact hreadonly.bind_misses (misses_memberKey more).bind rfl

/-- Tokens that go on neither with the type of a member nor with a mark behind it. -/
structure EndsMember (rest : List Token) : Prop extends EndsType rest where
  comma : rest.head? ≠ some (.symbol ',')
  semicolon : rest.head? ≠ some (.symbol ';')

/-- No member goes on with the member before it. -/
theorem MemberForm.endsMember {member : Member} (h : MemberForm form member tokens)
    (rest : List Token) : EndsMember (tokens ++ rest) := by
  obtain @⟨key, type, keyTokens, tokens, isOptional, isReadonly, hk, -⟩ := h
  cases isReadonly with
  | true => exact ⟨endsType_name _ _, by simp [Token.when], by simp [Token.when]⟩
  | false =>
    simp only [Token.when, Bool.false_eq_true, if_false, List.nil_append]
    cases hk with
    | bare _ => exact ⟨endsType_name _ _, by simp, by simp⟩
    | quoted name =>
      refine ⟨endsType_of_head ?_, by simp, by simp⟩
      rintro t ⟨⟩
      simp [continuations]
    | index _ _ => exact ⟨⟨⟨⟨by simp, by simp⟩, by simp⟩, by simp⟩, by simp, by simp⟩

/-- Behind a member there is another one, a separator, or the closing brace. -/
theorem MembersForm.endsMember {members : List Member} (h : MembersForm form members tokens)
    {rest : List Token} (hr : rest.head? = some (.symbol '}')) : EndsMember (tokens ++ rest) := by
  obtain ⟨more, rfl⟩ := List.head?_eq_some_iff.1 hr
  cases h with
  | nil => exact ⟨endsType_symbol (by decide) more, by simp, by simp⟩
  | cons h _ _ => rw [List.append_assoc]; exact h.endsMember _

theorem MemberForm.ne_nil {member : Member} (h : MemberForm form member tokens) :
    tokens ≠ [] := by
  cases h
  simp

/-- The mark between two members. -/
theorem reads_separator {separator : List Token}
    (hsep : separator = [] ∨ separator = [.symbol ';'] ∨ separator = [.symbol ',']) :
    ∃ mark, Reads limit (Parser.optional (firstOf (symbol ",") [symbol ";"])) separator mark
      EndsMember := by
  rcases hsep with rfl | rfl | rfl
  · refine ⟨none, reads_optional_none fun rest hr => ?_⟩
    refine misses_firstOf (misses_symbol (c := ',') rfl (by decide) hr.comma) fun q hq => ?_
    rw [List.mem_singleton.1 hq]
    exact misses_symbol (c := ';') rfl (by decide) hr.semicolon
  · exact ⟨some (), (Reads.firstOf (reads_symbol rfl)).optional.follow fun _ _ => trivial⟩
  · refine ⟨some (), Reads.follow (Reads.optional ?_) fun _ _ => trivial⟩
    refine Reads.firstOf_skip (Reads.firstOf_last (reads_symbol rfl)) fun _ _ => ?_
    exact misses_symbol (c := ';') rfl (by decide) (by simp)

/-- One member with the mark behind it. -/
theorem reads_separatedMember {member : Member} {separator : List Token}
    (hn : ReadsTypes (limit - 1) nested form) (h : MemberForm form member tokens)
    (hsep : separator = [] ∨ separator = [.symbol ';'] ∨ separator = [.symbol ',']) :
    Reads limit (do
        let member ← Parser.member nested
        let _ ← Parser.optional (firstOf (symbol ",") [symbol ";"])
        return member) (tokens ++ separator) member EndsMember := by
  obtain ⟨mark, hmark⟩ := @reads_separator (limit - tokens.length) _ hsep
  refine (reads_member hn h).bind (hmark.map_of_eq rfl) fun rest hr => ?_
  rcases hsep with rfl | rfl | rfl
  · exact hr.toEndsType
  · exact endsType_symbol (by decide) rest
  · exact endsType_symbol (by decide) rest

/-- Members are read one by one with the separators behind them. The induction is on their list. -/
theorem reads_members {members : List Member} (hn : ReadsTypes (limit - 1) nested form)
    (h : MembersForm form members tokens) :
    ReadsMany limit (do
        let member ← Parser.member nested
        let _ ← Parser.optional (firstOf (symbol ",") [symbol ";"])
        return member) tokens members
      (fun rest => rest.head? = some (.symbol '}')) := by
  induction h generalizing limit with
  | nil =>
    refine readsMany_nil fun rest hr => ?_
    obtain ⟨more, rfl⟩ := List.head?_eq_some_iff.1 hr
    exact (misses_member more).bind
  | @cons member members tokens separator more h hsep hs ih =>
    have hmember := reads_separatedMember hn h hsep
    rw [← List.append_assoc]
    refine ReadsMany.cons hmember (by simp [h.ne_nil]) (ih (hn.mono (by omega))) fun rest hr => ?_
    exact hs.endsMember hr

/-- A block of members is read between its braces. -/
theorem reads_memberBlock {members : List Member} (hn : ReadsTypes (limit - 1) nested form)
    (h : MembersForm form members tokens) :
    Reads limit (memberBlock nested) (.symbol '{' :: (tokens ++ [.symbol '}'])) members
      Anything := by
  refine (reads_symbol rfl).bind_token ?_
  refine (reads_members (hn.mono (Nat.sub_le ..)) h).many.bind ?_ fun _ _ => rfl
  exact (reads_symbol rfl).within.commit.bind_token reads_pure

/-! ### Operands -/

/-- A type in parentheses is read as what is inside. -/
theorem reads_parenthesizedType {type : TypeExpr} (hn : ReadsTypes (limit - 1) nested form)
    (h : form type tokens) :
    Reads limit (parenthesizedType nested) (.symbol '(' :: (tokens ++ [.symbol ')'])) type
      Anything := by
  refine (reads_symbol rfl).bind_token ?_
  refine (hn.reads type tokens h).commit.bind ?_ fun rest _ => endsType_symbol (by decide) rest
  exact (reads_symbol rfl).within.commit.bind_token reads_pure

theorem misses_parenthesizedType (hne : tokens.head? ≠ some (.symbol '(')) :
    Misses limit (parenthesizedType nested) tokens :=
  (misses_symbol (c := '(') rfl (by decide) hne).bind

theorem misses_tupleType (hne : tokens.head? ≠ some (.symbol '[')) :
    Misses limit (tupleType nested) tokens :=
  (misses_symbol (c := '[') rfl (by decide) hne).bind

theorem misses_objectType (hne : tokens.head? ≠ some (.symbol '{')) :
    Misses limit (do return TypeExpr.object (← memberBlock nested)) tokens :=
  ((misses_symbol (c := '{') rfl (by decide) hne).bind).bind

/-- Only words and references begin with a name. -/
theorem reads_primaryType_name {name : String} {type : TypeExpr} {Follow : List Token → Prop}
    (h : Reads limit (wordOrReference nested) (.name name :: tokens) type Follow) :
    Reads limit (primaryType nested) (.name name :: tokens) type Follow := by
  refine (Reads.firstOf_last h).firstOf_skip ?_ |>.firstOf_skip ?_ |>.firstOf_skip ?_
    |>.firstOf_skip ?_ |>.firstOf_skip ?_ |>.within
  · exact fun _ _ => (misses_numberLiteral (by simp)).bind
  · exact fun _ _ => (misses_stringLiteral (by simp)).bind
  · exact fun _ _ => misses_objectType (by simp)
  · exact fun _ _ => misses_tupleType (by simp)
  · exact fun _ _ => misses_parenthesizedType (by simp)

theorem reads_primaryType_tuple {type : TypeExpr}
    (h : Reads limit (tupleType nested) (.symbol '[' :: tokens) type Anything) :
    Reads limit (primaryType nested) (.symbol '[' :: tokens) type Anything := by
  refine (Reads.firstOf h).firstOf_skip ?_ |>.within
  exact fun _ _ => misses_parenthesizedType (by simp)

/-- A type without operators is read in each of its forms. The alternatives that are tried before
the right one miss at the first token. -/
theorem reads_primaryType {type : TypeExpr} (hn : ReadsTypes (limit - 1) nested form)
    (h : PrimaryForm form type tokens) :
    Reads limit (primaryType nested) tokens type
      (fun rest => rest.head? ≠ some (.symbol '<')) := by
  cases h with
  | keyword word =>
    exact (reads_primaryType_name (reads_wordOrReference_keyword word)).follow fun _ _ => trivial
  | bool value =>
    exact (reads_primaryType_name (reads_wordOrReference_bool value)).follow fun _ _ => trivial
  | string value =>
    refine (Reads.firstOf reads_stringLiteral.map).firstOf_skip ?_ |>.firstOf_skip ?_
      |>.firstOf_skip ?_ |>.within.follow fun _ _ => trivial
    · exact fun _ _ => misses_objectType (by simp)
    · exact fun _ _ => misses_tupleType (by simp)
    · exact fun _ _ => misses_parenthesizedType (by simp)
  | number text =>
    refine (Reads.firstOf reads_numberLiteral.map).firstOf_skip ?_ |>.firstOf_skip ?_
      |>.firstOf_skip ?_ |>.firstOf_skip ?_ |>.within.follow fun _ _ => trivial
    · exact fun _ _ => (misses_stringLiteral (by simp)).bind
    · exact fun _ _ => misses_objectType (by simp)
    · exact fun _ _ => misses_tupleType (by simp)
    · exact fun _ _ => misses_parenthesizedType (by simp)
  | reference h => exact reads_primaryType_name (reads_wordOrReference_reference h)
  | generic h ha =>
    refine (reads_primaryType_name ?_).follow fun _ _ => trivial
    exact reads_wordOrReference_generic h (hn.mono (by omega)) ha
  | parentheses h =>
    exact (Reads.firstOf (reads_parenthesizedType hn h)).within.follow fun _ _ => trivial
  | emptyTuple => exact (reads_primaryType_tuple (reads_emptyTuple hn)).follow fun _ _ => trivial
  | tuple comma h =>
    exact (reads_primaryType_tuple (reads_tuple hn comma h)).follow fun _ _ => trivial
  | object h =>
    refine (Reads.firstOf (Reads.map ?_)).firstOf_skip ?_ |>.firstOf_skip ?_
      |>.within.follow fun _ _ => trivial
    · exact reads_memberBlock hn h
    · exact fun _ _ => misses_tupleType (by simp)
    · exact fun _ _ => misses_parenthesizedType (by simp)

theorem misses_primaryType (more : List Token) :
    Misses limit (primaryType nested) (.symbol ']' :: more) := by
  refine (misses_firstOf (misses_dottedName (by simp)).bind fun q hq => ?_).within
  simp only [List.mem_cons, List.not_mem_nil, or_false] at hq
  rcases hq with rfl | rfl | rfl | rfl | rfl
  · exact misses_parenthesizedType (by simp)
  · exact misses_tupleType (by simp)
  · exact misses_objectType (by simp)
  · exact (misses_stringLiteral (by simp)).bind
  · exact (misses_numberLiteral (by simp)).bind

/-! ### Operators -/

/-- `count` pairs of brackets. -/
def bracketPairs (count : Nat) : List Token :=
  (List.replicate count [Token.symbol '[', Token.symbol ']']).flatten

/-- A type in front of which an operator may stand is one without operators in front of pairs of
brackets. -/
theorem ArrayForm.base {type : TypeExpr} (h : ArrayForm form type tokens) :
    ∃ element count ts, PrimaryForm form element ts ∧ tokens = ts ++ bracketPairs count ∧
      type = (List.replicate count ()).foldl (fun type _ => TypeExpr.array type) element := by
  induction h with
  | @primary type tokens h => exact ⟨type, 0, tokens, h, by simp [bracketPairs], rfl⟩
  | array _ ih =>
    obtain ⟨element, count, ts, h, rfl, rfl⟩ := ih
    refine ⟨element, count + 1, ts, h, ?_, ?_⟩
    · simp [bracketPairs, List.replicate_succ']
    · rw [List.replicate_succ', List.foldl_append]
      rfl

theorem misses_bracketPair (hne : ∀ more, tokens ≠ .symbol '[' :: .symbol ']' :: more) :
    Misses limit (do symbol "["; symbol "]") tokens := by
  by_cases hopen : tokens.head? = some (.symbol '[')
  · obtain ⟨more, rfl⟩ := List.head?_eq_some_iff.1 hopen
    refine (reads_symbol rfl).bind_token_misses (misses_symbol (c := ']') rfl (by decide) ?_)
    intro hclose
    obtain ⟨others, rfl⟩ := List.head?_eq_some_iff.1 hclose
    exact hne others rfl
  · exact (misses_symbol (c := '[') rfl (by decide) hopen).bind

/-- Pairs of brackets are read as long as there are any. -/
theorem reads_bracketPairs (count : Nat) :
    ReadsMany limit (do symbol "["; symbol "]") (bracketPairs count) (List.replicate count ())
      (fun rest => ∀ more, rest ≠ .symbol '[' :: .symbol ']' :: more) := by
  induction count generalizing limit with
  | zero => exact readsMany_nil fun _ hr => misses_bracketPair hr
  | succ count ih =>
    have hpair : Reads limit (do symbol "["; symbol "]") [.symbol '[', .symbol ']'] ()
        Anything :=
      (reads_symbol rfl).bind_token (reads_symbol rfl)
    exact ReadsMany.cons hpair (by simp) ih fun _ _ => trivial

/-- An array type is read as its element with a pair of brackets for each level. -/
theorem reads_arrayType {type : TypeExpr} (hn : ReadsTypes (limit - 1) nested form)
    (h : ArrayForm form type tokens) :
    Reads limit (arrayType nested) tokens type EndsArray := by
  obtain ⟨element, count, ts, hbase, rfl, rfl⟩ := h.base
  refine (reads_primaryType hn hbase).bind ?_ fun rest hr => ?_
  · exact ((reads_bracketPairs count).many.follow fun _ hr => hr.brackets).map
  · cases count with
    | zero => exact hr.arguments
    | succ count => simp [bracketPairs, List.replicate_succ]

theorem misses_arrayType (more : List Token) :
    Misses limit (arrayType nested) (.symbol ']' :: more) :=
  (misses_primaryType more).bind

/-- The tokens that a type without a leading operator may begin with. -/
def Token.opensOperand : Token → Bool
  | .symbol c => c == '(' || c == '[' || c == '{'
  | .dots => false
  | _ => true

/-- A type without operators starts with a token that opens an operand. -/
theorem PrimaryForm.head {type : TypeExpr} (h : PrimaryForm form type tokens) :
    ∃ token more, tokens = token :: more ∧ token.opensOperand = true := by
  cases h <;> exact ⟨_, _, rfl, rfl⟩

theorem ArrayForm.head {type : TypeExpr} (h : ArrayForm form type tokens) :
    ∃ token more, tokens = token :: more ∧ token.opensOperand = true := by
  induction h with
  | primary h => exact h.head
  | array _ ih =>
    obtain ⟨token, more, rfl, hopen⟩ := ih
    exact ⟨token, _, rfl, hopen⟩

/-- Operands put together; a single one stands for itself. -/
def combine (operator : List TypeExpr → TypeExpr) : List TypeExpr → TypeExpr
  | [type] => type
  | types => operator types

/-- An intersection is made of operands with `&` in between, and perhaps one in front. -/
theorem IntersectionForm.joined {type : TypeExpr} (h : IntersectionForm form type tokens) :
    ∃ lead factors ts, tokens = (Token.symbol '&').when lead ++ ts ∧
      type = combine .intersection factors ∧ Joined (ArrayForm form) (.symbol '&') factors ts := by
  cases h with
  | single lead h => exact ⟨lead, [type], _, rfl, rfl, .single h⟩
  | several lead h => exact ⟨lead, _, _, rfl, rfl, h⟩

/-- A union is made of operands with `|` in between, and perhaps one in front. -/
theorem UnionForm.joined {type : TypeExpr} (h : UnionForm form type tokens) :
    ∃ lead alternatives ts, tokens = (Token.symbol '|').when lead ++ ts ∧
      type = combine .union alternatives ∧
      Joined (IntersectionForm form) (.symbol '|') alternatives ts := by
  cases h with
  | single lead h => exact ⟨lead, [type], _, rfl, rfl, .single h⟩
  | several lead h => exact ⟨lead, _, _, rfl, rfl, h⟩

theorem Joined.head {α : Type} {item : α → List Token → Prop} {separator : Token} {items : List α}
    (h : Joined item separator items tokens) :
    ∃ a ts more, tokens = ts ++ more ∧ item a ts := by
  cases h with
  | single h => exact ⟨_, _, [], by simp, h⟩
  | cons h _ => exact ⟨_, _, _, rfl, h⟩

/-- Operands of `p` are read with the symbol `c` between them and possibly in front. -/
theorem reads_operands {p : Parser TypeExpr} {item : TypeExpr → List Token → Prop} {s : String}
    {c : Char} {operator : List TypeExpr → TypeExpr} {types : List TypeExpr}
    {Follow After : List Token → Prop} (hs : s.toList = [c]) (hc : c ∈ symbols) (lead : Bool)
    (h : Joined item (.symbol c) types tokens)
    (hp : ∀ type ts, item type ts → Reads limit p ts type Follow)
    (hhead : ∀ type ts, item type ts → ∃ token more, ts = token :: more ∧ token ≠ .symbol c)
    (hsep : ∀ rest, Follow (.symbol c :: rest)) (hafter : ∀ rest, After rest → Follow rest)
    (hend : ∀ rest, After rest → rest.head? ≠ some (.symbol c)) :
    Reads limit (do
        let _ ← Parser.optional (symbol s)
        let first ← p
        let others ← many (do symbol s; commit p)
        return if others.isEmpty then first else operator (first :: others))
      ((Token.symbol c).when lead ++ tokens) (combine operator types) After := by
  have hlead : Reads limit (Parser.optional (symbol s)) ((Token.symbol c).when lead)
      (if lead then some () else none) (fun rest => rest.head? ≠ some (.symbol c)) :=
    reads_when (reads_symbol hs) fun _ _ hr => misses_symbol hs hc hr
  have hq : ∀ type ts, item type ts →
      Reads limit (do symbol s; commit p) (.symbol c :: ts) type Follow :=
    fun type ts hi => (reads_symbol hs).bind_token ((hp type ts hi).mono (Nat.sub_le ..)).commit
  have hmiss : ∀ rest, After rest → Misses limit (do symbol s; commit p) rest :=
    fun rest hr => (misses_symbol hs hc (hend rest hr)).bind
  obtain ⟨first, others, ts, more, rfl, rfl, hfirst, hothers, hfollow⟩ :=
    h.readsMany hq hmiss hsep hafter
  have hvalue : (if others.isEmpty then first else operator (first :: others))
      = combine operator (first :: others) := by
    cases others <;> rfl
  refine hlead.bind (((hp first ts hfirst).mono (Nat.sub_le ..)).bind
    ((hothers.mono ?_).many.map_of_eq hvalue) hfollow) fun rest _ => ?_
  · omega
  · obtain ⟨token, others', rfl, hne⟩ := hhead first ts hfirst
    simpa using hne

/-- An intersection is read with all its operands. -/
theorem reads_intersectionType {type : TypeExpr} (hn : ReadsTypes (limit - 1) nested form)
    (h : IntersectionForm form type tokens) :
    Reads limit (intersectionType nested) tokens type EndsIntersection := by
  obtain ⟨lead, factors, ts, rfl, rfl, hjoined⟩ := h.joined
  refine reads_operands rfl (by decide) lead hjoined (fun _ _ h => reads_arrayType hn h) ?_ ?_
    (fun _ hr => hr.toEndsArray) fun _ hr => hr.factors
  · intro type ts h
    obtain ⟨token, more, rfl, hopen⟩ := h.head
    exact ⟨token, more, rfl, by rintro rfl; exact absurd hopen (by decide)⟩
  · exact fun rest => ⟨by simp, by simp⟩

theorem IntersectionForm.head {type : TypeExpr} (h : IntersectionForm form type tokens) :
    ∃ token more, tokens = token :: more ∧ (token.opensOperand = true ∨ token = .symbol '&') := by
  obtain ⟨lead, factors, ts, rfl, rfl, hjoined⟩ := h.joined
  cases lead with
  | true => exact ⟨_, _, rfl, Or.inr rfl⟩
  | false =>
    obtain ⟨a, ts', more, rfl, ha⟩ := hjoined.head
    obtain ⟨token, others, rfl, hopen⟩ := ha.head
    exact ⟨token, _, rfl, Or.inl hopen⟩

/-- A union is read with all its operands. -/
theorem reads_unionType {type : TypeExpr} (hn : ReadsTypes (limit - 1) nested form)
    (h : UnionForm form type tokens) :
    Reads limit (unionType nested) tokens type EndsType := by
  obtain ⟨lead, alternatives, ts, rfl, rfl, hjoined⟩ := h.joined
  refine reads_operands rfl (by decide) lead hjoined (fun _ _ h => reads_intersectionType hn h)
    ?_ ?_ (fun _ hr => hr.toEndsIntersection) fun _ hr => hr.alternatives
  · intro type ts h
    obtain ⟨token, more, rfl, hopen | rfl⟩ := h.head
    · exact ⟨token, more, rfl, by rintro rfl; exact absurd hopen (by decide)⟩
    · exact ⟨_, more, rfl, by decide⟩
  · exact fun rest => ⟨⟨by simp, by simp⟩, by simp⟩

/-- No type starts with dots. -/
theorem UnionForm.head {type : TypeExpr} (h : UnionForm form type tokens) :
    ∃ token more, tokens = token :: more ∧ token ≠ .dots := by
  obtain ⟨lead, alternatives, ts, rfl, rfl, hjoined⟩ := h.joined
  cases lead with
  | true => exact ⟨_, _, rfl, by decide⟩
  | false =>
    obtain ⟨a, ts', more, rfl, ha⟩ := hjoined.head
    obtain ⟨token, others, rfl, hopen | rfl⟩ := ha.head
    · exact ⟨token, _, rfl, by rintro rfl; exact absurd hopen (by decide)⟩
    · exact ⟨_, _, rfl, by decide⟩

theorem misses_unionType (more : List Token) :
    Misses limit (unionType nested) (.symbol ']' :: more) := by
  have hbar (c : Char) (hne : c ≠ ']') {s : String} (hs : s.toList = [c]) (hc : c ∈ symbols) :
      Reads limit (Parser.optional (symbol s)) [] none
        (fun rest => rest.head? = some (.symbol ']')) :=
    reads_optional_none fun rest hr => misses_symbol hs hc (by simp [hr, Ne.symm hne])
  refine (hbar '|' (by decide) rfl (by decide)).bind_misses (Misses.bind ?_) rfl
  exact (hbar '&' (by decide) rfl (by decide)).bind_misses (misses_arrayType more).bind rfl

end Parts

/-! ## Types -/

/-- With a bound of its own, a text that is no longer is read like any text below the bound. -/
theorem readsTypes_typeExpr (bound : Nat) :
    ReadsTypes bound (fun _ inner => typeExpr bound inner) Written := by
  -- A type below has fewer tokens, so that a smaller bound is enough for it.
  induction bound with
  | zero => exact ⟨fun _ _ _ _ _ _ _ ht => absurd ht (Nat.not_lt_zero _),
      fun _ _ h => by obtain ⟨h⟩ := h; exact h.head,
      fun _ _ _ _ ht => absurd ht (Nat.not_lt_zero _)⟩
  | succ bound ih =>
    refine ⟨fun type tokens h => ?_, fun _ _ h => by obtain ⟨h⟩ := h; exact h.head, fun more => ?_⟩
    · obtain ⟨h⟩ := h
      have hread : Reads (bound + 1) (unionType fun _ inner => typeExpr bound inner) tokens type
          EndsType := reads_unionType ih h
      exact fun _ _ _ _ ht hr hs => hread ht ht hr hs
    · have hmiss : Misses (bound + 1) (unionType fun _ inner => typeExpr bound inner)
          (.symbol ']' :: more) := misses_unionType more
      exact fun _ _ _ ht hs => hmiss ht ht hs

/-- Every written type is read back. -/
theorem readsTypes : ReadsTypes limit typeExpr Written where
  reads type tokens h := fun bound _ _ hb _ hr hs =>
    (readsTypes_typeExpr bound).reads type tokens h hb hb hr hs
  dots := (readsTypes_typeExpr limit).dots
  misses more := fun bound _ hb _ hs => (readsTypes_typeExpr bound).misses more hb hb hs

/-- A type that is written by the grammar is read as that type. -/
theorem reads_typeExpr {type : TypeExpr} {tokens : List Token} (h : Written type tokens) :
    Reads limit typeExpr tokens type EndsType :=
  readsTypes.reads type tokens h

end LintTypes.Source
