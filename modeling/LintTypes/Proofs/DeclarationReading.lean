import LintTypes.Proofs.TypeReading

/-!
# Reading declarations

The parsers for declarations read their written forms, so a text that spells the form of some
declarations is read as these declarations.
-/

namespace LintTypes.Source

open LintTypes.Source.Parser

variable {limit : Nat} {tokens : List Token}

/-! ## Single declarations -/

theorem misses_typeParameters (hne : tokens.head? ≠ some (.symbol '<')) :
    Misses limit typeParameters tokens :=
  (misses_symbol (c := '<') rfl (by decide) hne).bind

/-- No type parameters are written. -/
theorem reads_noTypeParameters :
    Reads limit (Parser.optional typeParameters) [] none
      (fun rest => rest.head? ≠ some (.symbol '<')) :=
  reads_optional_none fun _ hr => misses_typeParameters hr

/-- An alias is read with its name and its type. -/
theorem reads_typeAlias {name : String} {type : TypeExpr} (hn : isIdentifier name = true)
    (h : Written type tokens) :
    Reads limit typeAlias (.name "type" :: .name name :: .symbol '=' :: tokens)
      (.typeAlias name type none) EndsType := by
  refine reads_word.bind_token ((reads_identifier hn).within.commit.bind_token ?_)
  refine reads_noTypeParameters.bind ?_ fun rest _ => by simp
  refine (reads_symbol rfl).within.commit.bind_token ?_
  exact (reads_typeExpr h).within.commit.map

theorem misses_parents (hne : tokens.head? = some (.symbol '{')) :
    Misses limit parents tokens :=
  (misses_word (by decide) (by simp [hne])).bind

/-- What an interface extends is read, if there is something. -/
theorem reads_parents {types : List TypeExpr} (h : ParentsForm types tokens) :
    ∃ found, found.getD [] = types ∧ Reads limit (Parser.optional parents) tokens found
      (fun rest => rest.head? = some (.symbol '{')) := by
  cases h with
  | nil => exact ⟨none, rfl, reads_optional_none fun _ hr => misses_parents hr⟩
  | parents h =>
    refine ⟨some types, rfl, (reads_word.bind_token (Reads.commit ?_)).optional⟩
    refine h.reads_sepBy1 (fun _ _ ht => reads_arrayType readsTypes ht) (reads_symbol rfl) ?_ ?_ ?_
    · intro rest hr
      exact (misses_symbol (c := ',') rfl (by decide) (by simp [hr])).bind
    · exact fun rest => ⟨by simp, by simp⟩
    · intro rest hr
      obtain ⟨more, rfl⟩ := List.head?_eq_some_iff.1 hr
      exact ⟨by simp, by simp⟩

/-- An interface is read with its name, what it extends, and its members. -/
theorem reads_interface {name : String} {types : List TypeExpr} {members : List Member}
    {parentTokens : List Token} (hn : isIdentifier name = true)
    (hp : ParentsForm types parentTokens) (h : MembersForm Written members tokens) :
    Reads limit interface (.name "interface" :: .name name :: (parentTokens
      ++ (.symbol '{' :: (tokens ++ [.symbol '}'])))) (.interface name types members none)
      Anything := by
  obtain ⟨found, hfound, hparents⟩ := @reads_parents (limit - 1 - 1) _ _ hp
  refine reads_word.bind_token ((reads_identifier hn).within.commit.bind_token ?_)
  refine reads_noTypeParameters.bind (hparents.bind ?_ fun _ _ => rfl) fun rest _ => ?_
  · refine (reads_memberBlock readsTypes h).within.commit.map_of_eq ?_
    rw [hfound]
  · cases hp <;> simp

/-- An interface is missed if its word is not there. -/
theorem misses_interface (hne : tokens.head? ≠ some (.name "interface"))
    (hid : ∀ s, tokens.head? = some (.name s) → isIdentifier s = true) :
    Misses limit interface tokens := by
  refine (misses_word (by decide) fun s hs => ⟨hid s hs, ?_⟩).bind
  rintro rfl
  exact hne hs

theorem misses_typeAlias (hne : tokens.head? ≠ some (.name "type"))
    (hid : ∀ s, tokens.head? = some (.name s) → isIdentifier s = true) :
    Misses limit typeAlias tokens := by
  refine (misses_word (by decide) fun s hs => ⟨hid s hs, ?_⟩).bind
  rintro rfl
  exact hne hs

/-- A declaration begins with the word for its kind. -/
theorem DeclarationForm.head {declaration : Declaration} (h : DeclarationForm declaration tokens) :
    ∃ word more, tokens = .name word :: more ∧ (word = "type" ∨ word = "interface") := by
  cases h with
  | typeAlias _ _ => exact ⟨_, _, rfl, Or.inl rfl⟩
  | interface _ _ _ => exact ⟨_, _, rfl, Or.inr rfl⟩

/-- Each form of a declaration is read by the parser for it; the one that is tried before misses. -/
theorem reads_aliasOrInterface {declaration : Declaration}
    (h : DeclarationForm declaration tokens) :
    Reads limit (firstOf interface [typeAlias]) tokens declaration EndsType := by
  cases h with
  | typeAlias hn h => exact (reads_typeAlias hn h).firstOf
  | interface hn hp h =>
    refine Reads.firstOf_skip ((reads_interface hn hp h).firstOf_last.follow fun _ _ => trivial) ?_
    refine fun rest _ => misses_typeAlias (by simp) fun s hs => ?_
    obtain rfl : "interface" = s := by simpa using hs
    decide

/-! ## Sequences of declarations -/

/-- Tokens that do not go on with a declaration. -/
structure EndsDeclaration (rest : List Token) : Prop extends EndsType rest where
  semicolon : rest.head? ≠ some (.symbol ';')

/-- A word that stands in front of a declaration or not. -/
theorem reads_modifier {s : String} (hs : isIdentifier s = true) (present : Bool) :
    Reads limit (Parser.optional (word s)) ((Token.name s).when present)
      (if present then some () else none)
      (fun rest => ∃ t, rest.head? = some (.name t) ∧ isIdentifier t = true ∧ t ≠ s) := by
  refine reads_when reads_word fun _ rest hr => ?_
  obtain ⟨t, ht, hid, hne⟩ := hr
  refine misses_word hs fun u hu => ?_
  obtain rfl : t = u := by simpa [ht] using hu
  exact ⟨hid, hne⟩

/-- The words in front of a declaration and the semicolon behind it may be there or not. -/
theorem reads_declaration {declaration : Declaration} (isExported isDeclared terminated : Bool)
    (h : DeclarationForm declaration tokens) :
    Reads limit Parser.declaration
      ((Token.name "export").when isExported ++ ((Token.name "declare").when isDeclared
        ++ (tokens ++ (Token.symbol ';').when terminated))) declaration EndsDeclaration := by
  have hterminator (n : Nat) : Reads n (Parser.optional (symbol ";"))
      ((Token.symbol ';').when terminated) (if terminated then some () else none)
      EndsDeclaration :=
    reads_when (reads_symbol rfl) fun _ _ hr =>
      misses_symbol (c := ';') rfl (by decide) hr.semicolon
  refine (reads_modifier (by decide) isExported).bind ((reads_modifier (by decide) isDeclared).bind
    ((reads_aliasOrInterface h).bind ((hterminator _).map_of_eq rfl) ?_) ?_) ?_
  · intro rest hr
    cases terminated with
    | true => exact endsType_symbol (by decide) rest
    | false => exact hr.toEndsType
  · intro rest _
    obtain ⟨word, more, rfl, rfl | rfl⟩ := h.head
    · exact ⟨"type", rfl, by decide, by decide⟩
    · exact ⟨"interface", rfl, by decide, by decide⟩
  · intro rest _
    obtain ⟨word, more, rfl, rfl | rfl⟩ := h.head
    all_goals cases isDeclared
    · exact ⟨"type", rfl, by decide, by decide⟩
    · exact ⟨"declare", rfl, by decide, by decide⟩
    · exact ⟨"interface", rfl, by decide, by decide⟩
    · exact ⟨"declare", rfl, by decide, by decide⟩

theorem misses_declaration : Misses limit Parser.declaration [] := by
  have hword (s : String) (hs : isIdentifier s = true) :
      Reads limit (Parser.optional (word s)) [] none (fun rest => rest = []) :=
    reads_optional_none fun rest hr => misses_word hs (by simp [hr])
  refine (hword "export" (by decide)).bind_misses ?_ rfl
  refine (hword "declare" (by decide)).bind_misses (Misses.bind ?_) rfl
  refine misses_firstOf (misses_interface (by simp) (by simp)) fun q hq => ?_
  rw [List.mem_singleton.1 hq]
  exact misses_typeAlias (by simp) (by simp)

/-- Behind a declaration there is another one or nothing. -/
theorem DeclarationsForm.endsDeclaration {declarations : Declarations}
    (h : DeclarationsForm declarations tokens) : EndsDeclaration tokens := by
  cases h with
  | nil => exact ⟨endsType_of_head (by simp), by simp⟩
  | cons isExported isDeclared terminated h _ =>
    obtain ⟨word, more, rfl, -⟩ := h.head
    cases isExported <;> cases isDeclared <;> exact ⟨endsType_name _ _, by simp [Token.when]⟩

/-- Declarations are read one by one up to the end. -/
theorem reads_declarations {declarations : Declarations}
    (h : DeclarationsForm declarations tokens) :
    ReadsMany limit Parser.declaration tokens declarations (fun rest => rest = []) := by
  induction h generalizing limit with
  | nil => exact readsMany_nil fun rest hr => hr ▸ misses_declaration
  | @cons declaration declarations tokens more isExported isDeclared terminated h hs ih =>
    have hread := @reads_declaration limit _ _ isExported isDeclared terminated h
    have hmany := ReadsMany.cons hread (by
      obtain ⟨word, more, rfl, -⟩ := h.head
      simp) ih fun rest hr => by
        rw [hr, List.append_nil]
        exact hs.endsDeclaration
    simpa only [List.append_assoc] using hmany

end Source

/-- A text that spells the form of some declarations is read as these declarations. -/
theorem Declarations.ofSource_spells {declarations : Declarations} {tokens : List Source.Token}
    {source : String} (h : Source.DeclarationsForm declarations tokens)
    (hs : Source.Spells tokens source.toList) :
    Declarations.ofSource source = .ok declarations := by
  have hread : Source.Reads (source.toList.length + 1) Source.Parser.declarations tokens
      declarations (fun rest => rest = []) := by
    have hend := Source.Reads.map (g := fun _ => declarations)
      (@Source.reads_endOfText (source.toList.length + 1 - tokens.length))
    rw [← List.append_nil tokens]
    refine (Source.reads_declarations h).many.bind hend ?_
    exact fun rest hr => hr
  have hspells : Source.Spells (tokens ++ []) source.toList := by rwa [List.append_nil]
  obtain ⟨left, hdone, -⟩ := hread (Nat.lt_succ_self _) (Nat.lt_succ_self _) rfl hspells
  show Source.Parser.readAll _ _ = _
  rw [Source.Parser.readAll, Source.Parser.run, hdone]

end LintTypes
