import LintTypes.Proofs.LongerTypes

/-!
# Joined texts

Declarations that are read off two texts are read off the texts behind each other, if the first one
ends with a line feed.

The parser for declarations reads alike in longer texts, so it reads the declarations of the first
text. What the first text has behind them is blank, and a declaration behind blanks is read as it is
without them; so it goes on with the declarations of the second text.
-/

namespace LintTypes.Source

open LintTypes.Source.Parser

variable {α β : Type} {more : List Char} {limit : Nat}

/-! ## Type parameters -/

theorem missesOn_typeParameters {cs : List Char} (hcs : '<' ∉ cs) : MissesOn cs typeParameters :=
  (missesOn_symbol (c := '<') (by decide) hcs).bind

section Fresh

variable (hm : ∀ c ∈ (skipBlanks more).head?, isNameStart c = true)
include hm

theorem readsAlike_typeParameter :
    ReadsAlike more limit 1 Unbracketed (StartsIn [',', '>']) typeParameter typeParameter := by
  have hdefault : ReadsAlike more (limit - 1) 0 (StartsIn ['=', ',', '>']) (StartsIn [',', '>'])
      (Parser.optional (do symbol "="; typeExpr)) (Parser.optional (do symbol "="; typeExpr)) := by
    have hread : ReadsAlike more (limit - 1) 1 (StartsIn ['=']) Clean (do symbol "="; typeExpr)
        (do symbol "="; typeExpr) :=
      (readsAlike_symbol (by decide)).token_bind fun _ => readsAlike_typeExpr hm
    have hmiss : MissesOn [',', '>'] (do symbol "="; typeExpr) :=
      (missesOn_symbol (c := '=') (by decide) (by decide)).bind
    exact (hread.imp (Nat.le_refl 1) (fun _ h => h.mono (by simp))
      fun _ h => (h.solid (by decide)).toClean).optional (hmiss.alike (by decide))
      fun _ h => h.mono (by simp)
  have hextends : ReadsAlike more (limit - 1) 0 Solid (StartsIn ['=', ',', '>'])
      (Parser.optional (do word "extends"; typeExpr))
      (Parser.optional (do word "extends"; typeExpr)) := by
    have hread : ReadsAlike more (limit - 1) 1 Solid Clean (do word "extends"; typeExpr)
        (do word "extends"; typeExpr) :=
      (readsAlike_word (by decide)).token_bind fun _ => readsAlike_typeExpr hm
    have hmiss : MissesOn ['=', ',', '>'] (do word "extends"; typeExpr) :=
      (missesOn_word (c := 'e') rfl (by decide)).bind
    exact (hread.imp (Nat.le_refl 1) (fun _ => id)
      fun _ h => (h.solid (by decide)).toClean).optional (hmiss.alike (by decide))
      fun _ h => h.solid (by decide)
  exact readsAlike_identifier.token_bind fun _ => hextends.bind fun _ => hdefault.map

/-- Parameters of a type are read alike, up to the bracket that closes them. -/
theorem readsAlike_typeParameters :
    ReadsAlike more limit 1 (StartsIn ['<']) (fun _ => True) typeParameters typeParameters := by
  have hitem : ReadsAlike more (limit - 1) 1 (StartsIn [',', '>']) (StartsIn [',', '>'])
      (do symbol ","; typeParameter) (do symbol ","; typeParameter) :=
    ((readsAlike_symbol (c := ',') (by decide)).token_bind fun _ =>
      readsAlike_typeParameter hm).imp (Nat.le_refl 1) (fun _ h => h.mono (by simp)) fun _ => id
  have hstop : MissesOn ['>'] (do symbol ","; typeParameter) := missesOn_commaItem (by decide)
  have hitems := (readsAlike_typeParameter hm).sepBy1 hitem (fun _ h => h.mono (by simp))
    (hstop.alike (by decide))
  exact (readsAlike_symbol (by decide)).token_bind fun _ => hitems.commit.bind
    fun _ => (readsAlike_symbol (by decide)).commit

/-! ## Type aliases and interfaces -/

/-- An alias is read alike with its type. -/
theorem readsAlike_typeAlias : ReadsAlike more limit 1 Solid Clean typeAlias typeAlias := by
  have hparams : ReadsAlike more (limit - 1 - 1) 0 (fun _ => True) (StartsIn ['='])
      (Parser.optional typeParameters) (Parser.optional typeParameters) :=
    ((readsAlike_typeParameters hm).imp (Nat.le_refl 1) (fun _ _ => trivial)
      fun _ _ => trivial).optional ((missesOn_typeParameters (by decide)).alike (by decide))
      fun _ _ => trivial
  exact (readsAlike_word (by decide)).token_bind fun _ =>
    readsAlike_identifier.within.commit.token_bind fun _ => hparams.bind fun _ =>
      (readsAlike_closing "=" (by decide)).token_bind fun _ =>
        (readsAlike_typeExpr hm).within.commit.map

omit hm in
theorem missesAlike_typeAlias : MissesAlike more limit Solid typeAlias typeAlias :=
  (missesAlike_word (by decide)).bind fun _ => (decided_commit _).bind fun _ =>
    (decided_optional _).bind fun _ => (decided_commit _).bind fun _ => (decided_commit _).bind
      fun _ => decided_pure _

/-- What an interface extends is read alike, up to its brace. -/
theorem readsAlike_parents : ReadsAlike more limit 1 Solid (StartsIn ['{']) parents parents := by
  have htype : ReadsAlike more (limit - 1) 0 Clean Clean (arrayType typeExpr)
      (arrayType typeExpr) := by
    refine (readsAlike_arrayType hm (readsAlike_typeExpr hm) ?_).imp (Nat.zero_le 1)
      (fun _ h => h.toClean) fun _ => id
    exact fun bound => missesOn_typeExpr bound bound
  exact (readsAlike_word (by decide)).token_bind fun _ =>
    (readsAlike_sepByComma (by decide) (by decide) htype).commit

/-- An interface is read alike, up to the brace that closes it. -/
theorem readsAlike_interface :
    ReadsAlike more limit 1 Solid (fun _ => True) interface interface := by
  have hparams : ReadsAlike more (limit - 1 - 1) 0 Solid Solid (Parser.optional typeParameters)
      (Parser.optional typeParameters) := by
    have hmiss : MissesAlike more (limit - 1 - 1) Solid typeParameters typeParameters :=
      ((missesAlike_symbol hm (c := '<') (by decide)).imp
        fun _ h => h.uncommented).bind fun _ => (decided_commit _).bind fun _ => decided_commit _
    exact ((readsAlike_typeParameters hm).imp (Nat.le_refl 1) (fun _ h => h.solid (by decide))
      fun _ _ => trivial).optional hmiss fun _ => id
  have hparents : ReadsAlike more (limit - 1 - 1) 0 Solid (StartsIn ['{'])
      (Parser.optional parents) (Parser.optional parents) :=
    (readsAlike_parents hm).optional
      (((missesOn_word (c := 'e') rfl (by decide)).bind).alike (by decide))
      fun _ h => h.solid (by decide)
  have hbody : ReadsAlike more (limit - 1 - 1) 1 (StartsIn ['{']) (fun _ => True)
      (commit (within "interface body" (memberBlock typeExpr)))
      (commit (within "interface body" (memberBlock typeExpr))) :=
    (readsAlike_memberBlock hm (readsAlike_typeExpr hm)).within.commit
  exact (readsAlike_word (by decide)).token_bind fun _ =>
    readsAlike_identifier.within.commit.token_bind fun _ => hparams.bind fun _ =>
      hparents.bind fun _ => hbody.map

/-- A declaration is read alike with all that may stand around it. -/
theorem readsAlike_declaration :
    ReadsAlike more limit 1 Clean Clean declaration declaration := by
  have hword : ∀ {s : String} {limit : Nat}, isIdentifier s = true →
      ReadsAlike more limit 0 Solid Solid (Parser.optional (word s)) (Parser.optional (word s)) :=
    fun hs => ((readsAlike_word hs).imp (Nat.le_refl 1) (fun _ => id) fun _ _ => trivial).optional
      (missesAlike_word hs) fun _ => id
  have hbody : ReadsAlike more limit 1 Solid Clean (firstOf interface [typeAlias])
      (firstOf interface [typeAlias]) :=
    (readsAlike_typeAlias hm).firstOf missesAlike_typeAlias (readsAlike_firstOf_last
      ((readsAlike_interface hm).imp (Nat.le_refl 1) (fun _ => id) fun _ _ => trivial)) fun _ => id
  have hread : ReadsAlike more limit 1 Solid Clean declaration declaration :=
    (hword (by decide)).bind fun _ => (hword (by decide)).bind fun _ => hbody.bind fun _ =>
      (readsAlike_mark hm (c := ';') (by decide) (by decide)).map
  exact hread.imp (Nat.le_refl 1) (fun _ h => h.toClean) fun _ => id

end Fresh

/-! ## Where no declaration begins -/

theorem word_missed {s : String} (hs : isIdentifier s = true) {text : List Char}
    (h : ∀ c ∈ (skipBlanks text).head?, isNameStart c = false) (bound : Nat) :
    ∃ trace, word s bound text = .missed trace := by
  obtain ⟨c, tail, hc, hstart, -⟩ := head_of_isIdentifier hs
  have hprefix : ¬ s.toList <+: skipBlanks text := by
    rintro ⟨rest, hrest⟩
    rw [hc] at hrest
    exact Bool.false_ne_true ((h c (by rw [← hrest]; rfl)).symm.trans hstart)
  obtain ⟨trace, hmiss⟩ := literally_missed hprefix bound
  exact ⟨trace, bind_of_missed hmiss⟩

/-- A declaration begins with a word. -/
theorem declaration_missed {text : List Char}
    (h : ∀ c ∈ (skipBlanks text).head?, isNameStart c = false) (bound : Nat) :
    ∃ trace, declaration bound text = .missed trace := by
  have hoptional : ∀ s, isIdentifier s = true →
      Parser.optional (word s) bound text = .done none text := by
    intro s hs
    obtain ⟨trace, hmiss⟩ := word_missed hs h bound
    rw [Parser.optional, hmiss]
  obtain ⟨_, halias⟩ := word_missed (s := "type") (by decide) h bound
  obtain ⟨_, hinterface⟩ := word_missed (s := "interface") (by decide) h bound
  have hbody : ∃ trace, firstOf interface [typeAlias] bound text = .missed trace := by
    rw [firstOf_of_missed (show typeAlias bound text = _ from bind_of_missed halias)]
    exact ⟨_, by simp only [Parser.firstOf, interface, bind_of_missed hinterface]; rfl⟩
  obtain ⟨trace, hmiss⟩ := hbody
  exact ⟨trace, (bind_of_done (hoptional "export" (by decide))).trans
    ((bind_of_done (hoptional "declare" (by decide))).trans (bind_of_missed hmiss))⟩

/-! ## Blanks in front -/

/-- The same value is read, or nothing both times; what is left differs in its first blanks only. -/
inductive Outcome.SameBehindBlanks : Outcome α → Outcome α → Prop
  | done (value : α) {rest rest' : List Char} (h : skipBlanks rest' = skipBlanks rest) :
    SameBehindBlanks (.done value rest) (.done value rest')
  | missed (trace trace' : Trace) : SameBehindBlanks (.missed trace) (.missed trace')
  | broken (trace trace' : Trace) : SameBehindBlanks (.broken trace) (.broken trace')

/-- Blanks in front of a text do not change what is read off it. -/
def IgnoresBlanks (p : Parser α) : Prop :=
  ∀ bound ⦃text text' : List Char⦄, skipBlanks text' = skipBlanks text →
    (p bound text).SameBehindBlanks (p bound text')

theorem Outcome.SameBehindBlanks.refl (outcome : Outcome α) : outcome.SameBehindBlanks outcome := by
  cases outcome with
  | done value rest => exact .done value rfl
  | missed trace => exact .missed trace trace
  | broken trace => exact .broken trace trace

theorem Outcome.SameBehindBlanks.of_done {outcome : Outcome α} {value : α} {rest : List Char}
    (h : (Outcome.done value rest).SameBehindBlanks outcome) :
    ∃ rest', outcome = .done value rest' ∧ skipBlanks rest' = skipBlanks rest := by
  cases h with
  | @done _ _ rest' hrest => exact ⟨rest', rfl, hrest⟩

/-- A lexeme skips the blanks in front of it. -/
theorem ignoresBlanks_lexeme (p : Parser α) : IgnoresBlanks (lexeme p) := by
  intro bound text text' hskip
  rw [lexeme, lexeme, hskip]
  exact .refl _

/-- Behind a token the same text is left. -/
theorem ignoresBlanks_lexeme_bind (p : Parser α) (f : α → Parser β) :
    IgnoresBlanks (lexeme p >>= f) := by
  intro bound text text' hskip
  have heq : (lexeme p >>= f) bound text' = (lexeme p >>= f) bound text := by
    show Parser.bind (lexeme p) f bound text' = Parser.bind (lexeme p) f bound text
    rw [Parser.bind, lexeme, hskip, Parser.bind, lexeme]
  rw [heq]
  exact .refl _

theorem ignoresBlanks_pure (value : α) : IgnoresBlanks (pure value : Parser α) :=
  fun _ _ _ hskip => .done value hskip

variable {p : Parser α}

/-- If the first parser ignores blanks, the second one finds the same text, or one without them. -/
theorem IgnoresBlanks.bind {f : α → Parser β} (hp : IgnoresBlanks p)
    (hf : ∀ value, IgnoresBlanks (f value)) : IgnoresBlanks (p >>= f) := by
  intro bound text text' hskip
  have hfirst := hp bound hskip
  show (Parser.bind p f bound text).SameBehindBlanks (Parser.bind p f bound text')
  unfold Parser.bind
  generalize p bound text = first, p bound text' = first' at hfirst ⊢
  cases hfirst with
  | done value hrest => exact hf value bound hrest
  | missed trace trace' => exact .missed trace trace'
  | broken trace trace' => exact .broken trace trace'

theorem IgnoresBlanks.optional (hp : IgnoresBlanks p) : IgnoresBlanks p.optional := by
  intro bound text text' hskip
  have hfirst := hp bound hskip
  unfold Parser.optional
  generalize p bound text = first, p bound text' = first' at hfirst ⊢
  cases hfirst with
  | done value hrest => exact .done (some value) hrest
  | missed => exact .done none hskip
  | broken trace trace' => exact .broken trace trace'

theorem ignoresBlanks_firstOf {last : Parser α} {others : List (Parser α)}
    (hl : IgnoresBlanks last) (ho : ∀ p ∈ others, IgnoresBlanks p) :
    IgnoresBlanks (firstOf last others) := by
  intro bound text text' hskip
  induction others with
  | nil =>
    have hlast := hl bound hskip
    unfold Parser.firstOf
    generalize last bound text = first, last bound text' = first' at hlast ⊢
    cases hlast with
    | done value hrest => exact .done value hrest
    | missed trace trace' => exact .missed _ _
    | broken trace trace' => exact .broken trace trace'
  | cons p others ih =>
    have hfirst := ho p (List.mem_cons_self ..) bound hskip
    unfold Parser.firstOf
    generalize p bound text = first, p bound text' = first' at hfirst ⊢
    cases hfirst with
    | done value hrest => exact .done value hrest
    | missed trace trace' => exact ih fun q hq => ho q (List.mem_cons_of_mem _ hq)
    | broken trace trace' => exact .broken trace trace'

/-- A repetition ignores blanks if the parser does. -/
theorem IgnoresBlanks.upTo (hp : IgnoresBlanks p) (count : Nat) :
    IgnoresBlanks (Parser.upTo count p) := by
  induction count with
  | zero => exact fun _ _ _ hskip => .done [] hskip
  | succ count ih =>
    intro bound text text' hskip
    have hfirst := hp bound hskip
    unfold Parser.upTo
    generalize p bound text = first, p bound text' = first' at hfirst ⊢
    cases hfirst with
    | @done value rest rest' hrest =>
      have hothers := ih bound hrest
      dsimp only
      generalize Parser.upTo count p bound rest = others, Parser.upTo count p bound rest' = others'
        at hothers ⊢
      cases hothers with
      | done values hrest' => exact .done (value :: values) hrest'
      | missed trace trace' => exact .missed trace trace'
      | broken trace trace' => exact .broken trace trace'
    | missed => exact .done [] hskip
    | broken trace trace' => exact .broken trace trace'

/-- A declaration may stand behind blanks. -/
theorem ignoresBlanks_declaration : IgnoresBlanks declaration := by
  have hword : ∀ s, IgnoresBlanks (Parser.optional (word s)) :=
    fun s => (ignoresBlanks_lexeme _).optional
  have hbody : IgnoresBlanks (firstOf interface [typeAlias]) :=
    ignoresBlanks_firstOf (ignoresBlanks_lexeme_bind _ _)
      (List.forall_mem_singleton.2 (ignoresBlanks_lexeme_bind _ _))
  exact (hword "export").bind fun _ => (hword "declare").bind fun _ => hbody.bind fun declaration =>
    (ignoresBlanks_lexeme _).optional.bind fun _ => ignoresBlanks_pure declaration

/-! ## Declarations behind each other -/

variable {bound : Nat} {text rest : List Char} {values : List Declaration}

/-- Where declarations are read up to the end, the text goes on with a declaration or not at all. -/
theorem isNameStart_of_upTo {count : Nat} (hcount : 0 < count)
    (hread : Parser.upTo count declaration bound text = .done values rest)
    (hend : skipBlanks rest = []) : ∀ c ∈ (skipBlanks text).head?, isNameStart c = true := by
  intro c hc
  by_contra hstart
  have hnone : ∀ d ∈ (skipBlanks text).head?, isNameStart d = false := by
    intro d hd
    obtain rfl := Option.some.inj (hc.symm.trans hd)
    exact Bool.eq_false_iff.2 hstart
  obtain ⟨trace, hmiss⟩ := declaration_missed hnone bound
  obtain ⟨count, rfl⟩ := Nat.exists_eq_add_one_of_ne_zero (Nat.ne_of_gt hcount)
  rw [Parser.upTo, hmiss] at hread
  cases hread
  rw [hend] at hc
  cases hc

/-- Under a greater bound the same declarations are read. -/
theorem upTo_declaration_mono {count count' bound' : Nat} (hb : text.length < bound)
    (hbound : bound ≤ bound') (hc : text.length < count) (hcount : count ≤ count')
    (hread : Parser.upTo count declaration bound text = .done values rest)
    (hend : skipBlanks rest = []) :
    Parser.upTo count' declaration bound' text = .done values rest := by
  have hmiss : MissesAlike [] (text.length + 1) (skipBlanks · = []) declaration declaration := by
    intro _ bound' text _ _ _ _ hblank _ _
    exact declaration_missed (by simp [hblank]) bound'
  have hdeclaration : ReadsAlike [] (text.length + 1) 1 Clean Clean declaration declaration :=
    readsAlike_declaration (by simp [skipBlanks.eq_4])
  obtain ⟨-, -, hmore⟩ := hdeclaration.upTo (fun _ => clean_of_blank) hmiss (Nat.lt_succ_self _) hb
    hbound hc hcount hread
  simpa using (hmore hend).2 (.inl rfl)

/-- Behind the declarations of a text come those of the text behind it. -/
theorem upTo_declaration_append {more rest' : List Char} {values' : List Declaration}
    (hlast : text.getLast? = some '\n')
    (hread : Parser.upTo (text.length + 1) declaration (text.length + 1) text = .done values rest)
    (hend : skipBlanks rest = [])
    (hread' : Parser.upTo (more.length + 1) declaration (more.length + 1) more =
      .done values' rest') (hend' : skipBlanks rest' = []) :
    ∃ last, Parser.upTo ((text ++ more).length + 1) declaration ((text ++ more).length + 1)
      (text ++ more) = .done (values ++ values') last ∧ skipBlanks last = [] := by
  have hm := isNameStart_of_upTo (Nat.succ_pos _) hread' hend'
  have hlen : (text ++ more).length = text.length + more.length := List.length_append
  obtain ⟨hcount, hseam, hmore⟩ := (readsAlike_declaration hm).upTo_append
    (Nat.lt_succ_self text.length) (Nat.lt_succ_self _)
    (show text.length + 1 ≤ (text ++ more).length + 1 by omega) hread
  obtain ⟨-, happend⟩ := hmore (clean_of_blank hend)
  obtain ⟨left, hleft⟩ :=
    Nat.exists_eq_add_of_le (show values.length ≤ (text ++ more).length + 1 by omega)
  have hothers : Parser.upTo left declaration ((text ++ more).length + 1) more =
      .done values' rest' :=
    upTo_declaration_mono (Nat.lt_succ_self _) (by omega) (Nat.lt_succ_self _) (by omega) hread'
      hend'
  have hblanks := (ignoresBlanks_declaration.upTo left) ((text ++ more).length + 1)
    (skipBlanks_append_blank (hseam (.inr hlast)) hend)
  rw [hothers] at hblanks
  obtain ⟨last, hdone, hskip⟩ := hblanks.of_done
  refine ⟨last, ?_, hskip.trans hend'⟩
  have hall := happend (.inr hlast) left values' last hdone
  rwa [← hleft] at hall

end LintTypes.Source

namespace LintTypes

open Source

/-- A text holds declarations if they are read off it and only blanks are left. -/
theorem Declarations.ofSource_eq_ok {source : String} {declarations : Declarations} :
    Declarations.ofSource source = .ok declarations ↔
      ∃ rest, Parser.upTo (source.toList.length + 1) Parser.declaration (source.toList.length + 1)
        source.toList = .done declarations rest ∧ skipBlanks rest = [] := by
  constructor
  · intro h
    have hrun : ∃ rest, Parser.declarations.run source.toList = .done declarations rest := by
      unfold Declarations.ofSource Parser.readAll at h
      split at h <;> cases h
      exact ⟨_, by assumption⟩
    obtain ⟨_, hrun⟩ := hrun
    obtain ⟨_, rest, hread, hrun⟩ := bind_eq_done hrun
    obtain ⟨_, _, hend, hrun⟩ := bind_eq_done hrun
    cases hrun
    refine ⟨rest, hread, ?_⟩
    by_contra hne
    rw [Parser.lexeme, Parser.endOfText, if_neg hne] at hend
    cases hend
  · rintro ⟨rest, hread, hend⟩
    have hlast : Parser.lexeme Parser.endOfText (source.toList.length + 1) rest = .done () [] := by
      rw [Parser.lexeme, Parser.endOfText, if_pos hend]
    have hrun : Parser.declarations.run source.toList = .done declarations [] :=
      (bind_of_done (p := Parser.many Parser.declaration) hread).trans (bind_of_done hlast)
    show Parser.readAll _ _ = _
    rw [Parser.readAll, hrun]

/-- Declarations that are read off two texts are read off the texts behind each other, if there is a
line feed between them. -/
theorem Declarations.ofSource_append {source source' : String}
    {declarations declarations' : Declarations} (hlast : source.toList.getLast? = some '\n')
    (h : Declarations.ofSource source = .ok declarations)
    (h' : Declarations.ofSource source' = .ok declarations') :
    Declarations.ofSource (source ++ source') = .ok (declarations ++ declarations') := by
  obtain ⟨rest, hread, hend⟩ := ofSource_eq_ok.1 h
  obtain ⟨rest', hread', hend'⟩ := ofSource_eq_ok.1 h'
  refine ofSource_eq_ok.2 ?_
  rw [String.toList_append]
  exact upTo_declaration_append hlast hread hend hread' hend'

end LintTypes
