import LintTypes.Proofs.TokenReading

/-!
# Reading single tokens

Each parser for one token reads the tokens of its kind and misses on all others, and so on the end
of the text.
-/

namespace LintTypes.Source

variable {limit : Nat} {tokens : List Token}

/-! ## The first character of a token -/

/-- The characters that the text of a token may begin with. -/
def Token.MayBegin : Token → Char → Prop
  | .symbol d, c => c = d ∧ d ∈ symbols
  | .dots, c => c = '.'
  | .name _, c => isNameStart c = true
  | .string _, c => c = '\'' ∨ c = '"'
  | .number _, c => c = '-' ∨ c.isDigit = true

/-- A lexeme begins with a character that its token may begin with. -/
theorem Lexeme.mayBegin {token : Token} {lexeme : List Char} (h : Lexeme token lexeme) :
    ∀ c ∈ lexeme.head?, token.MayBegin c := by
  cases h with
  | symbol h => rintro c ⟨⟩; exact ⟨rfl, h⟩
  | dots => rintro c ⟨⟩; rfl
  | name h =>
    obtain ⟨d, rest, hd, hs⟩ := h.head
    rw [hd]
    rintro c ⟨⟩
    exact hs
  | string hq _ => rintro c ⟨⟩; exact hq
  | number h =>
    obtain ⟨d, rest, hd, hs⟩ := h.head
    rw [hd]
    rintro c ⟨⟩
    exact hs

theorem Lexeme.eq_of_name {s : String} {lexeme : List Char} (h : Lexeme (.name s) lexeme) :
    lexeme = s.toList := by
  cases h
  rfl

/-- Symbols are neither points nor parts of names, strings or numbers. -/
theorem symbols_disjoint {c : Char} (h : c ∈ symbols) :
    c ≠ '.' ∧ isNameStart c = false ∧ c ≠ '\'' ∧ c ≠ '"' ∧ c ≠ '-' ∧ c.isDigit = false := by
  have hstart := all_of_mem_symbols (fun d => !isNameStart d && !d.isDigit) rfl h
  have hmark := all_of_mem_symbols (fun d => d != '.' && d != '\'' && d != '"' && d != '-') rfl h
  grind

theorem not_isNameStart_of_isDigit {c : Char} (h : c.isDigit = true) : isNameStart c = false :=
  holds_of_isDigit (P := fun c => isNameStart c = false) (by decide) h

/-- A token other than a name does not begin like one. -/
theorem Token.MayBegin.not_isNameStart {token : Token} {c : Char} (h : token.MayBegin c)
    (hne : ∀ s, token ≠ .name s) : isNameStart c = false := by
  cases token with
  | symbol e =>
    obtain ⟨rfl, he⟩ := h
    exact (symbols_disjoint he).2.1
  | dots => rw [show c = '.' from h]; decide
  | name s => exact absurd rfl (hne s)
  | string _ => rcases h with rfl | rfl <;> decide
  | number _ =>
    rcases h with rfl | hdigit
    · decide
    · exact not_isNameStart_of_isDigit hdigit

/-- A parser behind blanks misses on the end of the text and on every token that it misses. -/
theorem misses_lexeme {α : Type} {p : Parser α}
    (hend : ∀ bound, ∃ trace, p bound [] = .missed trace)
    (hp : ∀ token ∈ tokens.head?, ∀ bound c text rest, Lexeme token (c :: text) →
      token.EndsBefore rest → ∃ trace, p bound (c :: (text ++ rest)) = .missed trace) :
    Misses limit (Parser.lexeme p) tokens := by
  intro bound text _ _ hs
  unfold Parser.lexeme
  cases tokens with
  | nil =>
    rw [hs.skipBlanks_nil]
    exact hend bound
  | cons token tokens =>
    obtain ⟨lexeme, rest, hskip, hl, -, he, -⟩ := hs.skipBlanks_cons
    obtain ⟨c, tail, rfl, -⟩ := hl.head
    rw [hskip]
    exact hp token rfl bound c tail rest hl he

/-- A parser behind blanks reads a token if it reads every lexeme of it. -/
theorem reads_lexeme {α : Type} {p : Parser α} {token : Token} {a : α}
    (hp : ∀ bound lexeme rest, Lexeme token lexeme → token.EndsBefore rest →
      lexeme.length + rest.length < bound → p bound (lexeme ++ rest) = .done a rest) :
    Reads limit (Parser.lexeme p) [token] a Anything := by
  intro bound text rest hb _ _ hs
  obtain ⟨lexeme, left, hskip, hl, hleft, he, hpos, hlen⟩ := hs.skipBlanks_cons
  refine ⟨left, ?_, hleft, ?_⟩
  · unfold Parser.lexeme
    rw [hskip]
    exact hp bound lexeme left hl he (by omega)
  · rw [List.length_singleton]
    omega

/-! ## Symbols -/

/-- A text that is expected is read where it stands. -/
theorem literally_append (expected text : List Char) (bound : Nat) :
    Parser.literally expected bound (expected ++ text) = .done () text := by
  have : expected.isPrefixOf (expected ++ text) = true :=
    List.isPrefixOf_iff_prefix.2 ⟨text, rfl⟩
  simp [Parser.literally, this]

theorem literally_missed {expected text : List Char} (h : ¬ expected <+: text) (bound : Nat) :
    ∃ trace, Parser.literally expected bound text = .missed trace := by
  refine ⟨[⟨text, .text⟩], ?_⟩
  unfold Parser.literally
  rw [if_neg fun hp => h (List.isPrefixOf_iff_prefix.1 hp)]

/-- A symbol is read from its lexeme, -/
theorem reads_symbol {s : String} {c : Char} (hs : s.toList = [c]) :
    Reads limit (Parser.symbol s) [.symbol c] () Anything := by
  unfold Parser.symbol
  rw [hs]
  refine reads_lexeme fun bound lexeme rest hl _ _ => ?_
  cases hl with
  | symbol _ => exact literally_append [c] rest bound

/-- and missed where another token stands: no lexeme of another token begins with it. -/
theorem misses_symbol {s : String} {c : Char} (hs : s.toList = [c]) (hc : c ∈ symbols)
    (hne : tokens.head? ≠ some (.symbol c)) : Misses limit (Parser.symbol s) tokens := by
  obtain ⟨hdot, hname, hquote, hquote', hminus, hdigit⟩ := symbols_disjoint hc
  unfold Parser.symbol
  rw [hs]
  refine misses_lexeme (fun _ => literally_missed (by simp) _)
    fun token ht bound d text rest hl _ => literally_missed ?_ bound
  intro hprefix
  obtain rfl : c = d := by simpa using hprefix
  have hfirst := hl.mayBegin c rfl
  cases token with
  | symbol e =>
    obtain ⟨rfl, -⟩ := hfirst
    exact hne ht
  | dots => exact hdot hfirst
  | name _ => exact Bool.false_ne_true (hname.symm.trans hfirst)
  | string _ => exact hfirst.elim hquote hquote'
  | number _ =>
    exact hfirst.elim hminus fun h => Bool.false_ne_true (hdigit.symm.trans h)

theorem reads_dots : Reads limit (Parser.symbol "...") [.dots] () Anything :=
  reads_lexeme fun bound lexeme rest hl _ _ => by
    cases hl with
    | dots => exact literally_append ['.', '.', '.'] rest bound

/-- Dots are missed where another token stands, also in front of a single point. -/
theorem misses_dots (hne : tokens.head? ≠ some .dots) :
    Misses limit (Parser.symbol "...") tokens := by
  refine misses_lexeme (fun _ => literally_missed (by simp) _)
    fun token ht bound d text rest hl _ => literally_missed ?_ bound
  intro hprefix
  obtain rfl : '.' = d := by
    obtain ⟨_, h⟩ := hprefix
    exact (List.cons.inj h).1
  have hfirst := hl.mayBegin '.' rfl
  cases token with
  | symbol e =>
    obtain ⟨rfl, he⟩ := hfirst
    exact (symbols_disjoint he).1 rfl
  | dots => exact hne ht
  | name _ => exact absurd (show isNameStart '.' = true from hfirst) (by decide)
  | string _ => exact absurd (show '.' = '\'' ∨ '.' = '"' from hfirst) (by decide)
  | number _ => exact absurd (show '.' = '-' ∨ '.'.isDigit = true from hfirst) (by decide)

/-! ## Names -/

theorem nameChar_done_or_missed (bound : Nat) (text : List Char) :
    (∃ c rest, text = c :: rest ∧ isNameChar c = true ∧
      Parser.nameChar bound text = .done () rest) ∨
    (∃ trace, Parser.nameChar bound text = .missed trace) := by
  cases text with
  | nil => exact Or.inr ⟨_, rfl⟩
  | cons c rest =>
    by_cases hc : isNameChar c = true
    · exact Or.inl ⟨c, rest, rfl, hc, by simp [Parser.nameChar, hc]⟩
    · exact Or.inr ⟨[⟨c :: rest, .kind⟩], by simp [Parser.nameChar, hc]⟩

/-- No name character follows a name or a number. -/
theorem nameChar_missed {text : List Char} (h : Apart text) (bound : Nat) :
    ∃ trace, Parser.nameChar bound text = .missed trace := by
  rcases nameChar_done_or_missed bound text with ⟨c, rest, rfl, hc, -⟩ | hmiss
  · have := (h c rfl).1
    exact absurd (this.symm.trans hc) Bool.false_ne_true
  · exact hmiss

/-- A word is read from its lexeme, since no character of a name follows. -/
theorem reads_word {s : String} :
    Reads limit (Parser.word s) [.name s] () Anything :=
  reads_lexeme fun bound lexeme rest hl ha _ => by
    cases hl with
    | name _ =>
      obtain ⟨trace, hmiss⟩ := nameChar_missed ha bound
      rw [bind_of_done (literally_append ..)]
      simp only [Parser.absent, hmiss]

/-- A reserved word is missed on a different name. -/
theorem misses_word {s : String} (hs : isIdentifier s = true)
    (hne : ∀ text, tokens.head? = some (.name text) → isIdentifier text = true ∧ text ≠ s) :
    Misses limit (Parser.word s) tokens := by
  obtain ⟨c, tail, hc, hstart, htail⟩ := isIdentifierChars_iff.1 hs
  refine misses_lexeme ?_ fun token ht bound d text rest hl ha => ?_
  · intro bound
    have hempty : ¬ s.toList <+: [] := by simp [hc]
    obtain ⟨trace, h⟩ := literally_missed hempty bound
    exact ⟨trace, bind_of_missed h⟩
  by_cases hprefix : s.toList <+: d :: (text ++ rest)
  · -- The word is a proper prefix of a longer name.
    obtain ⟨after, hafter⟩ := hprefix
    obtain ⟨rfl, -⟩ : c = d ∧ tail ++ after = text ++ rest := by
      rw [hc, List.cons_append] at hafter
      exact List.cons.inj hafter
    by_cases hname : ∃ word, token = .name word
    · obtain ⟨word, rfl⟩ := hname
      have hend : Apart rest := ha
      obtain ⟨hid, hword⟩ := hne word ht
      have hl' : c :: text = word.toList := hl.eq_of_name
      have happ : s.toList ++ after = word.toList ++ rest := by
        rw [hafter, ← hl', List.cons_append]
      rcases List.append_eq_append_iff.1 happ with ⟨more, hw, hmore⟩ | ⟨more, hs', hmore⟩
      · cases more with
        | nil => exact absurd (String.toList_inj.1 (by simpa using hw)) hword
        | cons e more =>
          have he : isNameChar e = true := isNameChar_of_mem hid (by simp [hw])
          refine ⟨[⟨after, .absence⟩], ?_⟩
          rw [← hafter, bind_of_done (literally_append ..)]
          simp [Parser.absent, hmore, Parser.nameChar, he]
      · cases more with
        | nil => exact absurd (String.toList_inj.1 (by simpa using hs'.symm)) hword
        | cons e more =>
          have he : isNameChar e = true := isNameChar_of_mem hs (by simp [hs'])
          have := (hend e (by simp [hmore])).1
          exact absurd (this.symm.trans he) Bool.false_ne_true
    · have := (hl.mayBegin c rfl).not_isNameStart fun w hw => hname ⟨w, hw⟩
      exact absurd (this.symm.trans hstart) Bool.false_ne_true
  · obtain ⟨trace, h⟩ := literally_missed hprefix bound
    exact ⟨trace, bind_of_missed h⟩

/-- Where no name character follows, an identifier is read up to its end. -/
theorem nameChars_append {text rest : List Char} (h : isIdentifierChars text = true)
    (hr : ∀ c ∈ rest.head?, isNameChar c = false) (bound : Nat) :
    Parser.nameChars bound (text ++ rest) = .done text rest := by
  obtain ⟨c, tail, rfl, hc, htail⟩ := isIdentifierChars_iff.1 h
  have htake : (tail ++ rest).takeWhile isNameChar = tail := by
    rw [List.takeWhile_append_of_pos htail]
    cases rest with
    | nil => simp
    | cons d rest => simp [hr d rfl]
  have hdrop : (tail ++ rest).dropWhile isNameChar = rest := by
    rw [List.dropWhile_append_of_pos htail]
    cases rest with
    | nil => simp
    | cons d rest => simp [hr d rfl]
  simp [Parser.nameChars, hc, htake, hdrop]

theorem nameChars_missed {c : Char} (h : isNameStart c = false) (text : List Char) (bound : Nat) :
    ∃ trace, Parser.nameChars bound (c :: text) = .missed trace :=
  ⟨[⟨c :: text, .kind⟩], by simp [Parser.nameChars, h]⟩

/-- An identifier is read as a whole, -/
theorem reads_identifier {s : String} (hs : isIdentifier s = true) :
    Reads limit Parser.identifier [.name s] s Anything :=
  reads_lexeme fun bound lexeme rest hl ha _ => by
    cases hl with
    | name _ =>
      rw [bind_of_done (nameChars_append hs (fun c hc => (ha c hc).1) bound)]
      simp [pure, Parser.pure]

/-- and missed where no name stands. -/
theorem misses_identifier (hne : ∀ s, tokens.head? ≠ some (.name s)) :
    Misses limit Parser.identifier tokens := by
  refine misses_lexeme (fun _ => ⟨_, rfl⟩) fun token ht bound c text rest hl _ => ?_
  have hc := (hl.mayBegin c rfl).not_isNameStart fun s hs => hne s (hs ▸ ht)
  obtain ⟨trace, h⟩ := nameChars_missed hc (text ++ rest) bound
  exact ⟨trace, bind_of_missed h⟩

/-- The identifiers that a name is made of. -/
theorem DottedName.parts {text : List Char} (h : DottedName text) :
    ∃ (first : List Char) (others : List (List Char)),
      text = first ++ others.flatMap (fun part => '.' :: part) ∧
      isIdentifierChars first = true ∧ ∀ part ∈ others, isIdentifierChars part = true := by
  induction h with
  | @identifier text h => exact ⟨text, [], by simp, h, by simp⟩
  | @dotted part text hp _ ih =>
    obtain ⟨first, others, rfl, hf, ho⟩ := ih
    exact ⟨part, first :: others, by simp, hp, by simpa using ⟨hf, ho⟩⟩

theorem intercalate_point (first : List Char) (others : List (List Char)) :
    ['.'].intercalate (first :: others) = first ++ others.flatMap (fun part => '.' :: part) := by
  induction others generalizing first with
  | nil => simp
  | cons part others ih => rw [List.intercalate_cons_cons, ih part]; simp

/-- The identifiers behind the first one are read up to the end of the name. -/
theorem upTo_point_nameChars {others : List (List Char)} {rest : List Char}
    (ho : ∀ part ∈ others, isIdentifierChars part = true) (hr : Apart rest) (bound : Nat) :
    ∀ count, others.length < count →
      Parser.upTo count (do let _ ← Parser.character '.'; Parser.nameChars) bound
        (others.flatMap (fun part => '.' :: part) ++ rest) = .done others rest := by
  induction others with
  | nil =>
    intro count hcount
    obtain ⟨n, rfl⟩ := Nat.exists_eq_succ_of_ne_zero (Nat.ne_of_gt hcount)
    cases rest with
    | nil => rfl
    | cons c rest =>
      have hc : c ≠ '.' := (hr c rfl).2
      simp [Parser.upTo, bind, Parser.bind, Parser.character, hc]
  | cons part others ih =>
    intro count hcount
    obtain ⟨n, rfl⟩ := Nat.exists_eq_succ_of_ne_zero (Nat.ne_of_gt (Nat.zero_lt_of_lt hcount))
    have hnext : ∀ c ∈ (others.flatMap (fun part => '.' :: part) ++ rest).head?,
        isNameChar c = false := by
      cases others with
      | nil => exact fun c hc => (hr c hc).1
      | cons p ps => rintro c ⟨⟩; decide
    have hpart := nameChars_append (ho part (List.mem_cons_self ..)) hnext bound
    have hothers := ih (fun p hp => ho p (List.mem_cons_of_mem _ hp)) n
      (by rw [List.length_cons] at hcount; omega)
    simp only [bind] at hothers
    simp [Parser.upTo, bind, Parser.bind, Parser.character, hpart, hothers]

theorem length_le_flatMap_point (others : List (List Char)) :
    others.length ≤ (others.flatMap fun part => '.' :: part).length := by
  induction others with
  | nil => exact Nat.le_refl _
  | cons part others ih =>
    simp only [List.flatMap_cons, List.length_append, List.length_cons]
    omega

/-- A dotted name is read with all its parts, -/
theorem reads_dottedName {s : String} : Reads limit Parser.dottedName [.name s] s Anything :=
  reads_lexeme fun bound lexeme rest hl ha hb => by
    cases hl with
    | name h =>
      obtain ⟨first, others, htext, hf, ho⟩ := h.parts
      have hnext : ∀ c ∈ (others.flatMap (fun part => '.' :: part) ++ rest).head?,
          isNameChar c = false := by
        cases others with
        | nil => exact fun c hc => (ha c hc).1
        | cons p ps => rintro c ⟨⟩; decide
      have hcount : others.length < bound := by
        have := length_le_flatMap_point others
        rw [htext, List.length_append] at hb
        omega
      have hmany := upTo_point_nameChars ho ha bound bound hcount
      simp only [bind] at hmany
      have hs : String.ofList (['.'].intercalate (first :: others)) = s := by
        rw [intercalate_point, ← htext, String.ofList_toList]
      rw [htext, List.append_assoc]
      simp only [Parser.sepBy1, Parser.many, bind, Parser.bind, nameChars_append hf hnext, hmany,
        pure, Parser.pure, hs]

/-- and missed where no name stands. -/
theorem misses_dottedName (hne : ∀ s, tokens.head? ≠ some (.name s)) :
    Misses limit Parser.dottedName tokens := by
  refine misses_lexeme (fun _ => ⟨_, rfl⟩) fun token ht bound c text rest hl _ => ?_
  have hc := (hl.mayBegin c rfl).not_isNameStart fun s hs => hne s (hs ▸ ht)
  obtain ⟨trace, h⟩ := nameChars_missed hc (text ++ rest) bound
  exact ⟨trace, by simp only [Parser.sepBy1, bind, Parser.bind, h]⟩

/-! ## Strings -/

/-- A quoted text is read up to its closing quote. -/
theorem Quoted.quotedChars? {quote : Char} (hq : quote ≠ '\\') {text value : List Char}
    (h : Quoted quote text value) (rest : List Char) :
    quotedChars? quote (text ++ quote :: rest) = some (value, quote :: rest) := by
  induction h with
  | nil => simp [Source.quotedChars?]
  | plain hc hs _ ih => simp [Source.quotedChars?, hc, hs, ih]
  | @escaped c escape text value he _ ih =>
    rw [List.cons_append, List.append_assoc, Source.quotedChars?]
    rw [if_neg (Ne.symm hq), if_pos rfl]
    split
    · rename_i heq
      rw [he] at heq
      cases heq
    · rename_i heq
      rw [he] at heq
      cases heq
      rw [ih]
      rfl

/-- A string is read up to the quote that closes it, whatever follows. -/
theorem quotedBy_append {quote : Char} (hq : quote ≠ '\\') {text value : List Char}
    (h : Quoted quote text value) (rest : List Char) (bound : Nat) :
    Parser.quotedBy quote bound (quote :: (text ++ quote :: rest))
      = .done (String.ofList value) rest := by
  simp [Parser.quotedBy, bind, Parser.bind, Parser.character, h.quotedChars? hq rest,
    Parser.commit, pure, Parser.pure]

theorem quotedBy_missed {quote c : Char} (hc : c ≠ quote) (text : List Char) (bound : Nat) :
    ∃ trace, Parser.quotedBy quote bound (c :: text) = .missed trace :=
  ⟨[⟨c :: text, .character quote⟩],
    by simp [Parser.quotedBy, bind, Parser.bind, Parser.character, hc]⟩

/-- Between either of the quotes a quoted text is a string literal. -/
theorem firstOf_quotedBy_append {quote : Char} (hq : quote = '\'' ∨ quote = '"')
    {text value : List Char} (h : Quoted quote text value) (rest : List Char) (bound : Nat) :
    Parser.firstOf (Parser.quotedBy '"') [Parser.quotedBy '\''] bound
        (quote :: (text ++ quote :: rest)) = .done (String.ofList value) rest := by
  rcases hq with rfl | rfl
  · simp only [Parser.firstOf, quotedBy_append (by decide) h]
  · obtain ⟨trace, hmiss⟩ := quotedBy_missed (show '"' ≠ '\'' by decide) (text ++ '"' :: rest) bound
    simp only [Parser.firstOf, hmiss, quotedBy_append (by decide) h]

/-- A string is read with either quote, -/
theorem reads_stringLiteral {s : String} :
    Reads limit Parser.stringLiteral [.string s] s Anything :=
  reads_lexeme fun bound lexeme rest hl _ _ => by
    cases hl with
    | string hq h =>
      rw [List.cons_append, List.append_assoc, List.singleton_append,
        firstOf_quotedBy_append hq h, String.ofList_toList]

/-- and missed where no string stands. -/
theorem misses_stringLiteral (hne : ∀ s, tokens.head? ≠ some (.string s)) :
    Misses limit Parser.stringLiteral tokens := by
  refine misses_lexeme (fun _ => ⟨_, rfl⟩) fun token ht bound c text rest hl _ => ?_
  have hc : c ≠ '\'' ∧ c ≠ '"' := by
    have hfirst := hl.mayBegin c rfl
    cases token with
    | symbol e =>
      obtain ⟨rfl, he⟩ := hfirst
      exact ⟨(symbols_disjoint he).2.2.1, (symbols_disjoint he).2.2.2.1⟩
    | dots => rw [show c = '.' from hfirst]; decide
    | name _ =>
      have hstart : isNameStart c = true := hfirst
      exact ⟨by rintro rfl; exact absurd hstart (by decide),
        by rintro rfl; exact absurd hstart (by decide)⟩
    | string s => exact absurd ht (hne s)
    | number _ =>
      rcases hfirst with rfl | hdigit
      · decide
      · exact ⟨by rintro rfl; exact absurd hdigit (by decide),
          by rintro rfl; exact absurd hdigit (by decide)⟩
  obtain ⟨trace, h⟩ := quotedBy_missed hc.1 (text ++ rest) bound
  obtain ⟨trace', h'⟩ := quotedBy_missed hc.2 (text ++ rest) bound
  exact ⟨trace' ++ [⟨c :: (text ++ rest), .alternatives⟩],
    by simp only [Parser.firstOf, h, h']⟩

/-! ## Numbers -/

/-- Digits are split off up to the first other character. -/
theorem splitDigits_append {digits rest : List Char} (hd : ∀ c ∈ digits, c.isDigit = true)
    (hr : ∀ c ∈ rest.head?, c.isDigit = false) : splitDigits (digits ++ rest) = (digits, rest) := by
  unfold splitDigits
  rw [List.takeWhile_append_of_pos hd, List.dropWhile_append_of_pos hd]
  cases rest with
  | nil => simp
  | cons c rest => simp [hr c rfl]

theorem splitDigits_spec {text digits rest : List Char} (h : splitDigits text = (digits, rest)) :
    (∀ c ∈ digits, c.isDigit = true) ∧ digits ++ rest = text := by
  cases h
  exact ⟨fun c hc => List.mem_takeWhile_imp hc, List.takeWhile_append_dropWhile⟩

/-- An exponent is split off if the text begins with one. -/
theorem splitExponent_spec (text : List Char) :
    splitExponent text = ([], text) ∨
      ∃ e : ExponentParts, ∃ rest, e.WellFormed ∧ text = e.text ++ rest ∧
        splitExponent text = (e.text, rest) := by
  unfold splitExponent
  split
  · rename_i mark text
    split
    · rename_i hmark
      dsimp only
      split
      · exact .inl rfl
      · rename_i digits after hne hsplit
        obtain ⟨hdigits, hunsigned⟩ := splitDigits_spec hsplit
        refine .inr ⟨⟨mark, _, digits⟩, after, ⟨hmark, ?_, hne, hdigits⟩, ?_, rfl⟩
        · split <;> simp
        · simp only [ExponentParts.text, List.cons_append, List.append_assoc, hunsigned]
          split <;> rfl
    · exact .inl rfl
  · exact .inl rfl

theorem ExponentParts.WellFormed.head {e : ExponentParts} (h : e.WellFormed) (rest : List Char) :
    ∀ c ∈ (e.text ++ rest).head?, c.isDigit = false ∧ c ≠ '.' := by
  rintro c ⟨⟩
  rcases h.mark with hm | hm <;> rw [hm] <;> decide

namespace NumberParts

/-- What follows the fraction of a number: its exponent or the text behind it. -/
theorem WellFormed.exponentText_head {p : NumberParts} (h : p.WellFormed) {rest : List Char}
    (hr : ∀ c ∈ rest.head?, c.isDigit = false ∧ c ≠ '.') :
    ∀ c ∈ (p.exponentText ++ rest).head?, c.isDigit = false ∧ c ≠ '.' := by
  unfold exponentText
  cases he : p.exponent with
  | none => exact hr
  | some e => exact (h.exponent e he).head rest

/-- The fraction of a number is split off, if it has one, -/
theorem splitFraction_append {p : NumberParts} (h : p.WellFormed) {rest : List Char}
    (hr : ∀ c ∈ rest.head?, c.isDigit = false ∧ c ≠ '.') :
    splitFraction (p.fractionText ++ rest) = (p.fractionText, rest) := by
  unfold fractionText
  split
  · cases rest with
    | nil => rfl
    | cons c rest =>
      have hc : c ≠ '.' := (hr c rfl).2
      unfold splitFraction
      split
      · rename_i heq
        exact absurd (List.cons.inj heq).1 hc
      · rfl
  · rename_i hne
    obtain ⟨d, ds, hf⟩ := List.exists_cons_of_ne_nil hne
    have hsplit := splitDigits_append h.fraction fun c hc => (hr c hc).1
    rw [hf] at hsplit ⊢
    rw [List.cons_append, splitFraction, hsplit]

/-- A number without exponent has no mark of one. -/
theorem WellFormed.not_mark_of_exponent {p : NumberParts} (h : p.WellFormed)
    (he : p.exponent = none) : ¬ ('e' ∈ p.text ∨ 'E' ∈ p.text) := by
  have hnot (c : Char) (hdigit : c.isDigit = false) (hminus : c ≠ '-') (hpoint : c ≠ '.') :
      c ∉ p.text := by
    intro hc
    have hparts : c ∈ p.signText ∨ c ∈ p.whole ∨ c ∈ p.fractionText := by
      simpa [text, exponentText, he] using hc
    rcases hparts with hsign | hwhole | hfraction
    · unfold signText at hsign
      split at hsign
      · exact hminus (List.mem_singleton.1 hsign)
      · cases hsign
    · exact Bool.false_ne_true (hdigit.symm.trans (h.whole c hwhole))
    · unfold fractionText at hfraction
      split at hfraction
      · cases hfraction
      · rcases List.mem_cons.1 hfraction with hc | hdigits
        · exact hpoint hc
        · exact Bool.false_ne_true (hdigit.symm.trans (h.fraction c hdigits))
  rintro (he | he)
  · exact hnot 'e' (by decide) (by decide) (by decide) he
  · exact hnot 'E' (by decide) (by decide) (by decide) he

/-- and so is its exponent. A number without one is not followed by what could be one. -/
theorem splitExponent_append {p : NumberParts} (h : p.WellFormed) {rest : List Char}
    (hr : ∀ c ∈ rest.head?, c.isDigit = false)
    (hm : ∀ e : ExponentParts, e.WellFormed → e.text <+: rest → 'e' ∈ p.text ∨ 'E' ∈ p.text) :
    splitExponent (p.exponentText ++ rest) = (p.exponentText, rest) := by
  unfold exponentText
  cases he : p.exponent with
  | none =>
    rcases splitExponent_spec rest with hnone | ⟨e, after, hwf, hrest, -⟩
    · exact hnone
    · have hmark := hm e hwf (hrest ▸ List.prefix_append ..)
      exact absurd hmark (h.not_mark_of_exponent he)
  | some e =>
    have hwf := h.exponent e he
    obtain ⟨d, ds, hd⟩ := List.exists_cons_of_ne_nil hwf.digits_ne
    have hsplit := splitDigits_append hwf.digits hr
    have hdigit : d.isDigit = true := hwf.digits d (by simp [hd])
    have hd' : d ≠ '+' ∧ d ≠ '-' := ⟨by rintro rfl; exact absurd hdigit (by decide),
      by rintro rfl; exact absurd hdigit (by decide)⟩
    rw [hd, List.cons_append] at hsplit
    simp only [Option.map_some, Option.getD_some, ExponentParts.text, List.cons_append,
      splitExponent, if_pos hwf.mark, List.append_assoc, hd]
    rcases hwf.sign with hs | hs | hs
    · simp [hs, hd', hsplit]
    · simp only [hs, List.cons_append, List.nil_append, hsplit]
    · simp only [hs, List.cons_append, List.nil_append, hsplit]

end NumberParts

/-- A number is read as it is written, -/
theorem reads_numberLiteral {s : String} :
    Reads limit Parser.numberLiteral [.number s] s Anything :=
  reads_lexeme fun bound lexeme rest hl hends _ => by
    cases hl with
    | number h =>
      obtain ⟨p, hp, htext⟩ := h
      obtain ⟨d, ds, hw⟩ := List.exists_cons_of_ne_nil hp.whole_ne
      obtain ⟨hhead, hmark⟩ := hends
      rw [← htext] at hmark
      have hexp := hp.exponentText_head hhead
      have hfraction := p.splitFraction_append hp hexp
      have hexponent := p.splitExponent_append hp (fun c hc => (hhead c hc).1) hmark
      have hnext : ∀ c ∈ (p.fractionText ++ (p.exponentText ++ rest)).head?,
          c.isDigit = false := by
        unfold NumberParts.fractionText
        split
        · exact fun c hc => (hexp c hc).1
        · rintro c ⟨⟩; decide
      have hsplit := splitDigits_append hp.whole hnext
      have hdigit : d.isDigit = true := hp.whole d (by simp [hw])
      have hminus : d ≠ '-' := by rintro rfl; exact absurd hdigit (by decide)
      rw [hw, List.cons_append] at hsplit
      rw [← String.ofList_toList (s := s), ← htext]
      simp only [NumberParts.text, hw, List.append_assoc, List.cons_append]
      unfold NumberParts.signText
      cases p.isNegative with
      | true => simp [hsplit, hfraction, hexponent]
      | false => simp [hminus, hsplit, hfraction, hexponent]

/-- and missed where no number stands. -/
theorem misses_numberLiteral (hne : ∀ s, tokens.head? ≠ some (.number s)) :
    Misses limit Parser.numberLiteral tokens := by
  refine misses_lexeme (fun _ => ⟨_, rfl⟩) fun token ht bound c text rest hl _ => ?_
  have hc : c ≠ '-' ∧ c.isDigit = false := by
    have hfirst := hl.mayBegin c rfl
    cases token with
    | symbol e =>
      obtain ⟨rfl, he⟩ := hfirst
      exact (symbols_disjoint he).2.2.2.2
    | dots => rw [show c = '.' from hfirst]; decide
    | name _ =>
      have hstart : isNameStart c = true := hfirst
      refine ⟨by rintro rfl; exact absurd hstart (by decide), ?_⟩
      by_contra hd
      rw [Bool.not_eq_false] at hd
      exact Bool.false_ne_true ((not_isNameStart_of_isDigit hd).symm.trans hstart)
    | string _ => rcases hfirst with rfl | rfl <;> decide
    | number s => exact absurd ht (hne s)
  refine ⟨[⟨c :: (text ++ rest), .digit⟩], ?_⟩
  simp [splitDigits, hc]

/-! ## The end of the text -/

/-- The end of the text may be behind blanks. -/
theorem reads_endOfText :
    Reads limit (Parser.lexeme Parser.endOfText) [] () (fun rest => rest = []) := by
  rintro bound text rest _ _ rfl hs
  refine ⟨[], ?_, .nil .nil, Nat.zero_le _⟩
  simp [Parser.lexeme, Parser.endOfText, Spells.skipBlanks_nil hs]

end LintTypes.Source
