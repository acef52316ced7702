import LintTypes.Proofs.RuleIdentifiers

/-!
# Entries of the index

The names of rules stand between single quotes in the index as they are. A name without quotes and
backslashes is read back; with one of them it is not. A quote would have to be escaped to be read,
and a backslash begins an escape, which takes up more characters than it stands for. So reading is
ahead of the name from the first escape on, and it never gets back: what has been passed over still
has to be read, and no quote is among it.
-/

namespace LintTypes

open Source
open StringLiteral (unescape?)

/-! ## Texts between quotes -/

/-- All digits of a number have values. -/
theorem isSome_of_hexNumber? {digits : List Char} {n : Nat} (h : hexNumber? digits = some n) :
    ∀ c ∈ digits, (hexValue? c).isSome = true := by
  have hfold : ∀ value, digits.foldlM (m := Option)
      (fun value c => do return value * 16 + (← hexValue? c)) value = some n →
      ∀ c ∈ digits, (hexValue? c).isSome = true := by
    clear h
    induction digits with
    | nil => exact fun _ _ => nofun
    | cons c digits ih =>
      intro value h
      rw [List.foldlM_cons] at h
      obtain ⟨next, hnext, hrest⟩ := Option.bind_eq_some_iff.1 h
      obtain ⟨digit, hdigit, -⟩ := Option.bind_eq_some_iff.1 hnext
      exact List.forall_mem_cons.2 ⟨Option.isSome_iff_exists.2 ⟨digit, hdigit⟩, ih next hrest⟩
  exact hfold 0 h

namespace StringLiteral

/-- No quote is among the characters of an escape that stands for something else. -/
theorem unescape?_split {text after : List Char} {c : Char} (hc : c ≠ '\'')
    (h : unescape? text = some (c, after)) :
    ∃ escape, text = escape ++ after ∧ escape ≠ [] ∧ '\'' ∉ escape := by
  unfold unescape? at h
  split at h
  case h_1 x y z w rest =>
    obtain ⟨e, hcode, hread⟩ := Option.bind_eq_some_iff.1 h
    cases hread
    obtain ⟨code, hcode, -⟩ := Option.bind_eq_some_iff.1 hcode
    refine ⟨['u', x, y, z, w], rfl, nofun, fun hmem => ?_⟩
    rcases List.mem_cons.1 hmem with heq | hmem
    · exact absurd heq (by decide)
    · exact absurd (isSome_of_hexNumber? hcode _ hmem) (by decide)
  all_goals cases h
  all_goals first
    | exact absurd rfl hc
    | exact ⟨[_], rfl, nofun, by decide⟩

/-- Such an escape does not reach up to the next quote. -/
theorem unescape?_front {text rest after : List Char} {c : Char} (hc : c ≠ '\'')
    (h : unescape? (text ++ '\'' :: rest) = some (c, after)) :
    ∃ escape others, text = escape ++ others ∧ escape ≠ [] ∧ '\'' ∉ escape ∧
      after = others ++ '\'' :: rest := by
  obtain ⟨escape, hsplit, hne, hquote⟩ := unescape?_split hc h
  rcases List.append_eq_append_iff.1 hsplit with ⟨between, hescape, hrest⟩ | ⟨others, htext, hafter⟩
  · cases between with
    | nil => exact ⟨escape, [], by simpa using hescape.symm, hne, hquote, hrest.symm⟩
    | cons d between =>
      obtain ⟨rfl, -⟩ := List.cons.inj hrest
      exact absurd (hescape ▸ List.mem_append_right _ (List.mem_cons_self ..)) hquote
  · exact ⟨escape, others, htext, hne, hquote, hafter⟩

end StringLiteral

namespace Source

theorem quotedChars?_escape_eq_some {quote : Char} (hq : '\\' ≠ quote) {text value rest : List Char}
    (h : quotedChars? quote ('\\' :: text) = some (value, rest)) :
    ∃ c after body, unescape? text = some (c, after) ∧
      quotedChars? quote after = some (body, rest) ∧ value = c :: body := by
  cases hescape : unescape? text with
  | none =>
    rw [quotedChars?, if_neg hq, if_pos rfl] at h
    split at h
    · cases h
    · rename_i hsome
      rw [hescape] at hsome
      cases hsome
  | some read =>
    rw [quotedChars?_escape hescape hq] at h
    obtain ⟨⟨body, _⟩, hbody, heq⟩ := Option.map_eq_some_iff.1 h
    cases heq
    exact ⟨read.1, read.2, body, rfl, hbody, rfl⟩

theorem quotedChars?_plain_eq_some {quote c : Char} (hq : c ≠ quote) (hc : c ≠ '\\')
    {text value rest : List Char} (h : quotedChars? quote (c :: text) = some (value, rest)) :
    ∃ body, quotedChars? quote text = some (body, rest) ∧ value = c :: body := by
  rw [quotedChars?_plain _ hq hc] at h
  obtain ⟨⟨body, _⟩, hbody, heq⟩ := Option.map_eq_some_iff.1 h
  cases heq
  exact ⟨body, hbody, rfl⟩

/-- Behind an escape, some of the text has been passed over but not read. -/
theorem ahead_of_escape {behind text rest after : List Char} (hb : '\'' ∉ behind)
    (h : quotedChars? '\'' ('\\' :: (text ++ '\'' :: rest)) =
      some (behind ++ '\\' :: text, '\'' :: after)) :
    ∃ passed others, passed ≠ [] ∧ '\'' ∉ passed ∧ others.length ≤ text.length ∧
      quotedChars? '\'' (others ++ '\'' :: rest) = some (passed ++ others, '\'' :: after) := by
  obtain ⟨c, middle, body, hescape, hbody, hread⟩ := quotedChars?_escape_eq_some (by decide) h
  obtain ⟨front, rfl, hc, hfront⟩ : ∃ front, body = front ++ text ∧ c ≠ '\'' ∧ '\'' ∉ front := by
    cases behind with
    | nil =>
      obtain ⟨rfl, rfl⟩ := List.cons.inj hread
      exact ⟨[], rfl, by decide, List.not_mem_nil⟩
    | cons b behind =>
      obtain ⟨hne, hb⟩ := not_or.1 (List.mem_cons.not.1 hb)
      obtain ⟨rfl, rfl⟩ := List.cons.inj hread
      exact ⟨behind ++ ['\\'], by simp, Ne.symm hne, by simpa using hb⟩
  obtain ⟨escape, others, rfl, hne, hquotes, rfl⟩ := StringLiteral.unescape?_front hc hescape
  rw [← List.append_assoc] at hbody
  refine ⟨front ++ escape, others, ?_, by simp [hfront, hquotes], by simp, hbody⟩
  exact fun hnil => hne (List.append_eq_nil_iff.1 hnil).2

/-- What is read up to a quote stands there behind some other text only if it stands there alone,
without quotes and backslashes. -/
theorem unescaped_of_quotedChars? {behind text rest after : List Char} (hb : '\'' ∉ behind)
    (h : quotedChars? '\'' (text ++ '\'' :: rest) = some (behind ++ text, '\'' :: after)) :
    behind = [] ∧ ('\'' ∉ text ∧ '\\' ∉ text) ∧ after = rest := by
  -- What has been passed over never gets shorter, and at the quote nothing may be left of it.
  induction hn : text.length using Nat.strong_induction_on generalizing behind text with
  | _ n ih =>
  subst hn
  cases text with
  | nil =>
    rw [List.nil_append, quotedChars?, if_pos rfl, List.append_nil] at h
    cases h
    exact ⟨rfl, ⟨List.not_mem_nil, List.not_mem_nil⟩, rfl⟩
  | cons c text =>
    rw [List.cons_append] at h
    by_cases hquote : c = '\''
    · rw [quotedChars?, if_pos hquote] at h
      obtain ⟨hnil, -⟩ := Prod.mk.inj (Option.some.inj h)
      exact absurd hnil.symm (by simp)
    by_cases hslash : c = '\\'
    · subst hslash
      obtain ⟨passed, others, hne, hquotes, hshort, hothers⟩ := ahead_of_escape hb h
      exact absurd (ih others.length (Nat.lt_succ_of_le hshort) hquotes hothers rfl).1 hne
    · obtain ⟨body, hbody, hread⟩ := quotedChars?_plain_eq_some hquote hslash h
      cases behind with
      | nil =>
        obtain ⟨-, rfl⟩ := List.cons.inj hread
        obtain ⟨-, ⟨hq, hs⟩, hafter⟩ := ih text.length (Nat.lt_succ_self _) hb hbody rfl
        exact ⟨rfl, ⟨by simp [Ne.symm hquote, hq], by simp [Ne.symm hslash, hs]⟩, hafter⟩
      | cons b behind =>
        obtain ⟨rfl, htail⟩ := List.cons.inj hread
        have hbody' : quotedChars? '\'' (text ++ '\'' :: rest) =
            some ((behind ++ [b]) ++ text, '\'' :: after) := by
          rw [hbody, ← htail]
          simp
        have hall : '\'' ∉ behind ++ [b] := by
          obtain ⟨hne, hb⟩ := not_or.1 (List.mem_cons.not.1 hb)
          simp [hne, hb]
        obtain ⟨hnil, -⟩ := ih text.length (Nat.lt_succ_self _) hall hbody' rfl
        exact absurd hnil (by simp)

/-! ## Readers on a text -/

section Readers

variable {α : Type} {p : Parser α} {cs text rest : List Char} {bound : Nat}

theorem StartsIn.head?_ne {c : Char} (h : StartsIn cs text) (hc : c ∉ cs) :
    (skipBlanks text).head? ≠ some c := by
  obtain ⟨d, hd, tail, htext⟩ := h
  rw [htext]
  rintro ⟨⟩
  exact hc hd

theorem MissesOn.optional_eq (h : MissesOn cs p) (ht : StartsIn cs text) :
    p.optional bound text = .done none text := by
  obtain ⟨trace, hmiss⟩ := h bound text ht
  rw [Parser.optional, hmiss]

theorem MissesOn.many_eq (h : MissesOn cs p) (ht : StartsIn cs text) :
    Parser.many p bound text = .done [] text := by
  obtain ⟨trace, hmiss⟩ := h bound text ht
  unfold Parser.many
  cases bound with
  | zero => rfl
  | succ bound => rw [Parser.upTo, hmiss]

theorem MissesOn.firstOf_eq {last : Parser α} {others : List (Parser α)} (h : MissesOn cs p)
    (ht : StartsIn cs text) :
    Parser.firstOf last (p :: others) bound text = Parser.firstOf last others bound text := by
  obtain ⟨trace, hmiss⟩ := h bound text ht
  exact firstOf_of_missed hmiss

/-- An alternative is taken if all after it miss. -/
theorem MissesOn.firstOf_eq_done {last : Parser α} {others : List (Parser α)} {value : α}
    (h : MissesOn cs (Parser.firstOf last others)) (ht : StartsIn cs text)
    (hread : Parser.firstOf last (p :: others) bound text = .done value rest) :
    p bound text = .done value rest := by
  obtain ⟨trace, hmiss⟩ := h bound text ht
  cases hp : p bound text with
  | missed trace' =>
    rw [firstOf_of_missed hp, hmiss] at hread
    cases hread
  | done _ _ | broken _ => simpa only [Parser.firstOf, hp] using hread

theorem within_eq_done {construct : String} {value : α}
    (h : p.within construct bound text = .done value rest) : p bound text = .done value rest := by
  unfold Parser.within at h
  split at h
  · rename_i hread
    rwa [hread]
  · cases h
  · cases h

theorem symbol_eq {s : String} {c : Char} (hs : s.toList = [c])
    (h : skipBlanks text = c :: rest) : Parser.symbol s bound text = .done () rest := by
  rw [Parser.symbol, Parser.lexeme, h, hs]
  exact literally_append [c] rest bound

theorem word_eq {s : String} (h : skipBlanks text = s.toList ++ rest) (hr : Apart rest) :
    Parser.word s bound text = .done () rest := by
  obtain ⟨trace, hmiss⟩ := nameChar_missed hr bound
  rw [Parser.word, Parser.lexeme, h, bind_of_done (literally_append ..), Parser.absent, hmiss]

theorem identifier_eq {s : String} (hs : isIdentifier s = true)
    (h : skipBlanks text = s.toList ++ rest) (hr : Apart rest) :
    Parser.identifier bound text = .done s rest := by
  rw [Parser.identifier, Parser.lexeme, h,
    bind_of_done (nameChars_append hs (fun c hc => (hr c hc).1) bound)]
  simp [pure, Parser.pure]

theorem dottedName_eq {s : String} (hs : isIdentifier s = true)
    (h : skipBlanks text = s.toList ++ rest) (hr : Apart rest) :
    Parser.dottedName bound text = .done s rest := by
  have hmany : Parser.many (do let _ ← Parser.character '.'; Parser.nameChars) bound rest =
      .done [] rest := by
    cases bound with
    | zero => rfl
    | succ bound => exact @upTo_point_nameChars [] _ nofun hr _ _ (Nat.succ_pos _)
  have hparts : Parser.sepBy1 Parser.nameChars (Parser.character '.') bound (s.toList ++ rest) =
      .done [s.toList] rest := by
    rw [Parser.sepBy1, bind_of_done (nameChars_append hs (fun c hc => (hr c hc).1) bound),
      bind_of_done hmany]
    rfl
  rw [Parser.dottedName, Parser.lexeme, h, bind_of_done hparts]
  simp [pure, Parser.pure]

/-! ## Entries -/

variable {name : String} {nested : Parser TypeExpr}

/-- There are no arguments where no `<` follows the blanks. -/
theorem optional_typeArguments (hs : (skipBlanks rest).head? ≠ some '<') :
    (Parser.typeArguments nested).optional bound rest = .done none rest := by
  have hprefix : ¬ "<".toList <+: skipBlanks rest := by
    rintro ⟨after, hafter⟩
    exact hs (by rw [← hafter]; rfl)
  obtain ⟨trace, hmiss⟩ := literally_missed hprefix bound
  have hargs : Parser.typeArguments nested bound rest = .missed trace := bind_of_missed hmiss
  rw [Parser.optional, hargs]

/-- A name that is not reserved is read as the type of this name. -/
theorem wordOrReference_eq (hn : isIdentifier name = true) (hr : name ∉ reservedNames)
    (h : skipBlanks text = name.toList ++ rest) (ha : Apart rest)
    (hs : (skipBlanks rest).head? ≠ some '<') :
    Parser.wordOrReference nested bound text = .done (.named name) rest := by
  rw [Parser.wordOrReference, bind_of_done (dottedName_eq hn h ha), reservedType?_eq_none hr]
  exact bind_of_done (optional_typeArguments hs)

theorem primaryType_eq (hn : isIdentifier name = true) (hr : name ∉ reservedNames)
    (h : skipBlanks text = name.toList ++ rest) (ha : Apart rest) (hs : StartsIn [',', '}'] rest) :
    Parser.primaryType nested bound text = .done (.named name) rest := by
  obtain ⟨c, tail, hc, hstart, -⟩ := isIdentifierChars_iff.1 hn
  have ht : StartsIn [c] text := ⟨c, List.mem_singleton_self c, tail ++ rest, by rw [h, hc]; rfl⟩
  have hne : ∀ d, isNameStart d = false → d ∉ [c] := by
    intro d hd hmem
    rw [List.mem_singleton.1 hmem, hstart] at hd
    cases hd
  have hquotes : ∀ d ∈ [c], d ≠ '\'' ∧ d ≠ '"' := by
    intro d hd
    constructor <;> rintro rfl <;> exact hne _ (by decide) hd
  have hnumber : ∀ d ∈ [c], d ≠ '-' ∧ d.isDigit = false := by
    intro d hd
    refine ⟨?_, Bool.eq_false_iff.2 fun hdigit => hne d (not_isNameStart_of_isDigit hdigit) hd⟩
    rintro rfl
    exact hne _ (by decide) hd
  have hparentheses : MissesOn [c] (Parser.parenthesizedType nested) :=
    (missesOn_symbol (c := '(') (by decide) (hne _ (by decide))).bind
  have htuple : MissesOn [c] (Parser.tupleType nested) :=
    (missesOn_symbol (c := '[') (by decide) (hne _ (by decide))).bind
  have hblock : MissesOn [c] (do return TypeExpr.object (← Parser.memberBlock nested)) :=
    (missesOn_symbol (c := '{') (by decide) (hne _ (by decide))).bind.bind
  have hstring : MissesOn [c] (do return TypeExpr.literal (.string (← Parser.stringLiteral))) :=
    (missesOn_stringLiteral hquotes).bind
  have hnumeral : MissesOn [c] (do return TypeExpr.literal (.number (← Parser.numberLiteral))) :=
    (missesOn_numberLiteral hnumber).bind
  have hword : Parser.firstOf (Parser.wordOrReference nested) [] bound text =
      .done (.named name) rest := by
    simp only [Parser.firstOf, wordOrReference_eq hn hr h ha (hs.head?_ne (by decide))]
  rw [Parser.primaryType, Parser.within, hparentheses.firstOf_eq ht, htuple.firstOf_eq ht,
    hblock.firstOf_eq ht, hstring.firstOf_eq ht, hnumeral.firstOf_eq ht, hword]

theorem unionType_eq (hn : isIdentifier name = true) (hr : name ∉ reservedNames)
    (h : skipBlanks text = name.toList ++ rest) (ha : Apart rest) (hs : StartsIn [',', '}'] rest) :
    Parser.unionType nested bound text = .done (.named name) rest := by
  obtain ⟨c, tail, hc, hstart, -⟩ := isIdentifierChars_iff.1 hn
  have ht : StartsIn [c] text := ⟨c, List.mem_singleton_self c, tail ++ rest, by rw [h, hc]; rfl⟩
  have hnone {mark : String} {d : Char} (hm : Mark mark d) :
      Parser.optional (Parser.symbol mark) bound text = .done none text := by
    refine (missesOn_symbol hm fun hmem => ?_).optional_eq ht
    rw [List.mem_singleton.1 hmem] at hm
    exact Bool.false_ne_true (hm.2.2.2.symm.trans hstart)
  have hmany {α : Type} {mark : String} {d : Char} {q : Parser α} (hm : Mark mark d)
      (hd : d ∉ [',', '}']) :
      Parser.many (do Parser.symbol mark; q) bound rest = .done [] rest :=
    (missesOn_symbol hm hd).bind.many_eq hs
  have harray : Parser.arrayType nested bound text = .done (.named name) rest := by
    unfold Parser.arrayType
    rw [bind_of_done (primaryType_eq hn hr h ha hs),
      bind_of_done (hmany (d := '[') (by decide) (by decide))]
    rfl
  have hintersection : Parser.intersectionType nested bound text = .done (.named name) rest := by
    unfold Parser.intersectionType
    rw [bind_of_done (hnone (d := '&') (by decide)), bind_of_done harray,
      bind_of_done (hmany (d := '&') (by decide) (by decide))]
    rfl
  unfold Parser.unionType
  rw [bind_of_done (hnone (d := '|') (by decide)), bind_of_done hintersection,
    bind_of_done (hmany (d := '|') (by decide) (by decide))]
  rfl

/-- A name is read as the type of this name. -/
theorem typeExpr_eq (hn : isIdentifier name = true) (hr : name ∉ reservedNames)
    (h : skipBlanks text = name.toList ++ rest) (ha : Apart rest) (hs : StartsIn [',', '}'] rest) :
    Parser.typeExpr (bound + 1) text = .done (.named name) rest :=
  unionType_eq hn hr h ha hs

variable {body : List Char} {value : String} {member : Member} {type : TypeExpr}

theorem stringLiteral_eq_done (h : skipBlanks text = '\'' :: body)
    (hread : Parser.stringLiteral bound text = .done value rest) :
    quotedChars? '\'' body = some (value.toList, '\'' :: rest) := by
  rw [Parser.stringLiteral, Parser.lexeme, h] at hread
  have hquoted : Parser.quotedBy '\'' bound ('\'' :: body) = .done value rest := by
    cases hp : Parser.quotedBy '\'' bound ('\'' :: body) with
    | missed trace =>
      obtain ⟨trace', hmiss⟩ := quotedBy_missed (show '\'' ≠ '"' by decide) body bound
      simp [Parser.firstOf, hp, hmiss] at hread
    | done _ _ | broken _ => simpa only [Parser.firstOf, hp] using hread
  obtain ⟨tail, chars, heq, hchars, rfl⟩ := quotedBy_eq_done hquoted
  obtain ⟨-, rfl⟩ := List.cons.inj heq
  rwa [String.toList_ofList]

theorem stringLiteral_eq {chars : List Char} (hc : '\'' ∉ chars ∧ '\\' ∉ chars)
    (h : skipBlanks text = '\'' :: (chars ++ '\'' :: rest)) :
    Parser.stringLiteral bound text = .done (String.ofList chars) rest := by
  have hquoted := quoted_of_unescaped hc.1 hc.2
  rw [Parser.stringLiteral, Parser.lexeme, h]
  simp only [Parser.firstOf, quotedBy_append (by decide) hquoted]

/-- In front of a quoted key there is no mark, and the key is nothing else. -/
theorem member_quoted (h : skipBlanks text = '\'' :: body) :
    Parser.member nested bound text =
      (do
        let key ← Parser.firstOf (do return MemberKey.named (← Parser.numberLiteral))
          [do return .named (← Parser.stringLiteral)]
        let mark ← Parser.optional (Parser.symbol "?")
        Parser.commit (Parser.within "`:`" (Parser.symbol ":"))
        let type ← Parser.commit nested
        return ⟨key, type, mark.isSome, false, none⟩ : Parser Member) bound text := by
  have ht : StartsIn ['\''] text := ⟨'\'', List.mem_singleton_self _, body, h⟩
  have hreadonly : MissesOn ['\''] Parser.readonlyMark :=
    (missesOn_word (s := "readonly") (c := 'r') rfl (by decide)).bind
  have hindex : MissesOn ['\''] (Parser.indexSignature nested) :=
    (missesOn_symbol (c := '[') (by decide) (by decide)).bind
  have hname : MissesOn ['\''] (do return MemberKey.named (← Parser.identifier)) :=
    (missesOn_identifier (by decide)).bind
  have hkey : Parser.memberKey nested bound text =
      Parser.firstOf (do return MemberKey.named (← Parser.numberLiteral))
        [do return .named (← Parser.stringLiteral)] bound text := by
    rw [Parser.memberKey, hindex.firstOf_eq ht, hname.firstOf_eq ht]
  rw [Parser.member, bind_of_done (hreadonly.optional_eq ht)]
  show Parser.bind _ _ bound text = Parser.bind _ _ bound text
  rw [Parser.bind, Parser.bind, hkey]
  rfl

theorem member_eq_done (h : skipBlanks text = '\'' :: body)
    (hread : Parser.member nested bound text = .done member rest) :
    ∃ name after, quotedChars? '\'' body = some (name.toList, '\'' :: after) ∧
      member.key = .named name := by
  have ht : StartsIn ['\''] text := ⟨'\'', List.mem_singleton_self _, body, h⟩
  rw [member_quoted h] at hread
  obtain ⟨key, middle, hkey, hread⟩ := bind_eq_done hread
  obtain ⟨mark, _, -, hread⟩ := bind_eq_done hread
  obtain ⟨_, _, -, hread⟩ := bind_eq_done hread
  obtain ⟨type, _, -, hread⟩ := bind_eq_done hread
  cases hread
  have hnumber : MissesOn ['\'']
      (Parser.firstOf (do return MemberKey.named (← Parser.numberLiteral)) []) :=
    missesOn_firstOf (missesOn_numberLiteral (by decide)).bind nofun
  obtain ⟨name, after, hname, hkey⟩ := bind_eq_done (hnumber.firstOf_eq_done ht hkey)
  cases hkey
  exact ⟨name, _, stringLiteral_eq_done h hname, rfl⟩

theorem member_eq {chars after : List Char} (hc : '\'' ∉ chars ∧ '\\' ∉ chars)
    (h : skipBlanks text = '\'' :: (chars ++ '\'' :: ':' :: after))
    (ht : nested bound after = .done type rest) :
    Parser.member nested bound text =
      .done (.property (String.ofList chars) type false none) rest := by
  have hcolon : skipBlanks (':' :: after) = ':' :: after :=
    skipBlanks_of_head (by decide) (by decide)
  have hmark : Parser.optional (Parser.symbol "?") bound (':' :: after) =
      .done none (':' :: after) := by
    have hmiss : MissesOn [':'] (Parser.symbol "?") :=
      missesOn_symbol (c := '?') (by decide) (by decide)
    exact hmiss.optional_eq ⟨':', List.mem_singleton_self _, after, hcolon⟩
  have hkey : Parser.firstOf (do return MemberKey.named (← Parser.numberLiteral))
      [do return .named (← Parser.stringLiteral)] bound text =
        .done (.named (String.ofList chars)) (':' :: after) := by
    have hstring : (do return MemberKey.named (← Parser.stringLiteral) : Parser MemberKey)
        bound text = .done (.named (String.ofList chars)) (':' :: after) :=
      bind_of_done (stringLiteral_eq hc h)
    simp only [Parser.firstOf, hstring]
  have hclose : Parser.commit (Parser.within "`:`" (Parser.symbol ":")) bound (':' :: after) =
      .done () after := by
    rw [Parser.commit, Parser.within, symbol_eq (c := ':') rfl hcolon]
  have htype : Parser.commit nested bound after = .done type rest := by
    rw [Parser.commit, ht]
  rw [member_quoted h, bind_of_done hkey, bind_of_done hmark, bind_of_done hclose,
    bind_of_done htype]
  rfl

theorem skipBlanks_identifier (hn : isIdentifier name = true) (rest : List Char) :
    skipBlanks (name.toList ++ rest) = name.toList ++ rest := by
  obtain ⟨c, tail, hc, hstart, -⟩ := isIdentifierChars_iff.1 hn
  obtain ⟨hspace, hslash⟩ := not_blank_of_isNameChar (isNameChar_of_isNameStart hstart)
  rw [hc]
  exact skipBlanks_of_head hspace hslash

theorem upTo_eq_done_cons {count : Nat} {value : α} {values : List α}
    (h : Parser.upTo count p bound text = .done (value :: values) rest) :
    ∃ count middle, p bound text = .done value middle ∧
      Parser.upTo count p bound middle = .done values rest := by
  cases count with
  | zero => cases h
  | succ count =>
    unfold Parser.upTo at h
    split at h
    · cases h
    · cases h
    · rename_i middle hfirst
      split at h
      · rename_i hothers
        cases h
        exact ⟨count, middle, hfirst, hothers⟩
      · cases h
      · cases h

end Readers

/-- Reads one member and the mark behind it, if there is one. -/
def Parser.separatedMember (nested : Parser TypeExpr) : Parser Member := do
  let member ← Parser.member nested
  let _ ← Parser.optional (Parser.firstOf (Parser.symbol ",") [Parser.symbol ";"])
  return member

section Blocks

variable {nested : Parser TypeExpr} {bound : Nat} {text rest after : List Char}
  {members : List Member}

theorem memberBlock_eq_done (h : skipBlanks text = '{' :: after)
    (hread : Parser.memberBlock nested bound text = .done members rest) :
    ∃ rest, Parser.upTo bound (Parser.separatedMember nested) bound after = .done members rest := by
  have hopen : Parser.symbol "\x7b" bound text = .done () after := symbol_eq rfl h
  rw [Parser.memberBlock, bind_of_done hopen] at hread
  obtain ⟨found, middle, hmembers, hread⟩ := bind_eq_done hread
  obtain ⟨_, _, -, hread⟩ := bind_eq_done hread
  cases hread
  exact ⟨middle, hmembers⟩

theorem primaryType_eq_done (h : skipBlanks text = '{' :: after)
    (hread : Parser.primaryType nested bound text = .done (.object members) rest) :
    ∃ rest, Parser.upTo bound (Parser.separatedMember nested) bound after = .done members rest := by
  have ht : StartsIn ['{'] text := ⟨'{', List.mem_singleton_self _, after, h⟩
  have hparentheses : MissesOn ['{'] (Parser.parenthesizedType nested) :=
    (missesOn_symbol (c := '(') (by decide) (by decide)).bind
  have htuple : MissesOn ['{'] (Parser.tupleType nested) :=
    (missesOn_symbol (c := '[') (by decide) (by decide)).bind
  have hothers : MissesOn ['{'] (Parser.firstOf (Parser.wordOrReference nested)
      [do return .literal (.string (← Parser.stringLiteral)),
        do return .literal (.number (← Parser.numberLiteral))]) := by
    refine missesOn_firstOf (missesOn_dottedName (by decide)).bind ?_
    simp only [List.forall_mem_cons, List.not_mem_nil, false_implies, implies_true, and_true]
    exact ⟨(missesOn_stringLiteral (by decide)).bind, (missesOn_numberLiteral (by decide)).bind⟩
  replace hread := within_eq_done hread
  rw [hparentheses.firstOf_eq ht, htuple.firstOf_eq ht] at hread
  obtain ⟨found, _, hblock, hread⟩ := bind_eq_done (hothers.firstOf_eq_done ht hread)
  cases hread
  exact memberBlock_eq_done h hblock

/-- An object type that is read behind a brace is the members behind the brace. -/
theorem unionType_eq_done (h : skipBlanks text = '{' :: after)
    (hread : Parser.unionType nested bound text = .done (.object members) rest) :
    ∃ rest, Parser.upTo bound (Parser.separatedMember nested) bound after = .done members rest := by
  have ht : StartsIn ['{'] text := ⟨'{', List.mem_singleton_self _, after, h⟩
  have hnone {mark : String} {c : Char} (hm : Mark mark c) (hc : c ∉ ['{']) :
      Parser.optional (Parser.symbol mark) bound text = .done none text :=
    (missesOn_symbol hm hc).optional_eq ht
  unfold Parser.unionType at hread
  rw [bind_of_done (hnone (c := '|') (by decide) (by decide))] at hread
  obtain ⟨first, _, hfirst, hread⟩ := bind_eq_done hread
  obtain ⟨others, _, -, hread⟩ := bind_eq_done hread
  obtain rfl : first = .object members := by
    obtain ⟨hvalue, -⟩ := Outcome.done.inj hread
    split at hvalue
    · exact hvalue
    · cases hvalue
  unfold Parser.intersectionType at hfirst
  rw [bind_of_done (hnone (c := '&') (by decide) (by decide))] at hfirst
  obtain ⟨first, _, harray, hfirst⟩ := bind_eq_done hfirst
  obtain ⟨others, _, -, hfirst⟩ := bind_eq_done hfirst
  obtain rfl : first = .object members := by
    obtain ⟨hvalue, -⟩ := Outcome.done.inj hfirst
    split at hvalue
    · exact hvalue
    · cases hvalue
  unfold Parser.arrayType at harray
  obtain ⟨type, _, hprimary, harray⟩ := bind_eq_done harray
  obtain ⟨brackets, _, -, harray⟩ := bind_eq_done harray
  obtain rfl : type = .object members := by
    obtain ⟨hvalue, -⟩ := Outcome.done.inj harray
    cases brackets using List.reverseRecOn with
    | nil => exact hvalue
    | append_singleton brackets bracket => simp at hvalue
  exact primaryType_eq_done h hprimary

theorem typeAlias_eq_done {name : String} {declaration : Declaration}
    (hn : isIdentifier name = true)
    (h : skipBlanks text = "type".toList ++ ' ' :: (name.toList ++ ' ' :: '=' :: after))
    (hread : Parser.typeAlias bound text = .done declaration rest) :
    ∃ type rest, Parser.typeExpr bound after = .done type rest ∧
      declaration = .typeAlias name type none := by
  have hname : Parser.commit (Parser.within "type name" Parser.identifier) bound
      (' ' :: (name.toList ++ ' ' :: '=' :: after)) = .done name (' ' :: '=' :: after) := by
    have hskip := (skipBlanks_space (c := ' ') (by decide) _).trans
      (skipBlanks_identifier hn (' ' :: '=' :: after))
    rw [Parser.commit, Parser.within, identifier_eq hn hskip (apart_space _)]
  have hskip : skipBlanks (' ' :: '=' :: after) = '=' :: after :=
    (skipBlanks_space (by decide) _).trans (skipBlanks_of_head (by decide) (by decide))
  have hangle : MissesOn ['='] Parser.typeParameters := missesOn_typeParameters (by decide)
  have hparameters : Parser.optional Parser.typeParameters bound (' ' :: '=' :: after) =
      .done none (' ' :: '=' :: after) :=
    hangle.optional_eq ⟨'=', List.mem_singleton_self _, after, hskip⟩
  have hequals : Parser.commit (Parser.within "`=`" (Parser.symbol "=")) bound
      (' ' :: '=' :: after) = .done () after := by
    rw [Parser.commit, Parser.within, symbol_eq (c := '=') rfl hskip]
  rw [Parser.typeAlias, bind_of_done (word_eq h (apart_space _)), bind_of_done hname,
    bind_of_done hparameters, bind_of_done hequals] at hread
  obtain ⟨type, _, htype, hread⟩ := bind_eq_done hread
  cases hread
  exact ⟨type, _, within_eq_done (commit_eq_done htype), rfl⟩

/-- The type of an alias stands behind its name. -/
theorem declaration_eq_done {name : String} {type : TypeExpr} (hn : isIdentifier name = true)
    (hread : Parser.declaration bound ("export".toList ++ ' ' :: ("type".toList ++ ' ' ::
      (name.toList ++ ' ' :: '=' :: after))) = .done (.typeAlias name type none) rest) :
    ∃ rest, Parser.typeExpr bound after = .done type rest := by
  generalize hafter : name.toList ++ ' ' :: '=' :: after = afterType at hread
  have hexport : Parser.optional (Parser.word "export") bound ("export".toList ++ ' ' ::
      ("type".toList ++ ' ' :: afterType)) = .done (some ()) (' ' :: ("type".toList ++ ' ' ::
        afterType)) := by
    rw [Parser.optional, word_eq (skipBlanks_identifier (by decide) _) (apart_space _)]
  have hskip : skipBlanks (' ' :: ("type".toList ++ ' ' :: afterType)) =
      "type".toList ++ ' ' :: afterType :=
    (skipBlanks_space (by decide) _).trans (skipBlanks_identifier (by decide) _)
  have ht : StartsIn ['t'] (' ' :: ("type".toList ++ ' ' :: afterType)) :=
    ⟨'t', List.mem_singleton_self _, _, hskip⟩
  have hdeclare : MissesOn ['t'] (Parser.word "declare") :=
    missesOn_word (c := 'd') rfl (by decide)
  have hinterface : MissesOn ['t'] (Parser.firstOf Parser.interface []) :=
    missesOn_firstOf (missesOn_word (s := "interface") (c := 'i') rfl (by decide)).bind nofun
  rw [Parser.declaration, bind_of_done hexport, bind_of_done (hdeclare.optional_eq ht)] at hread
  obtain ⟨declaration, _, halias, hread⟩ := bind_eq_done hread
  obtain ⟨_, _, -, hread⟩ := bind_eq_done hread
  cases hread
  obtain ⟨type, rest, htype, heq⟩ :=
    typeAlias_eq_done hn (hskip.trans (by rw [hafter])) (hinterface.firstOf_eq_done ht halias)
  cases heq
  exact ⟨rest, htype⟩

end Blocks

end Source

/-! ## The mapping -/

section Mapping

variable {files : List DeclarationFile} {file : DeclarationFile} {rulesPrefix : String}

/-- What is behind the brace of the mapping. -/
def entriesText (rulesPrefix : String) (files : List DeclarationFile) : List Char :=
  (",\n".intercalate (files.map (DeclarationFile.indexEntry rulesPrefix))).toList ++ ['\n', '\x7d']

/-- What is behind the type of the first entry. -/
def behindEntry (rulesPrefix : String) : List DeclarationFile → List Char
  | [] => ['\n', '\x7d']
  | file :: files => ',' :: '\n' :: entriesText rulesPrefix (file :: files)

theorem skipBlanks_entriesText (file : DeclarationFile) (files : List DeclarationFile) :
    skipBlanks (entriesText rulesPrefix (file :: files)) =
      '\'' :: ((rulesPrefix ++ file.rule).toList ++ '\'' :: ':' :: ' ' ::
        (file.identifier.toList ++ behindEntry rulesPrefix files)) := by
  have htext : entriesText rulesPrefix (file :: files) =
      ' ' :: ' ' :: '\'' :: ((rulesPrefix ++ file.rule).toList ++ '\'' :: ':' :: ' ' ::
        (file.identifier.toList ++ behindEntry rulesPrefix files)) := by
    cases files with
    | nil => simp [entriesText, behindEntry, DeclarationFile.indexEntry]
    | cons next files => simp [entriesText, behindEntry, DeclarationFile.indexEntry]
  rw [htext, skipBlanks_space (by decide), skipBlanks_space (by decide),
    skipBlanks_of_head (by decide) (by decide)]

theorem apart_behindEntry (files : List DeclarationFile) :
    Apart (behindEntry rulesPrefix files) := by
  cases files with
  | nil => exact apart_newline _
  | cons file files => exact apart_symbol (by decide) _

theorem startsIn_behindEntry (files : List DeclarationFile) :
    StartsIn [',', '}'] (behindEntry rulesPrefix files) := by
  cases files with
  | nil =>
    exact ⟨'}', by decide, [], (skipBlanks_space (by decide) _).trans
      (skipBlanks_of_head (by decide) (by decide))⟩
  | cons file files =>
    exact ⟨',', by decide, _, skipBlanks_of_head (by decide) (by decide)⟩

theorem optional_comma_eq (bound : Nat) (rest : List Char) :
    Parser.optional (Parser.firstOf (Parser.symbol ",") [Parser.symbol ";"]) bound (',' :: rest) =
      .done (some ()) rest := by
  have hskip : skipBlanks (',' :: rest) = ',' :: rest :=
    skipBlanks_of_head (by decide) (by decide)
  have hmiss : MissesOn [','] (Parser.symbol ";") :=
    missesOn_symbol (c := ';') (by decide) (by decide)
  rw [Parser.optional, hmiss.firstOf_eq ⟨',', List.mem_singleton_self _, rest, hskip⟩]
  simp only [Parser.firstOf, symbol_eq (show ",".toList = [','] from rfl) hskip]

/-- A name with a quote or a backslash is not read back, so if all names are, there is none. -/
theorem unescaped_of_upTo {n bound count : Nat} {text rest : List Char}
    (hi : ∀ file ∈ files, isIdentifier file.identifier = true ∧ file.identifier ∉ reservedNames)
    (h : skipBlanks text = skipBlanks (entriesText rulesPrefix files))
    (hread : Parser.upTo count
        (Parser.separatedMember fun _ inner => Parser.typeExpr (n + 1) inner) bound text =
      .done (files.map (DeclarationFile.indexMember rulesPrefix)) rest) :
    ∀ file ∈ files, Unescaped (rulesPrefix ++ file.rule) := by
  induction files generalizing count text with
  | nil => exact nofun
  | cons file files ih =>
    obtain ⟨⟨hid, hreserved⟩, hi⟩ := List.forall_mem_cons.1 hi
    rw [skipBlanks_entriesText] at h
    obtain ⟨count, middle, hfirst, hothers⟩ := upTo_eq_done_cons hread
    obtain ⟨member, afterMember, hmember, hseparator⟩ := bind_eq_done hfirst
    obtain ⟨mark, _, hmark, hpure⟩ := bind_eq_done hseparator
    cases hpure
    obtain ⟨name, after, hquoted, hkey⟩ := member_eq_done h hmember
    obtain rfl : rulesPrefix ++ file.rule = name := MemberKey.named.inj hkey
    obtain ⟨-, hunescaped, -⟩ := @unescaped_of_quotedChars? [] _ _ _ nofun hquoted
    refine List.forall_mem_cons.2 ⟨hunescaped, ?_⟩
    cases files with
    | nil => exact nofun
    | cons next files =>
      refine ih hi ?_ hothers
      have htype : Parser.typeExpr (n + 1) (' ' :: (file.identifier.toList ++
          behindEntry rulesPrefix (next :: files))) = .done (.named file.identifier)
            (behindEntry rulesPrefix (next :: files)) := by
        refine typeExpr_eq hid hreserved ?_ (apart_behindEntry _) (startsIn_behindEntry _)
        rw [skipBlanks_space (by decide), skipBlanks_identifier hid]
      have hnext : Parser.member (fun _ inner => Parser.typeExpr (n + 1) inner) bound text =
          .done _ (behindEntry rulesPrefix (next :: files)) := member_eq hunescaped h htype
      obtain ⟨-, rfl⟩ := Outcome.done.inj (hnext.symm.trans hmember)
      rw [behindEntry, optional_comma_eq] at hmark
      cases hmark
      exact skipBlanks_space (by decide) _

/-- Behind the imports stands the mapping. It is read as a type with one member for each file, found
under the prefix and the name of the rule, if and only if all these stand for themselves: a name
with a quote or a backslash is lost or changed. -/
theorem ofSource_mapping_iff (files : List DeclarationFile) (rulesPrefix : String)
    (hi : ∀ file ∈ files, isIdentifier file.identifier = true ∧ file.identifier ∉ reservedNames) :
    indexSource files rulesPrefix =
        "\n".intercalate (files.map DeclarationFile.importLine) ++ "\n\n" ++
          mappingSource files rulesPrefix ∧
      (Declarations.ofSource (mappingSource files rulesPrefix) = .ok [.typeAlias "RuleOptions"
          (.object (files.map (DeclarationFile.indexMember rulesPrefix))) none] ↔
        ∀ file ∈ files, Unescaped (rulesPrefix ++ file.rule)) := by
  refine ⟨indexSource_eq files rulesPrefix, fun h => ?_, ofSource_mappingSource_unescaped hi⟩
  obtain ⟨_, hread, -⟩ := Declarations.ofSource_eq_ok.1 h
  obtain ⟨_, _, hdeclaration, -⟩ := upTo_eq_done_cons hread
  have htext : (mappingSource files rulesPrefix).toList = "export".toList ++ ' ' ::
      ("type".toList ++ ' ' :: ("RuleOptions".toList ++ ' ' :: '=' ::
        (' ' :: '{' :: '\n' :: entriesText rulesPrefix files))) := by
    simp [mappingSource_eq, entriesText]
  obtain ⟨n, hlength⟩ : ∃ n, (mappingSource files rulesPrefix).toList.length = n + 1 :=
    Nat.exists_eq_add_one_of_ne_zero (by rw [htext]; simp)
  rw [hlength, htext] at hdeclaration
  obtain ⟨_, htype⟩ := declaration_eq_done (by decide) hdeclaration
  obtain ⟨_, hmembers⟩ := unionType_eq_done ((skipBlanks_space (by decide) _).trans
    (skipBlanks_of_head (by decide) (by decide))) htype
  exact unescaped_of_upTo hi (skipBlanks_space (by decide) _) hmembers

/-- Files of rules with other marks than single quotes and backslashes in their names. -/
def markedFiles : List DeclarationFile :=
  [⟨"no \"any\"", "NoAny", "no-any", ""⟩, ⟨"line\nends", "LineEnds", "line-ends", ""⟩]

/-- Double quotes and line breaks are read back. -/
theorem ofSource_mapping_iff_markedFiles :
    Declarations.ofSource (mappingSource markedFiles "style/") = .ok [.typeAlias "RuleOptions"
      (.object [.property "style/no \"any\"" (.named "NoAny") false none,
        .property "style/line\nends" (.named "LineEnds") false none]) none] := by
  have hidentifiers : ∀ file ∈ markedFiles,
      isIdentifier file.identifier = true ∧ file.identifier ∉ reservedNames := by decide
  exact (ofSource_mapping_iff markedFiles "style/" hidentifiers).2.2 (by decide)

/-- A quote ends the name, and the index cannot be read. A backslash changes it. -/
theorem ofSource_mapping_escaped :
    (∃ error, Declarations.ofSource (mappingSource [⟨"it's", "Its", "it's", ""⟩] "") =
        .error error) ∧
      Declarations.ofSource (mappingSource [⟨"line\\nends", "LineEnds", "line-ends", ""⟩] "") =
        .ok [.typeAlias "RuleOptions"
          (.object [.property "line\nends" (.named "LineEnds") false none]) none] := by
  have hquote : mappingSource [⟨"it's", "Its", "it's", ""⟩] "" =
      "export type RuleOptions = \x7b\n  'it's': Its\n\x7d" := by decide +kernel
  have hslash : mappingSource [⟨"line\\nends", "LineEnds", "line-ends", ""⟩] "" =
      "export type RuleOptions = \x7b\n  'line\\nends': LineEnds\n\x7d" := by decide +kernel
  rw [hquote, hslash]
  constructor
  · cases hread : Declarations.ofSource "export type RuleOptions = \x7b\n  'it's': Its\n\x7d" with
    | error error => exact ⟨error, rfl⟩
    | ok declarations =>
      have hfails : (Declarations.ofSource
          "export type RuleOptions = \x7b\n  'it's': Its\n\x7d").isOk = false := by decide +kernel
      rw [hread] at hfails
      cases hfails
  · decide +kernel

end Mapping

end LintTypes
