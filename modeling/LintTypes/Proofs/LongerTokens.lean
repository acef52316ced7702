import LintTypes.Proofs.LongerTexts

/-!
# Tokens of longer texts

The parsers for tokens read alike in longer texts: a token is read up to a character that does not
belong to it, at the latest up to the line feed at the end. They also miss alike, other than at the
end of a text, where a name may be read from what was added.
-/

namespace LintTypes.Source

variable {α : Type}

section Tokens

variable {more : List Char} {limit : Nat} {Before After Front : List Char → Prop} {p q : Parser α}
  {cs : List Char}

/-- A lexeme is read alike in both texts if what is behind its blanks is. No slash may start it, or
it could become a comment. -/
theorem ReadsAlike.lexeme (hp : ReadsAlike more limit 1 Front After p q)
    (hc : ∀ text, Front text → ∀ c ∈ text.head?, c ≠ '/')
    (hb : ∀ text, Front (skipBlanks text) → Before text) :
    ReadsAlike more limit 1 Before After (Parser.lexeme p) (Parser.lexeme q) := by
  intro bound bound' text value rest ht hbound hle hread
  have hskip := (skipBlanks_suffix text).length_le
  obtain ⟨hlen, hseam, hmore⟩ := hp (by omega) (by omega) hle hread
  have hne : skipBlanks text ≠ [] := by
    rintro hnil
    rw [hnil, List.length_nil] at hlen
    omega
  refine ⟨by omega, fun hs => hseam (seam_skipBlanks hs hne), fun hrest => ?_⟩
  obtain ⟨hfront, hdone⟩ := hmore hrest
  refine ⟨hb text hfront, fun hs => ?_⟩
  rw [Parser.lexeme, skipBlanks_append hs (hc _ hfront), if_neg hne]
  exact hdone (seam_skipBlanks hs hne)

/-- At the end of the text the parser is to miss also on what was added. -/
theorem MissesAlike.lexeme (hp : MissesAlike more limit (fun _ => True) p q)
    (hclean : ∀ text, Before text → Uncommented text)
    (hend : ∀ bound text, Before text → skipBlanks text = [] →
      ∃ trace, q bound (skipBlanks more) = .missed trace) :
    MissesAlike more limit Before (Parser.lexeme p) (Parser.lexeme q) := by
  intro bound bound' text trace ht hbound hle hbefore hs hmiss
  have hskip := (skipBlanks_suffix text).length_le
  rw [Parser.lexeme, skipBlanks_append hs (hclean text hbefore)]
  split
  · rename_i hnil
    exact hend bound' text hbefore hnil
  · rename_i hne
    exact hp (by omega) (by omega) hle trivial (seam_skipBlanks hs hne) hmiss

/-- A lexeme misses where its first character does not fit. -/
theorem missesOn_lexeme
    (hp : ∀ c ∈ cs, ∀ bound rest, ∃ trace, p bound (c :: rest) = .missed trace) :
    MissesOn cs (Parser.lexeme p) := by
  rintro bound text ⟨c, hc, rest, hskip⟩
  rw [Parser.lexeme, hskip]
  exact hp c hc bound rest

/-! ## Symbols and words -/

/-- What was read literally was there. -/
theorem literally_eq_done {expected text rest : List Char} {bound : Nat}
    (h : Parser.literally expected bound text = .done () rest) : text = expected ++ rest := by
  unfold Parser.literally at h
  split at h
  · rename_i hprefix
    cases h
    exact (List.prefix_iff_eq_append.1 (List.isPrefixOf_iff_prefix.1 hprefix)).symm
  · cases h

/-- A given text is read from itself, however the text goes on. -/
theorem readsAlike_literally {expected : List Char} (hn : '\n' ∉ expected) (hne : expected ≠ []) :
    ReadsAlike more limit 1 (fun text => ∃ rest, text = expected ++ rest ∧ After rest) After
      (Parser.literally expected) (Parser.literally expected) := by
  intro bound bound' text _ rest _ _ _ hread
  obtain rfl := literally_eq_done hread
  have hpos := List.length_pos_iff.2 hne
  refine ⟨by rw [List.length_append]; omega, fun hs => hs.of_append hn, fun hrest => ?_⟩
  refine ⟨⟨rest, rfl, hrest⟩, fun _ => ?_⟩
  rw [List.append_assoc, literally_append]

theorem missesAlike_literally {expected : List Char} (hn : '\n' ∉ expected) :
    MissesAlike more limit (fun _ => True) (Parser.literally expected)
      (Parser.literally expected) := by
  intro bound bound' text trace _ _ _ _ hs hmiss
  refine literally_missed (fun hprefix => ?_) bound'
  obtain ⟨rest, rfl⟩ := (hs.prefix_iff hn).1 hprefix
  rw [literally_append] at hmiss
  cases hmiss

/-- The symbol begins with `c`. With this character no comment and no name begins. -/
def Mark (s : String) (c : Char) : Prop :=
  s.toList.head? = some c ∧ '\n' ∉ s.toList ∧ c ≠ '/' ∧ isNameStart c = false

instance (s : String) (c : Char) : Decidable (Mark s c) := inferInstanceAs (Decidable (_ ∧ _))

theorem Mark.ne_slash {s : String} {c : Char} (h : Mark s c) : c ≠ '/' := h.2.2.1

section Symbols

variable {s : String} {c : Char}

theorem readsAlike_symbol_front (hs : Mark s c) :
    ReadsAlike more limit 1 (fun text => ∃ rest, skipBlanks text = s.toList ++ rest ∧ After rest)
      After (Parser.symbol s) (Parser.symbol s) := by
  obtain ⟨hhead, hn, hc, -⟩ := hs
  obtain ⟨tail, htext⟩ := List.head?_eq_some_iff.1 hhead
  refine (readsAlike_literally hn (by simp [htext])).lexeme ?_ fun _ => id
  rintro _ ⟨rest, rfl, -⟩
  simpa [htext] using hc

/-- A mark is read by its first character. -/
theorem readsAlike_symbol (hs : Mark s c) :
    ReadsAlike more limit 1 (StartsIn [c]) (fun _ => True) (Parser.symbol s) (Parser.symbol s) := by
  obtain ⟨tail, htext⟩ := List.head?_eq_some_iff.1 hs.1
  refine (readsAlike_symbol_front hs).imp (Nat.le_refl 1) ?_ fun _ => id
  rintro text ⟨rest, hskip, -⟩
  rw [htext] at hskip
  exact ⟨c, List.mem_singleton_self c, tail ++ rest, hskip⟩

/-- Behind a bracket no comment may be open. -/
theorem readsAlike_bracket :
    ReadsAlike more limit 1 Solid Uncommented (Parser.symbol "[") (Parser.symbol "[") := by
  have hmark : Mark "[" '[' := by decide
  refine (readsAlike_symbol_front hmark).imp (Nat.le_refl 1) ?_ fun _ => id
  rintro text ⟨rest, hskip, hrest⟩
  replace hskip : skipBlanks text = '[' :: rest := hskip
  refine ⟨⟨by simp [Uncommented, hskip], fun tail htail => ?_⟩, by simp [hskip]⟩
  rw [hskip] at htail
  cases htail
  exact hrest

/-- What was added begins with a name, which is no symbol. -/
theorem missesAlike_symbol (hm : ∀ c ∈ (skipBlanks more).head?, isNameStart c = true)
    (hs : Mark s c) : MissesAlike more limit Uncommented (Parser.symbol s) (Parser.symbol s) := by
  obtain ⟨hhead, hn, -, hc⟩ := hs
  obtain ⟨tail, htext⟩ := List.head?_eq_some_iff.1 hhead
  refine (missesAlike_literally hn).lexeme (fun _ => id) fun bound _ _ _ => ?_
  refine literally_missed (fun hprefix => ?_) bound
  obtain ⟨rest, hrest⟩ := hprefix
  have hstart := hm c (by simp [← hrest, htext])
  exact Bool.false_ne_true (hc.symm.trans hstart)

/-- A mark is missed where another character stands. -/
theorem missesOn_symbol (hs : Mark s c) (hc : c ∉ cs) : MissesOn cs (Parser.symbol s) := by
  obtain ⟨tail, htext⟩ := List.head?_eq_some_iff.1 hs.1
  refine missesOn_lexeme fun d hd bound rest => literally_missed (fun hprefix => ?_) bound
  rw [htext] at hprefix
  obtain ⟨rfl, -⟩ := List.cons_prefix_cons.1 hprefix
  exact hc hd

end Symbols

theorem readsAlike_nameChar :
    ReadsAlike more limit 1 (fun _ => True) (fun _ => True) Parser.nameChar Parser.nameChar := by
  intro bound bound' text _ rest _ _ _ hread
  rcases nameChar_done_or_missed bound text with ⟨c, tail, rfl, hc, hdone⟩ | ⟨trace, hmiss⟩
  · cases hdone.symm.trans hread
    have hnewline : c ≠ '\n' := by
      rintro rfl
      exact absurd hc (by decide)
    refine ⟨Nat.le_refl _, fun hs => hs.tail hnewline, fun _ => ⟨trivial, fun _ => ?_⟩⟩
    simp [Parser.nameChar, hc]
  · cases hmiss.symm.trans hread

theorem missesAlike_nameChar :
    MissesAlike more limit (fun _ => True) Parser.nameChar Parser.nameChar := by
  intro bound bound' text trace _ _ _ _ hs hmiss
  rcases nameChar_done_or_missed bound' (text ++ more) with ⟨c, tail, htext, hc, -⟩ | hmiss'
  · have hhead : text.head? = some c := by rw [← hs.head?_append, htext, List.head?_cons]
    obtain ⟨rest, rfl⟩ := List.head?_eq_some_iff.1 hhead
    simp [Parser.nameChar, hc] at hmiss
  · exact hmiss'

section Words

variable {s : String}

/-- An identifier starts a name and stays on its line. -/
theorem head_of_isIdentifier (hs : isIdentifier s = true) :
    ∃ c tail, s.toList = c :: tail ∧ isNameStart c = true ∧ '\n' ∉ s.toList := by
  obtain ⟨c, tail, hc, hstart, -⟩ := isIdentifierChars_iff.1 hs
  exact ⟨c, tail, hc, hstart, fun hn => absurd (isNameChar_of_mem hs hn) (by decide)⟩

/-- No name starts like a comment, a bracket or a line end. -/
theorem ne_of_isNameStart {c : Char} (h : isNameStart c = true) : c ≠ '/' ∧ c ≠ '[' ∧ c ≠ '\n' := by
  refine ⟨?_, ?_, ?_⟩ <;> rintro rfl <;> exact absurd h (by decide)

theorem unbracketed_of_isNameStart {text rest : List Char} {c : Char}
    (h : skipBlanks text = c :: rest) (hc : isNameStart c = true) : Unbracketed text :=
  unbracketed_of_head h (ne_of_isNameStart hc).1 (ne_of_isNameStart hc).2.1

/-- A word is read alike: the line feed at the end of the text keeps it apart from what is added. -/
theorem readsAlike_word (hs : isIdentifier s = true) :
    ReadsAlike more limit 1 Solid (fun _ => True) (Parser.word s) (Parser.word s) := by
  obtain ⟨c, tail, hc, hstart, hn⟩ := head_of_isIdentifier hs
  have hchars : ReadsAlike more limit 1 _ (fun _ => True)
      (do Parser.literally s.toList; Parser.absent Parser.nameChar) _ :=
    (readsAlike_literally hn (by simp [hc])).bind fun _ => ReadsAlike.absent missesAlike_nameChar
  refine hchars.lexeme ?_ ?_
  · rintro _ ⟨rest, rfl, -⟩
    simpa [hc] using (ne_of_isNameStart hstart).1
  · rintro text ⟨rest, hskip, -⟩
    rw [hc] at hskip
    exact (unbracketed_of_isNameStart hskip hstart).toSolid

/-- Only at the end of the text could a word come from what was added. -/
theorem missesAlike_word (hs : isIdentifier s = true) :
    MissesAlike more limit Solid (Parser.word s) (Parser.word s) := by
  obtain ⟨c, tail, hc, -, hn⟩ := head_of_isIdentifier hs
  have hchars : MissesAlike more limit (fun _ => True)
      (do Parser.literally s.toList; Parser.absent Parser.nameChar) _ :=
    (missesAlike_literally hn).behind (readsAlike_literally hn (by simp [hc]))
      (fun _ => MissesAlike.absent readsAlike_nameChar) fun _ _ _ _ _ _ => trivial
  exact hchars.lexeme (fun _ h => h.uncommented) fun _ _ h hnil => absurd hnil h.ne_nil

/-- A word is missed where it does not start. -/
theorem missesOn_word {c : Char} {tail : List Char} (hs : s.toList = c :: tail) (hc : c ∉ cs) :
    MissesOn cs (Parser.word s) := by
  refine missesOn_lexeme fun d hd bound rest => ?_
  have hprefix : ¬ s.toList <+: d :: rest := by
    rw [hs]
    intro hprefix
    obtain ⟨rfl, -⟩ := List.cons_prefix_cons.1 hprefix
    exact hc hd
  obtain ⟨trace, hmiss⟩ := literally_missed hprefix bound
  exact ⟨trace, bind_of_missed hmiss⟩

end Words

/-! ## Names -/

/-- A name ends where it ended before: the line feed ends it at the latest. -/
theorem readsAlike_nameChars :
    ReadsAlike more limit 1 (fun text => ∃ c ∈ text.head?, isNameStart c = true) (fun _ => True)
      Parser.nameChars Parser.nameChars := by
  intro bound bound' text value rest _ _ _ hread
  cases text with
  | nil => cases hread
  | cons c tail =>
    by_cases hc : isNameStart c = true
    · have hnewline := (ne_of_isNameStart hc).2.2
      have hlen := (List.dropWhile_sublist isNameChar (l := tail)).length_le
      simp only [Parser.nameChars, hc, if_true, Outcome.done.injEq] at hread
      obtain ⟨rfl, rfl⟩ := hread
      refine ⟨by rw [List.length_cons]; omega, fun hs => ?_, fun _ => ⟨⟨c, rfl, hc⟩, fun hs => ?_⟩⟩
      · exact ((hs.tail hnewline).dropWhile (by decide)).2.2
      · obtain ⟨htake, hdrop, -⟩ := (hs.tail hnewline).dropWhile (p := isNameChar) (by decide)
        simp only [Parser.nameChars, List.cons_append, hc, if_true, htake, hdrop]
    · simp [Parser.nameChars, hc] at hread

theorem missesAlike_nameChars :
    MissesAlike more limit (fun _ => True) Parser.nameChars Parser.nameChars := by
  intro bound bound' text trace _ _ _ _ hs hmiss
  cases text with
  | nil =>
    obtain rfl : more = [] := hs.resolve_right nofun
    exact ⟨_, rfl⟩
  | cons c text =>
    have hc : isNameStart c = false := by
      by_contra hc
      rw [Bool.not_eq_false] at hc
      simp [Parser.nameChars, hc] at hmiss
    exact nameChars_missed hc (text ++ more) bound'

theorem not_slash_of_head {text : List Char} (h : ∃ c ∈ text.head?, isNameStart c = true) :
    ∀ c ∈ text.head?, c ≠ '/' := by
  obtain ⟨c, hmem, hc⟩ := h
  intro d hd
  obtain rfl : c = d := Option.some.inj (hmem.symm.trans hd)
  exact (ne_of_isNameStart hc).1

theorem unbracketed_of_head? {text : List Char}
    (h : ∃ c ∈ (skipBlanks text).head?, isNameStart c = true) : Unbracketed text := by
  obtain ⟨c, hmem, hc⟩ := h
  obtain ⟨rest, hskip⟩ := List.head?_eq_some_iff.1 hmem
  exact unbracketed_of_isNameStart hskip hc

theorem readsAlike_identifier :
    ReadsAlike more limit 1 Unbracketed (fun _ => True) Parser.identifier Parser.identifier :=
  readsAlike_nameChars.map.lexeme (fun _ => not_slash_of_head) fun _ => unbracketed_of_head?

theorem missesAlike_identifier :
    MissesAlike more limit Solid Parser.identifier Parser.identifier :=
  (missesAlike_nameChars.bind fun _ => decided_pure _).lexeme (fun _ h => h.uncommented)
    fun _ _ h hnil => absurd hnil h.ne_nil

/-- An identifier is missed where no name starts. -/
theorem missesOn_identifier (hcs : ∀ c ∈ cs, isNameStart c = false) :
    MissesOn cs Parser.identifier :=
  missesOn_lexeme fun c hc bound rest => by
    obtain ⟨trace, hmiss⟩ := nameChars_missed (hcs c hc) rest bound
    exact ⟨trace, bind_of_missed hmiss⟩

/-- The character that was read was there. -/
theorem character_eq_done {c : Char} {bound : Nat} {text rest : List Char}
    (h : Parser.character c bound text = .done () rest) : text = c :: rest := by
  cases text with
  | nil => cases h
  | cons d text =>
    by_cases heq : d = c
    · rw [Parser.character, if_pos heq] at h
      cases h
      rw [heq]
    · rw [Parser.character, if_neg heq] at h
      cases h

theorem readsAlike_character {c : Char} (hc : c ≠ '\n') :
    ReadsAlike more limit 1 (fun text => text.head? = some c) (fun _ => True) (Parser.character c)
      (Parser.character c) := by
  intro bound bound' text _ rest _ _ _ hread
  obtain rfl := character_eq_done hread
  exact ⟨Nat.le_refl _, fun hs => hs.tail hc, fun _ => ⟨rfl, fun _ => by simp [Parser.character]⟩⟩

theorem missesAlike_character {c : Char} :
    MissesAlike more limit (fun _ => True) (Parser.character c) (Parser.character c) := by
  intro bound bound' text trace _ _ _ _ hs hmiss
  cases text with
  | nil =>
    obtain rfl : more = [] := hs.resolve_right nofun
    exact ⟨_, rfl⟩
  | cons d text =>
    have hne : d ≠ c := by
      rintro rfl
      simp [Parser.character] at hmiss
    exact ⟨[⟨d :: (text ++ more), .character c⟩], by simp [Parser.character, hne]⟩

/-- A dotted name is read alike, dot by dot. -/
theorem readsAlike_dottedName :
    ReadsAlike more limit 1 Unbracketed (fun _ => True) Parser.dottedName Parser.dottedName := by
  have hpart : ReadsAlike more limit 1 (fun _ => True) (fun _ => True)
      (do Parser.character '.'; Parser.nameChars) (do Parser.character '.'; Parser.nameChars) :=
    ((readsAlike_character (by decide)).bind fun _ => readsAlike_nameChars.imp (Nat.zero_le 1)
      (fun _ _ => trivial) fun _ => id).imp (Nat.le_refl 1) (fun _ _ => trivial) fun _ => id
  have hmiss : MissesAlike more limit (fun _ => True)
      (do Parser.character '.'; Parser.nameChars) (do Parser.character '.'; Parser.nameChars) :=
    missesAlike_character.behind (readsAlike_character (by decide))
      (fun _ => missesAlike_nameChars) fun _ _ _ _ _ _ => trivial
  have hparts := (@readsAlike_nameChars more limit).sepBy1 hpart
    (fun _ _ => trivial) hmiss
  exact hparts.map.lexeme (fun _ => not_slash_of_head) fun _ => unbracketed_of_head?

theorem missesOn_dottedName (hcs : ∀ c ∈ cs, isNameStart c = false) :
    MissesOn cs Parser.dottedName :=
  missesOn_lexeme fun c hc bound rest => by
    obtain ⟨trace, hmiss⟩ := nameChars_missed (hcs c hc) rest bound
    exact ⟨trace, bind_of_missed (bind_of_missed hmiss)⟩

/-! ## Strings -/

open StringLiteral (unescape?) in
/-- An escape sequence is complete, so more text behind it does not change it. -/
theorem unescape?_done {text rest : List Char} {c : Char} (h : unescape? text = some (c, rest)) :
    rest <:+ text ∧ ∀ more, unescape? (text ++ more) = some (c, rest ++ more) := by
  unfold unescape? at h
  split at h
  · rename_i a b c d tail
    obtain ⟨e, hcode, hread⟩ := Option.bind_eq_some_iff.1 h
    cases hread
    exact ⟨⟨['u', a, b, c, d], rfl⟩, fun more => by simp [unescape?, hcode]⟩
  all_goals cases h
  all_goals exact ⟨⟨[_], rfl⟩, fun more => rfl⟩

/-- An escape sequence is taken as a whole, -/
theorem quotedChars?_escape {quote c : Char} {text after : List Char}
    (h : StringLiteral.unescape? text = some (c, after)) (hq : '\\' ≠ quote) :
    quotedChars? quote ('\\' :: text) =
      (quotedChars? quote after).map fun read => (c :: read.1, read.2) := by
  rw [quotedChars?, if_neg hq, if_pos rfl]
  split
  · rename_i hnone
    rw [h] at hnone
    cases hnone
  · rename_i hsome
    rw [h] at hsome
    cases hsome
    cases quotedChars? quote after <;> rfl

/-- and any other character as it is. -/
theorem quotedChars?_plain {quote c : Char} (text : List Char) (hq : c ≠ quote) (hc : c ≠ '\\') :
    quotedChars? quote (c :: text) =
      (quotedChars? quote text).map fun read => (c :: read.1, read.2) := by
  rw [quotedChars?, if_neg hq, if_neg hc]
  cases quotedChars? quote text <;> rfl

/-- The closing quote stays where it is. -/
theorem quotedChars?_done {quote : Char} {text rest body : List Char}
    (h : quotedChars? quote text = some (body, quote :: rest)) :
    (quote :: rest) <:+ text ∧
      ∀ more, quotedChars? quote (text ++ more) = some (body, quote :: (rest ++ more)) := by
  induction text using quotedChars?.induct quote generalizing body with
  | case1 => simp [quotedChars?] at h
  | case2 tail =>
    simp only [quotedChars?, if_true, Option.some.injEq, Prod.mk.injEq, List.cons.injEq,
      true_and] at h
    obtain ⟨rfl, rfl⟩ := h
    exact ⟨List.suffix_rfl, fun more => by simp [quotedChars?]⟩
  | case3 tail hnone hq =>
    rw [quotedChars?, if_neg hq, if_pos rfl] at h
    split at h
    · cases h
    · rename_i hsome
      rw [hnone] at hsome
      cases hsome
  | case4 tail c after hescape hq ih =>
    obtain ⟨hsuffix, hmore⟩ := unescape?_done hescape
    rw [quotedChars?_escape hescape hq] at h
    obtain ⟨⟨body, _⟩, hread, heq⟩ := Option.map_eq_some_iff.1 h
    cases heq
    obtain ⟨hsuffix', hmore'⟩ := ih hread
    refine ⟨(hsuffix'.trans hsuffix).trans (List.suffix_cons _ _), fun more => ?_⟩
    rw [List.cons_append, quotedChars?_escape (hmore more) hq, hmore']
    rfl
  | case5 c tail hq hc ih =>
    rw [quotedChars?_plain tail hq hc] at h
    obtain ⟨⟨body, _⟩, hread, heq⟩ := Option.map_eq_some_iff.1 h
    cases heq
    obtain ⟨hsuffix, hmore⟩ := ih hread
    refine ⟨hsuffix.trans (List.suffix_cons _ _), fun more => ?_⟩
    rw [List.cons_append, quotedChars?_plain _ hq hc, hmore]
    rfl

/-- A literal that is read stands between its quotes. -/
theorem quotedBy_eq_done {quote : Char} {bound : Nat} {text rest : List Char} {value : String}
    (h : Parser.quotedBy quote bound text = .done value rest) :
    ∃ tail body, text = quote :: tail ∧ quotedChars? quote tail = some (body, quote :: rest) ∧
      value = String.ofList body := by
  obtain ⟨_, tail, hopen, h⟩ := bind_eq_done h
  obtain ⟨body, middle, hbody, h⟩ := bind_eq_done h
  obtain ⟨_, _, hclose, h⟩ := bind_eq_done h
  cases h
  obtain rfl := character_eq_done hopen
  obtain rfl := character_eq_done (commit_eq_done hclose)
  split at hbody
  · rename_i hread
    cases hbody
    exact ⟨tail, body, rfl, hread, rfl⟩
  · rename_i hnone
    cases hbody
    simp [quotedChars?] at hnone

/-- A string ends at its quote and does not look further. -/
theorem readsAlike_quotedBy {quote : Char} (hq : quote ≠ '\n') :
    ReadsAlike more limit 1 (fun text => text.head? = some quote) (fun _ => True)
      (Parser.quotedBy quote) (Parser.quotedBy quote) := by
  intro bound bound' text value rest _ _ _ hread
  obtain ⟨tail, body, rfl, hbody, rfl⟩ := quotedBy_eq_done hread
  obtain ⟨hsuffix, hmore⟩ := quotedChars?_done hbody
  have hlen := hsuffix.length_le
  rw [List.length_cons] at hlen
  refine ⟨by rw [List.length_cons]; omega, fun hs => ?_, fun _ => ⟨rfl, fun _ => ?_⟩⟩
  · exact ((hs.tail hq).of_suffix hsuffix (by simp)).tail hq
  · simp [Parser.quotedBy, bind, Parser.bind, Parser.character, hmore, Parser.commit, pure,
      Parser.pure]

theorem decided_quotedChars (quote : Char) :
    Decided fun _ text =>
      match quotedChars? quote text with
      | some (body, rest) => Outcome.done body rest
      | none => .done [] text := by
  intro bound text trace h
  dsimp only at h
  split at h <;> cases h

theorem missesAlike_quotedBy {quote : Char} :
    MissesAlike more limit (fun _ => True) (Parser.quotedBy quote) (Parser.quotedBy quote) :=
  missesAlike_character.bind fun _ =>
    (decided_quotedChars quote).bind fun _ => (decided_commit _).bind fun _ => decided_pure _

theorem head_ne_slash {c : Char} (hc : c ≠ '/') {text : List Char} (h : text.head? = some c) :
    ∀ d ∈ text.head?, d ≠ '/' := by
  intro d hd
  rw [h] at hd
  obtain rfl := Option.some.inj hd
  exact hc

/-- A literal begins with one of the quotes. -/
theorem readsAlike_stringLiteral :
    ReadsAlike more limit 1 (StartsIn ['\'', '"']) (fun _ => True) Parser.stringLiteral
      Parser.stringLiteral := by
  have hquoted : ∀ quote ∈ ['\'', '"'], ReadsAlike more limit 1
      (fun text => ∃ quote ∈ ['\'', '"'], text.head? = some quote) (fun _ => True)
      (Parser.quotedBy quote) (Parser.quotedBy quote) := by
    intro quote hmem
    have hnewline : quote ≠ '\n' := by
      rintro rfl
      exact absurd hmem (by decide)
    exact (readsAlike_quotedBy hnewline).imp (Nat.le_refl 1)
      (fun _ hhead => ⟨quote, hmem, hhead⟩) fun _ => id
  have hfirst := (hquoted '\'' (by simp)).firstOf (missesAlike_quotedBy.imp fun _ _ => trivial)
    (readsAlike_firstOf_last (hquoted '"' (by simp))) fun _ => id
  refine hfirst.lexeme ?_ ?_
  · rintro text ⟨quote, hmem, hhead⟩
    have hslash : quote ≠ '/' := by
      rintro rfl
      exact absurd hmem (by decide)
    exact head_ne_slash hslash hhead
  · rintro text ⟨quote, hmem, hhead⟩
    obtain ⟨rest, hskip⟩ := List.head?_eq_some_iff.1 hhead
    exact ⟨quote, hmem, rest, hskip⟩

/-- A string is missed where there is no quote. -/
theorem stringLiteral_missed {bound : Nat} {text : List Char}
    (h : ∀ c ∈ text.head?, c ≠ '\'' ∧ c ≠ '"') :
    ∃ trace, Parser.firstOf (Parser.quotedBy '"') [Parser.quotedBy '\''] bound text =
      .missed trace := by
  cases text with
  | nil => exact ⟨_, rfl⟩
  | cons c rest =>
    obtain ⟨trace, hmiss⟩ := quotedBy_missed (h c rfl).1 rest bound
    obtain ⟨trace', hmiss'⟩ := quotedBy_missed (h c rfl).2 rest bound
    exact ⟨trace' ++ [⟨c :: rest, .alternatives⟩], by simp only [Parser.firstOf, hmiss, hmiss']⟩

theorem missesOn_stringLiteral (hcs : ∀ c ∈ cs, c ≠ '\'' ∧ c ≠ '"') :
    MissesOn cs Parser.stringLiteral :=
  missesOn_lexeme fun c hc _ rest => stringLiteral_missed (by simpa using hcs c hc)

theorem missesAlike_stringLiteral (hm : ∀ c ∈ (skipBlanks more).head?, isNameStart c = true) :
    MissesAlike more limit Uncommented Parser.stringLiteral Parser.stringLiteral := by
  refine (missesAlike_quotedBy.firstOf (missesAlike_firstOf_last missesAlike_quotedBy)).lexeme
    (fun _ => id) fun bound _ _ _ => stringLiteral_missed fun c hc => ?_
  have hstart := hm c hc
  constructor <;> rintro rfl <;> exact absurd hstart (by decide)

/-! ## Numbers -/

/-- A part is split off a text as off the longer one. -/
def SplitsAlike (more : List Char) (split : List Char → List Char × List Char) : Prop :=
  ∀ text, (split text).2.length ≤ text.length ∧ (Seam more text →
    split (text ++ more) = ((split text).1, (split text).2 ++ more) ∧ Seam more (split text).2)

/-- The digits are the same in both texts: the line feed ends them at the latest. -/
theorem splitsAlike_digits : SplitsAlike more splitDigits := by
  intro text
  refine ⟨(List.dropWhile_sublist Char.isDigit).length_le, fun hs => ?_⟩
  obtain ⟨htake, hdrop, hseam⟩ := hs.dropWhile (p := Char.isDigit) (by decide)
  exact ⟨by rw [splitDigits, htake, hdrop, splitDigits], hseam⟩

/-- A text that is left whole is left whole in the longer text, with a way to split off nothing. -/
theorem splitsAlike_whole {split : List Char → List Char × List Char} {text : List Char}
    (h : split text = ([], text))
    (hm : Seam more text → split (text ++ more) = ([], text ++ more)) :
    (split text).2.length ≤ text.length ∧ (Seam more text →
      split (text ++ more) = ((split text).1, (split text).2 ++ more) ∧
        Seam more (split text).2) := by
  rw [h]
  exact ⟨Nat.le_refl _, fun hs => ⟨hm hs, hs⟩⟩

/-- A point with digits behind it is a fraction, -/
theorem splitFraction_point {rest digits after : List Char} (h : splitDigits rest = (digits, after))
    (hne : digits ≠ []) : splitFraction ('.' :: rest) = ('.' :: digits, after) := by
  simp only [splitFraction, h]

/-- and a point without digits is none. -/
theorem splitFraction_noDigits {rest after : List Char} (h : splitDigits rest = ([], after)) :
    splitFraction ('.' :: rest) = ([], '.' :: rest) := by
  simp only [splitFraction, h]

theorem splitFraction_noPoint {c : Char} (hc : c ≠ '.') (rest : List Char) :
    splitFraction (c :: rest) = ([], c :: rest) := by
  unfold splitFraction
  split
  · rename_i heq
    exact absurd (List.cons.inj heq).1 hc
  · rfl

/-- The fraction is the same in both texts. -/
theorem splitsAlike_fraction : SplitsAlike more splitFraction := by
  intro text
  cases text with
  | nil =>
    refine splitsAlike_whole rfl fun hs => ?_
    obtain rfl : more = [] := hs.resolve_right nofun
    rfl
  | cons c rest =>
    by_cases hc : c = '.'
    · subst hc
      obtain ⟨hlen, hmore⟩ := @splitsAlike_digits more rest
      cases hsplit : splitDigits rest with
      | mk digits after =>
        rw [hsplit] at hlen hmore
        by_cases hne : digits = []
        · subst hne
          refine splitsAlike_whole (splitFraction_noDigits hsplit) fun hs => ?_
          exact splitFraction_noDigits (hmore (hs.tail (by decide))).1
        · rw [splitFraction_point hsplit hne]
          refine ⟨Nat.le_succ_of_le hlen, fun hs => ?_⟩
          obtain ⟨hdone, hseam⟩ := hmore (hs.tail (by decide))
          exact ⟨splitFraction_point hdone hne, hseam⟩
    · exact splitsAlike_whole (splitFraction_noPoint hc rest)
        fun _ => splitFraction_noPoint hc (rest ++ more)

theorem splitSign_none {c : Char} (hp : c ≠ '+') (hm : c ≠ '-') (rest : List Char) :
    NumberText.splitSign (c :: rest) = ([], c :: rest) := by
  unfold NumberText.splitSign
  split
  · rename_i heq
    exact absurd (List.cons.inj heq).1 hp
  · rename_i heq
    exact absurd (List.cons.inj heq).1 hm
  · rfl

theorem splitsAlike_sign : SplitsAlike more NumberText.splitSign := by
  intro text
  cases text with
  | nil =>
    refine splitsAlike_whole rfl fun hs => ?_
    obtain rfl : more = [] := hs.resolve_right nofun
    rfl
  | cons c rest =>
    by_cases hp : c = '+'
    · subst hp
      exact ⟨Nat.le_succ _, fun hs => ⟨rfl, hs.tail (by decide)⟩⟩
    by_cases hm : c = '-'
    · subst hm
      exact ⟨Nat.le_succ _, fun hs => ⟨rfl, hs.tail (by decide)⟩⟩
    exact splitsAlike_whole (splitSign_none hp hm rest) fun _ => splitSign_none hp hm (rest ++ more)

/-- Behind the mark of an exponent there may be a sign, and there have to be digits. -/
theorem splitExponent_mark {e : Char} (he : e = 'e' ∨ e = 'E') (rest : List Char) :
    splitExponent (e :: rest) =
      match splitDigits (NumberText.splitSign rest).2 with
      | ([], _) => ([], e :: rest)
      | (digits, after) => (e :: ((NumberText.splitSign rest).1 ++ digits), after) := by
  unfold splitExponent
  simp only [if_pos he]
  rfl

theorem splitExponent_noMark {e : Char} (he : ¬ (e = 'e' ∨ e = 'E')) (rest : List Char) :
    splitExponent (e :: rest) = ([], e :: rest) := by
  unfold splitExponent
  simp only [if_neg he]

/-- The exponent is the same in both texts: what is added makes up for neither its mark nor its
digits. -/
theorem splitsAlike_exponent : SplitsAlike more splitExponent := by
  intro text
  cases text with
  | nil =>
    refine splitsAlike_whole rfl fun hs => ?_
    obtain rfl : more = [] := hs.resolve_right nofun
    rfl
  | cons e rest =>
    by_cases he : e = 'e' ∨ e = 'E'
    · have hnewline : e ≠ '\n' := by rcases he with rfl | rfl <;> decide
      obtain ⟨hlen, hmore⟩ := @splitsAlike_sign more rest
      obtain ⟨hlen', hmore'⟩ := @splitsAlike_digits more (NumberText.splitSign rest).2
      cases hsplit : splitDigits (NumberText.splitSign rest).2 with
      | mk digits after =>
        rw [hsplit] at hlen' hmore'
        have hlonger : Seam more (e :: rest) →
            splitDigits (NumberText.splitSign (rest ++ more)).2 = (digits, after ++ more) ∧
              (NumberText.splitSign (rest ++ more)).1 = (NumberText.splitSign rest).1 ∧
              Seam more after := by
          intro hs
          obtain ⟨hsign, hseam⟩ := hmore (hs.tail hnewline)
          rw [hsign]
          exact ⟨(hmore' hseam).1, rfl, (hmore' hseam).2⟩
        by_cases hne : digits = []
        · subst hne
          refine splitsAlike_whole (by rw [splitExponent_mark he, hsplit]) fun hs => ?_
          rw [List.cons_append, splitExponent_mark he, (hlonger hs).1]
        · have hdone : ∀ {rest after}, splitDigits (NumberText.splitSign rest).2 = (digits, after) →
              splitExponent (e :: rest) =
                (e :: ((NumberText.splitSign rest).1 ++ digits), after) := by
            intro rest after hsplit
            simp only [splitExponent_mark he, hsplit]
          rw [hdone hsplit]
          refine ⟨Nat.le_succ_of_le (hlen'.trans hlen), fun hs => ?_⟩
          obtain ⟨hdigits, hsign, hseam⟩ := hlonger hs
          exact ⟨(hdone hdigits).trans (by rw [hsign]), hseam⟩
    · exact splitsAlike_whole (splitExponent_noMark he rest)
        fun _ => splitExponent_noMark he (rest ++ more)

/-- The minus in front of a number. -/
def splitMinus (text : List Char) : List Char × List Char :=
  match text with
  | '-' :: rest => (['-'], rest)
  | text => ([], text)

/-- What a number is read as behind its minus. -/
def unsignedNumber (sign unsigned : List Char) : Outcome String :=
  match splitDigits unsigned with
  | ([], _) => .missed [⟨unsigned, .digit⟩]
  | (digits, rest) =>
    let (fraction, rest) := splitFraction rest
    let (exponent, rest) := splitExponent rest
    .done (String.ofList (sign ++ digits ++ fraction ++ exponent)) rest

/-- The minus of a number is taken off first. -/
theorem numberLiteral_eq : Parser.numberLiteral = Parser.lexeme fun _ text =>
    unsignedNumber (splitMinus text).1 (splitMinus text).2 := rfl

theorem splitMinus_none {c : Char} (hc : c ≠ '-') (rest : List Char) :
    splitMinus (c :: rest) = ([], c :: rest) := by
  unfold splitMinus
  split
  · rename_i heq
    exact absurd (List.cons.inj heq).1 hc
  · rfl

theorem splitsAlike_minus : SplitsAlike more splitMinus := by
  intro text
  cases text with
  | nil =>
    refine splitsAlike_whole rfl fun hs => ?_
    obtain rfl : more = [] := hs.resolve_right nofun
    rfl
  | cons c rest =>
    by_cases hc : c = '-'
    · subst hc
      exact ⟨Nat.le_succ _, fun hs => ⟨rfl, hs.tail (by decide)⟩⟩
    · exact splitsAlike_whole (splitMinus_none hc rest) fun _ => splitMinus_none hc (rest ++ more)

/-- Without a digit there is no number. -/
theorem unsignedNumber_missed {sign unsigned : List Char}
    (h : ∀ c ∈ unsigned.head?, c.isDigit = false) :
    unsignedNumber sign unsigned = .missed [⟨unsigned, .digit⟩] := by
  have hsplit : splitDigits ([] ++ unsigned) = ([], unsigned) := splitDigits_append (by simp) h
  rw [List.nil_append] at hsplit
  simp only [unsignedNumber, hsplit]

theorem unsignedNumber_done {sign unsigned digits rest : List Char}
    (h : splitDigits unsigned = (digits, rest)) (hne : digits ≠ []) :
    unsignedNumber sign unsigned =
      .done (String.ofList (sign ++ (digits ++ (splitFraction rest).1 ++
        (splitExponent (splitFraction rest).2).1))) (splitExponent (splitFraction rest).2).2 := by
  simp only [unsignedNumber, h, List.append_assoc]

/-- A number is read if there is a digit. -/
theorem unsignedNumber_digits (more : List Char) {unsigned : List Char}
    (h : ∃ c ∈ unsigned.head?, c.isDigit = true) :
    ∃ text rest, rest.length + 1 ≤ unsigned.length ∧
      (∀ sign, unsignedNumber sign unsigned = .done (String.ofList (sign ++ text)) rest) ∧
      (Seam more unsigned → Seam more rest ∧
        ∀ sign, unsignedNumber sign (unsigned ++ more) =
          .done (String.ofList (sign ++ text)) (rest ++ more)) := by
  obtain ⟨c, hc, hdigit⟩ := h
  obtain ⟨tail, rfl⟩ := List.head?_eq_some_iff.1 hc
  obtain ⟨-, hmore⟩ := @splitsAlike_digits more (c :: tail)
  cases hsplit : splitDigits (c :: tail) with
  | mk digits after =>
    have hne : digits ≠ [] := by
      rintro rfl
      simp [splitDigits, hdigit] at hsplit
    have hpos := List.length_pos_iff.2 hne
    have hlen := congrArg List.length (splitDigits_spec hsplit).2
    rw [List.length_append] at hlen
    rw [hsplit] at hmore
    obtain ⟨hfraction, hmoreFraction⟩ := @splitsAlike_fraction more after
    obtain ⟨hexponent, hmoreExponent⟩ := @splitsAlike_exponent more (splitFraction after).2
    refine ⟨digits ++ (splitFraction after).1 ++ (splitExponent (splitFraction after).2).1,
      (splitExponent (splitFraction after).2).2, by omega, fun sign => ?_, fun hs => ?_⟩
    · exact unsignedNumber_done hsplit hne
    · obtain ⟨hdigits, hseam⟩ := hmore hs
      obtain ⟨hpoint, hseam'⟩ := hmoreFraction hseam
      obtain ⟨hmark, hseam''⟩ := hmoreExponent hseam'
      refine ⟨hseam'', fun sign => (unsignedNumber_done hdigits hne).trans ?_⟩
      simp only [hpoint, hmark]

theorem splitMinus_spec (text : List Char) :
    (∃ rest, text = '-' :: rest) ∨ splitMinus text = ([], text) := by
  cases text with
  | nil => exact .inr rfl
  | cons c rest =>
    by_cases hc : c = '-'
    · exact .inl ⟨rest, by rw [hc]⟩
    · exact .inr (splitMinus_none hc rest)

/-- A number begins with a minus or a digit. -/
theorem head_of_splitMinus {text : List Char}
    (h : ∃ c ∈ (splitMinus text).2.head?, c.isDigit = true) :
    ∃ c ∈ text.head?, c = '-' ∨ c.isDigit = true := by
  rcases splitMinus_spec text with ⟨rest, rfl⟩ | hnone
  · exact ⟨'-', rfl, .inl rfl⟩
  · rw [hnone] at h
    obtain ⟨c, hc, hdigit⟩ := h
    exact ⟨c, hc, .inr hdigit⟩

theorem head_cases {p : Char → Bool} (text : List Char) :
    (∃ c ∈ text.head?, p c = true) ∨ ∀ c ∈ text.head?, p c = false := by
  cases text with
  | nil => exact .inr (by simp)
  | cons c rest =>
    cases hc : p c with
    | true => exact .inl ⟨c, rfl, hc⟩
    | false => exact .inr (by simpa using hc)

/-- A number is read alike: each of its parts ends where it ended before. -/
theorem readsAlike_numberLiteral :
    ReadsAlike more limit 1 Unbracketed (fun _ => True) Parser.numberLiteral
      Parser.numberLiteral := by
  have hchars : ReadsAlike more limit 1 (fun text => ∃ c ∈ text.head?, c = '-' ∨ c.isDigit = true)
      (fun _ => True) (fun _ text => unsignedNumber (splitMinus text).1 (splitMinus text).2)
      fun _ text => unsignedNumber (splitMinus text).1 (splitMinus text).2 := by
    intro bound bound' text value rest _ _ _ hread
    obtain ⟨hlen, hmore⟩ := @splitsAlike_minus more text
    rcases head_cases (p := Char.isDigit) (splitMinus text).2 with hdigit | hnone
    · obtain ⟨number, after, hlen', hdone, hmore'⟩ := unsignedNumber_digits more hdigit
      cases (hdone _).symm.trans hread
      refine ⟨by omega, fun hs => (hmore' (hmore hs).2).1, fun _ => ⟨head_of_splitMinus hdigit, ?_⟩⟩
      intro hs
      obtain ⟨hminus, hseam⟩ := hmore hs
      dsimp only
      rw [hminus]
      exact (hmore' hseam).2 _
    · cases (unsignedNumber_missed hnone).symm.trans hread
  rw [numberLiteral_eq]
  refine hchars.lexeme ?_ ?_
  · rintro text ⟨c, hc, hnumber⟩ d hd rfl
    obtain rfl := Option.some.inj (hc.symm.trans hd)
    exact absurd hnumber (by decide)
  · rintro text ⟨c, hc, hnumber⟩
    obtain ⟨rest, hskip⟩ := List.head?_eq_some_iff.1 hc
    refine unbracketed_of_head hskip ?_ ?_ <;> rintro rfl <;> exact absurd hnumber (by decide)

theorem number_missed {text : List Char} (h : ∀ c ∈ text.head?, c ≠ '-' ∧ c.isDigit = false) :
    ∃ trace, unsignedNumber (splitMinus text).1 (splitMinus text).2 = .missed trace := by
  rcases splitMinus_spec text with ⟨rest, rfl⟩ | hnone
  · exact absurd rfl (h '-' rfl).1
  · rw [hnone]
    exact ⟨_, unsignedNumber_missed fun c hc => (h c hc).2⟩

/-- A number is missed where neither a digit nor a minus stands. -/
theorem missesOn_numberLiteral (hcs : ∀ c ∈ cs, c ≠ '-' ∧ c.isDigit = false) :
    MissesOn cs Parser.numberLiteral := by
  rw [numberLiteral_eq]
  exact missesOn_lexeme fun c hc _ rest => number_missed (by simpa using hcs c hc)

theorem missesAlike_numberLiteral (hm : ∀ c ∈ (skipBlanks more).head?, isNameStart c = true) :
    MissesAlike more limit Uncommented Parser.numberLiteral Parser.numberLiteral := by
  have hchars : MissesAlike more limit (fun _ => True)
      (fun _ text => unsignedNumber (splitMinus text).1 (splitMinus text).2)
      fun _ text => unsignedNumber (splitMinus text).1 (splitMinus text).2 := by
    intro bound bound' text trace _ _ _ _ hs hmiss
    obtain ⟨hminus, hseam⟩ := (@splitsAlike_minus more text).2 hs
    rcases head_cases (p := Char.isDigit) (splitMinus text).2 with hdigit | hnone
    · obtain ⟨_, _, -, hdone, -⟩ := unsignedNumber_digits more hdigit
      cases (hdone _).symm.trans hmiss
    · dsimp only
      rw [hminus]
      exact ⟨_, unsignedNumber_missed fun c hc => hnone c (hseam.head?_append ▸ hc)⟩
  rw [numberLiteral_eq]
  refine hchars.lexeme (fun _ => id) fun bound _ _ _ => number_missed fun c hc => ?_
  have hstart := hm c hc
  refine ⟨by rintro rfl; exact absurd hstart (by decide), ?_⟩
  by_contra hdigit
  rw [Bool.not_eq_false] at hdigit
  exact Bool.false_ne_true ((not_isNameStart_of_isDigit hdigit).symm.trans hstart)

end Tokens

end LintTypes.Source
