import LintTypes.Proofs.LongerTokens
import LintTypes.Source.Grammar

/-!
# Types in longer texts

The parsers for types read alike in longer texts, with parsers for the types inside that do so. At
the end of the text that was read only optional parts and further items of a list are looked for:
within brackets these end at the closing one, and elsewhere what was added begins none of them,
since it begins with the word of a declaration.
-/

namespace LintTypes.Source

open LintTypes.Source.Parser

variable {α : Type} {more : List Char} {limit : Nat} {nested nested' : Parser TypeExpr} {c : Char}

theorem startsIn_clean (hc : c ≠ '/' ∧ c ≠ '[') (text : List Char) (h : StartsIn [c] text) :
    Clean text :=
  (h.solid (by simpa using hc)).toClean

/-- A further item behind a comma. -/
theorem readsAlike_commaItem {p q : Parser α} (hp : ReadsAlike more limit 0 Clean Clean p q) :
    ReadsAlike more limit 1 Clean Clean (do symbol ","; p) (do symbol ","; q) :=
  ((readsAlike_symbol (by decide)).token_bind fun _ => hp.mono (Nat.sub_le ..)).imp
    (Nat.le_refl 1) (startsIn_clean (c := ',') (by decide)) fun _ => id

/-- Without a comma no further item is read. -/
theorem missesOn_commaItem {p : Parser α} {cs : List Char} (hcs : ',' ∉ cs) :
    MissesOn cs (do symbol ","; p) :=
  (missesOn_symbol (by decide) hcs).bind

/-- Items with commas between them, up to a closing symbol. -/
theorem readsAlike_sepByComma {p q : Parser α} (hc : c ≠ '/' ∧ c ≠ '[') (hcomma : c ≠ ',')
    (hp : ReadsAlike more limit 0 Clean Clean p q) :
    ReadsAlike more limit 0 Clean (StartsIn [c]) (sepBy1 p (symbol ","))
      (sepBy1 q (symbol ",")) :=
  hp.sepBy1 (readsAlike_commaItem hp) (startsIn_clean hc)
    ((missesOn_commaItem (by simpa using hcomma.symm)).alike (by simpa using hc.1.symm))

/-- A symbol behind which anything may stand. -/
theorem readsAlike_closing (s : String) {construct : String} (hs : Mark s c) :
    ReadsAlike more limit 1 (StartsIn [c]) (fun _ => True) (commit (within construct (symbol s)))
      (commit (within construct (symbol s))) :=
  (readsAlike_symbol hs).within.commit

/-- Either of two symbols, behind which anything may stand. -/
theorem readsAlike_either {s t : String} {d : Char} (hs : Mark s c) (ht : Mark t d) (hcd : d ≠ c) :
    ReadsAlike more limit 1 (StartsIn [c, d]) (fun _ => True) (firstOf (symbol s) [symbol t])
      (firstOf (symbol s) [symbol t]) := by
  have hlast : ReadsAlike more limit 1 (StartsIn [c]) (fun _ => True) (firstOf (symbol s) [])
      (firstOf (symbol s) []) := readsAlike_firstOf_last (readsAlike_symbol hs)
  have hfirst : ReadsAlike more limit 1 (StartsIn [c, d]) (fun _ => True) (symbol t) (symbol t) :=
    (readsAlike_symbol ht).imp (Nat.le_refl 1) (fun _ h => h.mono (by simp)) fun _ => id
  have hmiss : MissesOn [c] (symbol t) := missesOn_symbol ht (by simpa using hcd)
  exact hfirst.firstOf (hmiss.alike (by simpa using hs.ne_slash.symm)) hlast
    fun _ h => h.mono (by simp)

/-- Arguments are read alike if the types inside are. -/
theorem readsAlike_typeArguments (hn : ReadsAlike more (limit - 1) 0 Clean Clean nested nested') :
    ReadsAlike more limit 1 (StartsIn ['<']) (fun _ => True) (typeArguments nested)
      (typeArguments nested') := by
  have hargs := readsAlike_sepByComma (c := '>') (by decide) (by decide) hn
  exact (readsAlike_symbol (by decide)).token_bind fun _ =>
    hargs.commit.bind fun _ => (readsAlike_closing ">" (by decide)).map

section Fresh

variable (hm : ∀ c ∈ (skipBlanks more).head?, isNameStart c = true)
include hm

/-- A symbol that may be missing. -/
theorem readsAlike_mark {s : String} (hs : Mark s c) (hb : c ≠ '[') :
    ReadsAlike more limit 0 Clean Clean (Parser.optional (symbol s)) (Parser.optional (symbol s)) :=
  ((readsAlike_symbol hs).imp (Nat.le_refl 1) (startsIn_clean ⟨hs.ne_slash, hb⟩)
    fun _ _ => trivial).optional ((missesAlike_symbol hm hs).imp fun _ h => h.uncommented)
    fun _ => id

theorem missesAlike_either {s t : String} {d : Char} (hs : Mark s c) (ht : Mark t d) :
    MissesAlike more limit Uncommented (firstOf (symbol s) [symbol t])
      (firstOf (symbol s) [symbol t]) :=
  (missesAlike_symbol hm ht).firstOf (missesAlike_firstOf_last (missesAlike_symbol hm hs))

theorem missesAlike_typeArguments :
    MissesAlike more limit Clean (typeArguments nested) (typeArguments nested') :=
  ((missesAlike_symbol hm (c := '<') (by decide)).bind fun _ => (decided_commit _).bind
    fun _ => (decided_commit _).bind fun _ => decided_pure _).imp fun _ h => h.uncommented

omit hm in
/-- A name that stands for a type is read alike with what may follow it. -/
theorem readsAlike_behindName {arguments arguments' : Parser (Option (List TypeExpr))}
    (h : ReadsAlike more limit 0 Clean Clean arguments arguments') (name : String) :
    ReadsAlike more limit 0 Clean Clean
      (match reservedType? name with
        | some type => pure type
        | none => do return .reference name ((← arguments).getD []))
      (match reservedType? name with
        | some type => pure type
        | none => do return .reference name ((← arguments').getD [])) := by
  cases reservedType? name with
  | some type => exact readsAlike_pure type
  | none => exact h.map

/-- A word or a reference is read alike. -/
theorem readsAlike_wordOrReference
    (hn : ReadsAlike more (limit - 1) 0 Clean Clean nested nested') :
    ReadsAlike more limit 1 Solid Clean (wordOrReference nested) (wordOrReference nested') := by
  have hargs : ReadsAlike more (limit - 1) 0 Clean Clean (Parser.optional (typeArguments nested))
      (Parser.optional (typeArguments nested')) :=
    ((readsAlike_typeArguments (hn.mono (Nat.sub_le ..))).imp (Nat.le_refl 1)
      (startsIn_clean (by decide)) fun _ _ => trivial).optional (missesAlike_typeArguments hm)
      fun _ => id
  have hname : ReadsAlike more limit 1 Solid (fun _ => True) dottedName dottedName :=
    readsAlike_dottedName.imp (Nat.le_refl 1) (fun _ h => h.toSolid) fun _ => id
  exact hname.token_bind (readsAlike_behindName hargs)

/-! ## Tuples -/

/-- A slot is read alike in each of its forms. -/
theorem readsAlike_slot (hn : ReadsAlike more limit 0 Clean Clean nested nested') :
    ReadsAlike more limit 0 Clean Clean (slot nested) (slot nested') :=
  (readsAlike_mark hm (c := '.') (by decide) (by decide)).bind fun _ =>
    hn.bind fun _ => (readsAlike_mark hm (c := '?') (by decide) (by decide)).map

omit hm in
theorem missesOn_slot {cs : List Char} (hdot : '.' ∉ cs) (hs : MissesOn cs nested) :
    MissesOn cs (slot nested) :=
  (missesOn_symbol (c := '.') (by decide) hdot).optional_bind hs.bind

/-- The slots of a tuple end at the closing bracket, or at a comma in front of it. -/
def EndsSlots (text : List Char) : Prop :=
  StartsIn [']'] text ∨ ∃ rest, skipBlanks text = [','] ++ rest ∧ StartsIn [']'] rest

omit hm in
theorem EndsSlots.startsIn {text : List Char} (h : EndsSlots text) : StartsIn [']', ','] text := by
  rcases h with h | ⟨rest, hskip, -⟩
  · exact h.mono (by simp)
  · exact ⟨',', by simp, rest, hskip⟩

omit hm in
/-- Slots end in front of a comma or a bracket, where no comment is open. -/
theorem EndsSlots.clean {text : List Char} (h : EndsSlots text) : Clean text :=
  (h.startsIn.solid (by decide)).toClean

omit hm in
/-- At the end of the slots there is no further slot behind a comma. -/
theorem missesAlike_nextSlot (hs : MissesOn [']', ','] nested') :
    MissesAlike more limit EndsSlots (do symbol ","; slot nested)
      (do symbol ","; slot nested') := by
  intro bound bound' text trace ht hb hle hends hseam hmiss
  rcases hends with hclose | ⟨rest, hskip, hclose⟩
  · have hstop : MissesOn [']'] (do symbol ","; slot nested') := missesOn_commaItem (by decide)
    exact hstop bound' _ (hclose.append hseam (by decide))
  · replace hskip : skipBlanks text = ',' :: rest := hskip
    have hrest : Seam more rest := by
      have hfront := seam_skipBlanks hseam (by simp [hskip])
      rw [hskip] at hfront
      exact hfront.tail (by decide)
    have hcomma : symbol "," bound' (text ++ more) = .done () (rest ++ more) := by
      show Parser.literally [','] bound' (skipBlanks (text ++ more)) = _
      rw [skipBlanks_append_cons hseam hskip (by decide)]
      exact literally_append [','] (rest ++ more) bound'
    obtain ⟨trace', hmiss'⟩ := missesOn_slot (by decide) hs bound' (rest ++ more)
      ((hclose.append hrest (by decide)).mono (by simp))
    exact ⟨trace', (bind_of_done hcomma).trans hmiss'⟩

/-- A tuple is read alike up to the bracket that closes it. -/
theorem readsAlike_tupleType (hn : ReadsAlike more (limit - 1) 0 Clean Clean nested nested')
    (hs : MissesOn [']', ','] nested') :
    ReadsAlike more limit 1 Solid (fun _ => True) (tupleType nested) (tupleType nested') := by
  have hslot := readsAlike_slot hm hn
  have hslots : ReadsAlike more (limit - 1) 0 Clean EndsSlots (sepBy (slot nested) (symbol ","))
      (sepBy (slot nested') (symbol ",")) := by
    have hsome := hslot.sepBy1 (readsAlike_commaItem hslot) (fun _ => EndsSlots.clean)
      (missesAlike_nextSlot hs)
    have hnone : MissesOn [']', ','] (sepBy1 (slot nested') (symbol ",")) :=
      (missesOn_slot (by decide) hs).bind
    exact (hsome.optional ((hnone.alike (by decide)).imp fun _ => EndsSlots.startsIn)
      fun _ => EndsSlots.clean).map
  have hcomma : ReadsAlike more (limit - 1) 0 EndsSlots (StartsIn [']'])
      (Parser.optional (symbol ",")) (Parser.optional (symbol ",")) := by
    have hread : ReadsAlike more (limit - 1) 1 EndsSlots (StartsIn [']']) (symbol ",")
        (symbol ",") :=
      (readsAlike_symbol_front (c := ',') (by decide)).imp (Nat.le_refl 1) (fun _ => .inr)
        fun _ => id
    have hnone : MissesOn [']'] (symbol ",") := missesOn_symbol (c := ',') (by decide) (by decide)
    exact hread.optional (hnone.alike (by decide)) fun _ => .inl
  have hopen : ReadsAlike more limit 1 Solid Clean (symbol "[") (symbol "[") :=
    readsAlike_bracket.imp (Nat.le_refl 1) (fun _ => id) fun _ h => h.uncommented
  exact hopen.head_bind fun _ => hslots.bind fun _ => hcomma.bind fun _ =>
    (readsAlike_closing "]" (by decide)).map

/-! ## Object types -/

omit hm in
/-- An index signature is read alike up to the bracket that closes it. -/
theorem readsAlike_indexSignature
    (hn : ReadsAlike more (limit - 1) 0 Clean Clean nested nested') :
    ReadsAlike more limit 1 Solid (fun _ => True) (indexSignature nested)
      (indexSignature nested') := by
  have hopen : ReadsAlike more limit 1 Solid Unbracketed (symbol "[") (symbol "[") :=
    readsAlike_bracket.imp (Nat.le_refl 1) (fun _ => id) fun _ h => h.uncommented
  have htype : ReadsAlike more (limit - 1 - 1 - 1) 0 Clean Clean nested nested' :=
    hn.mono (by omega)
  exact hopen.head_bind fun _ => readsAlike_identifier.token_bind fun _ =>
    (readsAlike_symbol (c := ':') (by decide)).token_bind fun _ =>
      htype.commit.bind fun _ => ((readsAlike_closing "]" (c := ']') (by decide)).map.imp
        (Nat.zero_le 1) (startsIn_clean (by decide)) fun _ => id)

/-- What a member is found under does not begin with a bracket unless it is an index signature. -/
theorem readsAlike_memberKey (hn : ReadsAlike more (limit - 1) 0 Clean Clean nested nested') :
    ReadsAlike more limit 1 Solid (fun _ => True) (memberKey nested) (memberKey nested') := by
  have hquotes : ∀ text, StartsIn ['\'', '"'] text → Unbracketed text := by
    rintro text ⟨c, hc, rest, hskip⟩
    refine unbracketed_of_head hskip ?_ ?_ <;> rintro rfl <;> exact absurd hc (by decide)
  have hliterals : ReadsAlike more limit 1 Unbracketed (fun _ => True)
      (firstOf (do return MemberKey.named (← numberLiteral))
        [do return .named (← stringLiteral)])
      (firstOf (do return MemberKey.named (← numberLiteral))
        [do return .named (← stringLiteral)]) :=
    (readsAlike_stringLiteral.map.imp (Nat.le_refl 1) hquotes fun _ => id).firstOf
      (((missesAlike_stringLiteral hm).bind fun _ => decided_pure _).imp fun _ h => h.uncommented)
      (readsAlike_firstOf_last readsAlike_numberLiteral.map) fun _ => id
  have hnames : ReadsAlike more limit 1 Unbracketed (fun _ => True)
      (firstOf (do return MemberKey.named (← numberLiteral))
        [do return .named (← identifier), do return .named (← stringLiteral)])
      (firstOf (do return MemberKey.named (← numberLiteral))
        [do return .named (← identifier), do return .named (← stringLiteral)]) :=
    readsAlike_identifier.map.firstOf ((missesAlike_identifier.bind fun _ => decided_pure _).imp
      fun _ h => h.toSolid) hliterals fun _ => id
  have hindex : MissesAlike more limit Unbracketed (indexSignature nested)
      (indexSignature nested') := by
    intro bound bound' text trace _ _ _ hfront hs _
    obtain ⟨c, rest, hskip⟩ := List.exists_cons_of_ne_nil hfront.ne_nil
    have hc : c ≠ '[' := by
      rintro rfl
      exact hfront.head_ne (by rw [hskip]; rfl)
    have hslash : c ≠ '/' := hfront.uncommented c (by rw [hskip]; rfl)
    have hmiss : MissesOn [c] (indexSignature nested') :=
      (missesOn_symbol (c := '[') (by decide) (by simpa using hc.symm)).bind
    exact hmiss bound' _ ⟨c, by simp, rest ++ more, skipBlanks_append_cons hs hskip hslash⟩
  exact (readsAlike_indexSignature hn).firstOf hindex hnames fun _ h => h.toSolid

omit hm in
theorem missesOn_memberKey : MissesOn ['}'] (memberKey nested) := by
  refine missesOn_firstOf (missesOn_numberLiteral (by decide)).bind ?_
  simp only [List.forall_mem_cons, List.not_mem_nil, false_implies, implies_true, and_true]
  exact ⟨(missesOn_symbol (c := '[') (by decide) (by decide)).bind,
    (missesOn_identifier (by decide)).bind, (missesOn_stringLiteral (by decide)).bind⟩

/-- The word in front of a member is the name of a property if a colon or a mark follows. -/
theorem readsAlike_readonlyMark :
    ReadsAlike more limit 1 Solid Clean readonlyMark readonlyMark :=
  (readsAlike_word (by decide)).token_bind fun _ =>
    ReadsAlike.absent ((missesAlike_either hm (c := ':') (d := '?') (by decide) (by decide)).imp
      fun _ h => h.uncommented)

omit hm in
/-- If `readonly` is a key in the one text, it is so in the other. -/
theorem missesAlike_readonlyMark :
    MissesAlike more limit Solid readonlyMark readonlyMark :=
  (missesAlike_word (by decide)).behind (readsAlike_word (by decide))
    (fun _ => MissesAlike.absent (readsAlike_either (c := ':') (d := '?') (by decide) (by decide)
      (by decide))) fun _ _ _ _ _ _ => trivial

/-- A member is read alike with its key and its type. -/
theorem readsAlike_member (hn : ReadsAlike more (limit - 1) 0 Clean Clean nested nested') :
    ReadsAlike more limit 1 Solid Clean (member nested) (member nested') := by
  have hreadonly : ReadsAlike more limit 0 Solid Solid (Parser.optional readonlyMark)
      (Parser.optional readonlyMark) :=
    ((readsAlike_readonlyMark hm).imp (Nat.le_refl 1) (fun _ => id) fun _ h => h.toClean).optional
      missesAlike_readonlyMark fun _ => id
  have hmark : ReadsAlike more (limit - 1) 0 (fun _ => True) (StartsIn [':'])
      (Parser.optional (symbol "?")) (Parser.optional (symbol "?")) := by
    have hmiss : MissesOn [':'] (symbol "?") := missesOn_symbol (c := '?') (by decide) (by decide)
    exact ((readsAlike_symbol (c := '?') (by decide)).imp (Nat.le_refl 1)
      (fun _ _ => trivial) fun _ _ => trivial).optional (hmiss.alike (by decide)) fun _ _ => trivial
  have htype : ReadsAlike more (limit - 1 - 1) 0 Clean Clean nested nested' :=
    hn.mono (Nat.sub_le ..)
  exact (hreadonly.bind fun _ => (readsAlike_memberKey hm hn).token_bind fun _ =>
    hmark.bind fun _ => (readsAlike_closing ":" (by decide)).token_bind fun _ =>
      htype.commit.map).imp (Nat.le_refl _) (fun _ => id) fun _ => id

omit hm in
theorem missesOn_member : MissesOn ['}'] (member nested) :=
  (missesOn_word (s := "readonly") (c := 'r') rfl (by decide)).bind.optional_bind
    missesOn_memberKey.bind

theorem readsAlike_memberEnd :
    ReadsAlike more limit 0 Clean Solid (Parser.optional (firstOf (symbol ",") [symbol ";"]))
      (Parser.optional (firstOf (symbol ",") [symbol ";"])) := by
  have hread : ReadsAlike more limit 1 (StartsIn [',', ';']) (fun _ => True)
      (firstOf (symbol ",") [symbol ";"]) (firstOf (symbol ",") [symbol ";"]) :=
    readsAlike_either (by decide) (by decide) (by decide)
  have hmiss : MissesAlike more limit Uncommented (firstOf (symbol ",") [symbol ";"])
      (firstOf (symbol ",") [symbol ";"]) :=
    missesAlike_either hm (c := ',') (d := ';') (by decide) (by decide)
  exact (hread.imp (Nat.le_refl 1) (fun _ h => (h.solid (by decide)).toClean)
    fun _ _ => trivial).optional (hmiss.imp fun _ h => h.uncommented) fun _ h => h.toClean

/-- A block of members is read alike up to the brace that closes it. -/
theorem readsAlike_memberBlock (hn : ReadsAlike more (limit - 1) 0 Clean Clean nested nested') :
    ReadsAlike more limit 1 (StartsIn ['{']) (fun _ => True) (memberBlock nested)
      (memberBlock nested') := by
  have hitem : ReadsAlike more (limit - 1) 1 Solid Solid
      (do let member ← member nested
          let _ ← Parser.optional (firstOf (symbol ",") [symbol ";"])
          return member)
      (do let member ← member nested'
          let _ ← Parser.optional (firstOf (symbol ",") [symbol ";"])
          return member) :=
    (readsAlike_member hm (hn.mono (Nat.sub_le ..))).head_bind fun _ =>
      (readsAlike_memberEnd hm).map
  have hstop : MissesOn ['}'] (do
      let member ← member nested'
      let _ ← Parser.optional (firstOf (symbol ",") [symbol ";"])
      return member) := missesOn_member.bind
  have hitems := hitem.many (fun _ h => h.solid (by decide)) (hstop.alike (by decide))
  exact (readsAlike_symbol (by decide)).token_bind fun _ => hitems.bind fun _ =>
    (readsAlike_closing "\x7d" (by decide)).map

/-! ## Types without operators -/

omit hm in
theorem readsAlike_parenthesizedType
    (hn : ReadsAlike more (limit - 1) 0 Clean Clean nested nested') :
    ReadsAlike more limit 1 (StartsIn ['(']) (fun _ => True) (parenthesizedType nested)
      (parenthesizedType nested') :=
  (readsAlike_symbol (by decide)).token_bind fun _ => hn.commit.bind fun _ =>
    (readsAlike_closing ")" (c := ')') (by decide)).map.imp (Nat.zero_le 1)
      (startsIn_clean (by decide)) fun _ => id

theorem missesAlike_parenthesizedType :
    MissesAlike more limit Uncommented (parenthesizedType nested) (parenthesizedType nested') :=
  (missesAlike_symbol hm (c := '(') (by decide)).bind fun _ => (decided_commit _).bind
    fun _ => (decided_commit _).bind fun _ => decided_pure _

theorem missesAlike_tupleType :
    MissesAlike more limit Uncommented (tupleType nested) (tupleType nested') :=
  (missesAlike_symbol hm (c := '[') (by decide)).bind fun _ =>
    ((decided_optional _).bind fun _ => decided_pure _).bind fun _ => (decided_optional _).bind
      fun _ => (decided_commit _).bind fun _ => decided_pure _

theorem missesAlike_memberBlock :
    MissesAlike more limit Uncommented (memberBlock nested) (memberBlock nested') :=
  (missesAlike_symbol hm (c := '{') (by decide)).bind fun _ => (decided_many _).bind
    fun _ => (decided_commit _).bind fun _ => decided_pure _

omit hm in
/-- An alternative that begins a type and is told from the others by its first token. -/
theorem readsAlike_alternative {p q last last' : Parser α} {others others' : List (Parser α)}
    {Before : List Char → Prop} (hp : ReadsAlike more limit 1 Before (fun _ => True) p q)
    (hb : ∀ text, Before text → Solid text) (hmiss : MissesAlike more limit Uncommented p q)
    (ho : ReadsAlike more limit 1 Solid Clean (firstOf last others) (firstOf last' others')) :
    ReadsAlike more limit 1 Solid Clean (firstOf last (p :: others))
      (firstOf last' (q :: others')) :=
  (hp.imp (Nat.le_refl 1) hb fun _ _ => trivial).firstOf (hmiss.imp fun _ h => h.uncommented) ho
    fun _ => id

/-- A type without operators is read alike in each of its forms: what is tried before misses
alike. -/
theorem readsAlike_primaryType (hn : ReadsAlike more (limit - 1) 0 Clean Clean nested nested')
    (hs : MissesOn [']', ','] nested') :
    ReadsAlike more limit 1 Solid Clean (primaryType nested) (primaryType nested') := by
  have hlast := readsAlike_firstOf_last (readsAlike_wordOrReference hm hn)
  have hnumber := readsAlike_alternative (readsAlike_numberLiteral.map
      (h := fun text => TypeExpr.literal (.number text))) (fun _ h => h.toSolid)
    ((missesAlike_numberLiteral hm).bind fun _ => decided_pure _) hlast
  have hstring := readsAlike_alternative (readsAlike_stringLiteral.map
      (h := fun text => TypeExpr.literal (.string text))) (fun _ h => h.solid (by decide))
    ((missesAlike_stringLiteral hm).bind fun _ => decided_pure _) hnumber
  have hobject := readsAlike_alternative ((readsAlike_memberBlock hm hn).map (h := TypeExpr.object))
    (fun _ h => h.solid (by decide)) ((missesAlike_memberBlock hm).bind fun _ => decided_pure _)
    hstring
  have htuple := readsAlike_alternative (readsAlike_tupleType hm hn hs) (fun _ => id)
    (missesAlike_tupleType hm) hobject
  exact (readsAlike_alternative (readsAlike_parenthesizedType hn) (fun _ h => h.solid (by decide))
    (missesAlike_parenthesizedType hm) htuple).within

omit hm in
/-- No type starts with a comma or with the bracket that closes a tuple. -/
theorem missesOn_primaryType : MissesOn [']', ','] (primaryType nested) := by
  have hnames : ∀ c ∈ [']', ','], isNameStart c = false := by decide
  refine (missesOn_firstOf (missesOn_dottedName hnames).bind ?_).within
  simp only [List.forall_mem_cons, List.not_mem_nil, false_implies, implies_true, and_true]
  exact ⟨(missesOn_symbol (c := '(') (by decide) (by decide)).bind,
    (missesOn_symbol (c := '[') (by decide) (by decide)).bind,
    (missesOn_symbol (c := '{') (by decide) (by decide)).bind.bind,
    (missesOn_stringLiteral (by decide)).bind, (missesOn_numberLiteral (by decide)).bind⟩

/-! ## Operators -/

omit hm in
theorem readsAlike_brackets :
    ReadsAlike more limit 1 Clean Clean (do symbol "["; symbol "]")
      (do symbol "["; symbol "]") := by
  have hclose : ReadsAlike more (limit - 1) 1 Uncommented (fun _ => True) (symbol "]")
      (symbol "]") :=
    (readsAlike_symbol (c := ']') (by decide)).imp (Nat.le_refl 1)
      (fun _ h => (h.solid (by decide)).uncommented) fun _ => id
  exact (readsAlike_bracket.head_bind fun _ => hclose).imp (Nat.le_refl 1)
    (fun _ h => h.toClean) fun _ _ => trivial

theorem missesAlike_brackets :
    MissesAlike more limit Clean (do symbol "["; symbol "]") (do symbol "["; symbol "]") := by
  have hopen : MissesAlike more limit Clean (symbol "[") (symbol "[") :=
    (missesAlike_symbol hm (c := '[') (by decide)).imp fun _ h => h.uncommented
  refine hopen.behind readsAlike_bracket (fun _ => missesAlike_symbol hm (c := ']') (by decide)) ?_
  intro bound text _ rest hclean hread
  replace hread : Parser.literally ['['] bound (skipBlanks text) = .done () rest := hread
  exact hclean.bracket rest (literally_eq_done hread)

/-- The brackets behind a type are the same in both texts. -/
theorem readsAlike_arrayType (hn : ReadsAlike more (limit - 1) 0 Clean Clean nested nested')
    (hs : MissesOn [']', ','] nested') :
    ReadsAlike more limit 1 Solid Clean (arrayType nested) (arrayType nested') :=
  (readsAlike_primaryType hm hn hs).head_bind fun _ =>
    ((readsAlike_brackets.many (fun _ => id) (missesAlike_brackets hm)).map)

/-- Operands with an operator between them, which may also come first. -/
theorem readsAlike_operands {p q : Parser TypeExpr} {operator : String}
    {build : TypeExpr → List TypeExpr → TypeExpr} (hs : Mark operator c) (hb : c ≠ '[')
    (hp : ReadsAlike more limit 0 Clean Clean p q) :
    ReadsAlike more limit 0 Clean Clean
      (do let _ ← Parser.optional (symbol operator)
          let first ← p
          let others ← many (do symbol operator; commit p)
          return build first others)
      (do let _ ← Parser.optional (symbol operator)
          let first ← q
          let others ← many (do symbol operator; commit q)
          return build first others) := by
  have hitem : ReadsAlike more limit 1 Clean Clean (do symbol operator; commit p)
      (do symbol operator; commit q) :=
    ((readsAlike_symbol hs).token_bind fun _ => hp.commit.mono (Nat.sub_le ..)).imp
      (Nat.le_refl 1) (startsIn_clean ⟨hs.ne_slash, hb⟩) fun _ => id
  have hstop : MissesAlike more limit Clean (do symbol operator; commit p)
      (do symbol operator; commit q) :=
    ((missesAlike_symbol hm hs).imp fun _ h => h.uncommented).bind fun _ => decided_commit p
  exact (readsAlike_mark hm hs hb).bind fun _ => hp.bind fun _ =>
    (hitem.many (fun _ => id) hstop).map

/-- A union is read alike with all its operands. -/
theorem readsAlike_unionType (hn : ReadsAlike more (limit - 1) 0 Clean Clean nested nested')
    (hs : MissesOn [']', ','] nested') :
    ReadsAlike more limit 0 Clean Clean (unionType nested) (unionType nested') := by
  have harray := (readsAlike_arrayType hm hn hs).imp (Nat.zero_le 1) (fun _ h => h.toClean)
    fun _ => id
  exact readsAlike_operands hm (c := '|') (by decide) (by decide)
    (readsAlike_operands hm (c := '&') (by decide) (by decide) harray)

omit hm in
theorem missesOn_unionType : MissesOn [']', ','] (unionType nested) := by
  have harray : MissesOn [']', ','] (arrayType nested) := missesOn_primaryType.bind
  have hinter : MissesOn [']', ','] (intersectionType nested) :=
    (missesOn_symbol (c := '&') (by decide) (by decide)).optional_bind harray.bind
  exact (missesOn_symbol (c := '|') (by decide) (by decide)).optional_bind hinter.bind

omit hm in
theorem missesOn_typeExpr (bound : Nat) :
    MissesOn [']', ','] fun _ inner => typeExpr bound inner := by
  intro _ text ht
  cases bound with
  | zero => exact ⟨[], rfl⟩
  | succ bound => exact missesOn_unionType (bound + 1) text ht

/-- The types inside a type are read under a lesser bound, off a shorter text. -/
theorem readsAlike_typeExpr : ReadsAlike more limit 0 Clean Clean typeExpr typeExpr := by
  rintro bound bound' text value rest - hbound hle hread
  induction bound generalizing bound' text value rest with
  | zero => omega
  | succ bound ih =>
    obtain ⟨bound', rfl⟩ := Nat.exists_eq_add_one_of_ne_zero (show bound' ≠ 0 by omega)
    have hnested : ReadsAlike more bound 0 Clean Clean (fun _ inner => typeExpr bound inner)
        (fun _ inner => typeExpr bound' inner) := by
      intro _ _ inner value rest hlen _ _ hinner
      exact ih hlen (Nat.le_of_succ_le_succ hle) hinner
    have hunion : ReadsAlike more (bound + 1) 0 Clean Clean _ _ :=
      readsAlike_unionType hm hnested (missesOn_typeExpr bound')
    exact hunion hbound hbound hle hread

end Fresh

end LintTypes.Source
