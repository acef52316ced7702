import LintTypes.Proofs.Tokens

/-!
# Reading tokens

What a parser does with a spelled token sequence, whatever the spelling. `Reads` says that a parser
takes certain tokens off the front and yields a certain value, `Misses` that it turns a sequence
down. Both speak of texts below a limit only: a parser that calls itself on what is inside brackets
may then be assumed to read shorter texts while it is shown to read longer ones.
-/

namespace LintTypes.Source

variable {α β : Type}

/-- The parser reads `tokens` as `value` when what follows them is as `Follow` says. It leaves a
spelling of what follows, in a text that is shorter by a character for each token at least. -/
def Reads (limit : Nat) (p : Parser α) (tokens : List Token) (value : α)
    (Follow : List Token → Prop) : Prop :=
  ∀ ⦃bound : Nat⦄ ⦃text : List Char⦄ ⦃rest : List Token⦄, text.length < bound →
    text.length < limit → Follow rest → Spells (tokens ++ rest) text →
    ∃ left, p bound text = .done value left ∧ Spells rest left ∧
      left.length + tokens.length ≤ text.length

/-- The parser misses on every spelling of `tokens`. -/
def Misses (limit : Nat) (p : Parser α) (tokens : List Token) : Prop :=
  ∀ ⦃bound : Nat⦄ ⦃text : List Char⦄, text.length < bound → text.length < limit →
    Spells tokens text → ∃ trace, p bound text = .missed trace

/-- No demand on what follows. -/
def Anything : List Token → Prop := fun _ => True

/-! ## Combinators -/

section Combinators

variable {limit : Nat} {p : Parser α} {f : α → Parser β} {tokens more : List Token} {a : α} {b : β}
  {Follow After : List Token → Prop}

attribute [grind =] Parser.bind Parser.commit Parser.within Parser.optional Parser.absent
  Parser.firstOf Parser.upTo

/-- What is read with a bound is read with a smaller one, as far as that reaches. -/
theorem Reads.mono {limit' : Nat} (h : Reads limit p tokens a Follow) (hl : limit' ≤ limit) :
    Reads limit' p tokens a Follow :=
  fun _ _ _ hb ht => h hb (Nat.lt_of_lt_of_le ht hl)

theorem Misses.mono {limit' : Nat} (h : Misses limit p tokens) (hl : limit' ≤ limit) :
    Misses limit' p tokens :=
  fun _ _ hb ht => h hb (Nat.lt_of_lt_of_le ht hl)

/-- What may stand behind the tokens can be narrowed down. -/
theorem Reads.follow (h : Reads limit p tokens a Follow) (hf : ∀ rest, After rest → Follow rest) :
    Reads limit p tokens a After :=
  fun _ _ rest hb ht hr => h hb ht (hf rest hr)

/-- To return a value reads no token. -/
theorem reads_pure : Reads limit (pure a : Parser α) [] a Anything :=
  fun _ text _ _ _ _ hs => ⟨text, rfl, hs, Nat.le_refl _⟩

theorem bind_of_done {f : α → Parser β} {bound : Nat} {text rest : List Char}
    (h : p bound text = .done a rest) : (p >>= f) bound text = f a bound rest := by
  show Parser.bind p f bound text = _
  rw [Parser.bind, h]

theorem bind_of_missed {f : α → Parser β} {bound : Nat} {text : List Char} {trace : Trace}
    (h : p bound text = .missed trace) : (p >>= f) bound text = .missed trace := by
  show Parser.bind p f bound text = _
  rw [Parser.bind, h]

/-- What is read after some tokens is read in a shorter text. -/
theorem Reads.bind (hp : Reads limit p tokens a Follow)
    (hf : Reads (limit - tokens.length) (f a) more b After)
    (hfollow : ∀ rest, After rest → Follow (more ++ rest)) :
    Reads limit (p >>= f) (tokens ++ more) b After := by
  intro bound text rest hb ht hr hs
  rw [List.append_assoc] at hs
  obtain ⟨left, hdone, hleft, hlen⟩ := hp hb ht (hfollow rest hr) hs
  obtain ⟨left', hdone', hleft', hlen'⟩ :=
    @hf bound left rest (by omega) (by omega) hr hleft
  exact ⟨left', (bind_of_done hdone).trans hdone', hleft', by rw [List.length_append]; omega⟩

/-- A value may be turned into another one after it was read. -/
theorem Reads.map {g : α → β} (hp : Reads limit p tokens a Follow) :
    Reads limit (p >>= fun x => pure (g x)) tokens (g a) Follow := by
  intro bound text rest hb ht hr hs
  obtain ⟨left, hdone, hleft, hlen⟩ := hp hb ht hr hs
  exact ⟨left, bind_of_done hdone, hleft, hlen⟩

theorem Reads.map_of_eq {g : α → β} (hp : Reads limit p tokens a Follow) (he : g a = b) :
    Reads limit (p >>= fun x => pure (g x)) tokens b Follow :=
  he ▸ hp.map

/-- Where the first parser misses, both do. -/
theorem Misses.bind (hp : Misses limit p tokens) : Misses limit (p >>= f) tokens := by
  intro bound text hb ht hs
  obtain ⟨trace, h⟩ := hp hb ht hs
  exact ⟨trace, bind_of_missed h⟩

/-- A parser also misses where it misses behind tokens that it reads. -/
theorem Reads.bind_misses (hp : Reads limit p tokens a Follow) (hf : Misses limit (f a) more)
    (hfollow : Follow more) : Misses limit (p >>= f) (tokens ++ more) := by
  intro bound text hb ht hs
  obtain ⟨left, hdone, hleft, hlen⟩ := hp hb ht hfollow hs
  obtain ⟨trace, h⟩ := @hf bound left (by omega) (by omega) hleft
  exact ⟨trace, (bind_of_done hdone).trans h⟩

/-- What is read is not changed by a commitment. -/
theorem Reads.commit (hp : Reads limit p tokens a Follow) :
    Reads limit p.commit tokens a Follow := by
  intro bound text rest hb ht hr hs
  obtain ⟨left, hdone, hleft⟩ := hp hb ht hr hs
  exact ⟨left, by rw [Parser.commit, hdone], hleft⟩

theorem Reads.within {construct : String} (hp : Reads limit p tokens a Follow) :
    Reads limit (p.within construct) tokens a Follow := by
  intro bound text rest hb ht hr hs
  obtain ⟨left, hdone, hleft⟩ := hp hb ht hr hs
  exact ⟨left, by rw [Parser.within, hdone], hleft⟩

theorem Misses.within {construct : String} (hp : Misses limit p tokens) :
    Misses limit (p.within construct) tokens := by
  intro bound text hb ht hs
  obtain ⟨trace, h⟩ := hp hb ht hs
  exact ⟨_, by rw [Parser.within, h]⟩

/-- What can be read is read, although it need not be there. -/
theorem Reads.optional (hp : Reads limit p tokens a Follow) :
    Reads limit p.optional tokens (some a) Follow := by
  intro bound text rest hb ht hr hs
  obtain ⟨left, hdone, hleft⟩ := hp hb ht hr hs
  exact ⟨left, by rw [Parser.optional, hdone], hleft⟩

/-- Nothing is read where the parser misses. -/
theorem reads_optional_none (hp : ∀ rest, Follow rest → Misses limit p rest) :
    Reads limit p.optional [] none Follow := by
  intro bound text rest hb ht hr hs
  obtain ⟨trace, h⟩ := hp rest hr hb ht hs
  exact ⟨text, by rw [Parser.optional, h], hs, Nat.le_refl _⟩

/-- An optional part that is there or not. -/
theorem reads_optional {present : Bool} {u : α}
    (hp : Reads limit p tokens u Anything)
    (hmiss : present = false → ∀ rest, Follow rest → Misses limit p rest) :
    Reads limit p.optional (if present then tokens else []) (if present then some u else none)
      Follow := by
  cases present with
  | true => exact hp.optional.follow fun _ _ => trivial
  | false => exact reads_optional_none (hmiss rfl)

/-- If the first of several parsers reads, then that is all. -/
theorem Reads.firstOf {others : List (Parser α)} {last : Parser α}
    (hp : Reads limit p tokens a Follow) :
    Reads limit (Parser.firstOf last (p :: others)) tokens a Follow := by
  intro bound text rest hb ht hr hs
  obtain ⟨left, hdone, hleft⟩ := hp hb ht hr hs
  exact ⟨left, by simp only [Parser.firstOf, hdone], hleft⟩

theorem Reads.firstOf_last {last : Parser α} (hp : Reads limit last tokens a Follow) :
    Reads limit (Parser.firstOf last []) tokens a Follow := by
  intro bound text rest hb ht hr hs
  obtain ⟨left, hdone, hleft⟩ := hp hb ht hr hs
  exact ⟨left, by simp only [Parser.firstOf, hdone], hleft⟩

/-- An alternative that misses is passed over. -/
theorem firstOf_of_missed {others : List (Parser α)} {last : Parser α} {bound : Nat}
    {text : List Char} {trace : Trace} (h : p bound text = .missed trace) :
    Parser.firstOf last (p :: others) bound text = Parser.firstOf last others bound text := by
  simp only [Parser.firstOf, h]

/-- If the first of several parsers misses, the others are left. -/
theorem Reads.firstOf_skip {others : List (Parser α)} {last : Parser α}
    (h : Reads limit (Parser.firstOf last others) tokens a Follow)
    (hp : ∀ rest, Follow rest → Misses limit p (tokens ++ rest)) :
    Reads limit (Parser.firstOf last (p :: others)) tokens a Follow := by
  intro bound text rest hb ht hr hs
  obtain ⟨trace, hmiss⟩ := hp rest hr hb ht hs
  obtain ⟨left, hdone, hleft⟩ := h hb ht hr hs
  exact ⟨left, by rw [firstOf_of_missed hmiss, hdone], hleft⟩

/-- Several parsers miss if each of them does. -/
theorem misses_firstOf {others : List (Parser α)} {last : Parser α}
    (hlast : Misses limit last tokens) (hothers : ∀ q ∈ others, Misses limit q tokens) :
    Misses limit (Parser.firstOf last others) tokens := by
  induction others with
  | nil =>
    intro bound text hb ht hs
    obtain ⟨trace, h⟩ := hlast hb ht hs
    exact ⟨trace ++ [⟨text, .alternatives⟩], by simp only [Parser.firstOf, h]⟩
  | cons q others ih =>
    intro bound text hb ht hs
    obtain ⟨trace, h⟩ := hothers q (List.mem_cons_self ..) hb ht hs
    obtain ⟨trace', h'⟩ := ih (fun r hr => hothers r (List.mem_cons_of_mem _ hr)) hb ht hs
    exact ⟨trace', by rw [firstOf_of_missed h, h']⟩

/-- Where a parser misses, its absence is read. -/
theorem reads_absent (hp : ∀ rest, Follow rest → Misses limit p rest) :
    Reads limit p.absent [] () Follow := by
  intro bound text rest hb ht hr hs
  obtain ⟨trace, h⟩ := hp rest hr hb ht hs
  exact ⟨text, by rw [Parser.absent, h], hs, Nat.le_refl _⟩

/-- Where a parser reads, its absence is missed. -/
theorem Reads.misses_absent (hp : Reads limit p tokens a Anything) (rest : List Token) :
    Misses limit p.absent (tokens ++ rest) := by
  intro bound text hb ht hs
  obtain ⟨left, hdone, -⟩ := hp hb ht trivial hs
  exact ⟨_, by rw [Parser.absent, hdone]⟩

/-! ## Repetition -/

/-- A repetition of `p`, not bounded by a count below the length of the text, reads `tokens` as
`values`. -/
def ReadsMany (limit : Nat) (p : Parser α) (tokens : List Token) (values : List α)
    (Follow : List Token → Prop) : Prop :=
  ∀ ⦃count : Nat⦄, Reads (min limit count) (Parser.upTo count p) tokens values Follow

theorem ReadsMany.mono {limit' : Nat} {values : List α}
    (h : ReadsMany limit p tokens values Follow) (hl : limit' ≤ limit) :
    ReadsMany limit' p tokens values Follow :=
  fun count => Reads.mono (@h count) (by omega)

/-- Reading again and again ends where the parser misses. -/
theorem readsMany_nil (hp : ∀ rest, Follow rest → Misses limit p rest) :
    ReadsMany limit p [] [] Follow := by
  intro count bound text rest hb ht hr hs
  obtain ⟨trace, h⟩ := hp rest hr hb (by omega) hs
  cases count with
  | zero => omega
  | succ count => exact ⟨text, by rw [Parser.upTo, h], hs, Nat.le_refl _⟩

/-- Something that is read first takes its tokens off the bound, and the rest is read with what is
left of it. -/
theorem ReadsMany.cons {values : List α} (hp : Reads limit p tokens a Follow) (hne : tokens ≠ [])
    (hmany : ReadsMany (limit - tokens.length) p more values After)
    (hfollow : ∀ rest, After rest → Follow (more ++ rest)) :
    ReadsMany limit p (tokens ++ more) (a :: values) After := by
  intro count bound text rest hb ht hr hs
  rw [List.append_assoc] at hs
  obtain ⟨left, hdone, hleft, hlen⟩ := hp hb (by omega) (hfollow rest hr) hs
  have hpos : 0 < tokens.length := List.length_pos_iff.2 hne
  cases count with
  | zero => omega
  | succ count =>
    obtain ⟨left', hdone', hleft', hlen'⟩ :=
      @hmany count bound left rest (by omega) (by omega) hr hleft
    refine ⟨left', ?_, hleft', by rw [List.length_append]; omega⟩
    rw [Parser.upTo, hdone]
    simp only [hdone']

/-- The bound on the text allows as many values as were said to be read. -/
theorem ReadsMany.many {values : List α} (h : ReadsMany limit p tokens values Follow) :
    Reads limit (Parser.many p) tokens values Follow :=
  fun bound text rest hb ht hr hs => @h bound bound text rest hb (Nat.lt_min.2 ⟨ht, hb⟩) hr hs

end Combinators

end LintTypes.Source
