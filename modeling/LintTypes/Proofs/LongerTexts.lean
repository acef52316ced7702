import LintTypes.Proofs.LexicalReading
import Mathlib.Data.List.Infix
import Mathlib.Data.List.TakeWhile

/-!
# Longer texts

What a parser reads off a text does not change when more is added to the text, if nothing runs into
what is added: the text ends with a line feed, and what is added begins with a name. `ReadsAlike`
says so of a parser that has read something and `MissesAlike` of one that has turned a text down.

How much a parser looks at behind what it reads depends on what is there. So a parser is only asked
to read alike if the text that it leaves is as `After` says; in turn the text that it found is as
`Before` says, and this is what the parser in front of it may count on.
-/

namespace LintTypes.Source

variable {α β : Type}

/-! ## Ends of texts -/

/-- Nothing at the end of the text runs into `more`: there is nothing more, or the text ends with a
line feed. -/
def Seam (more text : List Char) : Prop := more = [] ∨ text.getLast? = some '\n'

section Seam

variable {more text rest : List Char} {c : Char}

/-- The end of a text does not change as its front is read off, as long as something is left. -/
theorem Seam.of_suffix (h : Seam more text) (hs : rest <:+ text) (hne : rest ≠ []) :
    Seam more rest := by
  obtain ⟨front, rfl⟩ := hs
  refine h.imp_right fun hlast => ?_
  rw [List.getLast?_append, List.getLast?_eq_some_getLast hne, Option.some_or] at hlast
  rwa [List.getLast?_eq_some_getLast hne]

theorem Seam.tail (h : Seam more (c :: rest)) (hc : c ≠ '\n') : Seam more rest := by
  by_cases hne : rest = []
  · subst hne
    refine h.imp_right fun hlast => ?_
    exact absurd (Option.some.inj hlast) hc
  · exact h.of_suffix (List.suffix_cons c rest) hne

/-- What is passed over has no line feed. -/
theorem Seam.of_append {front : List Char} (h : Seam more (front ++ rest)) (hf : '\n' ∉ front) :
    Seam more rest := by
  induction front with
  | nil => exact h
  | cons c front ih =>
    obtain ⟨hc, hfront⟩ := not_or.1 (List.mem_cons.not.1 hf)
    exact ih (h.tail fun heq => hc heq.symm) hfront

/-- Behind a character that is no line feed something is left. -/
theorem Seam.behind {front : List Char} (h : Seam more (front ++ c :: rest)) (hc : c ≠ '\n') :
    Seam more rest :=
  (h.of_suffix (List.suffix_append front (c :: rest)) (List.cons_ne_nil c rest)).tail hc

/-- What is added does not come to the front. -/
theorem Seam.head?_append (h : Seam more text) : (text ++ more).head? = text.head? := by
  rcases h with rfl | hlast
  · rw [List.append_nil]
  · cases text with
    | nil => cases hlast
    | cons c text => rfl

/-- What goes on up to a character that is no line feed stays in the text. -/
theorem Seam.dropWhile {p : Char → Bool} (hp : p '\n' = false) (h : Seam more text) :
    (text ++ more).takeWhile p = text.takeWhile p ∧
      (text ++ more).dropWhile p = text.dropWhile p ++ more ∧ Seam more (text.dropWhile p) := by
  rcases h with rfl | hlast
  · simp [Seam]
  · have hmem : '\n' ∈ text := List.mem_of_getLast? hlast
    have hne : text.dropWhile p ≠ [] := fun hnil => by
      rw [List.dropWhile_eq_nil_iff] at hnil
      exact Bool.false_ne_true (hp.symm.trans (hnil _ hmem))
    refine ⟨?take, ?drop, Seam.of_suffix (.inr hlast) (List.dropWhile_suffix p) hne⟩
    case take =>
      rw [List.takeWhile_append, if_neg]
      intro hlen
      have hsplit := congrArg List.length (List.takeWhile_append_dropWhile (p := p) (l := text))
      rw [List.length_append] at hsplit
      exact hne (List.length_eq_zero_iff.1 (by omega))
    case drop =>
      rw [List.dropWhile_append, if_neg]
      rwa [List.isEmpty_iff]

/-- A fixed piece of text is not there only because of what was added. -/
theorem Seam.prefix_iff {expected : List Char} (h : Seam more text) (he : '\n' ∉ expected) :
    expected <+: text ++ more ↔ expected <+: text := by
  constructor
  · intro hp
    rcases List.prefix_or_prefix_of_prefix hp (List.prefix_append text more) with hp | hp
    · exact hp
    · rcases h with rfl | hlast
      · simpa using hp
      · exact absurd (hp.subset (List.mem_of_getLast? hlast)) he
  · exact fun hp => hp.trans (List.prefix_append text more)

end Seam

/-! ## Fronts of texts -/

/-- Behind the blanks of the text stands one of these characters. -/
def StartsIn (cs text : List Char) : Prop := ∃ c ∈ cs, ∃ rest, skipBlanks text = c :: rest

/-- Behind the blanks of the text no comment is open, which might be closed in a longer text. -/
def Uncommented (text : List Char) : Prop := ∀ c ∈ (skipBlanks text).head?, c ≠ '/'

/-- No comment is open, nor is one behind a bracket: a parser may look behind a bracket before it
turns the text down. -/
structure Clean (text : List Char) : Prop where
  uncommented : Uncommented text
  bracket : ∀ rest, skipBlanks text = '[' :: rest → Uncommented rest

/-- There is something behind the blanks, and no open comment. -/
structure Solid (text : List Char) : Prop extends Clean text where
  ne_nil : skipBlanks text ≠ []

/-- There is something other than a bracket behind the blanks. -/
structure Unbracketed (text : List Char) : Prop extends Solid text where
  head_ne : (skipBlanks text).head? ≠ some '['

section Fronts

variable {more text rest : List Char} {c : Char} {cs : List Char}

theorem unbracketed_of_head (h : skipBlanks text = c :: rest) (hc : c ≠ '/') (hb : c ≠ '[') :
    Unbracketed text where
  uncommented := by simpa [Uncommented, h] using hc
  bracket tail htail := by
    rw [h] at htail
    exact absurd (List.cons.inj htail).1 hb
  ne_nil := by simp [h]
  head_ne := by simpa [h] using hb

/-- A text that starts with such a character has no comment open. -/
theorem StartsIn.solid (h : StartsIn cs text) (hc : ∀ c ∈ cs, c ≠ '/' ∧ c ≠ '[') : Solid text := by
  obtain ⟨c, hmem, rest, hskip⟩ := h
  exact (unbracketed_of_head hskip (hc c hmem).1 (hc c hmem).2).toSolid

theorem StartsIn.mono {cs' : List Char} (h : StartsIn cs text) (hsub : cs ⊆ cs') :
    StartsIn cs' text := by
  obtain ⟨c, hmem, hrest⟩ := h
  exact ⟨c, hsub hmem, hrest⟩

theorem clean_of_blank (h : skipBlanks text = []) : Clean text where
  uncommented := by simp [Uncommented, h]
  bracket rest hrest := by simp [h] at hrest

/-- The end of a comment stays where it is. -/
theorem afterCommentEnd?_done {after : List Char} (h : afterCommentEnd? text = some after) :
    (∃ body, text = body ++ '*' :: '/' :: after) ∧
      ∀ more, afterCommentEnd? (text ++ more) = some (after ++ more) := by
  fun_induction afterCommentEnd? text with
  | case1 rest =>
    cases h
    exact ⟨⟨[], rfl⟩, fun _ => rfl⟩
  | case2 c rest hne ih =>
    obtain ⟨⟨body, hbody⟩, hmore⟩ := ih h
    refine ⟨⟨c :: body, congrArg (c :: ·) hbody⟩, fun more => ?_⟩
    rw [List.cons_append, afterCommentEnd?_cons, hmore]
    rintro ⟨rfl, hnext⟩
    cases rest with
    | nil => cases h
    | cons d rest =>
      obtain rfl : d = '/' := by simpa using hnext
      exact hne rest rfl rfl
  | case3 => cases h

/-- A comment that is closed is skipped, -/
theorem skipBlanks_closed {after : List Char} (h : afterCommentEnd? text = some after) :
    skipBlanks ('/' :: '*' :: text) = skipBlanks after := by
  rw [skipBlanks.eq_2]
  split
  · rename_i hclosed
    rw [h] at hclosed
    rw [Option.some.inj hclosed]
  · rename_i hopen
    rw [h] at hopen
    cases hopen

/-- and an open one stands as it is. -/
theorem skipBlanks_open (h : afterCommentEnd? text = none) :
    skipBlanks ('/' :: '*' :: text) = '/' :: '*' :: text := by
  rw [skipBlanks.eq_2]
  split
  · rename_i hclosed
    rw [h] at hclosed
    cases hclosed
  · rfl

theorem skipBlanks_suffix (text : List Char) : skipBlanks text <:+ text := by
  induction text using skipBlanks.induct with
  | case1 rest ih =>
    rw [skipBlanks.eq_1]
    have hdrop : rest.dropWhile (· != '\n') <:+ '/' :: '/' :: rest :=
      (List.dropWhile_suffix _).trans ⟨['/', '/'], rfl⟩
    exact ih.trans hdrop
  | case2 rest after hclosed ih =>
    rw [skipBlanks_closed hclosed]
    obtain ⟨⟨body, rfl⟩, -⟩ := afterCommentEnd?_done hclosed
    exact ih.trans ⟨'/' :: '*' :: (body ++ ['*', '/']), by simp⟩
  | case3 rest hopen =>
    rw [skipBlanks_open hopen]
  | case4 c rest hline hblock hspace ih =>
    rw [skipBlanks.eq_3 c rest hline hblock, if_pos hspace]
    exact ih.trans (List.suffix_cons c rest)
  | case5 c rest hline hblock hspace =>
    rw [skipBlanks.eq_3 c rest hline hblock, if_neg hspace]
  | case6 =>
    rw [skipBlanks.eq_4]

/-- Unless a comment is open, blanks are passed over alike, and at the end of the text also those
that were added. -/
theorem skipBlanks_append (hs : Seam more text) (hc : Uncommented text) :
    skipBlanks (text ++ more) =
      if skipBlanks text = [] then skipBlanks more else skipBlanks text ++ more := by
  unfold Uncommented at hc
  induction text using skipBlanks.induct with
  | case1 rest ih =>
    have hrest : Seam more rest := (hs.tail (by decide)).tail (by decide)
    obtain ⟨-, hdrop, hseam⟩ := hrest.dropWhile (p := (· != '\n')) (by decide)
    rw [skipBlanks.eq_1] at hc ⊢
    rw [List.cons_append, List.cons_append, skipBlanks.eq_1, hdrop]
    exact ih hseam hc
  | case2 rest after hclosed ih =>
    obtain ⟨⟨body, hbody⟩, hmore⟩ := afterCommentEnd?_done hclosed
    rw [skipBlanks_closed hclosed] at hc ⊢
    rw [List.cons_append, List.cons_append, skipBlanks_closed (hmore more)]
    refine ih ?_ hc
    rw [hbody, ← List.cons_append, ← List.cons_append, List.append_cons] at hs
    exact hs.behind (by decide)
  | case3 rest hopen =>
    rw [skipBlanks_open hopen] at hc
    exact absurd rfl (hc '/' rfl)
  | case4 c rest hline hblock hspace ih =>
    rw [skipBlanks_space hspace] at hc ⊢
    rw [List.cons_append, skipBlanks_space hspace]
    by_cases hne : rest = []
    · subst hne
      simp [skipBlanks.eq_4]
    · exact ih (hs.of_suffix (List.suffix_cons c rest) hne) hc
  | case5 c rest hline hblock hspace =>
    rw [skipBlanks.eq_3 c rest hline hblock, if_neg hspace] at hc ⊢
    have hslash : c ≠ '/' := hc c rfl
    rw [if_neg (List.cons_ne_nil c rest), List.cons_append,
      skipBlanks_of_head (Bool.eq_false_iff.2 hspace) hslash]
  | case6 => simp [skipBlanks.eq_4]

/-- Where a token stands, it stands in the longer text. -/
theorem skipBlanks_append_cons (hs : Seam more text) (h : skipBlanks text = c :: rest)
    (hc : c ≠ '/') : skipBlanks (text ++ more) = c :: (rest ++ more) := by
  have huncommented : Uncommented text := by simpa [Uncommented, h] using hc
  rw [skipBlanks_append hs huncommented, h, if_neg (List.cons_ne_nil c rest)]
  rfl

/-- At the end of a text stands what was added. -/
theorem skipBlanks_append_blank (hs : Seam more text) (h : skipBlanks text = []) :
    skipBlanks (text ++ more) = skipBlanks more := by
  rw [skipBlanks_append hs (by simp [Uncommented, h]), if_pos h]

theorem seam_skipBlanks (hs : Seam more text) (h : skipBlanks text ≠ []) :
    Seam more (skipBlanks text) :=
  hs.of_suffix (skipBlanks_suffix text) h

/-- What a text starts in does not change when more is added. -/
theorem StartsIn.append (h : StartsIn cs text) (hs : Seam more text) (hc : '/' ∉ cs) :
    StartsIn cs (text ++ more) := by
  obtain ⟨c, hmem, rest, hskip⟩ := h
  have hslash : c ≠ '/' := by
    rintro rfl
    exact hc hmem
  exact ⟨c, hmem, rest ++ more, skipBlanks_append_cons hs hskip hslash⟩

end Fronts

/-! ## Reading alike -/

/-- What `p` reads off a text, `q` reads off the text with `more` behind it, under the same bound or
a greater one. It is at least `least` characters long. The text that is left must be as `After`
says; then the text was as `Before` says. -/
def ReadsAlike (more : List Char) (limit least : Nat) (Before After : List Char → Prop)
    (p q : Parser α) : Prop :=
  ∀ ⦃bound bound' : Nat⦄ ⦃text : List Char⦄ ⦃value : α⦄ ⦃rest : List Char⦄, text.length < limit →
    text.length < bound → bound ≤ bound' → p bound text = .done value rest →
    rest.length + least ≤ text.length ∧ (Seam more text → Seam more rest) ∧
      (After rest → Before text ∧
        (Seam more text → q bound' (text ++ more) = .done value (rest ++ more)))

/-- Where `p` misses on a text that is as `Before` says, `q` misses on the text with `more` behind
it. -/
def MissesAlike (more : List Char) (limit : Nat) (Before : List Char → Prop) (p q : Parser α) :
    Prop :=
  ∀ ⦃bound bound' : Nat⦄ ⦃text : List Char⦄ ⦃trace : Trace⦄, text.length < limit →
    text.length < bound → bound ≤ bound' → Before text → Seam more text →
    p bound text = .missed trace → ∃ trace', q bound' (text ++ more) = .missed trace'

/-- The parser misses on every text that starts with one of these characters behind blanks. -/
def MissesOn (cs : List Char) (p : Parser α) : Prop :=
  ∀ bound text, StartsIn cs text → ∃ trace, p bound text = .missed trace

/-- The parser never misses: it reads or breaks off. -/
def Decided (p : Parser α) : Prop := ∀ bound text trace, p bound text ≠ .missed trace

section Combinators

variable {more : List Char} {limit least least' : Nat} {Before Between After : List Char → Prop}
  {Front : List Char → Prop} {p q : Parser α} {f g : α → Parser β} {cs : List Char}

theorem ReadsAlike.mono {limit' : Nat} (h : ReadsAlike more limit least Before After p q)
    (hl : limit' ≤ limit) : ReadsAlike more limit' least Before After p q :=
  fun _ _ _ _ _ ht => h (Nat.lt_of_lt_of_le ht hl)

/-- Less may be known of the text before, and more asked of what is left. -/
theorem ReadsAlike.imp {Before' After' : List Char → Prop}
    (h : ReadsAlike more limit least Before After p q) (hl : least' ≤ least)
    (hb : ∀ text, Before text → Before' text) (ha : ∀ text, After' text → After text) :
    ReadsAlike more limit least' Before' After' p q := by
  intro bound bound' text value rest ht hb' hbound hread
  obtain ⟨hlen, hseam, hmore⟩ := h ht hb' hbound hread
  refine ⟨by omega, hseam, fun hrest => ?_⟩
  obtain ⟨hbefore, hdone⟩ := hmore (ha rest hrest)
  exact ⟨hb text hbefore, hdone⟩

/-- To return a value leaves the text as it is. -/
theorem readsAlike_pure (value : α) :
    ReadsAlike more limit 0 After After (pure value) (pure value) := by
  rintro bound bound' text _ _ _ _ _ ⟨⟩
  exact ⟨Nat.le_refl _, id, fun h => ⟨h, fun _ => rfl⟩⟩

/-- Two parsers have read if the first one has, and then the second one. -/
theorem bind_eq_done {value : β} {bound : Nat} {text rest : List Char}
    (h : (p >>= f) bound text = .done value rest) :
    ∃ first middle, p bound text = .done first middle ∧
      f first bound middle = .done value rest := by
  replace h : Parser.bind p f bound text = .done value rest := h
  unfold Parser.bind at h
  split at h
  · rename_i first middle hfirst
    exact ⟨first, middle, hfirst, h⟩
  · cases h
  · cases h

/-- What is read behind some characters is read off a shorter text. -/
theorem ReadsAlike.bind (hp : ReadsAlike more limit least Before Between p q)
    (hf : ∀ value, ReadsAlike more (limit - least) least' Between After (f value) (g value)) :
    ReadsAlike more limit (least + least') Before After (p >>= f) (q >>= g) := by
  intro bound bound' text value rest ht hb hbound hread
  obtain ⟨first, middle, hfirst, hthen⟩ := bind_eq_done hread
  obtain ⟨hlen, hseam, hmore⟩ := hp ht hb hbound hfirst
  obtain ⟨hlen', hseam', hmore'⟩ := hf first (by omega) (by omega) hbound hthen
  refine ⟨by omega, hseam' ∘ hseam, fun hrest => ?_⟩
  obtain ⟨hbetween, hdone'⟩ := hmore' hrest
  obtain ⟨hbefore, hdone⟩ := hmore hbetween
  exact ⟨hbefore, fun hs => (bind_of_done (hdone hs)).trans (hdone' (hseam hs))⟩

theorem ReadsAlike.head_bind (hp : ReadsAlike more limit 1 Before Between p q)
    (hf : ∀ value, ReadsAlike more (limit - 1) least' Between After (f value) (g value)) :
    ReadsAlike more limit 1 Before After (p >>= f) (q >>= g) :=
  (hp.bind hf).imp (Nat.le_add_right 1 least') (fun _ => id) fun _ => id

/-- Behind a token anything may stand. -/
theorem ReadsAlike.token_bind (hp : ReadsAlike more limit 1 Before (fun _ => True) p q)
    (hf : ∀ value, ReadsAlike more (limit - 1) least' Between After (f value) (g value)) :
    ReadsAlike more limit 1 Before After (p >>= f) (q >>= g) :=
  hp.head_bind fun value => (hf value).imp (Nat.zero_le _) (fun _ _ => trivial) fun _ => id

theorem ReadsAlike.map {h : α → β} (hp : ReadsAlike more limit least Before After p q) :
    ReadsAlike more limit least Before After (p >>= fun value => pure (h value))
      (q >>= fun value => pure (h value)) :=
  hp.bind fun value => readsAlike_pure (h value)

theorem commit_eq_done {value : α} {bound : Nat} {text rest : List Char}
    (h : p.commit bound text = .done value rest) : p bound text = .done value rest := by
  unfold Parser.commit at h
  split at h
  · cases h
  · exact h

theorem ReadsAlike.commit (hp : ReadsAlike more limit least Before After p q) :
    ReadsAlike more limit least Before After p.commit q.commit := by
  intro bound bound' text value rest ht hb hbound hread
  obtain ⟨hlen, hseam, hmore⟩ := hp ht hb hbound (commit_eq_done hread)
  refine ⟨hlen, hseam, fun hrest => ⟨(hmore hrest).1, fun hs => ?_⟩⟩
  rw [Parser.commit, (hmore hrest).2 hs]

theorem ReadsAlike.within {construct : String}
    (hp : ReadsAlike more limit least Before After p q) :
    ReadsAlike more limit least Before After (p.within construct) (q.within construct) := by
  intro bound bound' text value rest ht hb hbound hread
  unfold Parser.within at hread
  split at hread
  · rename_i hfirst
    cases hread
    obtain ⟨hlen, hseam, hmore⟩ := hp ht hb hbound hfirst
    refine ⟨hlen, hseam, fun hrest => ⟨(hmore hrest).1, fun hs => ?_⟩⟩
    rw [Parser.within, (hmore hrest).2 hs]
  · cases hread
  · cases hread

/-- A part that is not there must not be there in the longer text either. -/
theorem ReadsAlike.optional (hp : ReadsAlike more limit least Before After p q)
    (hm : MissesAlike more limit After p q) (hab : ∀ text, After text → Before text) :
    ReadsAlike more limit 0 Before After p.optional q.optional := by
  intro bound bound' text found rest ht hb hbound hread
  unfold Parser.optional at hread
  split at hread
  · rename_i hfirst
    cases hread
    obtain ⟨hlen, hseam, hmore⟩ := hp ht hb hbound hfirst
    refine ⟨by omega, hseam, fun hrest => ⟨(hmore hrest).1, fun hs => ?_⟩⟩
    rw [Parser.optional, (hmore hrest).2 hs]
  · rename_i hmiss
    cases hread
    refine ⟨Nat.le_refl _, id, fun hrest => ⟨hab text hrest, fun hs => ?_⟩⟩
    obtain ⟨trace, hmiss'⟩ := hm ht hb hbound hrest hs hmiss
    rw [Parser.optional, hmiss']
  · cases hread

theorem readsAlike_firstOf_last (hp : ReadsAlike more limit least Before After p q) :
    ReadsAlike more limit least Before After (Parser.firstOf p []) (Parser.firstOf q []) := by
  intro bound bound' text value rest ht hb hbound hread
  simp only [Parser.firstOf] at hread
  split at hread
  · cases hread
  · obtain ⟨hlen, hseam, hmore⟩ := hp ht hb hbound hread
    refine ⟨hlen, hseam, fun hrest => ⟨(hmore hrest).1, fun hs => ?_⟩⟩
    simp only [Parser.firstOf, (hmore hrest).2 hs]

/-- An alternative must be missed wherever a later one may be read. -/
theorem ReadsAlike.firstOf {Front : List Char → Prop} {last last' : Parser α}
    {others others' : List (Parser α)} (hp : ReadsAlike more limit least Before After p q)
    (hm : MissesAlike more limit Front p q)
    (ho : ReadsAlike more limit least Front After (Parser.firstOf last others)
      (Parser.firstOf last' others')) (hfb : ∀ text, Front text → Before text) :
    ReadsAlike more limit least Before After (Parser.firstOf last (p :: others))
      (Parser.firstOf last' (q :: others')) := by
  intro bound bound' text value rest ht hb hbound hread
  simp only [Parser.firstOf] at hread
  split at hread
  · rename_i hmiss
    obtain ⟨hlen, hseam, hmore⟩ := ho ht hb hbound hread
    refine ⟨hlen, hseam, fun hrest => ⟨hfb text (hmore hrest).1, fun hs => ?_⟩⟩
    obtain ⟨hfront, hdone⟩ := hmore hrest
    obtain ⟨trace, hmiss'⟩ := hm ht hb hbound hfront hs hmiss
    rw [firstOf_of_missed hmiss', hdone hs]
  · obtain ⟨hlen, hseam, hmore⟩ := hp ht hb hbound hread
    refine ⟨hlen, hseam, fun hrest => ⟨(hmore hrest).1, fun hs => ?_⟩⟩
    simp only [Parser.firstOf, (hmore hrest).2 hs]

/-- If a parser misses alike, then its absence is read alike. -/
theorem ReadsAlike.absent (hm : MissesAlike more limit Before p q) :
    ReadsAlike more limit 0 Before Before p.absent q.absent := by
  intro bound bound' text _ rest ht hb hbound hread
  unfold Parser.absent at hread
  split at hread
  · cases hread
  · rename_i hmiss
    cases hread
    refine ⟨Nat.le_refl _, id, fun hrest => ⟨hrest, fun hs => ?_⟩⟩
    obtain ⟨trace, hmiss'⟩ := hm ht hb hbound hrest hs hmiss
    rw [Parser.absent, hmiss']
  · cases hread

/-! ### Repetition -/

/-- Behind the parts that a repetition reads, it goes on with the text that they leave. -/
theorem ReadsAlike.upTo_append (hp : ReadsAlike more limit 1 Between Between p q)
    {count bound bound' : Nat} {text rest : List Char} {values : List α}
    (ht : text.length < limit) (hb : text.length < bound) (hbound : bound ≤ bound')
    (hread : Parser.upTo count p bound text = .done values rest) :
    rest.length + values.length ≤ text.length ∧ (Seam more text → Seam more rest) ∧
      (Between rest → Between text ∧ (Seam more text → ∀ count' values' rest',
        Parser.upTo count' q bound' (rest ++ more) = .done values' rest' →
          Parser.upTo (values.length + count') q bound' (text ++ more) =
            .done (values ++ values') rest')) := by
  induction count generalizing text values with
  | zero =>
    cases hread
    exact ⟨Nat.le_refl _, id, fun hrest => ⟨hrest, fun _ count' _ _ h => by simpa using h⟩⟩
  | succ count ih =>
    unfold Parser.upTo at hread
    split at hread
    · cases hread
      exact ⟨Nat.le_refl _, id, fun hrest => ⟨hrest, fun _ count' _ _ h => by simpa using h⟩⟩
    · cases hread
    · rename_i value middle hfirst
      split at hread
      · rename_i hothers
        cases hread
        obtain ⟨hlen, hseam, hmore⟩ := hp ht hb hbound hfirst
        obtain ⟨hlen', hseam', hmore'⟩ := ih (by omega) (by omega) hothers
        refine ⟨by rw [List.length_cons]; omega, hseam' ∘ hseam, fun hrest => ?_⟩
        obtain ⟨hbetween, happend⟩ := hmore' hrest
        obtain ⟨hbefore, hdone⟩ := hmore hbetween
        refine ⟨hbefore, fun hs count' values' rest' hlast => ?_⟩
        rw [List.length_cons, Nat.add_right_comm, Parser.upTo, hdone hs]
        simp only [happend (hseam hs) count' values' rest' hlast, List.cons_append]
      · cases hread
      · cases hread

/-- A repetition that ends before its count is reached ends where another part is missed. -/
theorem upTo_ends (hp : ReadsAlike more limit 1 Between After p q) {count bound : Nat}
    {text rest : List Char} {values : List α} (ht : text.length < limit) (hb : text.length < bound)
    (hc : text.length < count) (hread : Parser.upTo count p bound text = .done values rest) :
    ∃ trace, p bound rest = .missed trace := by
  induction count generalizing text values with
  | zero => omega
  | succ count ih =>
    unfold Parser.upTo at hread
    split at hread
    · rename_i hmiss
      cases hread
      exact ⟨_, hmiss⟩
    · cases hread
    · rename_i value middle hfirst
      split at hread
      · rename_i hothers
        cases hread
        obtain ⟨hlen, -, -⟩ := hp ht hb (Nat.le_refl _) hfirst
        exact ih (by omega) (by omega) (by omega) hothers
      · cases hread
      · cases hread

/-- A repetition is read alike: each round leaves a text that the next one may count on, and the
last one misses alike. The longer text may allow more rounds, of which none is needed. -/
theorem ReadsAlike.upTo (hp : ReadsAlike more limit 1 Between Between p q)
    (hab : ∀ text, After text → Between text) (hm : MissesAlike more limit After p q)
    {count count' bound bound' : Nat} {text rest : List Char} {values : List α}
    (ht : text.length < limit) (hb : text.length < bound) (hbound : bound ≤ bound')
    (hc : text.length < count) (hcount : count ≤ count')
    (hread : Parser.upTo count p bound text = .done values rest) :
    rest.length ≤ text.length ∧ (Seam more text → Seam more rest) ∧
      (After rest → Between text ∧ (Seam more text →
        Parser.upTo count' q bound' (text ++ more) = .done values (rest ++ more))) := by
  obtain ⟨hlen, hseam, hmore⟩ := hp.upTo_append ht hb hbound hread
  obtain ⟨trace, hmiss⟩ := upTo_ends hp ht hb hc hread
  refine ⟨by omega, hseam, fun hrest => ⟨(hmore (hab rest hrest)).1, fun hs => ?_⟩⟩
  obtain ⟨trace', hmiss'⟩ := hm (by omega) (by omega) hbound hrest (hseam hs) hmiss
  obtain ⟨left, rfl⟩ := Nat.exists_eq_add_of_lt (show values.length < count' by omega)
  have hlast : Parser.upTo (left + 1) q bound' (rest ++ more) = .done [] (rest ++ more) := by
    rw [Parser.upTo, hmiss']
  have hall := (hmore (hab rest hrest)).2 hs (left + 1) [] _ hlast
  rwa [List.append_nil, ← Nat.add_assoc] at hall

theorem ReadsAlike.many (hp : ReadsAlike more limit 1 Between Between p q)
    (hab : ∀ text, After text → Between text) (hm : MissesAlike more limit After p q) :
    ReadsAlike more limit 0 Between After (Parser.many p) (Parser.many q) :=
  fun _ _ _ _ _ ht hb hbound hread => hp.upTo hab hm ht hb hbound hb hbound hread

/-- Parts with separators between them, up to a text where no separator has a part behind it. -/
theorem ReadsAlike.sepBy1 {separator separator' : Parser β}
    (hp : ReadsAlike more limit least Before Between p q)
    (hs : ReadsAlike more limit 1 Between Between (separator >>= fun _ => p)
      (separator' >>= fun _ => q))
    (hab : ∀ text, After text → Between text)
    (hm : MissesAlike more limit After (separator >>= fun _ => p) (separator' >>= fun _ => q)) :
    ReadsAlike more limit least Before After (Parser.sepBy1 p separator)
      (Parser.sepBy1 q separator') :=
  hp.bind fun _ => (((hs.many hab hm).mono (Nat.sub_le ..)).map)

/-! ### Misses -/

/-- A parser that misses on some characters misses in both texts if these start with one of them. -/
theorem MissesOn.alike (h : MissesOn cs q) (hc : '/' ∉ cs) :
    MissesAlike more limit (StartsIn cs) p q :=
  fun _ bound' text _ _ _ _ hbefore hs _ => h bound' (text ++ more) (hbefore.append hs hc)

theorem MissesOn.bind (h : MissesOn cs p) : MissesOn cs (p >>= f) := by
  intro bound text ht
  obtain ⟨trace, hmiss⟩ := h bound text ht
  exact ⟨trace, bind_of_missed hmiss⟩

/-- A part that may be missing is passed over. -/
theorem MissesOn.optional_bind {f : Option α → Parser β} (h : MissesOn cs p)
    (hf : MissesOn cs (f none)) : MissesOn cs (p.optional >>= f) := by
  intro bound text ht
  obtain ⟨trace, hmiss⟩ := h bound text ht
  obtain ⟨trace', hmiss'⟩ := hf bound text ht
  have hdone : p.optional bound text = .done none text := by rw [Parser.optional, hmiss]
  exact ⟨trace', (bind_of_done hdone).trans hmiss'⟩

theorem MissesOn.within {construct : String} (h : MissesOn cs p) :
    MissesOn cs (p.within construct) := by
  intro bound text ht
  obtain ⟨trace, hmiss⟩ := h bound text ht
  exact ⟨_, by rw [Parser.within, hmiss]⟩

/-- Several parsers miss on some characters if each of them does. -/
theorem missesOn_firstOf {last : Parser α} {others : List (Parser α)} (hlast : MissesOn cs last)
    (hothers : ∀ p ∈ others, MissesOn cs p) : MissesOn cs (Parser.firstOf last others) := by
  intro bound text ht
  induction others with
  | nil =>
    obtain ⟨trace, hmiss⟩ := hlast bound text ht
    exact ⟨trace ++ [⟨text, .alternatives⟩], by simp only [Parser.firstOf, hmiss]⟩
  | cons p others ih =>
    obtain ⟨trace, hmiss⟩ := hothers p (List.mem_cons_self ..) bound text ht
    rw [firstOf_of_missed hmiss]
    exact ih fun q hq => hothers q (List.mem_cons_of_mem _ hq)

theorem decided_pure (value : α) : Decided (pure value : Parser α) := by
  rintro _ _ _ ⟨⟩

theorem decided_commit (p : Parser α) : Decided p.commit := by
  intro bound text trace h
  unfold Parser.commit at h
  split at h
  · cases h
  · rename_i hne
    exact hne trace h

theorem decided_optional (p : Parser α) : Decided p.optional := by
  intro bound text trace h
  unfold Parser.optional at h
  split at h <;> cases h

theorem decided_many (p : Parser α) : Decided (Parser.many p) := by
  intro bound
  have hupTo : ∀ count text trace, Parser.upTo count p bound text ≠ .missed trace := by
    intro count
    induction count with
    | zero =>
      intro text trace h
      cases h
    | succ count ih =>
      intro text trace h
      unfold Parser.upTo at h
      split at h
      · cases h
      · cases h
      · split at h
        · cases h
        · rename_i hothers
          exact ih _ _ hothers
        · cases h
  exact hupTo bound

/-- If both parsers are decided, then so is their sequence. -/
theorem Decided.bind (hp : Decided p) (hf : ∀ value, Decided (f value)) : Decided (p >>= f) := by
  intro bound text trace h
  replace h : Parser.bind p f bound text = .missed trace := h
  unfold Parser.bind at h
  split at h
  · exact hf _ _ _ _ h
  · rename_i hmiss
    exact hp _ _ _ hmiss
  · cases h

/-- A construct that is decided behind its first token misses on the token only. -/
theorem MissesAlike.bind (h : MissesAlike more limit Before p q) (hf : ∀ value, Decided (f value)) :
    MissesAlike more limit Before (p >>= f) (q >>= g) := by
  intro bound bound' text trace ht hb hbound hbefore hs hmiss
  replace hmiss : Parser.bind p f bound text = .missed trace := hmiss
  unfold Parser.bind at hmiss
  split at hmiss
  · exact absurd hmiss (hf _ _ _ _)
  · rename_i hfirst
    obtain ⟨trace', hmiss'⟩ := h ht hb hbound hbefore hs hfirst
    exact ⟨trace', bind_of_missed hmiss'⟩
  · cases hmiss

theorem missesAlike_firstOf_last (hp : MissesAlike more limit Before p q) :
    MissesAlike more limit Before (Parser.firstOf p []) (Parser.firstOf q []) := by
  intro bound bound' text trace ht hbound hle hbefore hs hmiss
  simp only [Parser.firstOf] at hmiss
  split at hmiss
  · rename_i hfirst
    obtain ⟨trace', hmiss'⟩ := hp ht hbound hle hbefore hs hfirst
    exact ⟨trace' ++ [⟨text ++ more, .alternatives⟩], by simp only [Parser.firstOf, hmiss']⟩
  · rename_i hne
    exact absurd hmiss (hne trace)

/-- If each of several parsers misses alike, so do all together. -/
theorem MissesAlike.firstOf {last last' : Parser α} {others others' : List (Parser α)}
    (hp : MissesAlike more limit Before p q)
    (ho : MissesAlike more limit Before (Parser.firstOf last others)
      (Parser.firstOf last' others')) :
    MissesAlike more limit Before (Parser.firstOf last (p :: others))
      (Parser.firstOf last' (q :: others')) := by
  intro bound bound' text trace ht hbound hle hbefore hs hmiss
  simp only [Parser.firstOf] at hmiss
  split at hmiss
  · rename_i hfirst
    obtain ⟨trace', hmiss'⟩ := hp ht hbound hle hbefore hs hfirst
    rw [firstOf_of_missed hmiss']
    exact ho ht hbound hle hbefore hs hmiss
  · rename_i hne
    exact absurd hmiss (hne trace)

/-- If a parser reads alike, then its absence is missed alike. -/
theorem MissesAlike.absent (hp : ReadsAlike more limit least Front (fun _ => True) p q) :
    MissesAlike more limit (fun _ => True) p.absent q.absent := by
  intro bound bound' text trace ht hbound hle _ hs hmiss
  unfold Parser.absent at hmiss
  split at hmiss
  · rename_i hdone
    obtain ⟨-, -, hmore⟩ := hp ht hbound hle hdone
    exact ⟨[⟨text ++ more, .absence⟩], by rw [Parser.absent, (hmore trivial).2 hs]⟩
  · cases hmiss
  · cases hmiss

/-- A construct that may also miss behind its first part. -/
theorem MissesAlike.behind (hp : ReadsAlike more limit least Front Between p q)
    (h : MissesAlike more limit Before p q)
    (hf : ∀ value, MissesAlike more limit Between (f value) (g value))
    (hb : ∀ ⦃bound text value rest⦄, Before text → p bound text = .done value rest → Between rest) :
    MissesAlike more limit Before (p >>= f) (q >>= g) := by
  intro bound bound' text trace ht hbound hle hbefore hs hmiss
  replace hmiss : Parser.bind p f bound text = .missed trace := hmiss
  unfold Parser.bind at hmiss
  split at hmiss
  · rename_i value rest hfirst
    obtain ⟨hlen, hseam, hmore⟩ := hp ht hbound hle hfirst
    have hbetween := hb hbefore hfirst
    obtain ⟨trace', hmiss'⟩ := hf value (by omega) (by omega) hle hbetween (hseam hs) hmiss
    exact ⟨trace', (bind_of_done ((hmore hbetween).2 hs)).trans hmiss'⟩
  · rename_i hfirst
    obtain ⟨trace', hmiss'⟩ := h ht hbound hle hbefore hs hfirst
    exact ⟨trace', bind_of_missed hmiss'⟩
  · cases hmiss

theorem MissesAlike.imp {Before' : List Char → Prop} (h : MissesAlike more limit Before p q)
    (hb : ∀ text, Before' text → Before text) : MissesAlike more limit Before' p q :=
  fun _ _ text _ ht hb' hbound hbefore => h ht hb' hbound (hb text hbefore)

end Combinators

end LintTypes.Source
