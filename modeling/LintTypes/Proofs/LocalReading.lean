import LintTypes.Document.Record

/-!
# Local reading

What is read at a place depends on the characters that are taken up there, and on the one behind
them, which may be what ends a number or the blanks. `Carries` says so of two readings, so that the
two may differ in what they are bounded by, and every way to combine readings keeps it.

Repetitions need more: a step that yields something takes up at least one character. A place knows a
bound on the length of its text, so the number of steps that it allows is never used up.
-/

namespace LintTypes

/-! ## Places -/

namespace Cursor

variable {c d : Cursor}

/-- The bound of the place is one on the text from there on. -/
def Bounded (c : Cursor) : Prop := c.rest.length < c.bound

theorem rest_advance (c : Cursor) : c.advance.rest = c.rest.tail := by
  unfold advance
  split
  · rename_i h
    rw [h]
    rfl
  · rename_i h
    rw [h]
    rfl

theorem bound_advance (c : Cursor) : c.advance.bound = c.bound := by
  unfold advance
  split <;> rfl

theorem rest_advanceBy (n : Nat) (c : Cursor) : (c.advanceBy n).rest = c.rest.drop n := by
  induction n generalizing c with
  | zero => rfl
  | succ n ih => rw [advanceBy, ih, rest_advance, List.drop_tail]

theorem bound_advanceBy (n : Nat) (c : Cursor) : (c.advanceBy n).bound = c.bound := by
  induction n generalizing c with
  | zero => rfl
  | succ n ih => rw [advanceBy, ih, bound_advance]

theorem advanceBy_add (m n : Nat) (c : Cursor) :
    c.advanceBy (m + n) = (c.advanceBy m).advanceBy n := by
  induction m generalizing c with
  | zero => rw [Nat.zero_add]; rfl
  | succ m ih => rw [Nat.succ_add, advanceBy, ih, advanceBy]

theorem Bounded.advanceBy (h : c.Bounded) (n : Nat) : (c.advanceBy n).Bounded := by
  unfold Bounded at h ⊢
  rw [rest_advanceBy, bound_advanceBy, List.length_drop]
  omega

/-- Texts that are the same up to a character behind a place are so up to it and from it on. -/
theorem take_advanceBy {m n : Nat} (h : d.rest.take (m + n + 1) = c.rest.take (m + n + 1)) :
    d.rest.take (m + 1) = c.rest.take (m + 1) ∧
      (d.advanceBy m).rest.take (n + 1) = (c.advanceBy m).rest.take (n + 1) := by
  constructor
  · have := congrArg (List.take (m + 1)) h
    rwa [List.take_take, List.take_take, Nat.min_eq_left (by omega)] at this
  · have := congrArg (List.drop m) h
    rw [List.drop_take, List.drop_take, Nat.add_assoc, Nat.add_sub_cancel_left] at this
    rwa [rest_advanceBy, rest_advanceBy]

theorem rest_start (text : String) : (start text).rest = text.toList := rfl

theorem bounded_start (text : String) : (start text).Bounded := by
  simp [Bounded, start, String.length]

/-- White space between the parts of a document. -/
def isBlank (x : Char) : Bool := x = ' ' || x = '\t' || x = '\r' || x = '\n'

/-- Blanks are passed over one by one. -/
theorem skipSpace_eq (c : Cursor) :
    c.skipSpace = c.advanceBy (c.rest.takeWhile isBlank).length := by
  obtain ⟨rest, position, bound⟩ := c
  induction rest generalizing position with
  | nil => rfl
  | cons x rest ih =>
    by_cases hx : isBlank x = true
    · have hblank : x = ' ' ∨ x = '\t' ∨ x = '\r' ∨ x = '\n' := by
        simpa [isBlank, or_assoc] using hx
      rw [List.takeWhile_cons_of_pos hx, List.length_cons, advanceBy]
      refine Eq.trans ?_ (ih (position.next x))
      simp only [skipSpace, skipSpace.go, if_pos hblank]
    · have hblank : ¬ (x = ' ' ∨ x = '\t' ∨ x = '\r' ∨ x = '\n') := by
        simpa [isBlank, or_assoc] using hx
      rw [List.takeWhile_cons_of_neg hx]
      simp only [skipSpace, skipSpace.go, if_neg hblank]
      rfl

end Cursor

/-- A text that begins as one with a first character does has this character, too. -/
theorem exists_cons_of_take {x : Char} {text rest : List Char} {n : Nat}
    (h : text.take (n + 1) = (x :: rest).take (n + 1)) :
    ∃ others, text = x :: others ∧ others.take n = rest.take n := by
  cases text with
  | nil => simp at h
  | cons y others =>
    obtain ⟨rfl, hothers⟩ := List.cons.inj h
    exact ⟨others, rfl, hothers⟩

/-- What stands at the front of a text up to some character is known from the text up to there. -/
theorem takeWhile_eq_of_take {f : Char → Bool} {text other : List Char} {n : Nat}
    (hn : (text.takeWhile f).length < n) (h : other.take n = text.take n) :
    other.takeWhile f = text.takeWhile f := by
  induction text generalizing other n with
  | nil =>
    cases other with
    | nil => rfl
    | cons y other =>
      obtain ⟨n, rfl⟩ := Nat.exists_eq_succ_of_ne_zero (Nat.ne_of_gt (Nat.zero_lt_of_lt hn))
      simp at h
  | cons x text ih =>
    obtain ⟨n, rfl⟩ := Nat.exists_eq_succ_of_ne_zero (Nat.ne_of_gt (Nat.zero_lt_of_lt hn))
    obtain ⟨other, rfl, hrest⟩ := exists_cons_of_take h
    by_cases hx : f x = true
    · rw [List.takeWhile_cons_of_pos hx, List.length_cons] at hn
      rw [List.takeWhile_cons_of_pos hx, List.takeWhile_cons_of_pos hx,
        ih (Nat.lt_of_succ_lt_succ hn) hrest]
    · rw [List.takeWhile_cons_of_neg hx, List.takeWhile_cons_of_neg hx]

namespace Json

open Cursor

variable {α β : Type} {takes takes' : α → Prop} {limit limit' : Nat} {p q p' q' : Reading α}

/-- Holds of every value. -/
def Always (_ : α) : Prop := True

/-- Holds of no value. -/
def Never (_ : α) : Prop := False

/-- What `p` reads at a place by taking up at most `limit` characters, `q` reads at every place
where the same characters stand, and the same one behind them. For the values of which `takes`
holds, at least one character is taken up. -/
def Carries (takes : α → Prop) (limit : Nat) (p q : Reading α) : Prop :=
  ∀ ⦃c a c'⦄, c.Bounded → p c = .ok (a, c') → ∃ n ≤ c.rest.length, (takes a → 0 < n) ∧
    c' = c.advanceBy n ∧ (n ≤ limit → ∀ d : Cursor, d.Bounded →
      d.rest.take (n + 1) = c.rest.take (n + 1) → q d = .ok (a, d.advanceBy n))

/-! ## Combinations -/

/-- Less may be asked of what is carried over. -/
theorem Carries.mono (h : Carries takes limit p q) (ht : ∀ a, takes' a → takes a)
    (hl : limit' ≤ limit) : Carries takes' limit' p q := by
  intro c a c' hc hp
  obtain ⟨n, hn, htakes, hrest, hother⟩ := h hc hp
  exact ⟨n, hn, fun ha => htakes (ht a ha), hrest, fun hlimit => hother (Nat.le_trans hlimit hl)⟩

theorem Carries.any (h : Carries takes limit p q) : Carries Never limit p q :=
  h.mono (fun _ => False.elim) (Nat.le_refl _)

/-- What never reads anything is carried over without a condition. -/
theorem carries_error (h : ∀ c r, p c ≠ .ok r) : Carries takes limit p q :=
  fun c _ _ _ hp => absurd hp (h c _)

theorem carries_fault (problem : Problem) :
    Carries takes limit (fun c => c.fault problem) fun c => c.fault problem := by
  intro c a c' hc hp
  cases hp

theorem carries_faultHere (problem : Problem) :
    Carries takes limit (fun c => c.faultHere problem) fun c => c.faultHere problem := by
  intro c a c' hc hp
  cases hp

theorem carries_ok {a : α} (h : ¬ takes a) :
    Carries takes limit (fun c => .ok (a, c)) fun c => .ok (a, c) := by
  rintro c _ _ - ⟨⟩
  exact ⟨0, Nat.zero_le _, fun ha => absurd ha h, rfl, fun _ _ _ _ => rfl⟩

theorem carries_pure {a : α} :
    Carries Never limit (fun c => .ok (a, c)) fun c => .ok (a, c) :=
  carries_ok id

/-- What stands at a place up to some character. -/
theorem carries_takeWhile (f : Char → Bool) :
    Carries (· ≠ []) limit
      (fun c => .ok (c.rest.takeWhile f, c.advanceBy (c.rest.takeWhile f).length))
      fun c => .ok (c.rest.takeWhile f, c.advanceBy (c.rest.takeWhile f).length) := by
  rintro c _ _ - ⟨⟩
  refine ⟨_, (List.takeWhile_sublist f).length_le, List.length_pos_iff.2, rfl,
    fun _ d _ hsame => ?_⟩
  simp only [takeWhile_eq_of_take (Nat.lt_succ_self _) hsame]

/-- Only what is read matters, not the fault. -/
theorem Carries.congr (h : Carries takes limit p' q') (hp : ∀ c r, p c = .ok r → p' c = .ok r)
    (hq : ∀ c r, q' c = .ok r → q c = .ok r) : Carries takes limit p q := by
  intro c a c' hc hread
  obtain ⟨n, hn, htakes, heq, hother⟩ := h hc (hp c _ hread)
  exact ⟨n, hn, htakes, heq, fun hlimit d hd hsame => hq d _ (hother hlimit d hd hsame)⟩

/-- The character at the place decides how it goes on. -/
theorem Carries.of_head
    (hnil : ∃ p' q', Carries takes limit p' q' ∧
      ∀ c : Cursor, c.rest = [] → p c = p' c ∧ q c = q' c)
    (hcons : ∀ x, ∃ p' q', Carries takes limit p' q' ∧
      ∀ (c : Cursor) rest, c.rest = x :: rest → p c = p' c ∧ q c = q' c) :
    Carries takes limit p q := by
  intro c a c' hc hread
  cases hfront : c.rest with
  | nil =>
    obtain ⟨p', q', h, hpq⟩ := hnil
    obtain ⟨n, hn, htakes, heq, hother⟩ := h hc ((hpq c hfront).1 ▸ hread)
    rw [hfront] at hn hother
    refine ⟨n, hn, htakes, heq, fun hlimit d hd hsame => ?_⟩
    have hempty : d.rest = [] := by simpa using hsame
    rw [(hpq d hempty).2]
    exact hother hlimit d hd hsame
  | cons x rest =>
    obtain ⟨p', q', h, hpq⟩ := hcons x
    obtain ⟨n, hn, htakes, heq, hother⟩ := h hc ((hpq c rest hfront).1 ▸ hread)
    rw [hfront] at hn hother
    refine ⟨n, hn, htakes, heq, fun hlimit d hd hsame => ?_⟩
    obtain ⟨others, hothers, -⟩ := exists_cons_of_take hsame
    rw [(hpq d others hothers).2]
    exact hother hlimit d hd hsame

/-- The character at the place decides how one reading goes on. -/
theorem Carries.of_head_self
    (hnil : ∃ p', Carries takes limit p' p' ∧ ∀ c : Cursor, c.rest = [] → p c = p' c)
    (hcons : ∀ x, ∃ p', Carries takes limit p' p' ∧
      ∀ (c : Cursor) rest, c.rest = x :: rest → p c = p' c) :
    Carries takes limit p p := by
  refine .of_head ?_ fun x => ?_
  · obtain ⟨p', h, hp⟩ := hnil
    exact ⟨p', p', h, fun c hc => ⟨hp c hc, hp c hc⟩⟩
  · obtain ⟨p', h, hp⟩ := hcons x
    exact ⟨p', p', h, fun c rest hc => ⟨hp c rest hc, hp c rest hc⟩⟩

/-- The next character decides. -/
theorem Carries.ite_head (f : Char → Bool) (h : Carries takes limit p p)
    (h' : Carries takes limit p' p') :
    Carries takes limit (fun c => if c.rest.head?.any f then p c else p' c)
      fun c => if c.rest.head?.any f then p c else p' c := by
  refine .of_head_self ⟨p', h', fun c hc => by simp [hc]⟩ fun x => ?_
  by_cases hx : f x = true
  · exact ⟨p, h, fun c rest hc => by simp [hc, hx]⟩
  · exact ⟨p', h', fun c rest hc => by simp [hc, hx]⟩

theorem Carries.ite {P : Prop} [Decidable P] (h : Carries takes limit p q)
    (h' : Carries takes limit p' q') :
    Carries takes limit (fun c => if P then p c else p' c) fun c => if P then q c else q' c := by
  by_cases hP : P
  · simpa only [if_pos hP] using h
  · simpa only [if_neg hP] using h'

/-- One after the other; what the first one takes up counts. -/
theorem Carries.bindWith {r s : Reading β} {taken : β → Prop}
    {k l : β × Cursor → Except Fault (α × Cursor)} (h : Carries taken limit r s)
    (hk : ∀ b, Carries (fun a => takes a ∧ ¬ taken b) limit (fun c => k (b, c)) fun c => l (b, c)) :
    Carries takes limit (fun c => r c >>= k) fun c => s c >>= l := by
  intro c a c'' hc (hread : r c >>= k = .ok (a, c''))
  cases hfirst : r c with
  | error fault =>
    rw [hfirst] at hread
    cases hread
  | ok outcome =>
    obtain ⟨b, c'⟩ := outcome
    rw [hfirst] at hread
    obtain ⟨m, hm, htaken, rfl, hother⟩ := h hc hfirst
    obtain ⟨n, hn, htakes, rfl, hnext⟩ := hk b (hc.advanceBy m) hread
    rw [rest_advanceBy, List.length_drop] at hn
    refine ⟨m + n, by omega, fun ha => ?_, (advanceBy_add m n c).symm, fun hlimit d hd hsame => ?_⟩
    · by_cases hb : taken b
      · exact Nat.add_pos_left (htaken hb) n
      · exact Nat.add_pos_right m (htakes ⟨ha, hb⟩)
    · obtain ⟨hfront, hback⟩ := take_advanceBy hsame
      calc s d >>= l = l (b, d.advanceBy m) := by rw [hother (by omega) d hd hfront]; rfl
        _ = .ok (a, d.advanceBy (m + n)) := by
          rw [advanceBy_add]
          exact hnext (by omega) _ (hd.advanceBy m) hback

/-- One after the other. -/
theorem Carries.bind {r s : Reading β} {k l : β × Cursor → Except Fault (α × Cursor)}
    {taken : β → Prop} (h : Carries taken limit r s)
    (hk : ∀ b, Carries takes limit (fun c => k (b, c)) fun c => l (b, c)) :
    Carries takes limit (fun c => r c >>= k) fun c => s c >>= l :=
  h.bindWith fun b => (hk b).mono (fun _ ha => ha.1) (Nat.le_refl _)

/-- One after the other, if the first one takes up something. -/
theorem Carries.bindTaken {r s : Reading β} {k l : β × Cursor → Except Fault (α × Cursor)}
    (h : Carries Always limit r s)
    (hk : ∀ b, Carries Never limit (fun c => k (b, c)) fun c => l (b, c)) :
    Carries takes limit (fun c => r c >>= k) fun c => s c >>= l :=
  h.bindWith fun b => (hk b).mono (fun _ ha => absurd trivial ha.2) (Nat.le_refl _)

/-- What is made of a value. -/
theorem Carries.map {r s : Reading β} {taken : β → Prop} (h : Carries taken limit r s) (f : β → α) :
    Carries Never limit (fun c => r c >>= fun r => .ok (f r.1, r.2))
      fun c => s c >>= fun r => .ok (f r.1, r.2) :=
  h.bind fun b => carries_pure (a := f b)

/-- What is made of a value that takes up something. -/
theorem Carries.mapTaken {r s : Reading β} (h : Carries Always limit r s) (f : β → α) :
    Carries takes limit (fun c => r c >>= fun r => .ok (f r.1, r.2))
      fun c => s c >>= fun r => .ok (f r.1, r.2) :=
  h.bindTaken fun b => carries_pure (a := f b)

theorem inside_eq_ok {step : PathStep} {c : Cursor} {r : α × Cursor} :
    inside step p c = .ok r ↔ p c = .ok r := by
  unfold inside
  cases p c with
  | error fault => constructor <;> intro h <;> cases h
  | ok outcome => rfl

/-- The path that a fault is given does not matter. -/
theorem Carries.inside {step : PathStep} (h : Carries takes limit p q) :
    Carries takes limit (inside step p) (inside step q) :=
  h.congr (fun _ _ => inside_eq_ok.1) fun _ _ => inside_eq_ok.2

/-- Reads with `p` behind the next character. -/
def behindNext (p : Reading α) : Reading α := fun c =>
  match c.rest with
  | [] => c.fault .endInValue
  | _ :: _ => p c.advance

theorem behindNext_eq {c : Cursor} {x : Char} {rest : List Char} (h : c.rest = x :: rest)
    (p : Reading α) : behindNext p c = p c.advance := by
  rw [behindNext, h]

/-- Behind the next character, one more is taken up. -/
theorem Carries.behindNext_succ (h : Carries Never limit p q) :
    Carries takes (limit + 1) (behindNext p) (behindNext q) := by
  intro c a c' hc hread
  unfold behindNext at hread
  cases hrest : c.rest with
  | nil =>
    rw [hrest] at hread
    cases hread
  | cons x rest =>
    rw [hrest] at hread
    obtain ⟨n, hn, -, rfl, hother⟩ := h (hc.advanceBy 1) hread
    rw [rest_advanceBy, hrest] at hn hother
    refine ⟨n + 1, Nat.succ_le_succ hn, fun _ => Nat.succ_pos n, rfl, fun hlimit d hd hsame => ?_⟩
    obtain ⟨others, hfront, hothers⟩ := exists_cons_of_take hsame
    rw [behindNext_eq hfront]
    refine hother (Nat.le_of_succ_le_succ hlimit) _ (hd.advanceBy 1) ?_
    rwa [rest_advance, hfront]

theorem Carries.behindNext (h : Carries Never limit p q) :
    Carries takes limit (behindNext p) (behindNext q) :=
  h.behindNext_succ.mono (fun _ ha => ha) (Nat.le_succ limit)

theorem Carries.behindSpace (h : Carries takes limit p q) :
    Carries takes limit (fun c => p c.skipSpace) fun c => q c.skipSpace := by
  have hspace : ∀ c : Cursor, c.skipSpace = c.advanceBy (c.rest.takeWhile isBlank).length :=
    skipSpace_eq
  simp only [hspace]
  exact (carries_takeWhile isBlank).bind (k := fun r => p r.2) (l := fun r => q r.2) fun _ => h

/-- Moving on by one character, if there is one. -/
theorem carries_advance {a : α} :
    Carries Never limit (fun c => .ok (a, c.advance)) fun c => .ok (a, c.advance) := by
  refine .of_head_self ⟨fun c => .ok (a, c), carries_ok id, fun c hc => ?_⟩ fun x =>
    ⟨_, .behindNext (carries_pure (a := a)), fun c rest hc => by rw [behindNext_eq hc]⟩
  rw [advance, hc]

/-! ## Repetitions -/

open Document (repeatUpTo repeatOn)

/-- A repetition takes up what its steps take up. Each step that yields something takes up at least
one character, so neither of the two numbers of steps is used up. -/
theorem Carries.repeatUpTo {σ : Type} {step step' : Nat → σ → Reading (Option σ)}
    (h : ∀ index state, Carries (·.isSome = true) limit (step index state) (step' index state))
    {count index : Nat} {state last : σ} {c c' : Cursor} (hc : c.Bounded)
    (hcount : c.rest.length < count)
    (hread : repeatUpTo step count index state c = .ok (last, c')) :
    ∃ n ≤ c.rest.length, c' = c.advanceBy n ∧ (n ≤ limit → ∀ (d : Cursor) (count' : Nat),
      d.Bounded → d.rest.length < count' → d.rest.take (n + 1) = c.rest.take (n + 1) →
        repeatUpTo step' count' index state d = .ok (last, d.advanceBy n)) := by
  induction count generalizing index state c with
  | zero => exact absurd hcount (Nat.not_lt_zero _)
  | succ count ih =>
    simp only [Document.repeatUpTo] at hread
    cases hstep : step index state c with
    | error fault =>
      rw [hstep] at hread
      cases hread
    | ok outcome =>
      obtain ⟨next?, after⟩ := outcome
      rw [hstep] at hread
      obtain ⟨m, hm, htakes, rfl, hother⟩ := h index state hc hstep
      cases next? with
      | none =>
        cases hread
        refine ⟨m, hm, rfl, fun hlimit d count' hd hcount' hsame => ?_⟩
        obtain ⟨count', rfl⟩ := Nat.exists_eq_succ_of_ne_zero (Nat.ne_zero_of_lt hcount')
        simp only [Document.repeatUpTo, hother hlimit d hd hsame]
      | some next =>
        -- What is left is shorter by `m`, which pays for the step at both places.
        have hm' : 0 < m := htakes rfl
        obtain ⟨n, hn, rfl, hnext⟩ := ih (hc.advanceBy m)
          (by rw [rest_advanceBy, List.length_drop]; omega) hread
        rw [rest_advanceBy, List.length_drop] at hn
        refine ⟨m + n, by omega, (advanceBy_add m n c).symm,
          fun hlimit d count' hd hcount' hsame => ?_⟩
        obtain ⟨hfront, hback⟩ := take_advanceBy hsame
        obtain ⟨count', rfl⟩ := Nat.exists_eq_succ_of_ne_zero (Nat.ne_zero_of_lt hcount')
        have hlength := congrArg List.length hfront
        rw [List.length_take, List.length_take] at hlength
        simp only [Document.repeatUpTo, hother (by omega) d hd hfront]
        rw [advanceBy_add]
        refine hnext (by omega) _ _ (hd.advanceBy m) ?_ hback
        rw [rest_advanceBy, List.length_drop]
        omega

/-- A repetition ends with a step that yields nothing. -/
theorem Carries.repeatUpTo_end {σ : Type} {step step' : Nat → σ → Reading (Option σ)}
    (h : ∀ index state, Carries (·.isSome = true) limit (step index state) (step' index state))
    {count index : Nat} {state last : σ} {c c' : Cursor} (hc : c.Bounded)
    (hcount : c.rest.length < count)
    (hread : Document.repeatUpTo step count index state c = .ok (last, c')) :
    ∃ index state place, step index state place = .ok (none, c') := by
  induction count generalizing index state c with
  | zero => exact absurd hcount (Nat.not_lt_zero _)
  | succ count ih =>
    simp only [Document.repeatUpTo] at hread
    cases hstep : step index state c with
    | error fault =>
      rw [hstep] at hread
      cases hread
    | ok outcome =>
      obtain ⟨next?, after⟩ := outcome
      rw [hstep] at hread
      obtain ⟨m, hm, htakes, rfl, -⟩ := h index state hc hstep
      cases next? with
      | none =>
        cases hread
        exact ⟨_, _, _, hstep⟩
      | some next =>
        have hm' : 0 < m := htakes rfl
        exact ih (hc.advanceBy m) (by rw [rest_advanceBy, List.length_drop]; omega) hread

/-- Repetitions are carried over with their steps, since each step but the last takes up
something. -/
theorem Carries.repeatOn {σ : Type} {step step' : Nat → σ → Reading (Option σ)}
    (h : ∀ index state, Carries (·.isSome = true) limit (step index state) (step' index state))
    (state : σ) : Carries Never limit (repeatOn step state) (repeatOn step' state) := by
  intro c last c' hc hread
  obtain ⟨n, hn, heq, hother⟩ := Carries.repeatUpTo h hc hc hread
  exact ⟨n, hn, False.elim, heq, fun hlimit d hd hsame => hother hlimit d _ hd hd hsame⟩

/-- Yields are collected by repeating a step on the list of those so far. -/
theorem collectUpTo_eq (step : Nat → Reading (Option α)) (count index : Nat) (front : List α)
    (c : Cursor) :
    repeatUpTo (fun index values c => do
      let (value?, c) ← step index c
      return (value?.map fun value => values ++ [value], c)) count index front c =
      (do let (values, c) ← collectUpTo step count index c
          return (front ++ values, c)) := by
  induction count generalizing index front c with
  | zero => simp [Document.repeatUpTo, collectUpTo, bind, Except.bind, pure, Except.pure]
  | succ count ih =>
    simp only [Document.repeatUpTo, collectUpTo]
    obtain fault | ⟨value | value, after⟩ := step index c
    · rfl
    · simp [bind, Except.bind, pure, Except.pure]
    · simp only [bind, Except.bind, pure, Except.pure, Option.map] at ih ⊢
      rw [ih]
      obtain fault | ⟨values, after⟩ := collectUpTo step count (index + 1) after
      · rfl
      · simp

/-- Lists of values are carried over with the values in them. -/
theorem Carries.collect {step step' : Nat → Reading (Option α)}
    (h : ∀ index, Carries (·.isSome = true) limit (step index) (step' index)) :
    Carries Never limit (collect step) (collect step') := by
  have heq : ∀ step : Nat → Reading (Option α), Json.collect step =
      Document.repeatOn (fun index values c => do
        let (value?, c) ← step index c
        return (value?.map fun value => values ++ [value], c)) [] := by
    intro step
    funext c
    rw [Document.repeatOn, collectUpTo_eq, Json.collect]
    obtain fault | ⟨values, after⟩ := collectUpTo step c.bound 0 c <;> rfl
  rw [heq, heq]
  refine .repeatOn (fun index values => (h index).bindWith fun value? => ?_) []
  cases value? with
  | none => exact carries_ok fun hsome => Bool.false_ne_true hsome.1
  | some value => exact carries_ok fun hsome => hsome.2 rfl

/-! ## Words and strings -/

theorem carries_readWord (word : List Char) :
    Carries Never limit (readWord word) (readWord word) := by
  induction word with
  | nil => exact carries_ok id
  | cons x word ih =>
    refine .of_head_self ⟨_, carries_fault .endInValue, fun c hc => by rw [readWord, hc]⟩
      fun y => ?_
    by_cases h : y = x
    · exact ⟨_, ih.behindNext, fun c rest hc => by
        rw [behindNext_eq hc, readWord, hc]
        exact if_pos h⟩
    · exact ⟨_, carries_faultHere .badWord, fun c rest hc => by
        rw [readWord, hc]
        exact if_neg h⟩

/-- Just four hexadecimal digits are read as a number, and no more is taken up. -/
theorem readHex_eq_ok {c c' : Cursor} {value : Nat} :
    readHex c = .ok (value, c') ↔
      hexNumber? (c.rest.take 4) = some value ∧ (c.rest.take 4).length = 4 ∧
        c' = c.advanceBy 4 := by
  simp only [readHex]
  split
  · rename_i value' hvalue hlength
    simp [hvalue, of_decide_eq_true hlength, eq_comm]
  · rename_i hfault
    constructor
    · intro h
      split at h <;> cases h
    · rintro ⟨hvalue, hlength, -⟩
      exact absurd (decide_eq_true hlength) (hfault _ hvalue)

theorem carries_readHex : Carries Always limit readHex readHex := by
  intro c value c' hc hread
  obtain ⟨hvalue, hlength, rfl⟩ := readHex_eq_ok.1 hread
  refine ⟨4, ?_, fun _ => Nat.succ_pos 3, rfl, fun _ d hd hsame => readHex_eq_ok.2 ?_⟩
  · rw [List.length_take] at hlength
    omega
  · have hdigits := congrArg (List.take 4) hsame
    rw [List.take_take, List.take_take] at hdigits
    exact ⟨hdigits ▸ hvalue, hdigits ▸ hlength, rfl⟩

theorem carries_readPairMark (expected : Char) :
    Carries Always limit (readPairMark expected) (readPairMark expected) := by
  refine .of_head_self ⟨_, carries_fault .endInString, fun c hc => by rw [readPairMark, hc]⟩
    fun x => ?_
  by_cases h : x = expected
  · exact ⟨_, .behindNext (carries_pure (a := ())), fun c rest hc => by
      rw [behindNext_eq hc, readPairMark, hc]
      exact if_pos h⟩
  · exact ⟨_, carries_faultHere .halfSurrogatePair, fun c rest hc => by
      rw [readPairMark, hc]
      exact if_neg h⟩

theorem carries_readUnicodeEscape : Carries Always limit readUnicodeEscape readUnicodeEscape := by
  refine carries_readHex.bindTaken fun code => .ite (carries_fault _) (.ite ?_ (carries_ok id))
  refine (carries_readPairMark _).bind fun _ => (carries_readPairMark _).bind fun _ => ?_
  exact carries_readHex.bind fun second => .ite (carries_ok id) (carries_fault _)

/-- Escapes are carried over, however those by number are read. -/
theorem Carries.readEscape {unicode : Reading Char} (h : Carries Never limit unicode unicode) :
    Carries Always limit (readEscape unicode) (readEscape unicode) := by
  refine .of_head_self ⟨_, carries_fault .endInString, fun c hc => by rw [Json.readEscape, hc]⟩
    fun x => ?_
  by_cases hx : x = 'u'
  · exact ⟨_, h.behindNext, fun c rest hc => by simp [behindNext_eq hc, Json.readEscape, hc, hx]⟩
  · cases hvalue : simpleEscape? x with
    | none =>
      exact ⟨_, carries_faultHere .badEscape, fun c rest hc => by
        simp [Json.readEscape, hc, hvalue]⟩
    | some value =>
      exact ⟨_, .behindNext (carries_pure (a := value)), fun c rest hc => by
        simp [behindNext_eq hc, Json.readEscape, hc, hvalue]⟩

theorem carries_readStringChar : Carries Always limit readStringChar readStringChar := by
  refine .of_head_self ⟨_, carries_fault .endInString, fun c hc => by rw [readStringChar, hc]⟩
    fun x => ?_
  by_cases hquote : x = '"'
  · exact ⟨_, .behindNext (carries_pure (a := none)), fun c rest hc => by
      simp [behindNext_eq hc, readStringChar, hc, hquote]⟩
  by_cases hslash : x = '\\'
  · refine ⟨_, .behindNext (carries_readUnicodeEscape.any.readEscape.map some),
      fun c rest hc => ?_⟩
    simp only [behindNext_eq hc, readStringChar, hc, hslash]
    rfl
  by_cases hcontrol : x.toNat < 0x20
  · exact ⟨_, .behindNext (carries_fault .controlCharacter), fun c rest hc => by
      simp [behindNext_eq hc, readStringChar, hc, hcontrol]⟩
  · exact ⟨_, .behindNext (carries_pure (a := some x)), fun c rest hc => by
      simp [behindNext_eq hc, readStringChar, hc, hcontrol]⟩

theorem carries_readStringTail : Carries Never limit readStringTail readStringTail :=
  .map (.collect fun _ => carries_readStringChar.mono (fun _ _ => trivial) (Nat.le_refl _))
    String.ofList

theorem carries_skipStringChar : Carries Always limit skipStringChar skipStringChar := by
  refine .of_head_self ⟨_, carries_fault .endInString, fun c hc => by rw [skipStringChar, hc]⟩
    fun x => ?_
  by_cases hquote : x = '"'
  · exact ⟨_, .behindNext (carries_pure (a := none)), fun c rest hc => by
      simp [behindNext_eq hc, skipStringChar, hc, hquote]⟩
  by_cases hslash : x = '\\'
  · refine ⟨_, .behindNext (.map (.readEscape (carries_readHex.map fun _ => 'u')) fun _ => some ()),
      fun c rest hc => ?_⟩
    simp only [behindNext_eq hc, skipStringChar, hc, hslash]
    rfl
  by_cases hcontrol : x.toNat < 0x20
  · exact ⟨_, carries_fault .controlCharacter, fun c rest hc => by
      simp [skipStringChar, hc, hcontrol]⟩
  · exact ⟨_, .behindNext (carries_pure (a := some ())), fun c rest hc => by
      simp [behindNext_eq hc, skipStringChar, hc, hcontrol]⟩

theorem carries_skipStringTail : Carries Never limit skipStringTail skipStringTail :=
  .map (.collect fun _ => carries_skipStringChar.mono (fun _ _ => trivial) (Nat.le_refl _))
    fun _ => ()

end Json

end LintTypes
