import LintTypes.Proofs.LocalValues
import LintTypes.Proofs.MergedDocuments

/-!
# Values that end by themselves

An object and an array end with their brackets, so what is behind them does not matter at all
(`Closed`). A record is one or the other, if only its fields are read as they stand, whatever fields
it passes over. So the text of a rule can be cut out of its document.
-/

namespace LintTypes

namespace Json

open Cursor
open Command (bind_eq_ok)

variable {α β : Type} {takes : α → Prop} {limit : Nat} {p q p' q' : Reading α}

/-! ## Values that end by themselves -/

/-- What is read at a place is read wherever the same characters stand, whatever follows them. At
least one character is taken up. -/
def Closed (p : Reading α) : Prop :=
  ∀ ⦃c a c'⦄, c.Bounded → p c = .ok (a, c') → ∃ n ≤ c.rest.length, 0 < n ∧ c' = c.advanceBy n ∧
    ∀ d : Cursor, d.Bounded → d.rest.take n = c.rest.take n → p d = .ok (a, d.advanceBy n)

/-- What ends by itself does not depend on the character behind it. -/
theorem Closed.carries (h : Closed p) : Carries Always limit p p := by
  intro c a c' hc hread
  obtain ⟨n, hn, hpos, heq, hother⟩ := h hc hread
  refine ⟨n, hn, fun _ => hpos, heq, fun _ d hd hsame => hother d hd ?_⟩
  have := congrArg (List.take n) hsame
  rwa [List.take_take, List.take_take, Nat.min_eq_left (Nat.le_succ n)] at this

theorem closed_error (h : ∀ c r, p c ≠ .ok r) : Closed p := fun c _ _ _ hp => absurd hp (h c _)

/-- The character at the place decides how it goes on. -/
theorem Closed.of_head (hnil : ∀ c : Cursor, c.rest = [] → ∀ r, p c ≠ .ok r)
    (hcons : ∀ x, ∃ p', Closed p' ∧ ∀ (c : Cursor) rest, c.rest = x :: rest → ∀ r,
      p c = .ok r ↔ p' c = .ok r) :
    Closed p := by
  intro c a c' hc hread
  cases hfront : c.rest with
  | nil => exact absurd hread (hnil c hfront _)
  | cons x rest =>
    obtain ⟨p', h, hp⟩ := hcons x
    obtain ⟨n, hn, hpos, heq, hother⟩ := h hc ((hp c rest hfront _).1 hread)
    rw [hfront] at hn hother
    refine ⟨n, hn, hpos, heq, fun d hd hsame => ?_⟩
    obtain ⟨n, rfl⟩ := Nat.exists_eq_succ_of_ne_zero hpos.ne'
    obtain ⟨others, hothers, -⟩ := exists_cons_of_take hsame
    exact (hp d others hothers _).2 (hother d hd hsame)

/-- One after the other; only the end of the second one counts. -/
theorem Closed.bind {r : Reading β} {k : β × Cursor → Except Fault (α × Cursor)}
    {taken : β → Prop} (h : ∀ limit, Carries taken limit r r)
    (hk : ∀ b, Closed fun c => k (b, c)) : Closed fun c => r c >>= k := by
  intro c a c'' hc hread
  obtain ⟨⟨b, c'⟩, hfirst, hread⟩ := bind_eq_ok hread
  obtain ⟨m, hm, -, rfl, hother⟩ := h (c.rest.length) hc hfirst
  obtain ⟨n, hn, hpos, rfl, hnext⟩ := hk b (hc.advanceBy m) hread
  -- The second one takes up something, so the character behind the first one is part of it.
  obtain ⟨n, rfl⟩ := Nat.exists_eq_succ_of_ne_zero hpos.ne'
  rw [rest_advanceBy, List.length_drop] at hn
  refine ⟨m + (n + 1), by omega, by omega, (advanceBy_add m (n + 1) c).symm,
    fun d hd hsame => ?_⟩
  obtain ⟨hfront, hback⟩ := take_advanceBy (n := n) hsame
  calc r d >>= k = k (b, d.advanceBy m) := by rw [hother hm d hd hfront]; rfl
    _ = .ok (a, d.advanceBy (m + (n + 1))) := by
      rw [advanceBy_add]
      exact hnext _ (hd.advanceBy m) hback

/-- What is made of a value. -/
theorem Closed.map {r : Reading β} (h : Closed r) (f : β → α) :
    Closed fun c => r c >>= fun r => .ok (f r.1, r.2) := by
  intro c a c'' hc hread
  obtain ⟨⟨b, c'⟩, hfirst, hread⟩ := bind_eq_ok hread
  cases hread
  obtain ⟨n, hn, hpos, heq, hother⟩ := h hc hfirst
  refine ⟨n, hn, hpos, heq, fun d hd hsame => ?_⟩
  dsimp only
  rw [hother d hd hsame]
  rfl

theorem Closed.behindSpace (h : Closed p) : Closed fun c => p c.skipSpace := by
  have hspace : ∀ c : Cursor, c.skipSpace = c.advanceBy (c.rest.takeWhile isBlank).length :=
    skipSpace_eq
  simp only [hspace]
  exact .bind (k := fun r => p r.2) (fun _ => carries_takeWhile isBlank) fun _ => h

/-- The next character itself. -/
theorem closed_next {a : α} : Closed (behindNext fun c => .ok (a, c)) := by
  intro c b c' hc hread
  unfold Json.behindNext at hread
  cases hrest : c.rest with
  | nil =>
    rw [hrest] at hread
    cases hread
  | cons x rest =>
    rw [hrest] at hread
    cases hread
    refine ⟨1, Nat.succ_le_succ (Nat.zero_le _), Nat.one_pos, rfl, fun d hd hsame => ?_⟩
    obtain ⟨others, hothers, -⟩ := exists_cons_of_take hsame
    exact behindNext_eq hothers _

theorem Closed.behindNext (h : Closed p) : Closed (behindNext p) :=
  .of_head (fun c hc r => by simp [Json.behindNext, hc, fault]) fun _ =>
    ⟨_, .bind (k := fun r => p r.2) (fun _ => carries_advance (a := ())) fun _ => h,
      fun c rest hc r => by rw [behindNext_eq hc]; rfl⟩

/-! ## Records -/

open Document hiding Field

variable {σ : Type} {form : Form σ}

/-- Every field of the form is read as it stands. -/
def FieldsCarry (form : Form σ) : Prop :=
  ∀ field ∈ form.fields, ∀ limit state, Carries Always limit (field.read state) (field.read state)

/-- A field of a record is carried over with the values of the fields. -/
theorem carries_readRecordField (hform : FieldsCarry form) (index : Nat) (state : Partial σ) :
    Carries (·.isSome = true) limit (readRecordField form index state)
      (readRecordField form index state) := by
  obtain ⟨state, seen⟩ := state
  refine (carries_readKey index).inside.bindWith fun key? => ?_
  cases key? with
  | none => exact carries_ok fun hsome => Bool.false_ne_true hsome.1
  | some key =>
    dsimp only
    cases hfield : form.fields.find? fun field => field.name = key with
    | none =>
      refine carries_readColon.bindTaken fun _ => ?_
      exact carries_skip.inside.map fun _ => some (state, seen)
    | some field =>
      refine Carries.ite (P := seen.contains key = true) (carries_error fun c r h => by cases h) ?_
      refine carries_readColon.bindTaken fun _ => ?_
      exact (hform field (List.mem_of_find?_eq_some hfield) limit state).inside.map fun state =>
        some (state, key :: seen)

/-- Reads a closing bracket that has to be there. -/
def closeArrayHere : Reading Unit := fun c =>
  match c.rest with
  | ']' :: _ => .ok ((), c.advance)
  | ',' :: _ =>
    let c := c.advance.skipSpace
    c.faultHere (if c.rest.head? = some ']' then .trailingComma else .trailingCharacters)
  | [] => c.faultHere .endInArray
  | _ => c.faultHere .trailingCharacters

/-- An array ends with its own bracket, -/
theorem closed_closeArray : Closed closeArray := by
  refine Closed.behindSpace (p := closeArrayHere) (.of_head (fun c hc r => ?_) fun x => ?_)
  · simp [closeArrayHere, hc, faultHere]
  by_cases hclose : x = ']'
  · exact ⟨_, closed_next (a := ()), fun c rest hc r => by
      simp [behindNext_eq hc, closeArrayHere, hc, hclose]⟩
  · refine ⟨fun c => c.fault .noValue, closed_error (fun c r h => by cases h), ?_⟩
    intro c rest hc r
    by_cases hcomma : x = ',' <;> simp [closeArrayHere, hc, hclose, hcomma, fault, faultHere]

/-- so a record that is written as an array ends by itself. -/
theorem closed_readRecordItems (hform : FieldsCarry form) {fields : List (Document.Field σ)}
    (hfields : ∀ field ∈ fields, field ∈ form.fields) (index : Nat) (state : σ) :
    Closed (readRecordItems form fields index state) := by
  induction fields generalizing index state with
  | nil => exact closed_closeArray.map fun _ => state
  | cons field fields ih =>
    obtain ⟨hfield, hfields⟩ := List.forall_mem_cons.1 hfields
    refine .bind (fun limit => Carries.readItem (hform field hfield limit state) index) ?_
    intro next?
    cases next? with
    | some state => exact ih hfields _ _
    | none =>
      dsimp only
      by_cases hrequired : field.required = true
      · exact closed_error fun c r => by simp [hrequired, fault]
      · simpa [hrequired] using ih hfields _ _

theorem leaveObject_of_head {c : Cursor} (h : c.rest.head? = some '}') :
    leaveObject c = c.advance := by
  have hspace : c.skipSpace = c := by
    rw [skipSpace_eq]
    obtain ⟨rest, hrest⟩ := List.head?_eq_some_iff.1 h
    rw [hrest, List.takeWhile_cons_of_neg (by decide)]
    rfl
  simp [leaveObject, hspace, h]

theorem readKeyHere_ne_none {c c' : Cursor} : readKeyHere c ≠ .ok (none, c') := by
  intro h
  unfold readKeyHere at h
  split at h
  · obtain ⟨_, _, h⟩ := bind_eq_ok h
    cases h
  · cases h

/-- Only in front of the closing brace there is no further key. -/
theorem readKey_eq_none {index : Nat} {c c' : Cursor} :
    readKey index c = .ok (none, c') ↔ c' = c.skipSpace ∧ c'.rest.head? = some '}' := by
  rw [readKey_eq]
  generalize c.skipSpace = c
  constructor
  · intro h
    simp only [partOrClose] at h
    split at h
    · cases h
    rename_i x rest hc
    split at h
    · rename_i hclose
      cases h
      exact ⟨rfl, by rw [hc, hclose]; rfl⟩
    split at h
    · exact absurd h readKeyHere_ne_none
    split at h
    · simp only [partBehindComma] at h
      split at h
      · cases h
      split at h
      · cases h
      · exact absurd h readKeyHere_ne_none
    · cases h
  · rintro ⟨rfl, hhead⟩
    obtain ⟨rest, hrest⟩ := List.head?_eq_some_iff.1 hhead
    simp [partOrClose, hrest]

/-- The fields are over only in front of the closing brace, -/
theorem readRecordField_eq_none {index : Nat} {state : Partial σ} {c c' : Cursor}
    (h : readRecordField form index state c = .ok (none, c')) : c'.rest.head? = some '}' := by
  obtain ⟨⟨key?, c₁⟩, hkey, h⟩ := bind_eq_ok h
  cases key? with
  | none =>
    cases h
    exact (readKey_eq_none.1 (inside_eq_ok.1 hkey)).2
  | some key =>
    dsimp only at h
    split at h
    · obtain ⟨_, _, h⟩ := bind_eq_ok h
      obtain ⟨_, _, h⟩ := bind_eq_ok h
      cases h
    split at h
    · cases h
    · obtain ⟨_, _, h⟩ := bind_eq_ok h
      obtain ⟨_, _, h⟩ := bind_eq_ok h
      cases h

/-- so a record that is written as an object ends by itself, -/
theorem closed_readRecordObject (hform : FieldsCarry form) : Closed (readRecordObject form) := by
  -- The fields end in front of the brace, so they know of it, and the brace is the last character.
  intro c state c' hc hread
  have hfields (limit index) (state : Partial σ) :
      Carries (·.isSome = true) limit (readRecordField form index state) _ :=
    carries_readRecordField hform index state
  obtain ⟨⟨⟨last, seen⟩, c₁⟩, hlast, hread⟩ := bind_eq_ok hread
  obtain ⟨n, hn, -, rfl, hother⟩ := Carries.repeatOn (hfields c.rest.length) _ hc hlast
  obtain ⟨index, place, c₂, hend⟩ := Carries.repeatUpTo_end (hfields 0) hc hc hlast
  have hhead : (c.advanceBy n).rest.head? = some '}' := readRecordField_eq_none hend
  have hlength : n < c.rest.length := by
    rw [rest_advanceBy] at hhead
    exact Nat.lt_of_not_le fun hle => by simp [List.drop_eq_nil_of_le hle] at hhead
  have hleave (d : Cursor) (hd : (d.advanceBy n).rest.head? = some '}') :
      leaveObject (d.advanceBy n) = d.advanceBy (n + 1) := by
    rw [leaveObject_of_head hd, advanceBy_add]
    rfl
  dsimp only at hread
  split at hread
  · cases hread
  · rename_i hall
    cases hread
    refine ⟨n + 1, hlength, Nat.succ_pos n, hleave c hhead, fun d hd hsame => ?_⟩
    have hd' : (d.advanceBy n).rest.head? = some '}' := by
      have hbehind := congrArg List.head? (take_advanceBy (n := 0) hsame).2
      simpa [List.head?_take, hhead] using hbehind
    rw [readRecordObject, hother hn d hd hsame, ← hleave d hd']
    simp only [bind, Except.bind, hall]
    rfl

theorem readRecord_eq (form : Form σ) (c : Cursor) :
    readRecord form c = byOpening (behindNext (readRecordItems form form.fields 0 form.start))
      (behindNext (readRecordObject form)) (unexpected form.expected) c.skipSpace := by
  grind [readRecord, byOpening, behindNext]

/-- and so does one in either form. -/
theorem closed_readRecord (hform : FieldsCarry form) : Closed (readRecord form) := by
  have heq : readRecord form = fun c => _ := funext (readRecord_eq form)
  rw [heq]
  refine .behindSpace (.of_head (fun c hc r => ?_) fun x => ?_)
  · simpa only [byOpening, hc] using unexpected_ne_ok
  by_cases hbracket : x = '['
  · exact ⟨_, (closed_readRecordItems hform (fun _ => id) 0 form.start).behindNext,
      fun c rest hc r => by simp [byOpening, hc, hbracket]⟩
  by_cases hbrace : x = '{'
  · exact ⟨_, (closed_readRecordObject hform).behindNext,
      fun c rest hc r => by simp [byOpening, hc, hbrace]⟩
  · exact ⟨unexpected form.expected, closed_error fun c r => unexpected_ne_ok,
      fun c rest hc r => by simp [byOpening, hc, hbracket, hbrace]⟩

theorem carries_fieldOf {value : Reading α} (h : Carries Always limit value value) (name : String)
    (put : α → σ → σ) (state : σ) :
    Carries Always limit ((Field.of name value put).read state)
      ((Field.of name value put).read state) :=
  h.mapTaken fun value => put value state

end Json

namespace Rules

open Document Json

/-- A rule ends by itself. -/
theorem closed_readRule : Closed (readRecord ruleForm) := by
  have hmeta : Closed (readRecord metaForm) := by
    refine closed_readRecord fun field hfield limit state => ?_
    obtain rfl := List.mem_singleton.1 hfield
    exact carries_fieldOf (carries_read schemaDepth) "schema" _ state
  refine closed_readRecord fun field hfield limit state => ?_
  obtain rfl := List.mem_singleton.1 hfield
  exact carries_fieldOf hmeta.carries "meta" (fun value _ => ⟨value⟩) state

end Rules

end LintTypes
