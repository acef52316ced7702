import LintTypes.Proofs.LocalReading

/-!
# Local reading of values

Numbers, arrays, objects and whole values are read from their own text and the character behind it.
Where a reading looks at the next character, it is brought into a form in which that character
decides (`partOrClose`, `byOpening`), and the lemmas go from the digits up to whole values.

The depth to which values are passed over is the bound of the place, so it differs between places.
It does not matter, because no value is nested more deeply than its text is long:
`carries_skipWithin` is by induction on the depth, and each bracket that is taken up pays for one
level.
-/

namespace LintTypes

namespace Json

open Cursor

variable {α β : Type} {takes : α → Prop} {limit : Nat} {p q p' q' : Reading α}

/-! ## Numbers -/

/-- Digits first. -/
theorem Carries.behindDigits {k : List Char × Cursor → Except Fault (α × Cursor)}
    (hk : ∀ digits, Carries takes limit (fun c => k (digits, c)) fun c => k (digits, c)) :
    Carries takes limit (fun c => k (takeDigits c)) fun c => k (takeDigits c) :=
  (carries_takeWhile Char.isDigit).bind hk

/-- Digits first, of which there is one at least. -/
theorem Carries.behindSomeDigits {k : List Char × Cursor → Except Fault (α × Cursor)}
    (hk : ∀ digits, Carries Never limit (fun c => k (digits, c)) fun c => k (digits, c)) :
    Carries takes limit
      (fun c => if c.rest.head?.any Char.isDigit then k (takeDigits c) else c.faultHere .badNumber)
      fun c =>
        if c.rest.head?.any Char.isDigit then k (takeDigits c) else c.faultHere .badNumber := by
  -- Whether there is a digit is known from the digits that are taken, too.
  let behind (r : List Char × Cursor) := if r.1 = [] then r.2.faultHere .badNumber else k r
  have hbehind : ∀ c r, behind (takeDigits c) = .ok r ↔
      (if c.rest.head?.any Char.isDigit then k (takeDigits c) else c.faultHere .badNumber) =
        .ok r := by
    intro c r
    have hdigits : (takeDigits c).1 = [] ↔ ¬ c.rest.head?.any Char.isDigit = true := by
      cases hc : c.rest with
      | nil => simp [takeDigits, hc]
      | cons x rest => simp [takeDigits, hc, List.takeWhile_cons]
    by_cases hhead : c.rest.head?.any Char.isDigit = true
    · simp only [behind, hdigits, hhead, not_true, if_false, if_true]
    · simp [behind, hdigits, hhead, faultHere]
  refine .congr ((carries_takeWhile Char.isDigit).bindWith (k := behind) (l := behind)
    fun digits => ?_) (fun c r => (hbehind c r).2) fun c r => (hbehind c r).1
  by_cases hdigits : digits = []
  · simpa [behind, hdigits] using carries_faultHere _
  · simpa [behind, hdigits] using
      (hk digits).mono (fun a ha => ha.elim) (Nat.le_refl _)

/-- The digits decide what a number is; nothing of the text is taken up for it. -/
theorem carries_realNumber (negative : Bool) (significand : Nat) (exponent : Int) :
    Carries Never limit (realNumber negative significand exponent)
      (realNumber negative significand exponent) := by
  unfold realNumber
  cases Binary64.ofDecimal? significand exponent with
  | none => exact carries_fault _
  | some x => exact carries_pure

theorem carries_wholeNumber (negative : Bool) (significand : Nat) :
    Carries Never limit (wholeNumber negative significand) (wholeNumber negative significand) := by
  unfold wholeNumber
  extract_lets value
  refine .ite (carries_realNumber _ _ _) ?_
  by_cases inRange : -(JsonInteger.maxNegated : Int) ≤ value ∧ value ≤ JsonInteger.maxUnsigned
  · simp only [dif_pos inRange]
    exact carries_pure
  · simp only [dif_neg inRange]
    exact carries_realNumber _ _ _

/-- The number with the digits of its exponent. -/
def exponentNumber (negative : Bool) (significand : Nat) (exponent : Int) (down : Bool) :
    List Char → Reading JsonNumber
  | [], after => after.faultHere .badNumber
  | d :: ds, after =>
    let digits := d :: ds
    let fits := (List.range digits.length).takeWhile fun n =>
      (digits.take (n + 1)).foldl (fun value d => value * 10 + digitValue d) 0 ≤ maxExponent
    if fits.length < digits.length then
      if significand ≠ 0 ∧ !down then after.fault .numberOutOfRange
      else realNumber negative 0 0 after
    else
      let value := digits.foldl (fun value d => value * 10 + digitValue d) 0
      realNumber negative significand (if down then exponent - value else exponent + value) after

/-- An exponent without digits is at fault wherever it stands. -/
theorem carries_exponentNumber (negative : Bool) (significand : Nat) (exponent : Int) (down : Bool)
    (digits : List Char) :
    Carries Never limit (exponentNumber negative significand exponent down digits)
      (exponentNumber negative significand exponent down digits) := by
  cases digits with
  | nil => exact carries_faultHere _
  | cons d digits =>
    exact .ite (.ite (carries_fault _) (carries_realNumber _ _ _)) (carries_realNumber _ _ _)

/-- Reads the digits of an exponent behind its sign. -/
def readExponentDigits (negative : Bool) (significand : Nat) (exponent : Int) (down : Bool) :
    Reading JsonNumber := fun c =>
  match c.rest with
  | [] => c.fault .endInValue
  | x :: _ =>
    if x.isDigit then
      let digits := c.rest.takeWhile Char.isDigit
      let fits := (List.range digits.length).takeWhile fun n =>
        (digits.take (n + 1)).foldl (fun value d => value * 10 + digitValue d) 0 ≤ maxExponent
      if fits.length < digits.length then
        if significand ≠ 0 ∧ !down then (c.advanceBy (fits.length + 1)).fault .numberOutOfRange
        else realNumber negative 0 0 (c.advanceBy digits.length)
      else
        let value := digits.foldl (fun value d => value * 10 + digitValue d) 0
        realNumber negative significand (if down then exponent - value else exponent + value)
          (c.advanceBy digits.length)
    else c.faultHere .badNumber

/-- The number is made of the digits that are taken, whether or not there is one. -/
theorem readExponentDigits_eq_ok {negative : Bool} {significand : Nat} {exponent : Int}
    {down : Bool} {c : Cursor} {r : JsonNumber × Cursor} :
    readExponentDigits negative significand exponent down c = .ok r ↔
      exponentNumber negative significand exponent down (takeDigits c).1 (takeDigits c).2 =
        .ok r := by
  obtain ⟨rest, position, bound⟩ := c
  cases rest with
  | nil => simp [readExponentDigits, exponentNumber, takeDigits, fault, faultHere]
  | cons x rest =>
    by_cases hx : x.isDigit = true
    · simp only [readExponentDigits, takeDigits, if_pos hx, List.takeWhile_cons_of_pos hx,
        exponentNumber]
      split
      · split
        · simp [fault]
        · rfl
      · rfl
    · simp [readExponentDigits, takeDigits, hx, exponentNumber, faultHere]

theorem carries_readExponentDigits (negative : Bool) (significand : Nat) (exponent : Int)
    (down : Bool) :
    Carries Never limit (readExponentDigits negative significand exponent down)
      (readExponentDigits negative significand exponent down) := by
  exact .congr (.behindDigits (k := fun r => exponentNumber negative significand exponent down r.1
    r.2) fun digits => carries_exponentNumber negative significand exponent down digits)
    (fun c r => readExponentDigits_eq_ok.1) fun c r => readExponentDigits_eq_ok.2

/-- The sign of the exponent is taken first, if there is one. -/
theorem readExponent_eq (negative : Bool) (significand : Nat) (exponent : Int) (c : Cursor) :
    readExponent negative significand exponent c =
      let (down, c) := match c.rest with
        | '+' :: _ => (false, c.advance)
        | '-' :: _ => (true, c.advance)
        | _ => (false, c)
      readExponentDigits negative significand exponent down c :=
  rfl

/-- An exponent is read from its sign, its digits and the character behind them. -/
theorem carries_readExponent (negative : Bool) (significand : Nat) (exponent : Int) :
    Carries Never limit (readExponent negative significand exponent)
      (readExponent negative significand exponent) := by
  have hdigits (down : Bool) :
      Carries Never limit (readExponentDigits negative significand exponent down) _ :=
    carries_readExponentDigits negative significand exponent down
  refine .of_head_self ⟨_, hdigits false, fun c hc => by simp [readExponent_eq, hc]⟩ fun x => ?_
  by_cases hplus : x = '+'
  · exact ⟨_, (hdigits false).behindNext, fun c rest hc => by
      simp [behindNext_eq hc, readExponent_eq, hc, hplus]⟩
  by_cases hminus : x = '-'
  · exact ⟨_, (hdigits true).behindNext, fun c rest hc => by
      simp [behindNext_eq hc, readExponent_eq, hc, hminus]⟩
  · exact ⟨_, hdigits false, fun c rest hc => by simp [readExponent_eq, hc, hplus, hminus]⟩

theorem carries_readRealEnd (negative : Bool) (significand : Nat) (exponent : Int) :
    Carries Never limit (readRealEnd negative significand exponent)
      (readRealEnd negative significand exponent) := by
  have hreal : Carries Never limit (realNumber negative significand exponent) _ :=
    carries_realNumber negative significand exponent
  refine .of_head_self ⟨_, hreal, fun c hc => by rw [readRealEnd, hc]⟩ fun x => ?_
  by_cases he : x = 'e' ∨ x = 'E'
  · refine ⟨_, (carries_readExponent negative significand exponent).behindNext,
      fun c rest hc => ?_⟩
    rcases he with rfl | rfl <;> simp [behindNext_eq hc, readRealEnd, hc]
  · obtain ⟨he, hE⟩ := not_or.1 he
    exact ⟨_, hreal, fun c rest hc => by simp [readRealEnd, hc, he, hE]⟩

/-- The number with the digits behind its point. -/
def fractionNumber (negative : Bool) (significand : Nat) (exponent : Int) (digits : List Char) :
    Reading JsonNumber := fun after =>
  if digits = [] then after.faultHere .badNumber
  else
    readRealEnd negative (gather significand digits).1
      (exponent - (gather significand digits).2) after

theorem carries_fractionNumber (negative : Bool) (significand : Nat) (exponent : Int)
    (digits : List Char) :
    Carries Never limit (fractionNumber negative significand exponent digits)
      (fractionNumber negative significand exponent digits) :=
  .ite (carries_faultHere _) (carries_readRealEnd _ _ _)

/-- As in an exponent, the digits behind the point make the number. -/
theorem readFraction_eq_ok {negative : Bool} {significand : Nat} {exponent : Int} {c : Cursor}
    {r : JsonNumber × Cursor} :
    readFraction negative significand exponent c = .ok r ↔
      fractionNumber negative significand exponent (takeDigits c).1 (takeDigits c).2 = .ok r := by
  rw [readFraction, fractionNumber]
  obtain ⟨digits, after⟩ := takeDigits c
  cases digits with
  | nil => by_cases h : after.rest.isEmpty = true <;> simp [h, fault, faultHere]
  | cons d digits => rfl

theorem carries_readFraction (negative : Bool) (significand : Nat) (exponent : Int) :
    Carries Never limit (readFraction negative significand exponent)
      (readFraction negative significand exponent) := by
  exact .congr (.behindDigits (k := fun r => fractionNumber negative significand exponent r.1 r.2)
    fun digits => carries_fractionNumber negative significand exponent digits)
    (fun c r => readFraction_eq_ok.1) fun c r => readFraction_eq_ok.2

/-- Reads what may follow the digits in front of a number's point. -/
def readNumberEnd (negative : Bool) (significand : Nat) (exponent : Int) : Reading JsonNumber :=
  fun after =>
    match after.rest with
    | '.' :: _ => readFraction negative significand exponent after.advance
    | 'e' :: _ | 'E' :: _ => readExponent negative significand exponent after.advance
    | _ =>
      if 0 < exponent then realNumber negative significand exponent after
      else wholeNumber negative significand after

/-- What follows the whole part is known from the next character: a fraction, an exponent, or
nothing. -/
theorem carries_readNumberEnd (negative : Bool) (significand : Nat) (exponent : Int) :
    Carries Never limit (readNumberEnd negative significand exponent)
      (readNumberEnd negative significand exponent) := by
  have hwhole : Carries Never limit (fun after =>
      if 0 < exponent then realNumber negative significand exponent after
      else wholeNumber negative significand after) _ :=
    .ite (carries_realNumber _ _ _) (carries_wholeNumber _ _)
  refine .of_head_self ⟨_, hwhole, fun c hc => by rw [readNumberEnd, hc]⟩ fun x => ?_
  by_cases hpoint : x = '.'
  · exact ⟨_, (carries_readFraction negative significand exponent).behindNext, fun c rest hc => by
      simp [behindNext_eq hc, readNumberEnd, hc, hpoint]⟩
  by_cases he : x = 'e' ∨ x = 'E'
  · refine ⟨_, (carries_readExponent negative significand exponent).behindNext,
      fun c rest hc => ?_⟩
    rcases he with rfl | rfl <;> simp [behindNext_eq hc, readNumberEnd, hc]
  · obtain ⟨he, hE⟩ := not_or.1 he
    exact ⟨_, hwhole, fun c rest hc => by simp [readNumberEnd, hc, hpoint, he, hE]⟩

/-- A number starts with a single zero, or with as many digits as there are. -/
theorem readNumber_eq (negative : Bool) (c : Cursor) :
    readNumber negative c =
      match c.rest with
      | [] => c.fault .endInValue
      | x :: _ =>
        if x.isDigit then
          let (digits, after) := if x = '0' then (['0'], c.advance) else takeDigits c
          if x = '0' ∧ (after.rest.head?.any Char.isDigit) then after.faultHere .badNumber
          else
            readNumberEnd negative (gather 0 digits).1 (digits.length - (gather 0 digits).2) after
        else c.faultHere .badNumber :=
  rfl

/-- A number is read from its own text and the character behind it. -/
theorem carries_readNumber (negative : Bool) :
    Carries Always limit (readNumber negative) (readNumber negative) := by
  refine .of_head_self ⟨_, carries_fault .endInValue, fun c hc => by rw [readNumber, hc]⟩
    fun x => ?_
  by_cases hx : x.isDigit = true
  · by_cases hzero : x = '0'
    · refine ⟨_, .behindNext (.ite_head Char.isDigit (carries_faultHere .badNumber)
        (carries_readNumberEnd negative (gather 0 ['0']).1 (1 - (gather 0 ['0']).2))),
        fun c rest hc => ?_⟩
      simp [behindNext_eq hc, readNumber_eq, hc, hzero]
    · refine ⟨_, .behindSomeDigits (k := fun r =>
        readNumberEnd negative (gather 0 r.1).1 (r.1.length - (gather 0 r.1).2) r.2)
        fun digits => carries_readNumberEnd negative (gather 0 digits).1
          (digits.length - (gather 0 digits).2), fun c rest hc => ?_⟩
      simp [readNumber_eq, hc, hzero, hx]
  · exact ⟨_, carries_faultHere .badNumber, fun c rest hc => by simp [readNumber, hc, hx]⟩

theorem carries_skipExponent : Carries Never limit skipExponent skipExponent := by
  have hdigits : Carries Never limit (fun c =>
      if c.rest.head?.any Char.isDigit then .ok ((), (takeDigits c).2)
      else c.faultHere .badNumber) _ :=
    .behindSomeDigits (k := fun r => .ok ((), r.2)) fun _ => carries_pure
  refine .of_head_self ⟨_, hdigits, fun c hc => by simp [skipExponent, hc]⟩ fun x => ?_
  by_cases hsign : x = '+' ∨ x = '-'
  · refine ⟨_, hdigits.behindNext, fun c rest hc => ?_⟩
    rcases hsign with rfl | rfl <;> simp [behindNext_eq hc, skipExponent, hc]
  · obtain ⟨hplus, hminus⟩ := not_or.1 hsign
    exact ⟨_, hdigits, fun c rest hc => by simp [skipExponent, hc, hplus, hminus]⟩

theorem carries_skipRealEnd : Carries Never limit skipRealEnd skipRealEnd := by
  refine .of_head_self ⟨_, carries_pure (a := ()), fun c hc => by rw [skipRealEnd, hc]⟩ fun x => ?_
  by_cases he : x = 'e' ∨ x = 'E'
  · refine ⟨_, carries_skipExponent.behindNext, fun c rest hc => ?_⟩
    rcases he with rfl | rfl <;> simp [behindNext_eq hc, skipRealEnd, hc]
  · obtain ⟨he, hE⟩ := not_or.1 he
    exact ⟨_, carries_pure (a := ()), fun c rest hc => by simp [skipRealEnd, hc, he, hE]⟩

/-- Passes over what may follow the digits in front of a number's point. -/
def skipNumberEnd : Reading Unit := fun after =>
  match after.rest with
  | '.' :: _ =>
    match takeDigits after.advance with
    | ([], after) => after.faultHere .badNumber
    | (_, after) => skipRealEnd after
  | _ => skipRealEnd after

theorem carries_skipNumberEnd : Carries Never limit skipNumberEnd skipNumberEnd := by
  refine .of_head_self ⟨_, carries_skipRealEnd, fun c hc => by rw [skipNumberEnd, hc]⟩ fun x => ?_
  by_cases hpoint : x = '.'
  · refine ⟨_, .behindNext (.behindDigits (k := fun (r : List Char × Cursor) => match r with
      | ([], after) => after.faultHere .badNumber
      | (_, after) => skipRealEnd after) fun digits => ?_), fun c rest hc => ?_⟩
    · cases digits with
      | nil => exact carries_faultHere _
      | cons d digits => exact carries_skipRealEnd
    · simp only [behindNext_eq hc, skipNumberEnd, hc, hpoint]
  · exact ⟨_, carries_skipRealEnd, fun c rest hc => by simp [skipNumberEnd, hc, hpoint]⟩

/-- A number is passed over like it is read, without its value. -/
theorem skipNumber_eq (c : Cursor) :
    skipNumber c =
      if c.rest.head?.any Char.isDigit then
        let zero := c.rest.head? = some '0'
        let after := if zero then c.advance else (takeDigits c).2
        if zero ∧ after.rest.head?.any Char.isDigit then after.faultHere .badNumber
        else skipNumberEnd after
      else c.faultHere .badNumber :=
  rfl

/-- A number is passed over as far as it is read. -/
theorem carries_skipNumber : Carries Always limit skipNumber skipNumber := by
  refine .of_head_self ⟨_, carries_faultHere .badNumber, fun c hc => by simp [skipNumber_eq, hc]⟩
    fun x => ?_
  by_cases hzero : x = '0'
  · refine ⟨_, .behindNext (.ite_head Char.isDigit (carries_faultHere .badNumber)
      carries_skipNumberEnd), fun c rest hc => ?_⟩
    simp [behindNext_eq hc, skipNumber_eq, hc, hzero]
  · refine ⟨_, .behindSomeDigits (k := fun r => skipNumberEnd r.2) fun _ => carries_skipNumberEnd,
      fun c rest hc => ?_⟩
    simp [skipNumber_eq, hc, hzero]

/-! ## Arrays and objects -/

/-- Reads the next of several parts with commas between them, or stops before the character that
closes them. The first part is read by `first`, the later ones are read behind their comma by
`later`. -/
def partOrClose (close : Char) (noEnd noComma : Problem) (first later : Reading (Option α))
    (index : Nat) : Reading (Option α) := fun c =>
  match c.rest with
  | [] => c.faultHere noEnd
  | x :: _ =>
    if x = close then .ok (none, c)
    else if index = 0 then first c
    else if x = ',' then later c.advance
    else c.faultHere noComma

/-- A closing bracket or a comma is told apart from anything else by one character. -/
theorem Carries.partOrClose {close : Char} {noEnd noComma : Problem}
    {first first' later later' : Reading (Option α)}
    (h : Carries (·.isSome = true) limit first first') (hlater : Carries Never limit later later')
    (index : Nat) :
    Carries (·.isSome = true) limit (partOrClose close noEnd noComma first later index)
      (partOrClose close noEnd noComma first' later' index) := by
  refine .of_head ⟨_, _, carries_faultHere noEnd,
    fun c hc => by simp only [Json.partOrClose, hc, and_self]⟩ fun x => ?_
  have hcomma : Carries (·.isSome = true) limit
      (fun c => if x = ',' then Json.behindNext later c else c.faultHere noComma)
      fun c => if x = ',' then Json.behindNext later' c else c.faultHere noComma :=
    .ite hlater.behindNext (carries_faultHere noComma)
  refine ⟨_, _, .ite (P := x = close) (carries_ok (a := none) Bool.false_ne_true)
    (.ite (P := index = 0) h hcomma), fun c rest hc => ?_⟩
  constructor <;> simp only [Json.partOrClose, hc, behindNext_eq hc]

/-- Reads a part behind a comma, where there has to be one. -/
def partBehindComma (close : Char) (part : Reading α) : Reading α := fun c =>
  match c.rest with
  | [] => c.faultHere .endInValue
  | x :: _ => if x = close then c.faultHere .trailingComma else part c

theorem Carries.partBehindComma {close : Char} {part part' : Reading α}
    (h : Carries takes limit part part') :
    Carries takes limit (partBehindComma close part) (partBehindComma close part') := by
  refine .of_head ⟨_, _, carries_faultHere .endInValue,
    fun c hc => by simp only [Json.partBehindComma, hc, and_self]⟩ fun x => ?_
  refine ⟨_, _, .ite (P := x = close) (carries_faultHere .trailingComma) h, fun c rest hc => ?_⟩
  constructor <;> simp only [Json.partBehindComma, hc]

/-- An item is the first one or stands behind a comma. -/
theorem readItem_eq (item : Reading α) (index : Nat) (c : Cursor) :
    let part : Reading (Option α) := fun c =>
      inside (.item index) item c >>= fun r => pure (some r.1, r.2)
    readItem item index c = partOrClose ']' .endInArray .noCommaInArray part
      (fun c => partBehindComma ']' part c.skipSpace) index c.skipSpace := by
  grind [readItem, partOrClose, partBehindComma]

/-- If the items are read locally, so is the way to the next one. -/
theorem Carries.readItem {item item' : Reading α} (h : Carries Always limit item item')
    (index : Nat) :
    Carries (·.isSome = true) limit (readItem item index) (readItem item' index) := by
  have heq : ∀ item : Reading α, Json.readItem item index = fun c => _ := fun item =>
    funext (readItem_eq item index)
  rw [heq, heq]
  exact (Carries.partOrClose (h.inside.mapTaken some)
    (h.inside.mapTaken some).partBehindComma.behindSpace index).behindSpace

/-- Reads a key that has to be there. -/
def readKeyHere : Reading (Option String) := fun c =>
  match c.rest with
  | '"' :: _ => do
    let (key, c) ← readStringTail c.advance
    return (some key, c)
  | _ => c.faultHere .badKey

/-- Keys are separated like items. -/
theorem readKey_eq (index : Nat) (c : Cursor) :
    readKey index c =
      partOrClose '}' .endInObject .noCommaInObject readKeyHere
        (fun c => partBehindComma '}' readKeyHere c.skipSpace) index c.skipSpace := by
  grind [readKey, partOrClose, partBehindComma, readKeyHere]

theorem carries_readKeyHere : Carries Always limit readKeyHere readKeyHere := by
  refine .of_head_self ⟨_, carries_faultHere .badKey, fun c hc => by rw [readKeyHere, hc]⟩
    fun x => ?_
  by_cases hquote : x = '"'
  · refine ⟨_, (carries_readStringTail.map some).behindNext, fun c rest hc => ?_⟩
    rw [behindNext_eq hc]
    simp only [readKeyHere, hc, hquote]
    rfl
  · exact ⟨_, carries_faultHere .badKey, fun c rest hc => by simp [readKeyHere, hc, hquote]⟩

theorem carries_readKey (index : Nat) :
    Carries (·.isSome = true) limit (readKey index) (readKey index) := by
  have heq : readKey index = fun c => _ := funext (readKey_eq index)
  rw [heq]
  exact (Carries.partOrClose (carries_readKeyHere.mono (fun _ _ => trivial) (Nat.le_refl _))
    carries_readKeyHere.any.partBehindComma.behindSpace index).behindSpace

/-- Reads a colon that has to be there. -/
def readColonHere : Reading Unit := fun c =>
  match c.rest with
  | ':' :: _ => .ok ((), c.advance)
  | [] => c.faultHere .endInObject
  | _ => c.faultHere .noColon

/-- A colon is a single character. -/
theorem carries_readColonHere : Carries Always limit readColonHere readColonHere := by
  refine .of_head_self ⟨_, carries_faultHere .endInObject, fun c hc => by rw [readColonHere, hc]⟩
    fun x => ?_
  by_cases hx : x = ':'
  · exact ⟨_, .behindNext (carries_pure (a := ())), fun c rest hc => by
      simp [behindNext_eq hc, readColonHere, hc, hx]⟩
  · exact ⟨_, carries_faultHere .noColon, fun c rest hc => by simp [readColonHere, hc, hx]⟩

theorem carries_readColon : Carries Always limit readColon readColon :=
  carries_readColonHere.behindSpace

theorem Carries.readField {value value' : String → Reading α}
    (h : ∀ key, Carries Never limit (value key) (value' key)) (index : Nat) :
    Carries (·.isSome = true) limit (readField value index) (readField value' index) := by
  refine (carries_readKey index).inside.bindWith fun key? => ?_
  cases key? with
  | none => exact carries_ok fun hsome => Bool.false_ne_true hsome.1
  | some key =>
    refine carries_readColon.bindTaken fun _ => ?_
    exact (h key).inside.map fun value => some (key, value)

/-- All items up to the closing bracket are read locally. -/
theorem Carries.readItems {item item' : Reading α} (h : Carries Always limit item item') :
    Carries Never limit (readItems item) (readItems item') :=
  (Carries.collect h.readItem).bind fun _ => carries_advance

/-- All entries up to the closing brace are read locally. -/
theorem Carries.readFields {value value' : String → Reading α}
    (h : ∀ key, Carries Never limit (value key) (value' key)) :
    Carries Never limit (readFields value) (readFields value') :=
  (Carries.collect (Carries.readField h)).bind fun _ => carries_advance

theorem skipItem_eq (item : Reading Unit) (index : Nat) (c : Cursor) :
    let part : Reading (Option Unit) := fun c => item c >>= fun r => pure (some r.1, r.2)
    skipItem item index c =
      partOrClose ']' .endInArray .noCommaInArray part part index c.skipSpace := by
  grind [skipItem, partOrClose]

theorem Carries.skipItem {item item' : Reading Unit} (h : Carries Always limit item item')
    (index : Nat) :
    Carries (·.isSome = true) limit (skipItem item index) (skipItem item' index) := by
  have heq : ∀ item, Json.skipItem item index = fun c => _ := fun item =>
    funext (skipItem_eq item index)
  rw [heq, heq]
  exact (Carries.partOrClose (h.mapTaken some) (h.mapTaken some) index).behindSpace

/-- Passes over a field behind the opening quote of its key. -/
def skipFieldTail (value : Reading Unit) : Reading (Option Unit) := fun c => do
  let ((), c) ← skipStringTail c
  let ((), c) ← readColon c
  let ((), c) ← value c
  return (some (), c)

/-- Behind a key that is passed over come a colon and a value. -/
theorem Carries.skipFieldTail {value value' : Reading Unit} (h : Carries Never limit value value') :
    Carries Never limit (skipFieldTail value) (skipFieldTail value') :=
  carries_skipStringTail.bind fun _ => carries_readColon.bind fun _ => h.map some

/-- Passes over a field that has to be there. -/
def skipFieldHere (value : Reading Unit) : Reading (Option Unit) := fun c =>
  match c.rest with
  | [] => c.faultHere .endInObject
  | '"' :: _ => skipFieldTail value c.advance
  | _ => c.faultHere .badKey

theorem Carries.skipFieldHere {takes : Option Unit → Prop} {value value' : Reading Unit}
    (h : Carries Never limit value value') :
    Carries takes limit (skipFieldHere value) (skipFieldHere value') := by
  refine .of_head ⟨_, _, carries_faultHere .endInObject,
    fun c hc => by simp only [Json.skipFieldHere, hc, and_self]⟩ fun x => ?_
  by_cases hquote : x = '"'
  · refine ⟨_, _, h.skipFieldTail.behindNext, fun c rest hc => ?_⟩
    constructor <;> simp only [Json.skipFieldHere, hc, behindNext_eq hc, hquote]
  · refine ⟨_, _, carries_faultHere .badKey, fun c rest hc => ?_⟩
    constructor <;> simp [Json.skipFieldHere, hc, hquote]

theorem skipField_eq (value : Reading Unit) (index : Nat) (c : Cursor) :
    let part : Reading (Option Unit) := fun c => skipFieldHere value c.skipSpace
    skipField value index c =
      partOrClose '}' .endInObject .noCommaInObject part part index c.skipSpace := by
  grind [skipField, skipFieldHere, skipFieldTail, partOrClose]

theorem Carries.skipField {value value' : Reading Unit} (h : Carries Never limit value value')
    (index : Nat) :
    Carries (·.isSome = true) limit (skipField value index) (skipField value' index) := by
  have heq : ∀ value, Json.skipField value index = fun c => _ := fun value =>
    funext (skipField_eq value index)
  rw [heq, heq]
  exact (Carries.partOrClose h.skipFieldHere.behindSpace h.skipFieldHere.behindSpace
    index).behindSpace

/-! ## Values -/

/-- A value without parts is known by its first character. -/
theorem carries_readScalar : Carries Always limit readScalar readScalar := by
  refine .of_head_self ⟨_, carries_faultHere .endInValue, fun c hc => by rw [readScalar, hc]⟩
    fun x => ?_
  by_cases hn : x = 'n'
  · refine ⟨_, ((carries_readWord "ull".toList).map fun _ => null).behindNext, fun c rest hc => ?_⟩
    simp only [behindNext_eq hc, readScalar, hc, hn]
    rfl
  by_cases ht : x = 't'
  · refine ⟨_, ((carries_readWord "rue".toList).map fun _ => bool true).behindNext,
      fun c rest hc => ?_⟩
    simp only [behindNext_eq hc, readScalar, hc, ht]
    rfl
  by_cases hf : x = 'f'
  · refine ⟨_, ((carries_readWord "alse".toList).map fun _ => bool false).behindNext,
      fun c rest hc => ?_⟩
    simp only [behindNext_eq hc, readScalar, hc, hf]
    rfl
  by_cases hminus : x = '-'
  · refine ⟨_, ((carries_readNumber true).map number).behindNext, fun c rest hc => ?_⟩
    simp only [behindNext_eq hc, readScalar, hc, hminus]
    rfl
  by_cases hquote : x = '"'
  · refine ⟨_, (carries_readStringTail.map string).behindNext, fun c rest hc => ?_⟩
    simp only [behindNext_eq hc, readScalar, hc, hquote]
    rfl
  by_cases hx : x.isDigit = true
  · refine ⟨_, (carries_readNumber false).mapTaken number, fun c rest hc => ?_⟩
    simp only [readScalar, hc, hx, if_true]
    rfl
  · refine ⟨_, carries_faultHere .noValue, fun c rest hc => ?_⟩
    simp [readScalar, hc, hx]

/-- Reads with `array` or `object` where a bracket or a brace opens one, with `other` elsewhere. -/
def byOpening (array object other : Reading α) : Reading α := fun c =>
  match c.rest with
  | '[' :: _ => array c
  | '{' :: _ => object c
  | _ => other c

/-- The first character says whether a value is an array, an object or none of both. -/
theorem Carries.byOpening {array array' object object' other other' : Reading α}
    (ha : Carries takes limit array array') (ho : Carries takes limit object object')
    (h : Carries takes limit other other') :
    Carries takes limit (byOpening array object other) (byOpening array' object' other') := by
  refine .of_head ⟨_, _, h, fun c hc => by simp only [Json.byOpening, hc, and_self]⟩ fun x => ?_
  by_cases hbracket : x = '['
  · exact ⟨_, _, ha, fun c rest hc => by simp [Json.byOpening, hc, hbracket]⟩
  by_cases hbrace : x = '{'
  · exact ⟨_, _, ho, fun c rest hc => by simp [Json.byOpening, hc, hbrace]⟩
  · exact ⟨_, _, h, fun c rest hc => by simp [Json.byOpening, hc, hbracket, hbrace]⟩

/-- No bracket may be opened any more. -/
theorem read_zero (c : Cursor) :
    read 0 c = byOpening (fun c => c.faultHere .tooDeep) (fun c => c.faultHere .tooDeep) readScalar
      c.skipSpace := by
  rw [read.eq_def]
  grind [byOpening]

/-- A bracket that is opened takes one level off the depth. -/
theorem read_succ (depth : Nat) (c : Cursor) :
    read (depth + 1) c =
      byOpening
        (behindNext fun c => readItems (read depth) c >>= fun r => pure (array r.1, r.2))
        (behindNext fun c =>
          readFields (fun _ => read depth) c >>= fun r => pure (ofEntries r.1, r.2))
        readScalar c.skipSpace := by
  rw [read.eq_def]
  grind [byOpening, behindNext]

/-- A value is read from its own text and the character behind it, to whatever depth. -/
theorem carries_read (depth : Nat) : Carries Always limit (read depth) (read depth) := by
  induction depth with
  | zero =>
    rw [show read 0 = fun c => _ from funext read_zero]
    exact (Carries.byOpening (carries_faultHere _) (carries_faultHere _)
      carries_readScalar).behindSpace
  | succ depth ih =>
    rw [show read (depth + 1) = fun c => _ from funext (read_succ depth)]
    exact (Carries.byOpening (ih.readItems.map array).behindNext
      ((Carries.readFields fun _ => ih.any).map ofEntries).behindNext
      carries_readScalar).behindSpace

theorem carries_skipScalar : Carries Always limit skipScalar skipScalar := by
  refine .of_head_self ⟨_, carries_faultHere .endInValue, fun c hc => by rw [skipScalar, hc]⟩
    fun x => ?_
  by_cases hminus : x = '-'
  · refine ⟨_, carries_skipNumber.any.behindNext, fun c rest hc => ?_⟩
    simp only [behindNext_eq hc, skipScalar, hc, hminus]
  by_cases hquote : x = '"'
  · refine ⟨_, carries_skipStringTail.behindNext, fun c rest hc => ?_⟩
    simp only [behindNext_eq hc, skipScalar, hc, hquote]
  by_cases hx : x.isDigit = true
  · refine ⟨_, carries_skipNumber, fun c rest hc => ?_⟩
    simp [skipScalar, hc, hx]
  · refine ⟨_, carries_readScalar.mapTaken fun _ => (), fun c rest hc => ?_⟩
    simp only [skipScalar, hc, hx]
    rfl

/-- Passes over the items of an array behind its bracket, and the closing bracket. -/
def skipItems (item : Reading Unit) : Reading Unit := fun c => do
  let (_, c) ← collect (skipItem item) c
  return ((), c.advance)

/-- Passes over the fields of an object behind its brace, and the closing brace. -/
def skipFields (value : Reading Unit) : Reading Unit := fun c => do
  let (_, c) ← collect (skipField value) c
  return ((), c.advance)

theorem Carries.skipItems {item item' : Reading Unit} (h : Carries Always limit item item') :
    Carries Never limit (skipItems item) (skipItems item') :=
  (Carries.collect h.skipItem).bind fun _ => carries_advance

theorem Carries.skipFields {value value' : Reading Unit} (h : Carries Never limit value value') :
    Carries Never limit (skipFields value) (skipFields value') :=
  (Carries.collect h.skipField).bind fun _ => carries_advance

theorem skipWithin_zero (c : Cursor) :
    skipWithin 0 c = byOpening (fun c => c.faultHere .tooDeep) (fun c => c.faultHere .tooDeep)
      skipScalar c.skipSpace := by
  rw [skipWithin.eq_def]
  grind [byOpening]

/-- Passing over a bracket takes one level off the depth as well. -/
theorem skipWithin_succ (depth : Nat) (c : Cursor) :
    skipWithin (depth + 1) c =
      byOpening (behindNext (skipItems (skipWithin depth)))
        (behindNext (skipFields (skipWithin depth))) skipScalar c.skipSpace := by
  rw [skipWithin.eq_def]
  grind [byOpening, behindNext, skipItems, skipFields]

/-- What takes up something takes up more than nothing. -/
theorem Carries.limit_zero (h : Carries Always limit p q) : Carries Always 0 p q' := by
  intro c a c' hc hread
  obtain ⟨n, hn, htakes, heq, -⟩ := h hc hread
  exact ⟨n, hn, htakes, heq, fun hlimit => absurd (htakes trivial) (Nat.not_lt_of_le hlimit)⟩

/-- No value is nested more deeply than its text is long. -/
theorem carries_skipWithin (depth depth' : Nat) :
    Carries Always depth' (skipWithin depth) (skipWithin depth') := by
  induction depth generalizing depth' with
  | zero =>
    cases depth' with
    | zero =>
      rw [show skipWithin 0 = fun c => _ from funext skipWithin_zero]
      exact (Carries.byOpening (carries_faultHere _) (carries_faultHere _)
        carries_skipScalar).behindSpace
    | succ depth' =>
      rw [show skipWithin 0 = fun c => _ from funext skipWithin_zero,
        show skipWithin (depth' + 1) = fun c => _ from funext (skipWithin_succ depth')]
      -- Nothing is read at a bracket.
      have hdeep (q : Reading Unit) :
          Carries Always (depth' + 1) (fun c => c.faultHere .tooDeep) q :=
        carries_error fun c r h => by cases h
      exact (Carries.byOpening (hdeep _) (hdeep _) carries_skipScalar).behindSpace
  | succ depth ih =>
    rw [show skipWithin (depth + 1) = fun c => _ from funext (skipWithin_succ depth)]
    cases depth' with
    | zero =>
      rw [show skipWithin 0 = fun c => _ from funext skipWithin_zero]
      -- An array or an object takes up its bracket, which is more than the limit.
      exact (Carries.byOpening (ih 0).skipItems.behindNext.limit_zero
        (ih 0).any.skipFields.behindNext.limit_zero carries_skipScalar).behindSpace
    | succ depth' =>
      rw [show skipWithin (depth' + 1) = fun c => _ from funext (skipWithin_succ depth')]
      exact (Carries.byOpening (ih depth').skipItems.behindNext_succ
        (ih depth').any.skipFields.behindNext_succ carries_skipScalar).behindSpace

/-- A value is passed over locally, although the depth for it is the bound of its place. -/
theorem carries_skip : Carries Always limit skip skip := by
  intro c a c' hc hread
  obtain ⟨n, hn, htakes, rfl, -⟩ := carries_skipWithin c.bound 0 hc hread
  refine ⟨n, hn, htakes, rfl, fun _ d hd hsame => ?_⟩
  obtain ⟨m, hm, -, hplace, hother⟩ := carries_skipWithin c.bound d.bound hc hread
  -- The same characters are taken up for every bound.
  obtain rfl : n = m := by
    have hlength := congrArg (fun c : Cursor => c.rest.length) hplace
    simp only [rest_advanceBy, List.length_drop] at hlength
    omega
  have hlength := congrArg List.length hsame
  rw [List.length_take, List.length_take] at hlength
  exact hother (by unfold Bounded at hd; omega) d hd hsame

end Json

end LintTypes
