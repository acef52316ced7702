import LintTypes.Proofs.Rebasing
import Mathlib.Order.Nat

/-!
# The walk of rebasing

The walk keeps the containers that are being visited apart from each other: each is missing in the
one around it until a task that was put down when it was entered brings it back. What has to be
shown is that all of them come back to where they were taken from.

A step into a container together with what is around it is a `Hole`: whatever value is put there is
found there. Visiting a value leaves its rebased form in its hole and the rest of the walk as it
was. This goes by induction on the value. The contents of a container are visited from the last one
to the first, so that on the way those in front are untouched and those behind are rebased; then the
container itself goes back to its hole, where nothing but `null` was left.
-/

namespace LintTypes

namespace Json

theorem rebasedItems_eq (items : List Json) : rebasedItems items = items.map rebased := by
  induction items with
  | nil => rfl
  | cons item items ih => rw [rebasedItems, ih, List.map_cons]

theorem rebasedFields_eq (fields : List (String × Json)) :
    rebasedFields fields = fields.map fun field => (field.1, field.2.rebased) := by
  induction fields with
  | nil => rfl
  | cons field fields ih => rw [rebasedFields, ih, List.map_cons]

end Json

namespace Rebase

/-! ## Several tasks -/

/-- The walk after its first `count` tasks; nothing if one of them cannot be done. -/
def Walk.after? : Nat → Walk → Option Walk
  | 0, walk => some walk
  | count + 1, walk => do after? count (← walk.next?)

variable {walk next last : Walk}

theorem Walk.after?_succ (hn : walk.next? = some next) (count : Nat) :
    walk.after? (count + 1) = next.after? count := by
  rw [after?, hn]
  rfl

theorem Walk.after?_add (count more : Nat) :
    walk.after? (count + more) = (walk.after? count).bind (after? more) := by
  induction count generalizing walk with
  | zero =>
    rw [Nat.zero_add]
    rfl
  | succ count ih =>
    rw [Nat.succ_add_eq_add_succ, Nat.add_succ]
    cases hn : walk.next? with
    | none => simp [after?, hn]
    | some next => rw [after?_succ hn, after?_succ hn, ih]

/-- At most so many tasks lead from one walk to the other. -/
def Walk.Within (bound : Nat) (walk last : Walk) : Prop :=
  ∃ count ≤ bound, walk.after? count = some last

theorem Walk.Within.refl (walk : Walk) : Within 0 walk walk := ⟨0, le_rfl, rfl⟩

theorem Walk.Within.head (hn : walk.next? = some next) {bound : Nat} (h : Within bound next last) :
    Within (bound + 1) walk last := by
  obtain ⟨count, hle, hlast⟩ := h
  exact ⟨count + 1, Nat.succ_le_succ hle, (after?_succ hn count).trans hlast⟩

theorem Walk.Within.trans {bound more : Nat} (h : Within bound walk next)
    (h' : Within more next last) : Within (bound + more) walk last := by
  obtain ⟨count, hle, hnext⟩ := h
  obtain ⟨count', hle', hlast⟩ := h'
  refine ⟨count + count', Nat.add_le_add hle hle', ?_⟩
  rw [after?_add, hnext]
  exact hlast

theorem Walk.Within.mono {bound more : Nat} (hle : bound ≤ more) (h : Within bound walk last) :
    Within more walk last := by
  obtain ⟨count, hcount, hlast⟩ := h
  exact ⟨count, hcount.trans hle, hlast⟩

/-! ## Holes -/

/-- The step leads to the hole that `around` leaves: what is put there is found there. -/
structure Hole (step : Step) (around : Json → Json) : Prop where
  valueAt? (value : Json) : valueAt? (around value) step = some value
  putAt (value other : Json) : putAt (around value) step other = around other

/-- The place behind the first items leads to the item there. -/
theorem hole_item (before behind : List Json) :
    Hole (.item before.length) fun value => .array (before ++ value :: behind) where
  valueAt? value := by simp [Rebase.valueAt?]
  putAt value other := by simp [Rebase.putAt]

theorem map_put_of_notMem {key : String} {fields : List (String × Json)}
    (hk : key ∉ fields.map Prod.fst) (other : Json) :
    (fields.map fun (k, v) => if k = key then (k, other) else (k, v)) = fields := by
  induction fields with
  | nil => rfl
  | cons field fields ih =>
    rw [List.map_cons, List.mem_cons, not_or] at hk
    rw [List.map_cons, ih hk.2]
    exact congrArg (· :: fields) (if_neg (Ne.symm hk.1))

/-- A key leads to its field if no other field has it. -/
theorem hole_field {key : String} {before behind : List (String × Json)}
    (hb : key ∉ before.map Prod.fst) (hk : key ∉ behind.map Prod.fst) :
    Hole (.field key) fun value => .object (before ++ (key, value) :: behind) where
  valueAt? value := by
    refine List.lookup_eq_some_iff.2 ⟨before, behind, rfl, fun field hfield => ?_⟩
    rw [bne_iff_ne]
    rintro rfl
    exact hb (List.mem_map_of_mem hfield)
  putAt value other := by
    rw [Rebase.putAt, List.map_append, List.map_cons, map_put_of_notMem hb, map_put_of_notMem hk]
    simp

/-! ## Visiting -/

/-- Visiting the value leaves its rebased form in its hole and the rest of the walk as it was. -/
def Visited (value : Json) : Prop :=
  ∀ step around, Hole step around → ∀ tasks scopes,
    Walk.Within (2 * value.size) ⟨.visit step :: tasks, around value :: scopes⟩
      ⟨tasks, around value.rebased :: scopes⟩

/-- Items are visited from the last one on. -/
theorem within_items {items : List Json} (hv : ∀ item ∈ items, Visited item) (behind : List Json)
    (tasks : List Task) (scopes : List Json) :
    Walk.Within (2 * (items.map Json.size).sum)
      ⟨((List.range items.length).map fun index => Task.visit (.item index)).reverse ++ tasks,
        .array (items ++ behind) :: scopes⟩
      ⟨tasks, .array (items.map Json.rebased ++ behind) :: scopes⟩ := by
  induction items using List.reverseRecOn generalizing behind with
  | nil => exact Walk.Within.refl _
  | append_singleton items item ih =>
    rw [List.forall_mem_append, List.forall_mem_singleton] at hv
    have hlast := hv.2 _ _ (hole_item items behind)
      (((List.range items.length).map fun index => Task.visit (.item index)).reverse ++ tasks)
      scopes
    have hrest := ih hv.1 (item.rebased :: behind)
    have hsizes : 2 * item.size + 2 * (items.map Json.size).sum ≤
        2 * ((items ++ [item]).map Json.size).sum := by
      simp only [List.map_append, List.map_cons, List.map_nil, List.sum_append, List.sum_singleton]
      omega
    simpa [List.range_succ] using (hlast.trans hrest).mono hsizes

/-- Fields are visited from the last one on. -/
theorem within_fields {fields : List (String × Json)} (hv : ∀ field ∈ fields, Visited field.2)
    (behind : List (String × Json)) (hk : ((fields ++ behind).map Prod.fst).Nodup)
    (tasks : List Task) (scopes : List Json) :
    Walk.Within (2 * ((fields.map Prod.snd).map Json.size).sum)
      ⟨(fields.map fun field => Task.visit (.field field.1)).reverse ++ tasks,
        .object (fields ++ behind) :: scopes⟩
      ⟨tasks, .object ((fields.map fun field => (field.1, field.2.rebased)) ++ behind) ::
        scopes⟩ := by
  induction fields using List.reverseRecOn generalizing behind with
  | nil => exact Walk.Within.refl _
  | append_singleton fields field ih =>
    obtain ⟨key, value⟩ := field
    rw [List.forall_mem_append, List.forall_mem_singleton] at hv
    rw [List.append_assoc, List.singleton_append, List.map_append, List.map_cons,
      List.nodup_append] at hk
    obtain ⟨hfields, hbehind, hapart⟩ := hk
    have hbefore : key ∉ fields.map Prod.fst := fun hmem =>
      hapart key hmem key (List.mem_cons_self ..) rfl
    have hlast := hv.2 _ _ (hole_field hbefore (List.nodup_cons.1 hbehind).1)
      ((fields.map fun field => Task.visit (.field field.1)).reverse ++ tasks) scopes
    have hrest := ih hv.1 ((key, value.rebased) :: behind) (by
      rw [List.map_append, List.map_cons, List.nodup_append]
      exact ⟨hfields, hbehind, hapart⟩)
    have hsizes : 2 * value.size + 2 * ((fields.map Prod.snd).map Json.size).sum ≤
        2 * (((fields ++ [(key, value)]).map Prod.snd).map Json.size).sum := by
      simp only [List.map_append, List.map_cons, List.map_nil, List.sum_append, List.sum_singleton]
      omega
    simpa using (hlast.trans hrest).mono hsizes

/-- A container is entered, its contents are visited, and it goes back to its hole. -/
theorem visited_container {value : Json}
    (hn : ∀ step around, Hole step around → ∀ tasks scopes,
      Walk.next? ⟨.visit step :: tasks, around value :: scopes⟩ =
        some ⟨visits value ++ .leave step :: tasks, value :: around .null :: scopes⟩)
    {bound : Nat} (hb : value.size = bound + 1)
    (hc : ∀ tasks scopes, Walk.Within (2 * bound) ⟨visits value ++ tasks, value :: scopes⟩
      ⟨tasks, value.rebased :: scopes⟩) : Visited value := by
  intro step around hole tasks scopes
  have hleave : Walk.next? ⟨.leave step :: tasks, value.rebased :: around .null :: scopes⟩ =
      some ⟨tasks, around value.rebased :: scopes⟩ := by
    simp [Walk.next?, hole.valueAt?, hole.putAt]
  have hinside := hc (.leave step :: tasks) (around .null :: scopes)
  have hwalk := hinside.trans ((Walk.Within.refl _).head hleave)
  exact (hwalk.head (hn step around hole tasks scopes)).mono (by omega)

/-- A value that holds no other one takes one task. -/
theorem visited_single {value : Json}
    (hn : ∀ step around, Hole step around → ∀ tasks scopes,
      Walk.next? ⟨.visit step :: tasks, around value :: scopes⟩ =
        some ⟨tasks, around value.rebased :: scopes⟩) : Visited value := by
  intro step around hole tasks scopes
  have hsize : 1 ≤ value.size := by cases value <;> simp [Json.size]
  exact ((Walk.Within.refl _).head (hn step around hole tasks scopes)).mono (by omega)

/-- From its items on, the visit of an array leaves its rebased form. -/
theorem within_array {items : List Json} (hv : ∀ item ∈ items, Visited item)
    (tasks : List Task) (scopes : List Json) :
    Walk.Within (2 * (items.map Json.size).sum)
      ⟨visits (.array items) ++ tasks, .array items :: scopes⟩
      ⟨tasks, (Json.array items).rebased :: scopes⟩ := by
  have hwalk := within_items hv [] tasks scopes
  rw [List.append_nil, List.append_nil] at hwalk
  rwa [Json.rebased, Json.rebasedItems_eq, visits, stepsInto, List.map_map]

/-- From its fields on, the visit of an object leaves its rebased form, since its keys are
distinct. -/
theorem within_object {fields : List (String × Json)} (hk : (fields.map Prod.fst).Nodup)
    (hv : ∀ field ∈ fields, Visited field.2) (tasks : List Task) (scopes : List Json) :
    Walk.Within (2 * ((fields.map Prod.snd).map Json.size).sum)
      ⟨visits (.object fields) ++ tasks, .object fields :: scopes⟩
      ⟨tasks, (Json.object fields).rebased :: scopes⟩ := by
  have hwalk := within_fields hv [] (by rwa [List.append_nil]) tasks scopes
  rw [List.append_nil, List.append_nil] at hwalk
  have hvisits : visits (.object fields) =
      (fields.map fun field => Task.visit (.field field.1)).reverse :=
    congrArg List.reverse List.map_map
  rwa [Json.rebased, Json.rebasedFields_eq, hvisits]

/-- Every value with distinct keys is visited as it should be: two tasks for a container, to enter
and to leave it, and one for anything else. -/
theorem visited_of_distinct {value : Json} (hd : value.Distinct) : Visited value := by
  induction hd with
  | null | bool _ | number _ =>
    refine visited_single fun step around hole tasks scopes => ?_
    simp [Walk.next?, hole.valueAt?, Json.rebased]
  | string text =>
    refine visited_single fun step around hole tasks scopes => ?_
    simp [Walk.next?, hole.valueAt?, hole.putAt, Json.rebased]
  | @array items _ ih =>
    refine visited_container (fun step around hole tasks scopes => ?_) ?_ (within_array ih)
    · simp [Walk.next?, hole.valueAt?, hole.putAt]
    · rw [Json.size, Json.sizeItems_eq]
  | @object fields hk _ ih =>
    refine visited_container (fun step around hole tasks scopes => ?_) ?_ (within_object hk ih)
    · simp [Walk.next?, hole.valueAt?, hole.putAt]
    · rw [Json.size, Json.sizeFields_eq]

/-! ## The whole walk -/

/-- The walk over a value, before its first task. -/
def Walk.start (value : Json) : Walk := ⟨visits value, [value]⟩

/-- The walk is over, with the rebased value left, after at most two tasks for each value in it. -/
theorem within_start {value : Json} (hd : value.Distinct) (hs : ∀ text, value ≠ .string text) :
    Walk.Within (2 * value.size) (.start value) ⟨[], [value.rebased]⟩ := by
  cases hd with
  | null | bool _ | number _ => exact (Walk.Within.refl _).mono (Nat.zero_le _)
  | string text => exact absurd rfl (hs text)
  | @array items h =>
    have hwalk := within_array (fun item hitem => visited_of_distinct (h item hitem)) [] []
    rw [List.append_nil] at hwalk
    refine hwalk.mono ?_
    rw [Json.size, Json.sizeItems_eq]
    omega
  | @object fields hk h =>
    have hwalk := within_object hk (fun field hfield => visited_of_distinct (h field hfield)) [] []
    rw [List.append_nil] at hwalk
    refine hwalk.mono ?_
    rw [Json.size, Json.sizeFields_eq]
    omega

theorem Walk.finish?_next {walk next : Walk} (hn : walk.next? = some next) (steps : Nat) :
    walk.finish? (steps + 1) = next.finish? steps := by
  rw [finish?]
  · rw [hn]
    rfl
  · rintro root rfl
    cases hn

theorem Walk.finish?_over (steps : Nat) (root : Json) :
    Walk.finish? steps ⟨[], [root]⟩ = some root := by
  cases steps <;> rfl

/-- A walk that gets to its end finishes with enough steps. -/
theorem Walk.Within.finish? {walk : Walk} {root : Json} {bound : Nat}
    (h : walk.Within bound ⟨[], [root]⟩) : walk.finish? bound = some root := by
  obtain ⟨count, hle, hlast⟩ := h
  induction count generalizing walk bound with
  | zero =>
    cases hlast
    exact finish?_over bound root
  | succ count ih =>
    obtain ⟨next, hn, hlast⟩ := Option.bind_eq_some_iff.1 hlast
    obtain ⟨bound, rfl⟩ : ∃ less, bound = less + 1 := ⟨bound - 1, by omega⟩
    rw [finish?_next hn]
    exact ih (Nat.le_of_succ_le_succ hle) hlast

/-- On the way to its end a walk never stops. -/
theorem Walk.Within.goes_on {walk last : Walk} {root : Json} {bound count : Nat}
    (h : walk.Within bound ⟨[], [root]⟩) (hl : walk.after? count = some last) :
    last = ⟨[], [root]⟩ ∨ ∃ next, last.next? = some next := by
  obtain ⟨total, -, hend⟩ := h
  rcases Nat.lt_trichotomy count total with hlt | rfl | hgt
  · obtain ⟨more, rfl⟩ : ∃ more, total = count + (more + 1) := ⟨total - count - 1, by omega⟩
    rw [after?_add, hl] at hend
    cases hn : last.next? with
    | none => simp [after?, hn] at hend
    | some next => exact .inr ⟨next, rfl⟩
  · rw [hl] at hend
    exact .inl (Option.some.inj hend)
  · obtain ⟨more, rfl⟩ : ∃ more, count = total + (more + 1) := ⟨count - total - 1, by omega⟩
    rw [after?_add, hend] at hl
    cases hl

end Rebase

open Rebase

/-- The walk gives what the recursion gives. A string that is the whole value is not walked over. -/
theorem Json.rebase_eq_rebased {value : Json} (hd : value.Distinct) :
    value.rebase = value.rebased := by
  cases value with
  | string text => rfl
  | array items =>
    have hfinish := (within_start hd nofun).finish?
    exact congrArg (Option.getD · (array items)) hfinish
  | object fields =>
    have hfinish := (within_start hd nofun).finish?
    exact congrArg (Option.getD · (object fields)) hfinish
  | _ => rfl

/-- Rebasing by a walk is rebasing by recursion. The walk over a value that is not a string itself
is over after at most two tasks for each value in it, with nothing left but the rebased value, and
until then each of its tasks finds the container and the place that it is about. -/
theorem Json.rebase_walks {value : Json} (hd : value.Distinct) :
    value.rebase = value.rebased ∧
      ((∀ text, value ≠ .string text) →
        (∃ count ≤ 2 * value.size,
          (Walk.start value).after? count = some ⟨[], [value.rebased]⟩) ∧
        ∀ count walk, (Walk.start value).after? count = some walk →
          walk = ⟨[], [value.rebased]⟩ ∨ ∃ next, walk.next? = some next) := by
  refine ⟨rebase_eq_rebased hd, fun hs => ⟨within_start hd hs, fun count walk hw => ?_⟩⟩
  exact (within_start hd hs).goes_on hw

/-- References in containers inside containers. -/
def nestedReferences : Json :=
  .object [("a", .array [.string "#/items/0/x", .null, .array []]),
    ("b", .object [("c", .string "#/items/0/#/items/0/"), ("d", .bool true)])]

/-- Containers inside containers come back to their places, and only one prefix goes. -/
theorem Json.rebase_walks_nested :
    nestedReferences.Distinct ∧
      nestedReferences.rebase =
        .object [("a", .array [.string "#/x", .null, .array []]),
          ("b", .object [("c", .string "#/#/items/0/"), ("d", .bool true)])] ∧
      ∃ count ≤ 2 * nestedReferences.size,
        (Walk.start nestedReferences).after? count = some ⟨[], [nestedReferences.rebased]⟩ := by
  have hd : nestedReferences.Distinct := by simp [nestedReferences]
  obtain ⟨hrebase, hwalk⟩ := rebase_walks hd
  exact ⟨hd, hrebase.trans rfl, (hwalk nofun).1⟩

end LintTypes
