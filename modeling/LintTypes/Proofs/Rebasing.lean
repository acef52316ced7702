import LintTypes.Proofs.Nodes
import LintTypes.Schema.Rebase

/-!
# What rebasing keeps

Rebasing changes strings only. In particular no object gets a key that it did not have, which the
walk keeps true of all containers that it has detached.
-/

namespace LintTypes

namespace Json

/-- No object in the value has the key. -/
inductive Lacks (key : String) : Json → Prop where
  | null : Lacks key .null
  | bool (value : Bool) : Lacks key (.bool value)
  | number (value : JsonNumber) : Lacks key (.number value)
  | string (value : String) : Lacks key (.string value)
  | array {items : List Json} (h : ∀ item ∈ items, Lacks key item) : Lacks key (.array items)
  | object {fields : List (String × Json)} (hk : ∀ field ∈ fields, field.1 ≠ key)
      (h : ∀ field ∈ fields, Lacks key field.2) : Lacks key (.object fields)

variable {key : String} {value : Json}

attribute [simp] Lacks.null Lacks.bool Lacks.number Lacks.string

@[simp] theorem lacks_array {items : List Json} :
    Lacks key (.array items) ↔ ∀ item ∈ items, Lacks key item := by
  constructor
  · rintro ⟨⟩
    assumption
  · exact .array

@[simp] theorem lacks_object {fields : List (String × Json)} :
    Lacks key (.object fields) ↔
      (∀ field ∈ fields, field.1 ≠ key) ∧ ∀ field ∈ fields, Lacks key field.2 := by
  constructor
  · rintro ⟨⟩
    exact ⟨‹_›, ‹_›⟩
  · exact fun h => .object h.1 h.2

/-- A key that is nowhere in a value is no key of it. -/
theorem Lacks.get? (h : value.Lacks key) : value.get? key = none := by
  cases value with
  | object fields =>
    rw [lacks_object] at h
    refine Option.eq_none_iff_forall_ne_some.2 fun inner hinner => ?_
    exact h.1 _ (mem_of_lookup hinner) rfl
  | _ => rfl

/-- What is nowhere in a value is nowhere in what is inside. -/
theorem Lacks.step? (h : value.Lacks key) {step : Step} {inner : Json}
    (hs : value.step? step = some inner) : inner.Lacks key := by
  cases step with
  | field name =>
    cases value with
    | object fields => exact (lacks_object.1 h).2 _ (mem_of_lookup hs)
    | _ => cases hs
  | item index =>
    cases value with
    | array items => exact lacks_array.1 h _ (List.mem_of_getElem? hs)
    | _ => cases hs

end Json

namespace Rebase

variable {key : String} {value inner : Json}

theorem lacks_valueAt? (h : value.Lacks key) {step : Step}
    (hs : valueAt? value step = some inner) : inner.Lacks key := by
  unfold valueAt? at hs
  split at hs
  · exact (Json.lacks_object.1 h).2 _ (Json.mem_of_lookup hs)
  · exact Json.lacks_array.1 h _ (List.mem_of_getElem? hs)
  · cases hs

/-- If neither a value nor what is put into it has the key, then the outcome does not have it. -/
theorem lacks_putAt (h : value.Lacks key) (hi : inner.Lacks key) (step : Step) :
    (putAt value step inner).Lacks key := by
  unfold putAt
  split
  · rename_i fields name _
    rw [Json.lacks_object] at h ⊢
    simp only [List.forall_mem_map]
    refine ⟨fun field hf => ?_, fun field hf => ?_⟩
    · have := h.1 field hf
      split <;> simpa using this
    · have := h.2 field hf
      split
      · exact hi
      · exact this
  · rename_i items index _
    rw [Json.lacks_array] at h ⊢
    intro item hitem
    rcases List.mem_or_eq_of_mem_set hitem with hitem | rfl
    · exact h item hitem
    · exact hi
  · exact h

/-- The invariant of the walk: no detached container has the key. -/
def Walk.Lacks (key : String) (walk : Walk) : Prop := ∀ scope ∈ walk.scopes, scope.Lacks key

theorem Walk.Lacks.next? {walk next : Walk} (h : walk.Lacks key) (hn : walk.next? = some next) :
    next.Lacks key := by
  match walk, h, hn with
  | ⟨.visit step :: tasks, scope :: scopes⟩, h, hn =>
    obtain ⟨hscope, hscopes⟩ := List.forall_mem_cons.1 h
    obtain ⟨visited, hvisited, hn⟩ := Option.bind_eq_some_iff.1 hn
    have hinner := lacks_valueAt? hscope hvisited
    split at hn <;> cases hn
    · exact List.forall_mem_cons.2 ⟨lacks_putAt hscope (.string _) step, hscopes⟩
    · exact List.forall_mem_cons.2 ⟨hinner,
        List.forall_mem_cons.2 ⟨lacks_putAt hscope .null step, hscopes⟩⟩
    · exact List.forall_mem_cons.2 ⟨hinner,
        List.forall_mem_cons.2 ⟨lacks_putAt hscope .null step, hscopes⟩⟩
    · exact List.forall_mem_cons.2 ⟨hscope, hscopes⟩
  | ⟨.leave step :: tasks, child :: scope :: scopes⟩, h, hn =>
    obtain ⟨hchild, hrest⟩ := List.forall_mem_cons.1 h
    obtain ⟨hscope, hscopes⟩ := List.forall_mem_cons.1 hrest
    obtain ⟨_, -, hn⟩ := Option.bind_eq_some_iff.1 hn
    cases hn
    exact List.forall_mem_cons.2 ⟨lacks_putAt hscope hchild step, hscopes⟩
  | ⟨[], _⟩, _, hn => cases hn
  | ⟨.visit _ :: _, []⟩, _, hn => cases hn
  | ⟨.leave _ :: _, []⟩, _, hn => cases hn
  | ⟨.leave _ :: _, [_]⟩, _, hn => cases hn

/-- However many steps a walk takes, the key does not come in. -/
theorem Walk.Lacks.finish? {steps : Nat} {walk : Walk} {root : Json} (h : walk.Lacks key)
    (hf : walk.finish? steps = some root) : root.Lacks key := by
  induction steps, walk using Walk.finish?.induct with
  | case1 steps last =>
    rw [Walk.finish?] at hf
    cases hf
    exact h _ (List.mem_singleton_self _)
  | case2 steps walk hnot ih =>
    rw [Walk.finish?] at hf
    · obtain ⟨next, hnext, hf⟩ := Option.bind_eq_some_iff.1 hf
      exact ih next (h.next? hnext) hf
    · exact hnot
  | case3 walk hnot =>
    rw [Walk.finish?] at hf
    · cases hf
    · exact hnot

end Rebase

/-- Rebasing adds no key. -/
theorem Json.Lacks.rebase {key : String} {value : Json} (h : value.Lacks key) :
    value.rebase.Lacks key := by
  have hwalk : ∀ steps, (((Rebase.Walk.mk (Rebase.visits value) [value]).finish? steps).getD
      value).Lacks key := by
    intro steps
    cases hfinish : (Rebase.Walk.mk (Rebase.visits value) [value]).finish? steps with
    | none => exact h
    | some root => exact Rebase.Walk.Lacks.finish? (by simpa [Rebase.Walk.Lacks] using h) hfinish
  cases value with
  | string text => exact .string _
  | array items => exact hwalk _
  | object fields => exact hwalk _
  | _ => exact h

end LintTypes
