import LintTypes.Proofs.RebasedPlaces

/-!
# Rebasing twice

Rebasing takes the prefix of a reference away once, and what is behind it stays. So a rebased string
starts with the prefix if the steps to the first schema of a sequence stood there twice: the
reference led into the `items` of the element itself, and that is where it still leads. Rebasing
once more would take those steps away too; a schema on which it does nothing is one in which no
string has them twice.
-/

namespace LintTypes

namespace Rebase

/-- The start of a reference from a sequence to the first schema in the `items` of its first one. -/
def nestedPrefix : List Char := sequencePrefix ++ "items/0/".toList

theorem rebaseChars_of_unprefixed {text : List Char} (h : ¬ sequencePrefix <+: text) :
    rebaseChars text = text := by
  have hprefix : ¬ sequencePrefix.isPrefixOf text = true := mt List.isPrefixOf_iff_prefix.1 h
  rw [rebaseChars, if_neg hprefix]

theorem rebaseChars_eq_self_iff {text : List Char} :
    rebaseChars text = text ↔ ¬ sequencePrefix <+: text := by
  constructor
  · intro hself hprefix
    obtain ⟨rest, rfl⟩ := hprefix
    have hlength := congrArg List.length hself
    rw [rebaseChars_append, List.length_append] at hlength
    have hten : sequencePrefix.length = 10 := rfl
    simp only [List.length_cons, hten] at hlength
    omega
  · exact rebaseChars_of_unprefixed

/-- A rebased text has the prefix if the text had it twice. -/
theorem prefix_rebaseChars_iff {text : List Char} :
    sequencePrefix <+: rebaseChars text ↔ nestedPrefix <+: text := by
  by_cases h : sequencePrefix <+: text
  · obtain ⟨rest, rfl⟩ := h
    have hstart : sequencePrefix = ['#', '/'] ++ "items/0/".toList := rfl
    have hrest : '#' :: '/' :: rest = ['#', '/'] ++ rest := rfl
    rw [rebaseChars_append, nestedPrefix, List.prefix_append_right_inj, hrest]
    nth_rewrite 1 [hstart]
    rw [List.prefix_append_right_inj]
  · rw [rebaseChars_of_unprefixed h]
    have htwice : ¬ nestedPrefix <+: text := fun htwice =>
      h ((List.prefix_append ..).trans htwice)
    exact iff_of_false h htwice

theorem rebaseText_eq_self_iff {text : String} :
    rebaseText text = text ↔ ¬ sequencePrefix <+: text.toList := by
  rw [← rebaseChars_eq_self_iff, rebaseText, ← String.toList_inj, String.toList_ofList]

theorem prefix_rebaseText_iff {text : String} :
    sequencePrefix <+: (rebaseText text).toList ↔ nestedPrefix <+: text.toList := by
  rw [rebaseText, String.toList_ofList]
  exact prefix_rebaseChars_iff

end Rebase

namespace Json

open Rebase

variable {value : Json}

theorem at?_cons (value : Json) (step : Step) (path : List Step) :
    value.at? (step :: path) = (value.step? step).bind (·.at? path) := rfl

theorem Distinct.rebased (hd : value.Distinct) : value.rebased.Distinct := by
  induction hd with
  | null | bool _ | number _ | string _ => simp [Json.rebased]
  | array _ ih =>
    rw [Json.rebased, rebasedItems_eq]
    exact .array (List.forall_mem_map.2 ih)
  | @object fields hk _ ih =>
    have hkeys : ((rebasedFields fields).map Prod.fst) = fields.map Prod.fst := by
      rw [rebasedFields_eq, List.map_map]
      rfl
    refine .object (hkeys ▸ hk) ?_
    rw [rebasedFields_eq]
    exact List.forall_mem_map.2 ih

/-- The strings of a rebased value are those of the value, rebased where they stand. -/
theorem at?_rebased_eq_string_iff {path : List Step} {text : String} :
    value.rebased.at? path = some (.string text) ↔
      ∃ before, value.at? path = some (.string before) ∧ rebaseText before = text := by
  rw [at?_rebased]
  constructor
  · intro h
    obtain ⟨inner, hinner, hrebased⟩ := Option.map_eq_some_iff.1 h
    cases inner with
    | string before =>
      cases hrebased
      exact ⟨before, hinner, rfl⟩
    | _ => cases hrebased
  · rintro ⟨before, hbefore, rfl⟩
    rw [hbefore]
    rfl

theorem not_prefix_of_rebased_eq_self (h : value.rebased = value) {path : List Step} {text : String}
    (ht : value.at? path = some (.string text)) : ¬ sequencePrefix <+: text.toList := by
  have hplace := at?_rebased_eq_string_iff.2 ⟨text, ht, rfl⟩
  rw [h, ht] at hplace
  injection hplace with hstring
  injection hstring with htext
  exact rebaseText_eq_self_iff.1 htext.symm

/-- A value without the prefix is left alone. The induction is on the value; what stands at a place
of one of its items or fields stands in it one step further down. -/
theorem rebased_eq_self (hd : value.Distinct)
    (h : ∀ path text, value.at? path = some (.string text) → ¬ sequencePrefix <+: text.toList) :
    value.rebased = value := by
  induction hd with
  | null | bool _ | number _ => rfl
  | string text =>
    have htext := h [] text rfl
    rw [Json.rebased, rebaseText_eq_self_iff.2 htext]
  | @array items _ ih =>
    have hitems : items.map Json.rebased = items := by
      refine (List.map_congr_left fun item hitem => ?_).trans (List.map_id items)
      obtain ⟨index, hindex⟩ := List.mem_iff_getElem?.1 hitem
      refine ih item hitem fun path text ht => h (.item index :: path) text ?_
      have hstep : (Json.array items).step? (.item index) = some item := hindex
      rw [at?_cons, hstep]
      exact ht
    rw [Json.rebased, rebasedItems_eq, hitems]
  | @object fields hk _ ih =>
    have hfields : fields.map (fun field => (field.1, field.2.rebased)) = fields := by
      refine (List.map_congr_left fun field hfield => ?_).trans (List.map_id fields)
      have hstep : (Json.object fields).step? (.field field.1) = some field.2 :=
        Entries.lookup_of_mem hk hfield
      have hself : field.2.rebased = field.2 := by
        refine ih field hfield fun path text ht => h (.field field.1 :: path) text ?_
        rw [at?_cons, hstep]
        exact ht
      rw [hself, id]
    rw [Json.rebased, rebasedFields_eq, hfields]

/-- Rebasing takes the prefix away once. A string of the rebased value starts with it just where the
value has it twice, and rebasing again changes nothing just if the value has it twice nowhere. -/
theorem rebase_rebase (hd : value.Distinct) :
    (∀ path, (∃ text, value.rebase.at? path = some (.string text) ∧
        sequencePrefix <+: text.toList) ↔
      ∃ text, value.at? path = some (.string text) ∧ nestedPrefix <+: text.toList) ∧
    (value.rebase.rebase = value.rebase ↔
      ∀ path text, value.at? path = some (.string text) → ¬ nestedPrefix <+: text.toList) := by
  rw [rebase_eq_rebased hd, rebase_eq_rebased hd.rebased]
  constructor
  · intro path
    constructor
    · rintro ⟨text, ht, hprefix⟩
      obtain ⟨before, hbefore, rfl⟩ := at?_rebased_eq_string_iff.1 ht
      exact ⟨before, hbefore, prefix_rebaseText_iff.1 hprefix⟩
    · rintro ⟨text, ht, hnested⟩
      have hrebased := at?_rebased_eq_string_iff.2 ⟨text, ht, rfl⟩
      exact ⟨rebaseText text, hrebased, prefix_rebaseText_iff.2 hnested⟩
  · constructor
    · intro hself path text ht hnested
      have hrebased := at?_rebased_eq_string_iff.2 ⟨text, ht, rfl⟩
      exact not_prefix_of_rebased_eq_self hself hrebased (prefix_rebaseText_iff.2 hnested)
    · intro h
      refine rebased_eq_self hd.rebased fun path text ht hprefix => ?_
      obtain ⟨before, hbefore, rfl⟩ := at?_rebased_eq_string_iff.1 ht
      exact h path before hbefore (prefix_rebaseText_iff.1 hprefix)

/-- A schema with a reference into its own `items` and one to a place beside them. -/
def itemReferences : Json :=
  .object [("items", .array [.object [("$ref", .string "#/items/0/items/0/x")]]),
    ("$ref", .string "#/items/0/$defs/x")]

/-- The first reference keeps the prefix that it had twice; rebasing again would change it. -/
theorem rebase_rebase_itemReferences :
    itemReferences.Distinct ∧
      (∃ text, itemReferences.rebase.at? [.field "items", .item 0, .field "$ref"] =
        some (.string text) ∧ sequencePrefix <+: text.toList) ∧
      (¬ ∃ text, itemReferences.rebase.at? [.field "$ref"] = some (.string text) ∧
        sequencePrefix <+: text.toList) ∧
      itemReferences.rebase.rebase ≠ itemReferences.rebase := by
  have hd : itemReferences.Distinct := by simp [itemReferences]
  obtain ⟨hplaces, hself⟩ := rebase_rebase hd
  have hnested : itemReferences.at? [.field "items", .item 0, .field "$ref"] =
    some (.string "#/items/0/items/0/x") := rfl
  have hprefix : nestedPrefix <+: "#/items/0/items/0/x".toList := by decide
  refine ⟨hd, (hplaces _).2 ⟨_, hnested, hprefix⟩, fun hbeside => ?_, fun heq => ?_⟩
  · obtain ⟨text, ht, hprefix⟩ := (hplaces _).1 hbeside
    cases ht
    exact absurd hprefix (by decide)
  · exact hself.1 heq _ _ hnested hprefix

/-- Rebasing can leave a string with the prefix, and then rebasing again changes it. -/
theorem not_rebase_rebase :
    ¬ ∀ value : Json, value.Distinct →
      (∀ path text, value.rebase.at? path = some (.string text) →
        ¬ sequencePrefix <+: text.toList) ∧
      value.rebase.rebase = value.rebase := by
  intro h
  have hstring := (h (.string "#/items/0/items/0/x") (.string _)).1 [] "#/items/0/x" rfl
  exact hstring (by decide)

end Json

end LintTypes
