import LintTypes.Json.Pointer
import Mathlib.Algebra.GroupWithZero.Nat
import Mathlib.Algebra.Order.Group.Nat
import Mathlib.Data.List.Induction
import Mathlib.Data.List.Nodup

/-!
# Nodes of a document

A node is in a document if its steps lead to its value there. So are the nodes below it and those
that pointers lead to. A path belongs to one node only, as long as no object repeats a key.
-/

namespace LintTypes

/-- If no key repeats, then each entry is the one that is found by its key. -/
theorem Entries.lookup_of_mem {α : Type} {fields : List (String × α)}
    (hk : (fields.map Prod.fst).Nodup) {key : String} {value : α} (h : (key, value) ∈ fields) :
    fields.lookup key = some value := by
  induction fields with
  | nil => cases h
  | cons field fields ih =>
    obtain ⟨k, v⟩ := field
    obtain ⟨hnot, hrest⟩ := List.nodup_cons.1 hk
    rcases List.mem_cons.1 h with heq | hmem
    · cases heq
      simp
    · have hne : key ≠ k := by
        rintro rfl
        exact hnot (List.mem_map.2 ⟨_, hmem, rfl⟩)
      rw [List.lookup_cons, beq_false_of_ne hne]
      exact ih hrest hmem

namespace Json

/-- No object in the value holds a key twice. -/
inductive Distinct : Json → Prop where
  | null : Distinct .null
  | bool (value : Bool) : Distinct (.bool value)
  | number (value : JsonNumber) : Distinct (.number value)
  | string (value : String) : Distinct (.string value)
  | array {items : List Json} (h : ∀ item ∈ items, Distinct item) : Distinct (.array items)
  | object {fields : List (String × Json)} (hk : (fields.map Prod.fst).Nodup)
      (h : ∀ field ∈ fields, Distinct field.2) : Distinct (.object fields)

@[simp] theorem distinct_array {items : List Json} :
    Distinct (.array items) ↔ ∀ item ∈ items, item.Distinct := by
  constructor
  · rintro ⟨⟩
    assumption
  · exact .array

@[simp] theorem distinct_object {fields : List (String × Json)} :
    Distinct (.object fields) ↔
      (fields.map Prod.fst).Nodup ∧ ∀ field ∈ fields, field.2.Distinct := by
  constructor
  · rintro ⟨⟩
    exact ⟨‹_›, ‹_›⟩
  · exact fun h => .object h.1 h.2

attribute [simp] Distinct.null Distinct.bool Distinct.number Distinct.string

theorem sizeItems_eq (items : List Json) : size.sizeItems items = (items.map size).sum := by
  induction items with
  | nil => rfl
  | cons item items ih => rw [size.sizeItems, ih, List.map_cons, List.sum_cons]

theorem sizeFields_eq (fields : List (String × Json)) :
    size.sizeFields fields = ((fields.map Prod.snd).map size).sum := by
  induction fields with
  | nil => rfl
  | cons field fields ih => rw [size.sizeFields, ih, List.map_cons, List.map_cons, List.sum_cons]

/-- The value that one step leads to. -/
def step? (value : Json) : Step → Option Json
  | .field key => value.get? key
  | .item index => (value.items?.getD [])[index]?

/-- The value that steps lead to. -/
def at? (document : Json) (path : List Step) : Option Json := path.foldlM step? document

/-- A path is followed step by step. -/
theorem at?_append (document : Json) (path : List Step) (step : Step) :
    document.at? (path ++ [step]) = (document.at? path).bind (·.step? step) := by
  simp [at?, List.foldlM_append]

/-- The first field of a key is its value. -/
theorem mem_of_lookup {fields : List (String × Json)} {key : String} {value : Json}
    (h : fields.lookup key = some value) : (key, value) ∈ fields := by
  obtain ⟨before, after, hsplit, -⟩ := List.lookup_eq_some_iff.1 h
  rw [hsplit]
  simp

theorem lookup_map (f : String → Json → Json) (fields : List (String × Json)) (key : String) :
    (fields.map fun field => (field.1, f field.1 field.2)).lookup key =
      (fields.lookup key).map (f key) := by
  induction fields with
  | nil => rfl
  | cons field fields ih =>
    rw [List.map_cons, List.lookup_cons, List.lookup_cons, ih]
    by_cases hk : key = field.1
    · subst hk
      simp
    · simp [beq_false_of_ne hk]

/-- What is inside a value without repeated keys has none either. -/
theorem Distinct.step? {value : Json} (h : value.Distinct) {step : Step} {inner : Json}
    (hs : value.step? step = some inner) : inner.Distinct := by
  cases step with
  | field key =>
    cases h with
    | object _ h => exact h _ (mem_of_lookup hs)
    | _ => cases hs
  | item index =>
    cases h with
    | array h => exact h _ (List.mem_of_getElem? hs)
    | _ => cases hs

/-- What one step keeps is kept on the way to any place. -/
theorem at?_kept {P : Json → Prop} (hstep : ∀ value step inner, P value →
    value.step? step = some inner → P inner) {document : Json} (h : P document) {path : List Step}
    {value : Json} (hp : document.at? path = some value) : P value := by
  induction path using List.reverseRecOn generalizing value with
  | nil =>
    cases hp
    exact h
  | append_singleton path step ih =>
    rw [at?_append] at hp
    obtain ⟨outer, houter, hinner⟩ := Option.bind_eq_some_iff.1 hp
    exact hstep outer step value (ih houter) hinner

/-- Nor has anything that a path leads to. -/
theorem Distinct.at? {document : Json} (h : document.Distinct) {path : List Step} {value : Json}
    (hp : document.at? path = some value) : value.Distinct :=
  at?_kept (fun _ _ _ h hs => h.step? hs) h hp

end Json

namespace Node

variable {document : Json} {node : Node}

/-- The steps of the node lead to its value. -/
def InDocument (document : Json) (node : Node) : Prop :=
  document.at? node.path = some node.value

theorem root_inDocument (document : Json) : (root document).InDocument document := rfl

/-- At one place in a document there is one value. -/
theorem InDocument.ext {other : Node} (h : node.InDocument document)
    (h' : other.InDocument document) (hp : node.path = other.path) : node = other := by
  have hvalue : some node.value = some other.value := by
    rw [← h, ← h', hp]
  obtain ⟨path, value⟩ := node
  obtain ⟨path', value'⟩ := other
  cases hp
  cases hvalue
  rfl

theorem InDocument.below (h : node.InDocument document) {step : Step} {value : Json}
    (hs : node.value.step? step = some value) : (node.below step value).InDocument document := by
  show document.at? (node.path ++ [step]) = some value
  rw [Json.at?_append, h]
  exact hs

/-- The value of a key is at a place in the document, and is the one that is found by the key. -/
theorem InDocument.field? (h : node.InDocument document) {key : String} {child : Node}
    (hc : node.field? key = some child) :
    child.InDocument document ∧ node.value.get? key = some child.value := by
  obtain ⟨value, hvalue, rfl⟩ := Option.map_eq_some_iff.1 hc
  exact ⟨h.below hvalue, hvalue⟩

theorem InDocument.items (h : node.InDocument document) {child : Node}
    (hc : child ∈ node.items) : child.InDocument document := by
  obtain ⟨⟨value, index⟩, hmem, rfl⟩ := List.mem_map.1 hc
  refine h.below ?_
  rw [List.mk_mem_zipIdx_iff_getElem?] at hmem
  exact hmem

/-- The values of the items are the items themselves. -/
theorem values_items (node : Node) : node.items.map Node.value = node.value.items?.getD [] := by
  simp only [items, List.map_map]
  exact List.zipIdx_map_fst 0 _

/-- So are all values of an object, provided that its keys are distinct. -/
theorem InDocument.fields (hd : document.Distinct) (h : node.InDocument document) {key : String}
    {child : Node} (hc : (key, child) ∈ node.fields) :
    child.InDocument document ∧ node.value.get? key = some child.value := by
  obtain ⟨⟨key', value⟩, hmem, heq⟩ := List.mem_map.1 hc
  cases heq
  have hdistinct := hd.at? h
  cases hv : node.value with
  | object fields =>
    rw [hv] at hdistinct hmem
    cases hdistinct with
    | object hk _ =>
      have hlookup := Entries.lookup_of_mem hk hmem
      exact ⟨h.below (by rw [hv]; exact hlookup), hlookup⟩
  | _ =>
    rw [hv] at hmem
    cases hmem

end Node

namespace Pointer

/-- A segment of a pointer leads from a place to a place. -/
theorem enter?_inDocument {document : Json} {node child : Node} {segment : List Char}
    (h : node.InDocument document) (hc : enter? node segment = some child) :
    child.InDocument document := by
  unfold enter? at hc
  simp only at hc
  split at hc
  · exact (h.field? hc).1
  · obtain ⟨index, -, hitem⟩ := Option.bind_eq_some_iff.1 hc
    exact h.items (List.mem_of_getElem? hitem)
  · cases hc

/-- Pointers stay in the document. -/
theorem resolve?_inDocument {document : Json} {pointer : List Char} {node : Node}
    (h : resolve? document pointer = some node) : node.InDocument document := by
  have hfold : ∀ (segments : List (List Char)) (start : Node), start.InDocument document →
      segments.foldlM enter? start = some node → node.InDocument document := by
    intro segments
    induction segments with
    | nil =>
      intro start hs hn
      cases hn
      exact hs
    | cons segment segments ih =>
      intro start hs hn
      rw [List.foldlM_cons] at hn
      obtain ⟨next, hnext, hrest⟩ := Option.bind_eq_some_iff.1 hn
      exact ih next (enter?_inDocument hs hnext) hrest
  unfold resolve? at h
  split at h
  · cases h
    exact Node.root_inDocument document
  · obtain ⟨segments, -, hrest⟩ := Option.bind_eq_some_iff.1 h
    exact hfold segments _ (Node.root_inDocument document) hrest

end Pointer

end LintTypes
