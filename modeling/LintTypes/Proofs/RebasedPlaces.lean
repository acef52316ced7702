import LintTypes.Proofs.RebaseWalk
import LintTypes.Schema.Types

/-!
# Places in rebased schemas

Rebasing changes strings and nothing else, so that every place is where it was: a pointer leads to
the rebased form of what it led to before. In the schema of a sequence, a reference to a place in
the first schema of the sequence starts with the steps to that schema. Without them it leads from
the schema itself to the same place; so a rebased reference denotes what it denoted before.
-/

namespace LintTypes

/-! ## Values -/

namespace Json

theorem get?_rebased (value : Json) (key : String) :
    value.rebased.get? key = (value.get? key).map rebased := by
  cases value with
  | object fields =>
    rw [rebased, rebasedFields_eq]
    exact lookup_map (fun _ => rebased) fields key
  | _ => rfl

theorem items?_rebased (value : Json) :
    value.rebased.items? = value.items?.map (List.map rebased) := by
  cases value with
  | array items =>
    rw [rebased, rebasedItems_eq]
    rfl
  | _ => rfl

theorem step?_rebased (value : Json) (step : Step) :
    value.rebased.step? step = (value.step? step).map rebased := by
  cases step with
  | field key => exact get?_rebased value key
  | item index =>
    simp only [step?, items?_rebased]
    cases value.items? <;> simp

/-- What stands at a place is rebased where it stands. -/
theorem at?_rebased (value : Json) (path : List Step) :
    value.rebased.at? path = (value.at? path).map rebased := by
  induction path generalizing value with
  | nil => rfl
  | cons step path ih =>
    simp only [at?, List.foldlM_cons, step?_rebased]
    cases value.step? step with
    | none => rfl
    | some inner => exact ih inner

end Json

/-! ## Nodes -/

namespace Node

/-- The node of a rebased document. -/
def rebased (node : Node) : Node := ⟨node.path, node.value.rebased⟩

/-- The node of a document that the given steps lead to from a larger one. -/
def under (path : List Step) (node : Node) : Node := ⟨path ++ node.path, node.value⟩

variable (node : Node)

theorem field?_rebased (key : String) :
    node.rebased.field? key = (node.field? key).map rebased := by
  simp only [field?, rebased, Json.get?_rebased, Option.map_map]
  rfl

theorem items_rebased : node.rebased.items = node.items.map rebased := by
  simp only [items, rebased, Json.items?_rebased]
  cases node.value.items? with
  | none => rfl
  | some items =>
    simp only [Option.map_some, Option.getD_some, List.zipIdx_map, List.map_map]
    rfl

theorem field?_under (path : List Step) (key : String) :
    (node.under path).field? key = (node.field? key).map (under path) := by
  simp only [field?, under, Option.map_map]
  exact congrArg (Option.map · (node.value.get? key))
    (funext fun value => congrArg (Node.mk · value) (List.append_assoc ..))

theorem items_under (path : List Step) : (node.under path).items = node.items.map (under path) := by
  simp only [items, under, List.map_map]
  exact List.map_congr_left fun item _ => congrArg (Node.mk · item.1) (List.append_assoc ..)

end Node

/-! ## Pointers -/

namespace Pointer

variable {document : Json} {node : Node}

theorem enter?_rebased (node : Node) (segment : List Char) :
    enter? node.rebased segment = (enter? node segment).map Node.rebased := by
  unfold enter?
  rw [Node.items_rebased]
  cases hv : node.value with
  | object fields =>
    have hv' : node.rebased.value = .object (Json.rebasedFields fields) := by
      rw [Node.rebased, hv, Json.rebased]
    simp only [hv', Node.field?_rebased]
  | array items =>
    have hv' : node.rebased.value = .array (Json.rebasedItems items) := by
      rw [Node.rebased, hv, Json.rebased]
    simp only [hv', List.getElem?_map, Option.map_bind]
    rfl
  | _ => simp [Node.rebased, hv, Json.rebased]

theorem enter?_under (path : List Step) (node : Node) (segment : List Char) :
    enter? (node.under path) segment = (enter? node segment).map (Node.under path) := by
  have hvalue : (node.under path).value = node.value := rfl
  unfold enter?
  rw [hvalue, Node.items_under]
  cases node.value with
  | object fields => exact Node.field?_under node path _
  | array items =>
    simp only [List.getElem?_map, Option.map_bind]
    rfl
  | _ => rfl

/-- What is done to every node that a segment leads to is done to the node that all lead to. -/
theorem foldlM_enter? {f : Node → Node}
    (hf : ∀ node segment, enter? (f node) segment = (enter? node segment).map f)
    (segments : List (List Char)) (node : Node) :
    segments.foldlM enter? (f node) = (segments.foldlM enter? node).map f := by
  induction segments generalizing node with
  | nil => rfl
  | cons segment segments ih =>
    rw [List.foldlM_cons, List.foldlM_cons, hf]
    cases enter? node segment with
    | none => rfl
    | some next => exact ih next

/-- A pointer leads to the same place of the rebased document. -/
theorem resolve?_rebased (document : Json) (pointer : List Char) :
    resolve? document.rebased pointer = (resolve? document pointer).map Node.rebased := by
  unfold resolve?
  split
  · rfl
  · cases segments? pointer with
    | none => rfl
    | some segments => exact foldlM_enter? enter?_rebased segments (.root document)

theorem distinct_of_resolve? (hd : document.Distinct) {pointer : List Char}
    (h : resolve? document pointer = some node) : node.value.Distinct :=
  hd.at? (resolve?_inDocument h)

/-- A pointer leads to the same place of the document that the walk leaves. -/
theorem resolve?_rebase (hd : document.Distinct) (pointer : List Char) :
    resolve? document.rebase pointer =
      (resolve? document pointer).map fun node => ⟨node.path, node.value.rebase⟩ := by
  rw [Json.rebase_eq_rebased hd, resolve?_rebased]
  refine Option.map_congr fun node hnode => ?_
  rw [Json.rebase_eq_rebased (distinct_of_resolve? hd hnode)]
  rfl

end Pointer

/-! ## References from a sequence -/

namespace Rebase

/-- The schema of a sequence of one. -/
def sequence (element : Json) : Json := .object [("items", .array [element])]

theorem rebaseChars_append (rest : List Char) :
    rebaseChars (sequencePrefix ++ rest) = '#' :: '/' :: rest := by
  have hprefix : sequencePrefix.isPrefixOf (sequencePrefix ++ rest) = true :=
    List.isPrefixOf_iff_prefix.2 (List.prefix_append ..)
  rw [rebaseChars, if_pos hprefix, List.drop_left]

theorem rebaseText_sequence (text : String) :
    rebaseText ("#/items/0/" ++ text) = "#/" ++ text := by
  have htext : ("#/items/0/" ++ text).toList = sequencePrefix ++ text.toList := by
    rw [String.toList_append]
    rfl
  rw [rebaseText, htext, rebaseChars_append]
  refine String.toList_inj.1 ?_
  rw [String.toList_ofList, String.toList_append]
  rfl

/-- Behind the steps to the element, a pointer goes on as it does from the element itself. -/
theorem resolve?_sequence (element : Json) (pointer : List Char) :
    Pointer.resolve? (sequence element) ("/items/0/".toList ++ pointer) =
      (Pointer.resolve? element ('/' :: pointer)).map
        (Node.under [.field "items", .item 0]) := by
  have helement : Node.under [.field "items", .item 0] (.root element) =
      ⟨[.field "items", .item 0], element⟩ := rfl
  have hfold := Pointer.foldlM_enter? (Pointer.enter?_under [.field "items", .item 0])
    (Pointer.segments?.go [] pointer) (.root element)
  rw [helement] at hfold
  exact hfold

end Rebase

namespace Schema

/-- A reference behind whose `#` a slash follows leads to where the pointer leads. -/
theorem target_eq_ok_iff {context : Context} {reference : String} {pointer : List Char}
    (hr : reference.toList = '#' :: '/' :: pointer) {node : Node} :
    target context reference = .ok (.node node) ↔
      Pointer.resolve? context.document ('/' :: pointer) = some node := by
  simp only [target, hr]
  cases Pointer.resolve? context.document ('/' :: pointer) <;> simp

/-- References keep what they denote. A pointer leads to the same place of the rebased schema, where
the rebased form of the value stands that was there, and leads nowhere if it did before. So a
reference from a sequence to a place in its first schema, which stands in that schema, becomes one
that leads from the rebased schema to the same place. -/
theorem target_rebase {element : Json} (hd : element.Distinct) (name : String) (style : Style) :
    (∀ pointer, Pointer.resolve? element.rebase ('/' :: pointer) =
      (Pointer.resolve? element ('/' :: pointer)).map
        fun node => ⟨node.path, node.value.rebase⟩) ∧
    ∀ place text node, element.at? place = some (.string ("#/items/0/" ++ text)) →
      target ⟨Rebase.sequence element, name, style⟩ ("#/items/0/" ++ text) = .ok (.node node) →
      element.rebase.at? place = some (.string ("#/" ++ text)) ∧
        ∃ path, node.path = .field "items" :: .item 0 :: path ∧
          target ⟨element.rebase, name, style⟩ ("#/" ++ text) =
            .ok (.node ⟨path, node.value.rebase⟩) := by
  refine ⟨fun pointer => Pointer.resolve?_rebase hd _, fun place text node hplace ht => ⟨?_, ?_⟩⟩
  · rw [Json.rebase_eq_rebased hd, Json.at?_rebased, hplace, ← Rebase.rebaseText_sequence]
    rfl
  · have hsequence : ("#/items/0/" ++ text).toList =
        '#' :: '/' :: ("items/0/".toList ++ text.toList) := String.toList_append ..
    have hreference : ("#/" ++ text).toList = '#' :: '/' :: text.toList := String.toList_append ..
    have hresolve := (target_eq_ok_iff hsequence).1 ht
    have hsplit := Rebase.resolve?_sequence element text.toList
    obtain ⟨inside, hinside, rfl⟩ := Option.map_eq_some_iff.1 (hsplit.symm.trans hresolve)
    refine ⟨inside.path, rfl, (target_eq_ok_iff hreference).2 ?_⟩
    rw [Pointer.resolve?_rebase hd, hinside]
    rfl

/-- A schema of a sequence that refers to a place behind its own `items`, by a key with a slash. -/
def positionalReference : Json :=
  .object [("items", .array [.object [("a/b", .string "#/items/0/x")]]),
    ("$ref", .string "#/items/0/items/0/a~1b")]

/-- The reference leads through the `items` of the schema itself afterwards. -/
theorem target_rebase_items :
    positionalReference.Distinct ∧
      positionalReference.rebase.at? [.field "$ref"] = some (.string "#/items/0/a~1b") ∧
      target ⟨positionalReference.rebase, "Schema0", {}⟩ "#/items/0/a~1b" =
        .ok (.node ⟨[.field "items", .item 0, .field "a/b"], .string "#/x"⟩) := by
  have hd : positionalReference.Distinct := by simp [positionalReference]
  obtain ⟨hplace, path, hpath, htarget⟩ := (target_rebase hd "Schema0" {}).2 [.field "$ref"]
    "items/0/a~1b" ⟨[.field "items", .item 0, .field "items", .item 0, .field "a/b"],
      .string "#/items/0/x"⟩ rfl rfl
  cases hpath
  exact ⟨hd, hplace, htarget⟩

end Schema

end LintTypes
