import LintTypes.Proofs.RunsInStep
import LintTypes.Types.Equality

/-!
# The order of keys

The keys of an object are looked up, and nowhere does it matter in which order they stand; only
those under `properties` become members one after the other. `Json.Reordered` says that two values
differ in that order alone, other than in the objects under `properties`, whose values may differ in
it in turn. Such values agree in all that can be seen without going into objects, and what is looked
up in them under one key, or reached by one pointer, differs in the order of keys alone as well. So
the runs on two such documents go in step, and what they declare is the same.
-/

namespace LintTypes

/-! ## Values -/

namespace Json

/-- The values differ only in the order of the keys in objects, other than in objects under the key
`properties`. `kept` says that the value itself is under that key. -/
inductive Reordered : Bool → Json → Json → Prop where
  | null (kept : Bool) : Reordered kept .null .null
  | bool (kept value : Bool) : Reordered kept (.bool value) (.bool value)
  | number (kept : Bool) (value : JsonNumber) : Reordered kept (.number value) (.number value)
  | string (kept : Bool) (value : String) : Reordered kept (.string value) (.string value)
  | array (kept : Bool) {items items' : List Json} (hl : items.length = items'.length)
      (h : ∀ (index : Nat) item item', items[index]? = some item → items'[index]? = some item' →
        Reordered false item item') : Reordered kept (.array items) (.array items')
  | object {kept : Bool} {fields fields' : List (String × Json)}
      (hk : (fields.map Prod.fst).Perm (fields'.map Prod.fst))
      (ho : kept = true → fields.map Prod.fst = fields'.map Prod.fst)
      (h : ∀ key value value', (key, value) ∈ fields → (key, value') ∈ fields' →
        Reordered (key == "properties") value value') :
      Reordered kept (.object fields) (.object fields')

/-- Where nothing keeps the order of the keys it need not be kept. -/
theorem Reordered.anywhere {kept : Bool} {value value' : Json} (h : Reordered kept value value') :
    Reordered false value value' := by
  cases h with
  | null => exact .null false
  | bool _ value => exact .bool false value
  | number _ value => exact .number false value
  | string _ value => exact .string false value
  | array _ hl h => exact .array false hl h
  | object hk _ h => exact .object hk nofun h

theorem exists_of_key {fields : List (String × Json)} {key : String}
    (h : key ∈ fields.map Prod.fst) : ∃ value, (key, value) ∈ fields := by
  obtain ⟨⟨_, value⟩, hmem, rfl⟩ := List.mem_map.1 h
  exact ⟨value, hmem⟩

theorem key_of_mem {fields : List (String × Json)} {key : String} {value : Json}
    (h : (key, value) ∈ fields) : key ∈ fields.map Prod.fst :=
  List.mem_map.2 ⟨_, h, rfl⟩

theorem lookup_of_notMem {fields : List (String × Json)} {key : String}
    (h : key ∉ fields.map Prod.fst) : fields.lookup key = none := by
  refine List.lookup_eq_none_iff.2 fun field hmem => bne_iff_ne.2 ?_
  rintro rfl
  exact h (List.mem_map_of_mem hmem)

section Reordered

variable {kept : Bool} {value value' : Json}

/-- No key becomes double by reordering. -/
theorem Reordered.distinct (h : Reordered kept value value') (hd : value.Distinct) :
    value'.Distinct := by
  induction h with
  | null => exact .null
  | bool _ value => exact .bool value
  | number _ value => exact .number value
  | string _ value => exact .string value
  | @array _ items items' hl _ ih =>
    refine .array fun item' hmem => ?_
    obtain ⟨index, hindex, rfl⟩ := List.mem_iff_getElem.1 hmem
    have hitem : index < items.length := hl ▸ hindex
    exact ih index _ _ (List.getElem?_eq_getElem hitem) (List.getElem?_eq_getElem hindex)
      (distinct_array.1 hd _ (List.getElem_mem hitem))
  | object hk _ _ ih =>
    obtain ⟨hnodup, hvalues⟩ := distinct_object.1 hd
    refine .object (hk.nodup_iff.1 hnodup) ?_
    rintro ⟨key, value'⟩ hmem'
    obtain ⟨value, hmem⟩ := exists_of_key (hk.mem_iff.2 (key_of_mem hmem'))
    exact ih key value value' hmem hmem' (hvalues _ hmem)

theorem Reordered.items (h : Reordered kept value value') (hd : value.Distinct) :
    List.Forall₂ (fun item item' => item.Reordered false item' ∧ item.Distinct)
      (value.items?.getD []) (value'.items?.getD []) := by
  cases h with
  | array _ hl h =>
    refine List.forall₂_iff_get.2 ⟨hl, fun index hi hi' => ⟨?_, ?_⟩⟩
    · exact h index _ _ (List.getElem?_eq_getElem hi) (List.getElem?_eq_getElem hi')
    · exact distinct_array.1 hd _ (List.get_mem ..)
  | _ => exact .nil

/-- What is found under a key differs in the order of keys only. -/
theorem Reordered.get? (h : Reordered kept value value') (hd : value.Distinct) (key : String) :
    Option.Rel (Reordered (key == "properties")) (value.get? key) (value'.get? key) := by
  have hd' := h.distinct hd
  cases h with
  | @object _ fields fields' hk _ h =>
    obtain ⟨hnodup, -⟩ := distinct_object.1 hd
    obtain ⟨hnodup', -⟩ := distinct_object.1 hd'
    show Option.Rel _ (fields.lookup key) (fields'.lookup key)
    by_cases hkey : key ∈ fields.map Prod.fst
    · obtain ⟨value, hmem⟩ := exists_of_key hkey
      obtain ⟨value', hmem'⟩ := exists_of_key (hk.mem_iff.1 hkey)
      rw [Entries.lookup_of_mem hnodup hmem, Entries.lookup_of_mem hnodup' hmem']
      exact .some (h key value value' hmem hmem')
    · have hkey' : key ∉ fields'.map Prod.fst := fun hmem => hkey (hk.mem_iff.2 hmem)
      rw [lookup_of_notMem hkey, lookup_of_notMem hkey']
      exact .none
  | _ => exact .none

/-- The fields of an object whose keys are kept in order correspond in order. -/
theorem forall₂_of_keys {R : String → Json → Json → Prop} {fields fields' : List (String × Json)}
    (hk : fields.map Prod.fst = fields'.map Prod.fst)
    (h : ∀ key value value', (key, value) ∈ fields → (key, value') ∈ fields' →
      R key value value') :
    List.Forall₂ (fun field field' => field.1 = field'.1 ∧ R field.1 field.2 field'.2) fields
      fields' := by
  induction fields generalizing fields' with
  | nil =>
    cases List.map_eq_nil_iff.1 hk.symm
    exact .nil
  | cons field fields ih =>
    obtain ⟨key, value⟩ := field
    cases fields' with
    | nil => cases hk
    | cons field' fields' =>
      obtain ⟨key', value'⟩ := field'
      obtain ⟨rfl, hrest⟩ := List.cons.inj hk
      refine .cons ⟨rfl, h _ _ _ (List.mem_cons_self ..) (List.mem_cons_self ..)⟩ ?_
      exact ih hrest fun key value value' hmem hmem' =>
        h key value value' (List.mem_cons_of_mem _ hmem) (List.mem_cons_of_mem _ hmem')

/-- Objects with the same keys whose values differ in the order of keys only. -/
theorem Reordered.of_lookup {fields fields' : List (String × Json)}
    (hnodup : (fields'.map Prod.fst).Nodup)
    (hk : (fields.map Prod.fst).Perm (fields'.map Prod.fst))
    (ho : kept = true → fields.map Prod.fst = fields'.map Prod.fst)
    (h : ∀ field ∈ fields, ∃ value', fields'.lookup field.1 = some value' ∧
      Reordered (field.1 == "properties") field.2 value') :
    Reordered kept (.object fields) (.object fields') := by
  refine .object hk ho fun key value value' hmem hmem' => ?_
  obtain ⟨found, hfound, hvalue⟩ := h _ hmem
  rw [Entries.lookup_of_mem hnodup hmem'] at hfound
  cases hfound
  exact hvalue

/-- Where the keys are kept in order, the fields correspond in order. -/
theorem Reordered.fields (h : Reordered true value value') (hd : value.Distinct) :
    List.Forall₂ (fun field field' => field.1 = field'.1 ∧ field.2.Reordered false field'.2 ∧
      field.2.Distinct) (value.fields?.getD []) (value'.fields?.getD []) := by
  cases h with
  | object _ ho h =>
    obtain ⟨-, hdistinct⟩ := distinct_object.1 hd
    exact forall₂_of_keys (R := fun _ inner inner' => inner.Reordered false inner' ∧ inner.Distinct)
      (ho rfl) fun key inner inner' hmem hmem' =>
        ⟨(h key inner inner' hmem hmem').anywhere, hdistinct _ hmem⟩
  | _ => exact .nil

end Reordered

end Json

/-! ## Nodes -/

namespace Node

/-- The nodes are at the same place, and their values differ in the order of keys only. -/
structure Reordered (kept : Bool) (node node' : Node) : Prop where
  path : node'.path = node.path
  value : node.value.Reordered kept node'.value
  distinct : node.value.Distinct

theorem forall₂_zipIdx {α β : Type} {R : α → β → Prop} {xs : List α} {ys : List β}
    (h : List.Forall₂ R xs ys) (start : Nat) :
    List.Forall₂ (fun x y => R x.1 y.1 ∧ x.2 = y.2) (xs.zipIdx start) (ys.zipIdx start) := by
  induction h generalizing start with
  | nil => exact .nil
  | cons h _ ih => exact .cons ⟨h, rfl⟩ (ih (start + 1))

section Reordered

variable {kept : Bool} {node node' : Node}

theorem Reordered.anywhere (h : Reordered kept node node') : Reordered false node node' :=
  ⟨h.path, h.value.anywhere, h.distinct⟩

theorem Reordered.below (h : Reordered kept node node') {kept' : Bool} {inner inner' : Json}
    (hv : inner.Reordered kept' inner') (hd : inner.Distinct) (step : Step) :
    Reordered kept' (node.below step inner) (node'.below step inner') :=
  ⟨congrArg (· ++ [step]) h.path, hv, hd⟩

theorem Reordered.field? (h : Reordered kept node node') (key : String) :
    Option.Rel (Reordered (key == "properties")) (node.field? key) (node'.field? key) := by
  unfold Node.field?
  rcases Schema.optionRel_cases (h.value.get? h.distinct key) with
    ⟨hget, hget'⟩ | ⟨value, value', hget, hget', hvalue⟩
  · rw [hget, hget']
    exact .none
  · have hstep : node.value.step? (.field key) = some value := hget
    rw [hget, hget']
    exact .some (h.below hvalue (h.distinct.step? hstep) (.field key))

theorem Reordered.items (h : Reordered kept node node') :
    List.Forall₂ (Reordered false) node.items node'.items := by
  unfold Node.items
  rw [List.forall₂_map_left_iff, List.forall₂_map_right_iff]
  refine (forall₂_zipIdx (h.value.items h.distinct) 0).imp ?_
  rintro ⟨item, index⟩ ⟨item', _⟩ ⟨⟨hitem, hdistinct⟩, rfl⟩
  exact h.below hitem hdistinct (.item index)

/-- Under `properties` the fields correspond in order. -/
theorem Reordered.fields (h : Reordered true node node') :
    List.Forall₂ (fun field field' => field.1 = field'.1 ∧ Reordered false field.2 field'.2)
      node.fields node'.fields := by
  have hfields := h.value.fields h.distinct
  unfold Node.fields
  rw [List.forall₂_map_left_iff, List.forall₂_map_right_iff]
  refine hfields.imp ?_
  rintro ⟨key, inner⟩ ⟨_, inner'⟩ ⟨rfl, hinner, hdistinct⟩
  exact ⟨rfl, h.below hinner hdistinct (.field key)⟩

end Reordered

end Node

/-! ## Schemas -/

namespace Schema

open Json

variable {kept : Bool} {value value' : Json} {node node' : Node} {keyword : String}

/-- What cannot be told apart without going into objects. -/
theorem resembles_of_reordered (h : value.Reordered kept value') : Resembles value value' := by
  induction h with
  | null => exact .same _
  | bool => exact .same _
  | number => exact .same _
  | string => exact .same _
  | array _ hl _ ih =>
    refine .array (List.forall₂_iff_get.2 ⟨hl, fun index hi hi' => ?_⟩)
    exact ih index _ _ (List.getElem?_eq_getElem hi) (List.getElem?_eq_getElem hi')
  | object => exact .object _ _

theorem resembles_get? (h : node.Reordered kept node') (key : String) :
    Option.Rel Resembles (node.value.get? key) (node'.value.get? key) :=
  optionRel_imp (h.value.get? h.distinct key) fun _ _ => resembles_of_reordered

theorem title_reordered (h : node.Reordered kept node') : node'.title? = node.title? :=
  bind_alike Resembles.string? (resembles_get? h "title")

theorem comment_reordered (h : node.Reordered kept node') :
    comment? node'.value = comment? node.value := by
  unfold comment?
  rw [bind_alike Resembles.string? (resembles_get? h "description"),
    bind_alike Resembles.bool? (resembles_get? h "deprecated")]

/-- The values are both objects, both arrays, or the same value that is neither. -/
inductive OfOneKind (value value' : Json) : Prop where
  | objects {fields fields' : List (String × Json)} (hv : value = .object fields)
      (hv' : value' = .object fields')
  | arrays {items items' : List Json} (hv : value = .array items) (hv' : value' = .array items')
  | plain (he : value' = value) (ho : ∀ fields, value ≠ .object fields)
      (ha : ∀ items, value ≠ .array items)

theorem ofOneKind_of_reordered (h : value.Reordered kept value') : OfOneKind value value' := by
  cases h with
  | array => exact .arrays rfl rfl
  | object => exact .objects rfl rfl
  | _ => exact .plain rfl nofun nofun

theorem listPair_reordered (h : node.Reordered kept node') :
    ListPair (Node.Reordered false) node node' := by
  cases ofOneKind_of_reordered h.value with
  | objects hv hv' => exact .none (by simp [hv]) (by simp [hv'])
  | arrays hv hv' => exact .items hv hv' h.items
  | plain he _ ha => exact .none ha (he ▸ ha)

theorem fieldsPair_reordered (h : node.Reordered true node') :
    FieldsPair (Node.Reordered false) Eq node node' := by
  cases ofOneKind_of_reordered h.value with
  | objects hv hv' =>
    exact .fields hv hv' (h.fields.imp fun _ _ hfield =>
      ⟨hfield.1, hfield.2, (comment_reordered hfield.2).symm⟩)
  | arrays hv hv' => exact .none (by simp [hv]) (by simp [hv'])
  | plain he ho _ => exact .none ho (he ▸ ho)

theorem schemaPair_reordered (h : node.Reordered kept node') :
    SchemaPair (Node.Reordered false) node node' := by
  have hresembles := resembles_of_reordered h.value
  cases ofOneKind_of_reordered h.value with
  | objects hv hv' => exact .keywords h.anywhere hv
  | arrays hv hv' => exact .plain h.anywhere (by simp [hv]) hresembles
  | plain _ ho _ => exact .plain h.anywhere ho hresembles

theorem itemsPair_reordered (h : node.Reordered kept node') :
    ItemsPair (Node.Reordered false) node node' := by
  have hschema := schemaPair_reordered h
  cases ofOneKind_of_reordered h.value with
  | objects hv hv' => exact .schema (by simp [hv]) hschema
  | arrays hv hv' => exact .list hv hv' h.items
  | plain _ _ ha => exact .schema ha hschema

/-- A schema with keywords corresponds to one with keywords. -/
theorem object_of_reordered (h : node.Reordered kept node')
    (hv : ∃ fields, node.value = .object fields) : ∃ fields, node'.value = .object fields := by
  obtain ⟨fields, hv⟩ := hv
  cases ofOneKind_of_reordered h.value with
  | objects _ hv' => exact ⟨_, hv'⟩
  | arrays hitems =>
    rw [hv] at hitems
    cases hitems
  | plain _ ho => exact absurd hv (ho fields)

/-- Schemas that differ in the order of keys say the same. -/
theorem corresponds_reordered (context : Context) (h : node.Reordered kept node') :
    Corresponds (Node.Reordered false) Eq context node node' := by
  have hresembles := resembles_of_reordered h.value
  have hfield : ∀ {key child child'}, node.field? key = some child →
      node'.field? key = some child' → ∃ kept, child.Reordered kept child' := by
    intro key child child' hc hc'
    have hpair := h.field? key
    rw [hc, hc'] at hpair
    cases hpair with
    | some hpair => exact ⟨_, hpair⟩
  cases ofOneKind_of_reordered h.value with
  | arrays hv hv' => exact .plain (by simp [hv]) hresembles
  | plain _ ho _ => exact .plain ho hresembles
  | objects hv hv' =>
    refine .keywords hv hv' ⟨fun keyword _ => resembles_get? h keyword, ?properties,
      fun keyword _ => ?branches, ?items, fun keyword _ => ?additional, ?index, ?rest, ?list⟩
    case properties => exact optionRel_imp (h.field? "properties") fun _ _ => fieldsPair_reordered
    case branches => exact optionRel_imp (h.field? keyword) fun _ _ => listPair_reordered
    case items => exact optionRel_imp (h.field? "items") fun _ _ => itemsPair_reordered
    case additional => exact optionRel_imp (h.field? keyword) fun _ _ => schemaPair_reordered
    case index =>
      intro additional additional' hc hc' _ hobject
      obtain ⟨_, hpair⟩ := hfield hc hc'
      obtain ⟨fields, hv'⟩ := object_of_reordered hpair hobject
      simp [hv']
    case rest =>
      intro additional additional' hc hc' _ hobject
      obtain ⟨_, hpair⟩ := hfield hc hc'
      exact .inl (object_of_reordered hpair hobject)
    case list =>
      intro items items' hc hc' _ hobject
      obtain ⟨_, hpair⟩ := hfield hc hc'
      obtain ⟨fields, hv'⟩ := object_of_reordered hpair hobject
      simp [hv']

/-! ## References -/

theorem rel_getElem? {α β : Type} {R : α → β → Prop} {xs : List α} {ys : List β}
    (h : List.Forall₂ R xs ys) (index : Nat) : Option.Rel R xs[index]? ys[index]? := by
  induction h generalizing index with
  | nil => exact .none
  | cons h _ ih =>
    cases index with
    | zero => exact .some h
    | succ index => exact ih index

/-- What is reached by one segment of a pointer. -/
theorem enter?_reordered (h : node.Reordered false node') (segment : List Char) :
    Option.Rel (Node.Reordered false) (Pointer.enter? node segment)
      (Pointer.enter? node' segment) := by
  unfold Pointer.enter?
  cases ofOneKind_of_reordered h.value with
  | objects hv hv' =>
    simp only [hv, hv']
    exact optionRel_imp (h.field? _) fun _ _ hchild => hchild.anywhere
  | arrays hv hv' =>
    simp only [hv, hv']
    cases Pointer.index? (Pointer.unescape segment) with
    | none => exact .none
    | some index => exact rel_getElem? h.items index
  | plain he ho ha =>
    rw [he]
    cases hv : node.value with
    | object fields => exact absurd hv (ho fields)
    | array items => exact absurd hv (ha items)
    | _ => exact .none

theorem resolve?_reordered {document document' : Json} (hd : document.Distinct)
    (h : document.Reordered false document') (pointer : List Char) :
    Option.Rel (Node.Reordered false) (Pointer.resolve? document pointer)
      (Pointer.resolve? document' pointer) := by
  have hroot : Node.Reordered false (.root document) (.root document') := ⟨rfl, h, hd⟩
  have hfold : ∀ (segments : List (List Char)) (start start' : Node),
      start.Reordered false start' → Option.Rel (Node.Reordered false)
        (segments.foldlM Pointer.enter? start) (segments.foldlM Pointer.enter? start') := by
    intro segments
    induction segments with
    | nil => exact fun start start' hs => .some hs
    | cons segment segments ih =>
      intro start start' hs
      rw [List.foldlM_cons, List.foldlM_cons]
      rcases optionRel_cases (enter?_reordered hs segment) with
        ⟨hn, hn'⟩ | ⟨next, next', hn, hn', hnext⟩
      · rw [hn, hn']
        exact .none
      · rw [hn, hn']
        exact ih next next' hnext
  unfold Pointer.resolve?
  split
  · exact .some hroot
  · cases Pointer.segments? pointer with
    | none => exact .none
    | some segments => exact hfold segments _ _ hroot

theorem target_reordered {context context' : Context} (hd : context.document.Distinct)
    (h : context.document.Reordered false context'.document) (reference : String) :
    TargetPair (Node.Reordered false) (target context reference) (target context' reference) := by
  unfold target
  split
  · exact .document
  · rename_i pointer _ _
    rcases optionRel_cases (resolve?_reordered hd h pointer) with
      ⟨hn, hn'⟩ | ⟨node, node', hn, hn', hnode⟩
    · rw [hn, hn']
      exact .nowhere _ _
    · rw [hn, hn']
      exact .node hnode
  · exact .nowhere _ _

/-! ## Documents -/

/-- Documents that differ in the order of keys are worked out alike. -/
theorem inParallel_reordered {document document' : Json} (hd : document.Distinct)
    (h : document.Reordered false document') (name : String) (style : Style) :
    InParallel Eq (Node.Reordered false) ⟨document, name, style⟩ ⟨document', name, style⟩ where
  name := rfl
  root := ⟨rfl, h, hd⟩
  place h := h.path
  title := title_reordered
  comment := comment_reordered
  object _ _ := object_of_reordered
  target := target_reordered hd h
  named _ := rfl
  schema h := meetBoth_typeOfSchema congruent_eq.toRespected ⟨rfl, rfl, rfl⟩ (fun _ _ => rfl)
    (fun _ => rfl) (corresponds_reordered _ h)

/-- If two documents differ only in the order of keys, other than of those under `properties`, then
neither has declarations or both have the same, in the same order and under the same names. -/
theorem declarations_reordered {document document' : Json} (hd : document.Distinct)
    (h : document.Reordered false document') (name : String) (style : Style) :
    (Schema.declarations document name style).toOption =
      (Schema.declarations document' name style).toOption := by
  have hpair := (inParallel_reordered hd h name style).declarations
  rcases optionRel_cases hpair with ⟨hn, hn'⟩ | ⟨_, _, hn, hn', hdeclared⟩
  · rw [hn, hn']
  · rw [hn, hn']
    refine congrArg some (eq_of_forall₂ hdeclared ?_)
    rintro _ _ ⟨name, comment, rfl⟩
    rfl

/-- Two properties of one titled kind, with the definition before the properties. -/
def definitionsFirst : Json :=
  .object
    [("$defs", .object [("n", .object [("title", .string "N"), ("const", .string "on")])]),
      ("properties", .object
        [("a", .object [("$ref", .string "#/$defs/n")]),
          ("b", .object [("$ref", .string "#/$defs/n")])])]

/-- The same with the definition behind the properties, and its title behind its value. -/
def definitionsLast : Json :=
  .object
    [("properties", .object
        [("a", .object [("$ref", .string "#/$defs/n")]),
          ("b", .object [("$ref", .string "#/$defs/n")])]),
      ("$defs", .object [("n", .object [("const", .string "on"), ("title", .string "N")])])]

theorem reordered_definitions : definitionsFirst.Reordered false definitionsLast := by
  have hkind : Json.Reordered false
      (.object [("title", .string "N"), ("const", .string "on")])
      (.object [("const", .string "on"), ("title", .string "N")]) := by
    refine .of_lookup (by simp) (.swap ..) nofun (List.forall_mem_cons.2 ⟨?title,
      List.forall_mem_singleton.2 ?const⟩)
    case title => exact ⟨.string "N", rfl, .string _ _⟩
    case const => exact ⟨.string "on", rfl, .string _ _⟩
  have hlink : Json.Reordered false (.object [("$ref", .string "#/$defs/n")])
      (.object [("$ref", .string "#/$defs/n")]) :=
    .of_lookup (by simp) (.refl _) nofun
      (List.forall_mem_singleton.2 ⟨.string "#/$defs/n", rfl, .string _ _⟩)
  refine .of_lookup (by simp) (.swap ..) nofun (List.forall_mem_cons.2 ⟨⟨_, rfl, ?defs⟩,
    List.forall_mem_singleton.2 ⟨_, rfl, ?properties⟩⟩)
  case defs =>
    exact .of_lookup (by simp) (.refl _) nofun (List.forall_mem_singleton.2 ⟨_, rfl, hkind⟩)
  case properties =>
    exact .of_lookup (by simp) (.refl _) (fun _ => rfl) (List.forall_mem_cons.2
      ⟨⟨_, rfl, hlink⟩, List.forall_mem_singleton.2 ⟨_, rfl, hlink⟩⟩)

/-- The definition is declared behind the document in both cases. -/
theorem declarations_reordered_definitions :
    definitionsFirst.Distinct ∧ definitionsFirst.Reordered false definitionsLast ∧
      Schema.declarations definitionsFirst "M" {} =
        .ok [.interface "M" []
            [.property "a" (.named "N") true none, .property "b" (.named "N") true none,
              .anyKey .unknown] none,
          .typeAlias "N" (.literal (.string "on")) none] ∧
      (Schema.declarations definitionsFirst "M" {}).toOption =
        (Schema.declarations definitionsLast "M" {}).toOption := by
  have hd : definitionsFirst.Distinct := by simp [definitionsFirst]
  exact ⟨hd, reordered_definitions, by decide +kernel,
    declarations_reordered hd reordered_definitions "M" {}⟩

end Schema

end LintTypes
